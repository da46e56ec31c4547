import Mathlib.Algebra.BigOperators.Group.List.Basic
import Mathlib.Tactic.Abel
import MeowChain.Soundness.TypeSafety
import MeowChain.Vm.Execution

/-!
# Accounting for structs

A weight on struct nodes adds up over everything a state holds. Executing accepted bytecode keeps
the total, except that a struct built adds its weight, a struct opened takes its own weight away,
and a native function takes the weight of its arguments and brings the weight of its result.
-/

set_option autoImplicit false

namespace MeowChain

open Verifier

variable {τ σ : Type} {M : Type} [AddCommMonoid M]

/-- What a single struct node counts for, apart from the structs inside it. -/
abbrev Weight (τ M : Type) := τ → String → List (String × Value τ) → M

section Totals

variable (w : Weight τ M)

namespace Value

mutual
def total : Value τ → M
  | .struct label typeName fields => w label typeName fields + totalFields fields
  | .tuple vs => totalList vs
  | _ => 0

def totalList : List (Value τ) → M
  | [] => 0
  | v :: vs => total v + totalList vs

def totalFields : List (String × Value τ) → M
  | [] => 0
  | (_, v) :: fields => total v + totalFields fields
end

theorem totalList_eq_sum (vs : List (Value τ)) : totalList w vs = (vs.map (total w)).sum := by
  induction vs with
  | nil => rfl
  | cons v vs ih => rw [totalList, ih, List.map_cons, List.sum_cons]

@[simp] theorem totalList_map_snd (fields : List (String × Value τ)) :
    totalList w (fields.map (·.2)) = totalFields w fields := by
  induction fields with
  | nil => rfl
  | cons field fields ih =>
    obtain ⟨name, v⟩ := field
    rw [List.map_cons, totalList, ih, totalFields]

@[simp] theorem totalList_append (us vs : List (Value τ)) :
    totalList w (us ++ vs) = totalList w us + totalList w vs := by
  simp [totalList_eq_sum]

@[simp] theorem totalList_reverse (vs : List (Value τ)) :
    totalList w vs.reverse = totalList w vs := by
  rw [totalList_eq_sum, totalList_eq_sum, List.map_reverse]
  exact (List.reverse_perm _).sum_eq

theorem totalList_take_drop (n : ℕ) (vs : List (Value τ)) :
    totalList w (vs.take n) + totalList w (vs.drop n) = totalList w vs := by
  rw [← totalList_append, List.take_append_drop]

theorem totalFields_zip {names : List String} {vs : List (Value τ)}
    (h : names.length = vs.length) : totalFields w (names.zip vs) = totalList w vs := by
  rw [← totalList_map_snd, List.map_snd_zip h.ge]

-- A value that is not linear holds no struct at all.
mutual
theorem total_of_not_linear : ∀ {v : Value τ}, v.isLinear = false → v.total w = 0
  | .bool _, _ | .u64 _, _ | .address _, _ | .str _, _ | .void, _ => rfl
  | .tuple _, h => totalList_of_not_linear h

theorem totalList_of_not_linear : ∀ {vs : List (Value τ)}, anyLinear vs = false →
    totalList w vs = 0
  | [], _ => rfl
  | v :: vs, h => by
    simp only [anyLinear, Bool.or_eq_false_iff] at h
    rw [totalList, total_of_not_linear h.1, totalList_of_not_linear h.2, add_zero]
end

end Value

def slotTotal : Option (Value τ) → M
  | some v => v.total w
  | none => 0

def Frame.total (fr : Frame τ) : M :=
  Value.totalList w fr.stack + (fr.locals.map (slotTotal w)).sum

def State.total (s : State τ σ) : M :=
  s.frame.total w + (s.callers.map (Frame.total w)).sum

def Frame.topWeight (fr : Frame τ) : M :=
  match fr.stack with
  | .struct label typeName fields :: _ => w label typeName fields
  | _ => 0

end Totals

/-- What a write along a path of structs declared at `a` puts in the place of a field: a value
without structs for another, or the same struct with one of its own fields written. -/
inductive Rewrites (a : Address) : Value τ → Value τ → Prop
  | plain {old new : Value τ} (hold : old.isLinear = false) (hnew : new.isLinear = false) :
      Rewrites a old new
  | inside {label : τ} {name : String} {fields fields' : List (String × Value τ)} :
      Rewrites a (.struct label (qualify a name) fields) (.struct label (qualify a name) fields')

/-- Writing the fields of structs declared at `a` does not change the weight. -/
def Weight.Steady (w : Weight τ M) (a : Address) : Prop :=
  ∀ label name fields field old new, Value.lookup field fields = some old → Rewrites a old new →
    w label (qualify a name) (setField field new fields) = w label (qualify a name) fields

def Weight.FieldFree (w : Weight τ M) (a : Address) : Prop :=
  ∀ label name fields fields', w label (qualify a name) fields = w label (qualify a name) fields'

variable {w : Weight τ M}

omit [AddCommMonoid M] in
theorem Weight.FieldFree.steady {a : Address} (h : w.FieldFree a) : w.Steady a :=
  fun label name fields _ _ _ _ _ => h label name _ fields

theorem sum_map_set {α : Type} (f : α → M) {xs : List α} {i : ℕ} {y : α} (x : α)
    (h : xs[i]? = some y) : ((xs.set i x).map f).sum + f y = (xs.map f).sum + f x := by
  induction xs generalizing i with
  | nil => simp at h
  | cons z xs ih =>
    cases i with
    | zero =>
      obtain rfl : z = y := by simpa using h
      simp only [List.set_cons_zero, List.map_cons, List.sum_cons]
      rw [add_right_comm, add_comm (f x), add_right_comm]
    | succ i =>
      simp only [List.set_cons_succ, List.map_cons, List.sum_cons]
      rw [add_assoc, ih (by simpa using h), add_assoc]

theorem sum_map_set_eq {α : Type} (f : α → M) {xs : List α} {i : ℕ} {x y : α}
    (h : xs[i]? = some y) (hxy : f x = f y) : ((xs.set i x).map f).sum = (xs.map f).sum := by
  rw [List.map_set, hxy, ← List.map_set, set_eq_self h]

/-! ## Frame operations -/

section Frames

variable {deps : DepMap} {label : τ} {fr fr' : Frame τ}

theorem Frame.total_push (fr : Frame τ) (v : Value τ) :
    (fr.push v).total w = v.total w + fr.total w := by
  simp only [Frame.total, Frame.push, Value.totalList]
  rw [add_assoc]

theorem Frame.total_stack {stack : List (Value τ)}
    (h : Value.totalList w stack = Value.totalList w fr.stack) :
    Frame.total w { fr with stack } = fr.total w := by
  simp only [Frame.total, h]

def Scalar (w : Weight τ M) (op : Value τ → Value τ → Except VmError (Value τ)) : Prop :=
  ∀ l r v, op l r = .ok v → l.total w = 0 ∧ r.total w = 0 ∧ v.total w = 0

theorem scalar_operator {instr : Instruction}
    {op : Value τ → Value τ → Except VmError (Value τ)} (hop : instr.operator = some op) :
    Scalar w op := by
  intro l r v h
  obtain ⟨hl, hr, hv⟩ := operator_scalar hop h
  refine ⟨Value.total_of_not_linear w hl, Value.total_of_not_linear w hr, ?_⟩
  obtain ⟨b, rfl⟩ | ⟨n, rfl⟩ := hv <;> rfl

theorem total_literal {instr : Instruction} {v : Value τ} (h : instr.literal = some v) :
    v.total w = 0 := by
  cases instr with
  | pushBool b | pushU64 n | pushAddress a | pushStr x =>
    obtain rfl := Option.some.inj h
    rfl
  | _ => cases h

/-- The value in the slot is not linear and goes, the one on top of the stack takes its place. -/
theorem total_store {slot : ℕ} {v : Value τ} {rest : List (Value τ)} (hstack : fr.stack = v :: rest)
    (hold : ∀ old, (fr.roomFor slot)[slot]? = some (some old) → old.isLinear = false) :
    Frame.total w { fr with locals := (fr.roomFor slot).set slot (some v), stack := rest } =
      fr.total w := by
  have hsum : ((fr.roomFor slot).map (slotTotal w)).sum = (fr.locals.map (slotTotal w)).sum := by
    simp [Frame.roomFor, slotTotal]
  have hlt : slot < (fr.roomFor slot).length := by
    simp only [Frame.roomFor, List.length_append, List.length_replicate]
    omega
  obtain ⟨o, hget⟩ : ∃ o, (fr.roomFor slot)[slot]? = some o := ⟨_, List.getElem?_eq_getElem hlt⟩
  have hzero : slotTotal w o = 0 := by
    cases o with
    | none => rfl
    | some old => exact Value.total_of_not_linear w (hold old hget)
  have hset := sum_map_set (slotTotal w) (some v) hget
  rw [hzero, add_zero, hsum] at hset
  simp only [Frame.total, hset, hstack, Value.totalList, slotTotal]
  abel

theorem totalFields_setField {name : String} {fields : List (String × Value τ)} {old v : Value τ}
    (h : Value.lookup name fields = some old) (htotal : v.total w = old.total w) :
    Value.totalFields w (setField name v fields) = Value.totalFields w fields := by
  induction fields with
  | nil => rfl
  | cons field fields ih =>
    obtain ⟨n, u⟩ := field
    simp only [Value.lookup, List.find?_cons] at h
    cases hname : n == name with
    | true =>
      simp only [hname, Option.map_some, Option.some.injEq] at h
      subst h
      simp only [setField, hname, if_true, Value.totalFields, htotal]
    | false =>
      simp only [hname] at h
      simp only [setField, hname, Bool.false_eq_true, if_false, Value.totalFields, ih h]

theorem total_writeFieldPath {a : Address} (hw : w.Steady a) {val : Value τ}
    (hval : val.isLinear = false) {path : List String} {i : ℕ} {v v' : Value τ}
    (hlocal : ∀ n ∈ pathTypeNames v path, ∃ name, n = qualify a name)
    (h : writeFieldPath val i v path = .ok v') : v'.total w = v.total w := by
  induction path generalizing i v v' with
  | nil => cases v <;> cases h
  | cons field path ih =>
    cases v with
    | struct label' typeName fields =>
      obtain ⟨name, rfl⟩ := hlocal typeName (by simp [pathTypeNames])
      cases path with
      | nil =>
        simp only [writeFieldPath] at h
        split at h
        · rename_i old hold
          split at h
          · cases h
          · rename_i hlinear
            have hplain : old.isLinear = false := by simpa using hlinear
            obtain rfl := Except.ok.inj h
            have hzero : val.total w = old.total w :=
              (Value.total_of_not_linear w hval).trans (Value.total_of_not_linear w hplain).symm
            rw [Value.total, totalFields_setField hold hzero,
              hw label' name fields field old val hold (.plain hplain hval), Value.total]
        · cases h
      | cons field' path =>
        simp only [writeFieldPath] at h
        split at h
        · rename_i child hchild
          cases hwrite : writeFieldPath val (i + 1) child (field' :: path) with
          | error e => simp [hwrite, bind, Except.bind] at h
          | ok child' =>
            simp only [hwrite, bind, Except.bind] at h
            obtain rfl := Except.ok.inj h
            have hnames : ∀ n ∈ pathTypeNames child (field' :: path), ∃ name, n = qualify a name :=
              fun n hn => hlocal n (by
                simp only [pathTypeNames, hchild]
                exact List.mem_cons_of_mem _ hn)
            have hchild' : child'.total w = child.total w := ih hnames hwrite
            obtain ⟨l, n, fs, fs', rfl, rfl⟩ := writeFieldPath_eq_ok hwrite
            obtain ⟨m, rfl⟩ := hnames n (by simp [pathTypeNames])
            rw [Value.total, totalFields_setField hchild hchild',
              hw label' name fields field _ _ hchild .inside, Value.total]
        · cases h
    | _ => cases path <;> cases h

end Frames

/-! ## Accepted instructions -/

def Frame.opened (w : Weight τ M) (fr : Frame τ) : Instruction → M
  | .getField _ | .unpackStruct _ _ => fr.topWeight w
  | _ => 0

def Frame.built (w : Weight τ M) (fr : Frame τ) : Instruction → M
  | .newStruct _ _ => fr.topWeight w
  | _ => 0

section Instr

variable {W : World} {cfg : CompilerConfig} {sc : Scope} {fr fr' : Frame τ} {t : AbstractState}
variable {deps : DepMap} {label : τ} {instr : Instruction}

theorem total_of_hasType {a : Address} {v : Value τ} {ty : AbstractType} (hv : HasType W a v ty)
    (hlinear : ty.isLinear = false) : v.total w = 0 :=
  Value.total_of_not_linear w ((isLinear_of_hasType hv).trans hlinear)

theorem totalFields_of_hasType {a : Address} {fields : List (String × Value τ)}
    {ds : List FieldDef} (h : List.Forall₂ (FieldHasType W a) fields ds)
    (hlinear : ∀ d ∈ ds, (fromType d.ty).isLinear = false) : Value.totalFields w fields = 0 := by
  induction h with
  | nil => rfl
  | @cons field d fields ds hfield _ ih =>
    obtain ⟨name, v⟩ := field
    rw [Value.totalFields, total_of_hasType hfield.2 (hlinear d (by simp)),
      ih fun d' hd' => hlinear d' (List.mem_cons_of_mem _ hd'), add_zero]

/-- The struct that is read has no linear field, so nothing is lost with the others. -/
theorem total_getField {field typeName : String} {label' : τ} {fields : List (String × Value τ)}
    {v : Value τ} {rest : List (Value τ)} (h : AtInstr W cfg sc fr t (.getField field))
    (hstack : fr.stack = .struct label' typeName fields :: rest)
    (hlookup : Value.lookup field fields = some v) :
    v.total w = 0 ∧ Value.totalFields w fields = 0 := by
  obtain ⟨name, _, structDef, _, fields', _, -, -, hnone, hdef, hfr, hfields, -⟩ := h.getField
  rw [hstack] at hfr
  obtain ⟨hstruct, -⟩ := List.cons.inj hfr
  obtain ⟨-, -, rfl⟩ := Value.struct.inj hstruct
  have hlinear : ∀ d ∈ structDef.fields, (fromType d.ty).isLinear = false := by
    intro d hd
    rw [isLinear_fieldType h.fieldTypes hdef hd]
    exact linearField_eq_none hdef hnone d hd
  obtain ⟨d, hd, hv⟩ := find_of_lookup hfields hlookup
  exact ⟨total_of_hasType hv (hlinear d (List.mem_of_find?_eq_some hd)),
    totalFields_of_hasType hfields hlinear⟩

theorem total_unpackFields {typeName name : String} {fieldNames : List String} {label' : τ}
    {fields : List (String × Value τ)} {rest stack : List (Value τ)}
    (h : AtInstr W cfg sc fr t (.unpackStruct typeName fieldNames))
    (hstack : fr.stack = .struct label' name fields :: rest)
    (hunpack : unpackFields name fieldNames.reverse fields rest = .ok stack) :
    Value.totalList w stack = Value.totalFields w fields + Value.totalList w rest := by
  obtain ⟨_, _, fields', _, _, -, hfr, rfl, -, -, -⟩ := h.unpackStruct
  rw [hstack] at hfr
  obtain ⟨hstruct, -⟩ := List.cons.inj hfr
  obtain ⟨-, -, rfl⟩ := Value.struct.inj hstruct
  by_cases hnodup : (fields.map (·.1)).Nodup
  · rw [unpackFields_own _ hnodup] at hunpack
    obtain rfl := Except.ok.inj hunpack
    rw [Value.totalList_append, Value.totalList_map_snd]
  · obtain ⟨e, he⟩ := unpackFields_dup name hnodup rest
    rw [he] at hunpack
    cases hunpack

theorem total_top {v : Value τ} {rest : List (Value τ)} (hinstr : instr = .pop ∨ instr = .dup)
    (h : AtInstr W cfg sc fr t instr) (hfr : fr.stack = v :: rest) : v.total w = 0 := by
  have haccepted := h.accepted
  have htyped := h.typed.stack
  rw [hfr] at htyped
  obtain ⟨ty, tys, hv, -, hstack⟩ := List.forall₂_cons_left_iff.mp htyped
  refine total_of_hasType hv ?_
  rcases hinstr with rfl | rfl
  · simp only [exec, popInstr, hstack] at haccepted
    exact report_eq_nil.mp haccepted
  · simp only [exec, dupInstr, hstack] at haccepted
    split at haccepted
    · cases haccepted
    · rename_i hlinear
      simpa using hlinear

theorem opened_built_eq_zero (fr fr' : Frame τ)
    (h : (instr.literal (τ := τ)).isSome ∨ (instr.operator (τ := τ)).isSome ∨ instr.branch.isSome) :
    fr.opened w instr = 0 ∧ fr'.built w instr = 0 := by
  cases instr with
  | newStruct _ _ | getField _ | unpackStruct _ _ =>
    simp [Instruction.literal, Instruction.operator, Instruction.branch] at h
  | _ => exact ⟨rfl, rfl⟩

/-- An instruction that stays in its frame keeps the total, up to the structs it builds and
opens. -/
theorem exec_total (h : AtInstr W cfg sc fr t instr) (hlocal : instr.isLocal = true)
    (hpath : fr.pathsResolve instr = true) (hw : w.Steady fr.contextAddr)
    (hexec : Frame.exec deps label fr.next instr = .ok fr') :
    fr'.total w + fr.opened w instr = fr.total w + fr'.built w instr := by
  have hkeep (hsame : fr'.total w = fr.total w) : fr'.total w + 0 = fr.total w + 0 :=
    congrArg (· + 0) hsame
  -- `next` moves the program counter only.
  have hnext : fr.next.total w = fr.total w := rfl
  cases does_of_exec hexec with
  | push hv =>
    obtain ⟨hopened, hbuilt⟩ := opened_built_eq_zero (w := w) fr (fr.next.push _)
      (.inl (Option.isSome_iff_exists.mpr ⟨_, hv⟩))
    rw [hopened, hbuilt, Frame.total_push, total_literal hv, zero_add, hnext]
  | move hslot hlinear =>
    have hset := sum_map_set (slotTotal w) none hslot
    simp only [slotTotal, add_zero] at hset
    refine hkeep ?_
    rw [← hnext]
    simp only [Frame.total, Value.totalList]
    rw [← hset]
    abel
  | copy hslot hplain =>
    refine hkeep ?_
    rw [Frame.total_push, Value.total_of_not_linear w hplain, zero_add, hnext]
  | store hstack hold => exact hkeep ((total_store hstack hold).trans hnext)
  | loadField hslot hread =>
    obtain ⟨_, root, u, hroot, -, hv, hu, hlinear⟩ := h.loadField hpath
    obtain rfl := Option.some.inj (Option.some.inj (hroot.symm.trans hslot))
    obtain ⟨x, hx, hxtype⟩ := readFieldPath_hasType h.world (i := 0) hv hu
    obtain rfl := Except.ok.inj (hx.symm.trans hread)
    refine hkeep ?_
    rw [Frame.total_push, total_of_hasType hxtype hlinear, zero_add, hnext]
  | @storeField slot path v root root' rest hfr hslot hwrite =>
    obtain ⟨_, _, u, _, hroot, -, hv, hu, hlinear, -, hstack, -⟩ := h.storeField hpath
    obtain rfl := Option.some.inj (Option.some.inj (hroot.symm.trans hslot))
    have htyped := h.typed.stack
    rw [hstack, show fr.stack = v :: rest from hfr] at htyped
    have hplain : v.isLinear = false :=
      (isLinear_of_hasType (List.forall₂_cons.mp htyped).1).trans hlinear
    have htotal := total_writeFieldPath hw hplain (pathTypeNames_local h.world hv hu) hwrite
    have hset := sum_map_set_eq (slotTotal w) (x := some root') hslot htotal
    refine hkeep ?_
    rw [← hnext]
    simp only [Frame.total, hset, hfr, Value.totalList, Value.total_of_not_linear w hplain, zero_add]
  | operate hop hstack hv =>
    obtain ⟨hopened, hbuilt⟩ := opened_built_eq_zero (w := w) fr { fr.next with stack := _ :: _ }
      (.inr (.inl (Option.isSome_iff_exists.mpr ⟨_, hop⟩)))
    obtain ⟨hl, hr, hres⟩ := scalar_operator (w := w) hop _ _ _ hv
    rw [hopened, hbuilt, ← hnext, Frame.total_stack]
    simp only [hstack, Value.totalList, hl, hr, hres, zero_add]
  | not hstack => exact hkeep ((Frame.total_stack (by rw [hstack]; rfl)).trans hnext)
  | @newStruct _ _ fieldNames hname hlen =>
    have hzip : fieldNames.length = (fr.next.args fieldNames.length).length := by
      simp only [Frame.args, List.length_reverse, List.length_take]
      omega
    have hfields : Value.totalFields w (fieldNames.zip (fr.next.args fieldNames.length)) =
        Value.totalList w (fr.stack.take fieldNames.length) :=
      (Value.totalFields_zip w hzip).trans (Value.totalList_reverse w _)
    have hsplit := Value.totalList_take_drop w fieldNames.length fr.stack
    have hstack : fr.next.stack = fr.stack := rfl
    have hlocals : fr.next.locals = fr.locals := rfl
    simp only [Frame.total, Frame.opened, Frame.built, Frame.topWeight, Value.totalList, Value.total,
      hfields, hstack, hlocals, add_zero]
    rw [← hsplit]
    abel
  | getField hstack hlookup =>
    obtain ⟨hzero, hfields⟩ := total_getField (w := w) h hstack hlookup
    have hfr : fr.stack = _ := hstack
    simp only [Frame.total, Frame.opened, Frame.built, Frame.topWeight, hfr, Value.totalList,
      Value.total, hzero, hfields, Frame.next]
    abel
  | unpackStruct hstack hunpack =>
    have hfields := total_unpackFields (w := w) h hstack hunpack
    have hfr : fr.stack = _ := hstack
    simp only [Frame.total, Frame.opened, Frame.built, Frame.topWeight, hfr, Value.totalList,
      Value.total, hfields, Frame.next]
    abel
  | pop hstack =>
    refine hkeep ((Frame.total_stack ?_).trans hnext)
    rw [hstack, Value.totalList, total_top (.inl rfl) h hstack, zero_add]
  | dup hstack =>
    refine hkeep ?_
    rw [Frame.total_push, total_top (.inr rfl) h hstack, zero_add, hnext]
  | jump _ => exact hkeep rfl
  | taken hbranch hstack _ | passed hbranch hstack =>
    obtain ⟨hopened, hbuilt⟩ := opened_built_eq_zero (w := w) fr { fr.next with stack := _, pc := _ }
      (.inr (.inr (Option.isSome_iff_exists.mpr ⟨_, hbranch⟩)))
    rw [hopened, hbuilt, ← hnext]
    simp only [Frame.total, hstack, Value.totalList, Value.total, zero_add]
  | @makeTuple n hlen =>
    refine hkeep ((Frame.total_stack ?_).trans hnext)
    simp only [Value.totalList, Value.total, Frame.args, Value.totalList_reverse]
    exact Value.totalList_take_drop w n fr.stack
  | unpackTuple hstack =>
    refine hkeep ((Frame.total_stack ?_).trans hnext)
    rw [hstack, Value.totalList_append]
    rfl
  | leave hleaves => simp [hlocal] at hleaves

end Instr

/-! ## Steps of the machine -/

/-- What leaves the machine in a step from `fr`. -/
def Vm.released (w : Weight τ M) (vm : Vm σ) (fr : Frame τ) : M :=
  match vm.nativeCall fr with
  | some entry => Value.totalList w (fr.stack.take entry.params.length)
  | none =>
    match fr.current with
    | some instr => fr.opened w instr
    | none => 0

/-- What enters the machine in a step from `fr` to `fr'`. -/
def Vm.acquired (w : Weight τ M) (vm : Vm σ) (fr fr' : Frame τ) : M :=
  match vm.nativeCall fr with
  | some _ => slotTotal w fr'.stack.head?
  | none =>
    match fr.current with
    | some instr => fr'.built w instr
    | none => 0

section Step

variable {vm : Vm σ} {sigs : List NativeSig} {cfg : CompilerConfig} {depsOf : Address → DepMap}
variable {s s' : State τ σ} {tok : ℕ → τ} {name : String}

theorem total_new (context : Module) (contextAddr : Address) (function : Function)
    (args : List (Value τ)) :
    (Frame.new context contextAddr function args).total w = Value.totalList w args := by
  simp only [Frame.total, Frame.new, List.map_append, List.map_map, List.map_replicate,
    List.sum_append, List.sum_replicate, slotTotal, nsmul_zero, add_zero, Value.totalList_eq_sum]
  exact zero_add _

theorem slots_of_unconsumedStructs {fnName : String} {slot : ℕ} {xs : List SlotState}
    (h : unconsumedStructs fnName slot xs = []) : ∀ x ∈ xs, x.isLinear = false := by
  induction xs generalizing slot with
  | nil => simp
  | cons x xs ih =>
    obtain ⟨hx, hxs⟩ := List.append_eq_nil_iff.mp h
    intro y hy
    rcases List.mem_cons.mp hy with rfl | hy
    · exact report_eq_nil.mp hx
    · exact ih hxs y hy

theorem slotTotal_of_slotOk {W : World} {a : Address} {o : Option (Value τ)} {x : SlotState}
    (h : SlotOk W a o x) (hx : x.isLinear = false) : slotTotal w o = 0 := by
  cases o with
  | none => rfl
  | some v =>
    cases x with
    | dead => exact Value.total_of_not_linear w h
    | live ty => exact total_of_hasType h hx

theorem sum_slotTotal {W : World} {a : Address} {os : List (Option (Value τ))}
    {xs : List SlotState} (h : List.Forall₂ (SlotOk W a) os xs)
    (hx : ∀ x ∈ xs, x.isLinear = false) : (os.map (slotTotal w)).sum = 0 := by
  induction h with
  | nil => rfl
  | @cons o x os xs ho _ ih =>
    rw [List.map_cons, List.sum_cons, slotTotal_of_slotOk ho (hx x (by simp)),
      ih fun y hy => hx y (List.mem_cons_of_mem _ hy), add_zero]

theorem totalList_of_anyLinear {W : World} {a : Address} {vs : List (Value τ)}
    {ts : List AbstractType} (h : List.Forall₂ (HasType W a) vs ts)
    (hlinear : AbstractType.anyLinear ts = false) : Value.totalList w vs = 0 :=
  Value.totalList_of_not_linear w
    ((anyLinear_of_listHasType (listHasType_iff.mpr h)).trans hlinear)

/-- At an accepted `Return` the frame holds nothing but the value it returns. -/
theorem total_return {W : World} {sc : Scope} {fr : Frame τ} {t : AbstractState}
    (h : AtInstr W cfg sc fr t .ret) : fr.total w = slotTotal w fr.stack.head? := by
  have haccepted := h.accepted
  simp only [exec, returnInstr, goOn, checkReturn, List.append_eq_nil_iff] at haccepted
  obtain ⟨⟨-, hstack⟩, hslots⟩ := haccepted
  have htail := report_eq_nil.mp hstack
  have htyped := h.typed.stack
  rw [Frame.total, sum_slotTotal h.typed.locals (slots_of_unconsumedStructs hslots), add_zero]
  cases hvs : fr.stack with
  | nil => rfl
  | cons v vs =>
    rw [hvs] at htyped
    obtain ⟨ty, tys, -, hrest, hts⟩ := List.forall₂_cons_left_iff.mp htyped
    rw [hts] at htail
    rw [Value.totalList, totalList_of_anyLinear hrest htail, add_zero]
    rfl

theorem execCall_not_ok {final : Final τ σ} {v : Option (Value τ)}
    (h : vm.execCall tok s name = .done final) : final.outcome ≠ .ok v := by
  have hfail : ∀ {s : State τ σ} {e : VmError}, s.fail e = .done final → final.outcome ≠ .ok v := by
    intro s e hfail
    obtain rfl := StepResult.done.inj hfail
    simp
  have hinvoke : ∀ {context : Module} {contextAddr : Address} {fnName : String} {n : ℕ},
      vm.invoke s context contextAddr fnName n = .done final → final.outcome ≠ .ok v := by
    intro context contextAddr fnName n hinvoke
    unfold Vm.invoke at hinvoke
    split at hinvoke
    · exact hfail hinvoke
    · split at hinvoke
      · exact hfail hinvoke
      · cases hinvoke
  have hnative : ∀ {entry : NativeFnEntry σ}, Vm.callNative tok s entry = .done final →
      final.outcome ≠ .ok v := by
    intro entry hnative
    unfold Vm.callNative at hnative
    split at hnative
    · exact hfail hnative
    · split at hnative
      · exact hfail hnative
      · split at hnative
        · split at hnative
          · cases hnative
          · obtain rfl := StepResult.done.inj hnative
            simp
        · exact hfail hnative
        · exact hfail hnative
  unfold Vm.execCall at h
  split at h
  · split at h
    · exact hfail h
    · split at h
      · exact hfail h
      · split at h
        · exact hinvoke h
        · exact hfail h
  · split at h
    · exact hinvoke h
    · split at h
      · exact hnative h
      · exact hfail h

variable (hl : Linked vm sigs cfg depsOf)
include hl

theorem step_total (hs : StateOk vm sigs depsOf s) (hpaths : s.FieldPathsResolve)
    (hw : w.Steady s.frame.contextAddr) (hstep : vm.step tok s = .next s') :
    s'.total w + vm.released w s.frame = s.total w + vm.acquired w s.frame s'.frame := by
  obtain ⟨instr, t, hcode, -, hat⟩ := hs.frame.atInstr hl
  have hcurrent : s.frame.current = some instr := hcode
  cases moves_of_step hstep with
  | @exec instr' fr' gas hinstr hlocal hexec =>
    obtain rfl := Option.some.inj (hcurrent.symm.trans hinstr)
    have htotal := exec_total hat hlocal (hpaths _ hinstr) hw hexec
    simp only [Vm.released, Vm.acquired, nativeCall_of_isLocal hinstr hlocal, hinstr, State.total]
    rw [add_right_comm, htotal, add_right_comm]
  | @call name context contextAddr callee gas hinstr hcalls _ =>
    have hsplit := Value.totalList_take_drop w callee.params.length s.frame.stack
    simp only [Vm.released, Vm.acquired, hcalls.nativeCall_eq_none hinstr, hinstr, Frame.opened,
      Frame.built, add_zero, State.total, total_new, Frame.args, Value.totalList_reverse,
      List.map_cons, List.sum_cons]
    simp only [Frame.total, Frame.next]
    rw [← hsplit]
    abel
  | @native entry v gas ctx hnative hargs hfunc hqualified =>
    have hsplit := Value.totalList_take_drop w entry.params.length s.frame.stack
    simp only [Vm.released, Vm.acquired, hnative, State.total, Frame.total, Frame.replaceArgs,
      Frame.next, Value.totalList, List.head?_cons, slotTotal]
    rw [← hsplit]
    abel
  | @ret caller callers gas hinstr hcallers =>
    have hret : s.frame.current = some .ret :=
      hinstr.resolve_right fun hnone => by simp [hcurrent] at hnone
    obtain rfl := Option.some.inj (hcurrent.symm.trans hret)
    have hhead : (s.frame.stack.head?.getD .void).total w = slotTotal w s.frame.stack.head? := by
      cases s.frame.stack.head? <;> rfl
    simp only [Vm.released, Vm.acquired, Vm.nativeCall, hret, Frame.opened, Frame.built, add_zero,
      State.total, Frame.total_push, hhead, total_return (w := w) hat, hcallers, List.map_cons,
      List.sum_cons]
    rw [add_assoc]

theorem step_total_done (hs : StateOk vm sigs depsOf s) {final : Final τ σ} {v : Option (Value τ)}
    (hstep : vm.step tok s = .done final) (hok : final.outcome = .ok v) :
    s.total w = slotTotal w v := by
  obtain ⟨instr, t, hinstr, -, hat⟩ := hs.frame.atInstr hl
  have hcurrent : s.frame.current = some instr := hinstr
  unfold Vm.step at hstep
  simp only [hinstr] at hstep
  split at hstep
  · obtain rfl := StepResult.done.inj hstep
    cases hok
  · cases instr with
    | call name => exact absurd hok (execCall_not_ok hstep)
    | ret =>
      have htotal := total_return (w := w) hat
      simp only [Vm.execInstr, Vm.leave] at hstep
      split at hstep
      · rename_i hcallers
        have hcallers' : s.callers = [] := hcallers
        obtain rfl := StepResult.done.inj hstep
        obtain rfl := Outcome.ok.inj hok
        simp only [State.total, htotal, hcallers', List.map_nil, List.sum_nil, add_zero]
      · cases hstep
    | _ =>
      simp only [Vm.execInstr] at hstep
      split at hstep
      · cases hstep
      · obtain rfl := StepResult.done.inj hstep
        cases hok

end Step

end MeowChain
