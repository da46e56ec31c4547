import MeowChain.Lib.Pairwise
import MeowChain.Soundness.Typing
import MeowChain.Verifier.Certificate
import MeowChain.Vm.Steps

/-!
# Instructions preserve frame typing

An instruction that stays within its frame, executed from a frame that matches the verifier's
state, ends in a frame that matches one of the states the verifier sends on, or fails with an
error the verifier does not claim to exclude.
-/

set_option autoImplicit false

namespace MeowChain

open Verifier

variable {τ : Type} {W : World} {a : Address}

/-- A live slot holds a value of its type; a dead slot holds nothing linear. -/
def SlotOk (W : World) (a : Address) : Option (Value τ) → SlotState → Prop
  | some v, .live t => HasType W a v t
  | none, .live _ => False
  | some v, .dead => v.isLinear = false
  | none, .dead => True

structure FrameTyped (W : World) (fr : Frame τ) (s : AbstractState) : Prop where
  stack : List.Forall₂ (HasType W fr.contextAddr) fr.stack s.stack
  locals : List.Forall₂ (SlotOk W fr.contextAddr) fr.locals s.locals

theorem SlotOk.mono {o : Option (Value τ)} {x y : SlotState} (h : SlotOk W a o x) (hle : x.le y) :
    SlotOk W a o y := by
  rcases hle with rfl | ⟨rfl, hx⟩
  · exact h
  · cases o with
    | none => trivial
    | some v =>
      cases x with
      | dead => exact h
      | live t => exact (isLinear_of_hasType h).trans hx

theorem FrameTyped.mono {fr : Frame τ} {s t : AbstractState} (h : FrameTyped W fr s)
    (hle : s.le t) : FrameTyped W fr t :=
  ⟨hle.1 ▸ h.stack, forall₂_comp (fun ho hx => ho.mono hx) h.locals hle.2⟩

def Frame.SameActivation (fr fr' : Frame τ) : Prop :=
  fr'.context = fr.context ∧ fr'.contextAddr = fr.contextAddr ∧ fr'.function = fr.function

def VmError.Arithmetic (e : VmError) : Prop :=
  e = .arithmeticOverflow ∨ e = .divisionByZero

/-! ## Conditions on a step that the verifier does not establish -/

/-- The name within the module at `a` of a struct type declared there. -/
def localStructName (a : Address) (typeName : String) : Option String :=
  match parseModuleRef typeName with
  | some (b, name) => if b = a then some name else none
  | none => none

/-- The path resolves, through the struct definitions of the executing module, from the run-time
type of the value in the slot. -/
def Frame.pathResolves (fr : Frame τ) (slot : ℕ) (path : List String) : Bool :=
  match fr.locals[slot]? with
  | some (some (.struct _ typeName _)) =>
    match localStructName fr.contextAddr typeName with
    | some name => (resolveFieldPathType fr.context (.struct name) path).isSome
    | none => false
  | _ => false

def Frame.pathsResolve (fr : Frame τ) : Instruction → Bool
  | .loadField slot path | .storeField slot path => fr.pathResolves slot path
  | _ => true

/-- The struct on top of the stack has no field of the given name, or two fields of one name. -/
def Frame.FieldTrap (fr : Frame τ) : Instruction → Prop
  | .getField field =>
    ∃ label typeName fields rest, fr.stack = .struct label typeName fields :: rest ∧
      Value.lookup field fields = none
  | .unpackStruct _ _ =>
    ∃ label typeName fields rest, fr.stack = .struct label typeName fields :: rest ∧
      ¬ (fields.map (·.1)).Nodup
  | _ => False

/-- Where the effect of the instruction at `pc` lets control go, and with which state. -/
def Effect.Flows (e : Effect) (pc pc' : ℕ) (s : AbstractState) : Prop :=
  (pc' = pc + 1 ∧ s = e.state ∧ e.state.reachable = true) ∨
  (e.jump = some (pc', s) ∧ s.reachable = true)

/-- The step of `instr` from `fr` is matched by the effect `e`. -/
def SoundStep (W : World) (deps : DepMap) (label : τ) (fr : Frame τ) (instr : Instruction)
    (e : Effect) : Prop :=
  match Frame.exec deps label fr.next instr with
  | .ok fr' => fr.SameActivation fr' ∧ ∃ s', Effect.Flows e fr.pc fr'.pc s' ∧ FrameTyped W fr' s'
  | .error err => err.Arithmetic ∨ fr.FieldTrap instr

/-- No field of the module has a tuple type. -/
def FieldTypesValid (module : Module) : Prop :=
  ∀ s ∈ module.structs, ∀ field ∈ s.fields, field.ty.isValidFieldType = true

/-- The frame `fr`, about to execute `instr`, matches the state `s` of an accepted function. -/
structure AtInstr (W : World) (cfg : CompilerConfig) (sc : Scope) (fr : Frame τ)
    (s : AbstractState) (instr : Instruction) : Prop where
  world : W fr.contextAddr = some sc.module
  context : fr.context = sc.module
  typed : FrameTyped W fr s
  slots : s.locals.length = sc.func.localCount
  reachable : s.reachable = true
  fieldTypes : FieldTypesValid sc.module
  structural : checkInstr sc.module sc.deps cfg sc.func fr.pc instr = []
  accepted : (exec sc fr.pc instr s).errors = []

/-! ## Building sound steps -/

section Build

variable {deps : DepMap} {label : τ} {fr : Frame τ} {s s' : AbstractState}
variable {instr : Instruction} {errors : List VerificationError}

theorem soundStep_goOn (fr' : Frame τ) (hexec : Frame.exec deps label fr.next instr = .ok fr')
    (hsame : fr.SameActivation fr') (hpc : fr'.pc = fr.pc + 1) (hreach : s'.reachable = true)
    (htyped : FrameTyped W fr' s') : SoundStep W deps label fr instr (goOn s' errors) := by
  rw [SoundStep, hexec]
  exact ⟨hsame, s', .inl ⟨hpc, rfl, hreach⟩, htyped⟩

theorem soundStep_stack (stack : List (Value τ))
    (hexec : Frame.exec deps label fr.next instr = .ok { fr.next with stack })
    (hs : FrameTyped W fr s) (hreach : s.reachable = true) {types : List AbstractType}
    (htypes : List.Forall₂ (HasType W fr.contextAddr) stack types) :
    SoundStep W deps label fr instr (goOn { s with stack := types } errors) :=
  soundStep_goOn _ hexec ⟨rfl, rfl, rfl⟩ rfl hreach ⟨htypes, hs.locals⟩

theorem soundStep_push (v : Value τ) {t : AbstractType}
    (hexec : Frame.exec deps label fr.next instr = .ok (fr.next.push v))
    (hs : FrameTyped W fr s) (hreach : s.reachable = true) (hv : HasType W fr.contextAddr v t) :
    SoundStep W deps label fr instr (goOn (s.push t) errors) :=
  soundStep_stack _ hexec hs hreach (.cons hv hs.stack)

theorem soundStep_error {e : Effect} {err : VmError}
    (hexec : Frame.exec deps label fr.next instr = .error err)
    (herr : err.Arithmetic ∨ fr.FieldTrap instr) : SoundStep W deps label fr instr e := by
  rw [SoundStep, hexec]
  exact herr

end Build

/-! ## Operators -/

def OperatorOk (W : World) (a : Address) (operand result : AbstractType)
    (op : Value τ → Value τ → Except VmError (Value τ)) : Prop :=
  ∀ l r, HasType W a l operand → HasType W a r operand →
    match op l r with
    | .ok v => HasType W a v result
    | .error err => err.Arithmetic

theorem operatorOk_arith (op : UInt64 → UInt64 → Option UInt64) :
    OperatorOk W a .u64 .u64 (arithOp (τ := τ) op) := by
  intro l r hl hr
  obtain ⟨m, rfl⟩ := hasType_u64_iff.mp hl
  obtain ⟨n, rfl⟩ := hasType_u64_iff.mp hr
  simp only [arithOp, expectU64, Value.asU64, bind, Except.bind]
  cases op m n with
  | none => exact .inl rfl
  | some k => rfl

theorem operatorOk_div (op : UInt64 → UInt64 → Option UInt64) :
    OperatorOk W a .u64 .u64 (divOp (τ := τ) op) := by
  intro l r hl hr
  by_cases hzero : r.asU64 = some 0
  · simp only [divOp, hzero, if_true]
    exact .inr rfl
  · simp only [divOp, hzero, if_false]
    exact operatorOk_arith op l r hl hr

theorem operatorOk_cmp (f : Value τ → Value τ → Except VmError (Value τ))
    (hf : ∀ m n, ∃ b, f (.u64 m) (.u64 n) = .ok (.bool b)) : OperatorOk W a .u64 .bool f := by
  intro l r hl hr
  obtain ⟨m, rfl⟩ := hasType_u64_iff.mp hl
  obtain ⟨n, rfl⟩ := hasType_u64_iff.mp hr
  obtain ⟨b, hb⟩ := hf m n
  rw [hb]
  rfl

theorem operatorOk_bool (op : Bool → Bool → Bool) :
    OperatorOk W a .bool .bool (boolOp (τ := τ) op) := by
  intro l r hl hr
  obtain ⟨x, rfl⟩ := hasType_bool_iff.mp hl
  obtain ⟨y, rfl⟩ := hasType_bool_iff.mp hr
  rfl

theorem popExpect_eq_nil {fnName side : String} {pc : ℕ} {want : AbstractType}
    {stack : List AbstractType} (h : (popExpect fnName pc want side stack).2 = []) :
    ∃ rest, stack = want :: rest ∧ (popExpect fnName pc want side stack).1 = rest := by
  cases stack with
  | nil => simp [popExpect] at h
  | cons ty rest =>
    simp only [popExpect] at h
    split at h
    · rename_i hty
      exact ⟨rest, by rw [hty], rfl⟩
    · cases h

theorem binaryOp_eq_nil {fnName : String} {pc : ℕ} {operand result : AbstractType}
    {s : AbstractState} (h : (binaryOp fnName pc operand result s).errors = []) :
    ∃ rest, s.stack = operand :: operand :: rest ∧
      binaryOp fnName pc operand result s = goOn { s with stack := result :: rest } [] := by
  obtain ⟨hr, hl⟩ := List.append_eq_nil_iff.mp h
  obtain ⟨rest, hstack, hrest⟩ := popExpect_eq_nil hr
  obtain ⟨rest', hstack', hrest'⟩ := popExpect_eq_nil hl
  refine ⟨rest', by rw [hstack, ← hrest, hstack'], ?_⟩
  simp only [binaryOp, hr, hl, hrest']
  rfl

section Instr

variable {cfg : CompilerConfig} {sc : Scope} {fr : Frame τ} {s : AbstractState}
variable {deps : DepMap} {label : τ} {instr : Instruction}

theorem soundStep_binary {operand result : AbstractType}
    {op : Value τ → Value τ → Except VmError (Value τ)}
    (hexec : Frame.exec deps label fr.next instr = fr.next.binary op)
    (heffect : exec sc fr.pc instr s = binaryOp sc.func.name fr.pc operand result s)
    (hop : OperatorOk W fr.contextAddr operand result op)
    (h : AtInstr W cfg sc fr s instr) : SoundStep W deps label fr instr (exec sc fr.pc instr s) := by
  have haccepted := h.accepted
  rw [heffect] at haccepted ⊢
  obtain ⟨rest, hstack, heq⟩ := binaryOp_eq_nil haccepted
  have htyped := h.typed.stack
  rw [hstack] at htyped
  obtain ⟨r, lvs, hr, hlvs, hfr⟩ := List.forall₂_cons_right_iff.mp htyped
  obtain ⟨l, vs, hl, hvs, rfl⟩ := List.forall₂_cons_right_iff.mp hlvs
  have hnext : fr.next.stack = r :: l :: vs := hfr
  have hbinary : fr.next.binary op = (op l r).map fun w => { fr.next with stack := w :: vs } := by
    simp only [Frame.binary, hnext, bind, Except.bind]
    cases op l r <;> rfl
  rw [heq]
  have hres := hop l r hl hr
  cases hw : op l r with
  | error err =>
    rw [hw] at hres
    exact soundStep_error (by rw [hexec, hbinary, hw]; rfl) (.inl hres)
  | ok w =>
    rw [hw] at hres
    exact soundStep_stack _ (by rw [hexec, hbinary, hw]; rfl) h.typed h.reachable (.cons hres hvs)

theorem soundStep_eq {negate : Bool}
    (hexec : Frame.exec deps label fr.next instr = fr.next.binary (eqOp negate))
    (heffect : exec sc fr.pc instr s = eqInstr sc.func.name fr.pc s)
    (h : AtInstr W cfg sc fr s instr) : SoundStep W deps label fr instr (exec sc fr.pc instr s) := by
  have haccepted := h.accepted
  have htyped := h.typed.stack
  rw [heffect] at haccepted ⊢
  unfold eqInstr at haccepted ⊢
  split at haccepted
  · rename_i r l rest hstack
    rw [hstack] at htyped
    obtain ⟨rv, lvs, hr, hlvs, hfr⟩ := List.forall₂_cons_right_iff.mp htyped
    obtain ⟨lv, vs, hl, hvs, rfl⟩ := List.forall₂_cons_right_iff.mp hlvs
    have hlinear : lv.isLinear = false ∧ rv.isLinear = false := by
      rw [isLinear_of_hasType hl, isLinear_of_hasType hr]
      simp only [goOn] at haccepted
      split at haccepted
      · cases haccepted
      · rename_i hlin
        simpa using hlin
    have hnext : fr.next.stack = rv :: lv :: vs := hfr
    refine soundStep_stack (.bool (lv.beq rv != negate) :: vs) ?_ h.typed h.reachable
      (.cons rfl hvs)
    rw [hexec]
    simp [Frame.binary, hnext, eqOp, hlinear.1, hlinear.2, bind, Except.bind]
  · cases haccepted

theorem soundStep_not (h : AtInstr W cfg sc fr s .not) :
    SoundStep W deps label fr .not (exec sc fr.pc .not s) := by
  obtain ⟨rest, hstack, hrest⟩ := popExpect_eq_nil h.accepted
  have htyped := h.typed.stack
  rw [hstack] at htyped
  obtain ⟨v, vs, hv, hvs, hfr⟩ := List.forall₂_cons_right_iff.mp htyped
  obtain ⟨x, rfl⟩ := hasType_bool_iff.mp hv
  have hnext : fr.next.stack = .bool x :: vs := hfr
  simp only [exec, notInstr, hrest]
  refine soundStep_stack (.bool (!x) :: vs) ?_ h.typed h.reachable (.cons rfl hvs)
  simp [Frame.exec, Frame.unary, hnext, expectBool, Value.asBool, bind, Except.bind]

theorem AtInstr.slot (h : AtInstr W cfg sc fr s instr) {slot : ℕ}
    (hslot : checkSlot sc.func fr.pc slot = []) :
    ∃ x o, s.locals[slot]? = some x ∧ fr.locals[slot]? = some o ∧ SlotOk W fr.contextAddr o x := by
  have hlt : slot < s.locals.length := by
    rw [h.slots]
    simpa [checkSlot] using hslot
  have hx : s.locals[slot]? = some s.locals[slot] := List.getElem?_eq_getElem hlt
  obtain ⟨o, ho, hok⟩ := forall₂_getElem? h.typed.locals hx
  exact ⟨_, o, hx, ho, hok⟩

theorem soundStep_load {slot : ℕ} (h : AtInstr W cfg sc fr s (.load slot)) :
    SoundStep W deps label fr (.load slot) (exec sc fr.pc (.load slot) s) := by
  obtain ⟨x, o, hx, ho, hok⟩ := h.slot h.structural
  have haccepted := h.accepted
  simp only [exec, loadInstr, hx] at haccepted ⊢
  cases x with
  | dead => cases haccepted
  | live t =>
    cases o with
    | none => exact hok.elim
    | some v =>
      have hlinear := isLinear_of_hasType hok
      have hslot : fr.next.locals[slot]? = some (some v) := ho
      cases hlin : t.isLinear with
      | true =>
        rw [hlin] at hlinear
        simp only [hlin, if_true]
        refine soundStep_goOn
          { fr.next with locals := fr.locals.set slot none, stack := v :: fr.stack }
          ?_ ⟨rfl, rfl, rfl⟩ rfl h.reachable ⟨.cons hok h.typed.stack, ?_⟩
        · simp only [Frame.exec, Frame.load, hslot, hlinear, if_true]
          rfl
        · exact forall₂_set h.typed.locals slot (x := none) (y := .dead) trivial
      | false =>
        rw [hlin] at hlinear
        simp only [hlin, Bool.false_eq_true, if_false]
        refine soundStep_push v ?_ h.typed h.reachable hok
        simp [Frame.exec, Frame.load, hslot, hlinear]

theorem soundStep_store {slot : ℕ} (h : AtInstr W cfg sc fr s (.store slot)) :
    SoundStep W deps label fr (.store slot) (exec sc fr.pc (.store slot) s) := by
  obtain ⟨x, o, hx, ho, hok⟩ := h.slot h.structural
  have haccepted := h.accepted
  have htyped := h.typed.stack
  simp only [exec, storeInstr, hx] at haccepted ⊢
  split at haccepted
  · cases haccepted
  · rename_i t rest hstack
    rw [hstack] at htyped
    obtain ⟨v, vs, hv, hvs, hfr⟩ := List.forall₂_cons_right_iff.mp htyped
    have hold : x.isLinear = false := report_eq_nil.mp haccepted
    have hnext : fr.next.stack = v :: vs := hfr
    have hlen : slot < fr.locals.length := (List.getElem?_eq_some_iff.mp ho).1
    have hslot : (fr.next.locals ++ List.replicate (slot + 1 - fr.next.locals.length) none)
        = fr.locals := by
      have hzero : slot + 1 - fr.locals.length = 0 := by omega
      simp [Frame.next, hzero]
    have hfree : ∀ w, o = some w → w.isLinear = false := by
      rintro w rfl
      cases x with
      | dead => exact hok
      | live u => exact (isLinear_of_hasType hok).trans hold
    refine soundStep_goOn { fr.next with locals := fr.locals.set slot (some v), stack := vs }
      ?_ ⟨rfl, rfl, rfl⟩ rfl h.reachable ⟨hvs, ?_⟩
    · simp only [Frame.exec, Frame.store, hnext, hslot, ho]
      cases o with
      | none => rfl
      | some w => simp [hfree w rfl]
    · exact forall₂_set h.typed.locals slot (x := some v) (y := .live t) hv

theorem isLinear_fieldType {module : Module} (hvalid : FieldTypesValid module)
    {name : String} {structDef : StructDef} (hdef : module.getStruct name = some structDef)
    {d : FieldDef} (hd : d ∈ structDef.fields) : (fromType d.ty).isLinear = (fromType d.ty).isStruct := by
  have hty := hvalid structDef (List.mem_of_find?_eq_some hdef) d hd
  cases hcase : d.ty with
  | tuple types => simp [hcase, Ty.isValidFieldType, Ty.isPrimitive] at hty
  | _ => rfl

theorem isLinear_of_resolveFieldPathType {module : Module} (hvalid : FieldTypesValid module)
    {path : List String} (hpath : path ≠ []) {ty u : AbstractType}
    (h : resolveFieldPathType module ty path = some u) : u.isLinear = u.isStruct := by
  induction path generalizing ty with
  | nil => exact absurd rfl hpath
  | cons field path ih =>
    simp only [resolveFieldPathType] at h
    split at h
    · rename_i next hnext
      cases path with
      | nil =>
        obtain rfl := Option.some.inj h
        obtain ⟨name, structDef, d, -, -, hdef, hd, rfl⟩ := resolveFieldType_eq_some hnext
        exact isLinear_fieldType hvalid hdef (List.mem_of_find?_eq_some hd)
      | cons field' path => exact ih (List.cons_ne_nil _ _) h
    · cases h

/-- The run-time condition on a path gives the resolution of the verifier, when the verifier has
seen that the root is no struct of another module. -/
theorem AtInstr.resolves (h : AtInstr W cfg sc fr s instr) {slot : ℕ} {path : List String}
    {v : Value τ} {root : AbstractType} (hslot : fr.locals[slot]? = some (some v))
    (hv : HasType W fr.contextAddr v root)
    (hlocal : ∀ name, root = .struct name → parseModuleRef name = none)
    (hpath : fr.pathResolves slot path = true) :
    ∃ u, resolveFieldPathType sc.module root path = some u := by
  unfold Frame.pathResolves at hpath
  rw [hslot] at hpath
  split at hpath
  · rename_i label typeName fields heq
    obtain rfl := Option.some.inj (Option.some.inj heq)
    obtain ⟨⟨name, rfl, hname⟩, -⟩ := hv
    have hparse := hlocal name rfl
    rw [resolveName_of_isNone hparse] at hname
    simp only [← hname, localStructName, parseModuleRef_qualify, if_true, h.context] at hpath
    exact Option.isSome_iff_exists.mp hpath
  · cases hpath

theorem AtInstr.loadField {slot : ℕ} {path : List String}
    (h : AtInstr W cfg sc fr s (.loadField slot path)) (hpath : fr.pathResolves slot path = true) :
    ∃ v root u, fr.locals[slot]? = some (some v) ∧ s.locals[slot]? = some (.live root) ∧
      HasType W fr.contextAddr v root ∧ resolveFieldPathType sc.module root path = some u ∧
      u.isLinear = false := by
  obtain ⟨hslot, hne⟩ := List.append_eq_nil_iff.mp h.structural
  obtain ⟨x, o, hx, ho, hok⟩ := h.slot hslot
  have haccepted := h.accepted
  simp only [exec, loadFieldInstr, hx] at haccepted
  cases x with
  | dead => cases haccepted
  | live root =>
    cases o with
    | none => exact hok.elim
    | some v =>
      cases path with
      | nil => cases hne
      | cons field path =>
        obtain ⟨hvisible, hfield⟩ := List.append_eq_nil_iff.mp haccepted
        have hlocal : ∀ name, root = .struct name → parseModuleRef name = none := by
          rintro name rfl
          simpa [checkFieldReadVisibility] using hvisible
        obtain ⟨u, hu⟩ := h.resolves ho hok hlocal hpath
        have hstruct : u.isStruct = false := by
          rw [hu] at hfield
          exact report_eq_nil.mp hfield
        exact ⟨v, root, u, ho, hx, hok, hu,
          (isLinear_of_resolveFieldPathType h.fieldTypes (List.cons_ne_nil _ _) hu).trans hstruct⟩

theorem soundStep_loadField {slot : ℕ} {path : List String}
    (h : AtInstr W cfg sc fr s (.loadField slot path)) (hpath : fr.pathResolves slot path = true) :
    SoundStep W deps label fr (.loadField slot path) (exec sc fr.pc (.loadField slot path) s) := by
  obtain ⟨v, root, u, hroot, hx, hv, hu, -⟩ := h.loadField hpath
  obtain ⟨w, hw, hwtype⟩ := readFieldPath_hasType h.world (i := 0) hv hu
  have hslot : fr.next.locals[slot]? = some (some v) := hroot
  have heffect : exec sc fr.pc (.loadField slot path) s = goOn (s.push u)
      (exec sc fr.pc (.loadField slot path) s).errors := by
    cases path with
    | nil => cases (List.append_eq_nil_iff.mp h.structural).2
    | cons field path => simp [exec, loadFieldInstr, hx, hu, goOn]
  rw [heffect]
  refine soundStep_push w ?_ h.typed h.reachable hwtype
  simp [Frame.exec, Frame.loadField, hslot, hw, bind, Except.bind]

theorem checkFieldWrite_eq_nil {fnName : String} {module : Module} {pc : ℕ}
    {root val u : AbstractType} {path : List String}
    (hu : resolveFieldPathType module root path = some u)
    (h : checkFieldWrite fnName module pc root val path = []) : u.isStruct = false ∧ val = u := by
  simp only [checkFieldWrite, hu] at h
  split at h
  · cases h
  · rename_i hstruct
    split at h
    · rename_i heq
      exact ⟨by simpa using hstruct, heq⟩
    · cases h

/-- The checks of an accepted `StoreField`: the root is no struct of another module and the write
was checked against the field. -/
theorem storeFieldInstr_eq_nil {fnName : String} {module : Module} {pc slot : ℕ}
    {field : String} {path : List String} {s : AbstractState} {root : AbstractType}
    (hx : s.locals[slot]? = some (.live root))
    (h : (storeFieldInstr fnName module pc slot (field :: path) s).errors = []) :
    ∃ val rest, s.stack = val :: rest ∧
      storeFieldInstr fnName module pc slot (field :: path) s = goOn { s with stack := rest } [] ∧
      (∀ name, root = .struct name → parseModuleRef name = none) ∧
      checkFieldWrite fnName module pc root val (field :: path) = [] := by
  simp only [storeFieldInstr, hx] at h ⊢
  split at h
  · cases h
  · rename_i val rest hstack
    refine ⟨val, rest, hstack, ?_⟩
    cases root with
    | struct n =>
      simp only at h ⊢
      split at h
      · cases h
      · rename_i hparse
        have hwrite : checkFieldWrite fnName module pc (.struct n) val (field :: path) = [] := h
        refine ⟨by simp [hparse, hwrite], ?_, hwrite⟩
        rintro name heq
        obtain rfl := AbstractType.struct.inj heq
        simpa using hparse
    | _ =>
      refine ⟨?_, by simp, h⟩
      simp only [goOn] at h ⊢
      rw [h]

theorem AtInstr.storeField {slot : ℕ} {path : List String}
    (h : AtInstr W cfg sc fr s (.storeField slot path)) (hpath : fr.pathResolves slot path = true) :
    ∃ v root u rest, fr.locals[slot]? = some (some v) ∧ s.locals[slot]? = some (.live root) ∧
      HasType W fr.contextAddr v root ∧ resolveFieldPathType sc.module root path = some u ∧
      u.isLinear = false ∧ path ≠ [] ∧ s.stack = u :: rest ∧
      exec sc fr.pc (.storeField slot path) s = goOn { s with stack := rest } [] := by
  obtain ⟨hslot, hne⟩ := List.append_eq_nil_iff.mp h.structural
  obtain ⟨x, o, hx, ho, hok⟩ := h.slot hslot
  cases x with
  | dead =>
    have haccepted := h.accepted
    simp only [exec, storeFieldInstr, hx] at haccepted
    split at haccepted <;> cases haccepted
  | live root =>
    cases o with
    | none => exact hok.elim
    | some v =>
      cases path with
      | nil => cases hne
      | cons field path =>
        obtain ⟨val, rest, hstack, heq, hlocal, hwrite⟩ := storeFieldInstr_eq_nil hx h.accepted
        obtain ⟨u, hu⟩ := h.resolves ho hok hlocal hpath
        obtain ⟨hstruct, rfl⟩ := checkFieldWrite_eq_nil hu hwrite
        have hlinear : val.isLinear = false :=
          (isLinear_of_resolveFieldPathType h.fieldTypes (List.cons_ne_nil _ _) hu).trans hstruct
        exact ⟨v, root, val, rest, ho, hx, hok, hu, hlinear, List.cons_ne_nil _ _, hstack, heq⟩

theorem soundStep_storeField {slot : ℕ} {path : List String}
    (h : AtInstr W cfg sc fr s (.storeField slot path)) (hpath : fr.pathResolves slot path = true) :
    SoundStep W deps label fr (.storeField slot path) (exec sc fr.pc (.storeField slot path) s) := by
  obtain ⟨v, root, u, rest, hroot, hx, hv, hu, hlinear, hne, hstack, heq⟩ := h.storeField hpath
  have htyped := h.typed.stack
  rw [hstack] at htyped
  obtain ⟨w, vs, hw, hvs, hfr⟩ := List.forall₂_cons_right_iff.mp htyped
  obtain ⟨v', hv', hv'type⟩ := writeFieldPath_hasType h.world hne (i := 0) hv hu hlinear hw
  rw [heq]
  refine soundStep_goOn { fr.next with locals := fr.locals.set slot (some v'), stack := vs }
    ?_ ⟨rfl, rfl, rfl⟩ rfl h.reachable ⟨hvs, ?_⟩
  · have hslot : fr.next.locals[slot]? = some (some v) := hroot
    have hnext : fr.next.stack = w :: vs := hfr
    simp only [Frame.exec, Frame.storeField, hnext, hslot, hv', bind, Except.bind]
    rfl
  · have hset := forall₂_set h.typed.locals slot (x := some v') (y := .live root) hv'type
    rwa [set_eq_self hx] at hset

theorem popArgs_typed {stack : List (Value τ)} {types : List AbstractType} {n : ℕ}
    (h : List.Forall₂ (HasType W a) stack types) (hn : n ≤ types.length) :
    popArgs n stack = .ok ((stack.take n).reverse, stack.drop n) ∧
    List.Forall₂ (HasType W a) (stack.take n).reverse (types.take n).reverse ∧
    List.Forall₂ (HasType W a) (stack.drop n) (types.drop n) := by
  refine ⟨?_, forall₂_take_reverse h n, List.forall₂_drop n h⟩
  simp [popArgs, h.length_eq, hn]

theorem checkStructAccess_eq_nil {module : Module} {f : Function} {pc : ℕ} {typeName : String}
    {fieldNames : List String} (h : checkStructAccess module f pc typeName fieldNames = []) :
    parseModuleRef typeName = none ∧ ∃ structDef, module.getStruct typeName = some structDef ∧
      structDef.fields.map (·.name) = fieldNames := by
  unfold checkStructAccess at h
  split at h
  · cases h
  · rename_i hparse
    split at h
    · cases h
    · rename_i structDef hdef
      exact ⟨by simpa using hparse, structDef, hdef, by simpa using h⟩

theorem popFields_eq_nil {fnName : String} {pc : ℕ} {fields : List FieldDef}
    {stack : List AbstractType} (h : (popFields fnName pc fields stack).2 = []) :
    stack = fields.map (fun d => fromType d.ty) ++ (popFields fnName pc fields stack).1 := by
  induction fields generalizing stack with
  | nil => rfl
  | cons d fields ih =>
    obtain ⟨htop, hrest⟩ := List.append_eq_nil_iff.mp h
    cases stack with
    | nil => cases htop
    | cons ty stack =>
      simp only at htop
      split at htop
      · rename_i hty
        simp only [popFields, List.drop_succ_cons, List.drop_zero, List.map_cons,
          List.cons_append, hty]
        exact congrArg _ (ih hrest)
      · cases htop

theorem soundStep_newStruct {typeName : String} {fieldNames : List String}
    (h : AtInstr W cfg sc fr s (.newStruct typeName fieldNames)) :
    SoundStep W deps label fr (.newStruct typeName fieldNames)
      (exec sc fr.pc (.newStruct typeName fieldNames) s) := by
  obtain ⟨hparse, structDef, hdef, rfl⟩ := checkStructAccess_eq_nil h.structural
  have haccepted := h.accepted
  simp only [exec, newStructInstr, hparse, Option.isSome_none, Bool.false_eq_true, if_false,
    hdef] at haccepted ⊢
  have hstack := popFields_eq_nil haccepted
  revert hstack
  generalize (popFields sc.func.name fr.pc structDef.fields.reverse s.stack).1 = rest
  intro hstack
  rw [List.map_reverse] at hstack
  have hlen : structDef.fields.length ≤ s.stack.length := by simp [hstack]
  obtain ⟨hpop, hvalues, hrest⟩ := popArgs_typed h.typed.stack hlen
  -- The verifier reads the field types from the top, the machine the values from the bottom.
  have htake : (s.stack.take structDef.fields.length).reverse
      = structDef.fields.map fun d => fromType d.ty := by
    rw [hstack, List.take_left' (by simp), List.reverse_reverse]
  have hdrop : s.stack.drop structDef.fields.length = rest := by
    rw [hstack, List.drop_left' (by simp)]
  rw [htake, List.forall₂_map_right_iff] at hvalues
  rw [hdrop] at hrest
  refine soundStep_stack (.struct label (qualify fr.contextAddr typeName)
    ((structDef.fields.map (·.name)).zip (fr.stack.take structDef.fields.length).reverse)
      :: fr.stack.drop structDef.fields.length) ?_ h.typed h.reachable (.cons ?_ hrest)
  · simp [Frame.exec, Frame.newStruct, Frame.structTypeName, hparse, Frame.next, h.context, hdef,
      hpop, bind, Except.bind]
  · exact (hasType_localStruct h.world hparse).mpr
      ⟨structDef, label, _, hdef, rfl, zip_hasType hvalues⟩

theorem linearField_eq_none {module : Module} {typeName : String} {structDef : StructDef}
    (hdef : module.getStruct typeName = some structDef) (h : linearField module typeName = none) :
    ∀ d ∈ structDef.fields, (fromType d.ty).isStruct = false := by
  intro d hd
  simp only [linearField, hdef, Option.bind_some, List.find?_eq_none] at h
  simpa using h d hd

theorem AtInstr.getField {field : String} (h : AtInstr W cfg sc fr s (.getField field)) :
    ∃ typeName rest structDef label' fields vs, s.stack = .struct typeName :: rest ∧
      parseModuleRef typeName = none ∧ linearField sc.module typeName = none ∧
      sc.module.getStruct typeName = some structDef ∧
      fr.stack = .struct label' (qualify fr.contextAddr typeName) fields :: vs ∧
      List.Forall₂ (FieldHasType W fr.contextAddr) fields structDef.fields ∧
      List.Forall₂ (HasType W fr.contextAddr) vs rest := by
  have haccepted := h.accepted
  have htyped := h.typed.stack
  simp only [exec, getFieldInstr] at haccepted
  split at haccepted
  · cases haccepted
  · rename_i typeName rest hstack
    obtain ⟨hvisible, hlinear⟩ := List.append_eq_nil_iff.mp haccepted
    have hparse : parseModuleRef typeName = none := by
      simpa [checkFieldReadVisibility] using hvisible
    have hnone : linearField sc.module typeName = none := by
      split at hlinear
      · cases hlinear
      · split at hlinear
        · cases hlinear
        · assumption
    rw [hstack] at htyped
    obtain ⟨v, vs, hv, hvs, hfr⟩ := List.forall₂_cons_right_iff.mp htyped
    obtain ⟨structDef, label', fields, hdef, rfl, hfields⟩ :=
      (hasType_localStruct h.world hparse).mp hv
    exact ⟨typeName, rest, structDef, label', fields, vs, hstack, hparse, hnone, hdef, hfr,
      hfields, hvs⟩
  · cases haccepted

theorem soundStep_getField {field : String} (h : AtInstr W cfg sc fr s (.getField field)) :
    SoundStep W deps label fr (.getField field) (exec sc fr.pc (.getField field) s) := by
  obtain ⟨typeName, rest, structDef, label', fields, vs, hstack, hparse, -, hdef, hfr, hfields,
    hvs⟩ := h.getField
  have hnext : fr.next.stack = .struct label' (qualify fr.contextAddr typeName) fields :: vs := hfr
  cases hlookup : Value.lookup field fields with
  | none =>
    have hexec : Frame.exec deps label fr.next (.getField field)
        = .error (.undefinedField (qualify fr.contextAddr typeName) field) := by
      simp [Frame.exec, Frame.getField, Frame.unary, hnext, hlookup, bind, Except.bind]
    exact soundStep_error hexec (.inr ⟨label', _, fields, vs, hfr, hlookup⟩)
  | some w =>
    obtain ⟨d, hd, hw⟩ := find_of_lookup hfields hlookup
    have hresolve : resolveFieldType (.struct typeName) field sc.module = some (fromType d.ty) := by
      simp [resolveFieldType, hparse, hdef, hd]
    simp only [exec, getFieldInstr, hstack, hresolve, Option.getD_some]
    refine soundStep_stack (w :: vs) ?_ h.typed h.reachable (.cons hw hvs)
    simp [Frame.exec, Frame.getField, Frame.unary, hnext, hlookup, bind, Except.bind]

/-! ## Opening structs -/

theorem lookup_eq_none_iff {name : String} {fields : List (String × Value τ)} :
    Value.lookup name fields = none ↔ name ∉ fields.map (·.1) := by
  simp only [Value.lookup, Option.map_eq_none_iff, List.find?_eq_none, List.mem_map, not_exists,
    not_and]
  constructor
  · intro h x hx hname
    exact h x hx (by simp [hname])
  · intro h x hx hname
    exact h x hx (by simpa using hname)

theorem mem_of_unpackFields {typeName : String} {names : List String}
    {fields : List (String × Value τ)} {stack stack' : List (Value τ)}
    (h : unpackFields typeName names fields stack = .ok stack') :
    ∀ n ∈ names, n ∈ fields.map (·.1) := by
  induction names generalizing fields stack with
  | nil => simp
  | cons name names ih =>
    simp only [unpackFields] at h
    split at h
    · rename_i v hv
      intro n hn
      rcases List.mem_cons.mp hn with rfl | hn
      · by_contra hmem
        rw [← List.mem_reverse, ← List.map_reverse] at hmem
        rw [lookup_eq_none_iff.mpr hmem] at hv
        cases hv
      · obtain ⟨x, hx, rfl⟩ := List.mem_map.mp (ih h n hn)
        exact List.mem_map.mpr ⟨x, (List.mem_filter.mp hx).1, rfl⟩
    · cases h

/-- The last field is taken first, and with it every other field of the same name. -/
theorem unpackFields_append (typeName : String) (fields : List (String × Value τ)) (name : String)
    (v : Value τ) (stack : List (Value τ)) :
    unpackFields typeName ((fields ++ [(name, v)]).map (·.1)).reverse (fields ++ [(name, v)]) stack
      = unpackFields typeName (fields.map (·.1)).reverse (fields.filter (·.1 != name))
        (v :: stack) := by
  simp [unpackFields, Value.lookup]

theorem filter_ne_eq_self {name : String} {fields : List (String × Value τ)}
    (h : name ∉ fields.map (·.1)) : fields.filter (·.1 != name) = fields := by
  rw [List.filter_eq_self]
  intro x hx
  have hne : x.1 ≠ name := by
    rintro rfl
    exact h (List.mem_map_of_mem hx)
  simpa using hne

/-- Opening a struct along its own field list pushes its values, the first one on top. -/
theorem unpackFields_own (typeName : String) {fields : List (String × Value τ)}
    (h : (fields.map (·.1)).Nodup) (stack : List (Value τ)) :
    unpackFields typeName (fields.map (·.1)).reverse fields stack
      = .ok (fields.map (·.2) ++ stack) := by
  induction fields using List.reverseRecOn generalizing stack with
  | nil => rfl
  | append_singleton fields field ih =>
    obtain ⟨name, v⟩ := field
    rw [List.map_append, List.nodup_append] at h
    have hname : name ∉ fields.map (·.1) := fun hmem => h.2.2 name hmem name (by simp) rfl
    rw [unpackFields_append, filter_ne_eq_self hname, ih h.1]
    simp

/-- With two fields of one name the second removal fails. -/
theorem unpackFields_dup (typeName : String) {fields : List (String × Value τ)}
    (h : ¬ (fields.map (·.1)).Nodup) (stack : List (Value τ)) :
    ∃ e, unpackFields typeName (fields.map (·.1)).reverse fields stack = .error e := by
  induction fields using List.reverseRecOn generalizing stack with
  | nil => simp at h
  | append_singleton fields field ih =>
    obtain ⟨name, v⟩ := field
    rw [unpackFields_append]
    by_cases hname : name ∈ fields.map (·.1)
    · cases hres : unpackFields typeName (fields.map (·.1)).reverse
          (fields.filter (·.1 != name)) (v :: stack) with
      | error e => exact ⟨e, rfl⟩
      | ok stack' =>
        have hmem := mem_of_unpackFields hres name (by simpa using hname)
        simp at hmem
    · rw [filter_ne_eq_self hname]
      refine ih (fun hnodup => h ?_) _
      rw [List.map_append, List.nodup_append]
      refine ⟨hnodup, by simp, ?_⟩
      rintro x hx y hy rfl
      obtain rfl : x = name := by simpa using hy
      exact hname hx

theorem AtInstr.unpackStruct {typeName : String} {fieldNames : List String}
    (h : AtInstr W cfg sc fr s (.unpackStruct typeName fieldNames)) :
    ∃ structDef label' fields vs rest, sc.module.getStruct typeName = some structDef ∧
      fr.stack = .struct label' (qualify fr.contextAddr typeName) fields :: vs ∧
      fieldNames = fields.map (·.1) ∧
      List.Forall₂ (FieldHasType W fr.contextAddr) fields structDef.fields ∧
      List.Forall₂ (HasType W fr.contextAddr) vs rest ∧
      exec sc fr.pc (.unpackStruct typeName fieldNames) s
        = goOn { s with stack := structDef.fields.map (fun d => fromType d.ty) ++ rest } [] := by
  obtain ⟨hparse, structDef, hdef, hnames⟩ := checkStructAccess_eq_nil h.structural
  have haccepted := h.accepted
  have htyped := h.typed.stack
  simp only [exec, unpackStructInstr, hparse, Option.isSome_none, Bool.false_eq_true, if_false,
    hdef] at haccepted ⊢
  split at haccepted
  · cases haccepted
  · rename_i ty rest hstack
    split at haccepted
    · rename_i hty
      subst hty
      rw [hstack] at htyped
      obtain ⟨v, vs, hv, hvs, hfr⟩ := List.forall₂_cons_right_iff.mp htyped
      obtain ⟨structDef', label', fields, hdef', rfl, hfields⟩ :=
        (hasType_localStruct h.world hparse).mp hv
      obtain rfl := Option.some.inj (hdef.symm.trans hdef')
      exact ⟨structDef, label', fields, vs, rest, rfl, hfr,
        hnames.symm.trans (map_fst_of_hasType hfields).symm, hfields, hvs, by simp⟩
    · cases haccepted

theorem soundStep_unpackStruct {typeName : String} {fieldNames : List String}
    (h : AtInstr W cfg sc fr s (.unpackStruct typeName fieldNames)) :
    SoundStep W deps label fr (.unpackStruct typeName fieldNames)
      (exec sc fr.pc (.unpackStruct typeName fieldNames) s) := by
  obtain ⟨structDef, label', fields, vs, rest, -, hfr, rfl, hfields, hvs, heq⟩ := h.unpackStruct
  have hnext : fr.next.stack = .struct label' (qualify fr.contextAddr typeName) fields :: vs := hfr
  rw [heq]
  by_cases hnodup : (fields.map (·.1)).Nodup
  · refine soundStep_stack (fields.map (·.2) ++ vs) ?_ h.typed h.reachable
      (forall₂_append (map_snd_hasType hfields) hvs)
    simp only [Frame.exec, Frame.unpackStruct, hnext, unpackFields_own _ hnodup, bind, Except.bind]
  · obtain ⟨e, he⟩ := unpackFields_dup (qualify fr.contextAddr typeName) hnodup vs
    have hexec : Frame.exec deps label fr.next (.unpackStruct typeName (fields.map (·.1)))
        = .error e := by
      simp only [Frame.exec, Frame.unpackStruct, hnext, he, bind, Except.bind]
    exact soundStep_error hexec (.inr ⟨label', _, fields, vs, hfr, hnodup⟩)

/-! ## Stack, jumps and tuples -/

theorem soundStep_pop (h : AtInstr W cfg sc fr s .pop) :
    SoundStep W deps label fr .pop (exec sc fr.pc .pop s) := by
  have haccepted := h.accepted
  have htyped := h.typed.stack
  simp only [exec, popInstr] at haccepted ⊢
  split at haccepted
  · cases haccepted
  · rename_i ty rest hstack
    rw [hstack] at htyped
    obtain ⟨v, vs, -, hvs, hfr⟩ := List.forall₂_cons_right_iff.mp htyped
    have hnext : fr.next.stack = v :: vs := hfr
    exact soundStep_stack vs (by simp only [Frame.exec, hnext]) h.typed h.reachable hvs

theorem soundStep_dup (h : AtInstr W cfg sc fr s .dup) :
    SoundStep W deps label fr .dup (exec sc fr.pc .dup s) := by
  have haccepted := h.accepted
  have htyped := h.typed.stack
  simp only [exec, dupInstr] at haccepted ⊢
  split at haccepted
  · cases haccepted
  · rename_i ty rest hstack
    rw [hstack] at htyped
    obtain ⟨v, vs, hv, -, hfr⟩ := List.forall₂_cons_right_iff.mp htyped
    have hnext : fr.next.stack = v :: vs := hfr
    split at haccepted
    · cases haccepted
    · rename_i hlinear
      simp only [hlinear, Bool.false_eq_true, if_false]
      exact soundStep_push v (by simp only [Frame.exec, hnext]) h.typed h.reachable hv

theorem checkJump_eq_nil {f : Function} {pc : ℕ} {offset : ℤ} (h : checkJump f pc offset = []) :
    0 < offset ∧ (pc : ℤ) + offset ≤ f.code.length := by
  unfold checkJump at h
  split at h
  · cases h
  · have hbound := report_eq_nil.mp h
    simp only [decide_eq_false_iff_not] at hbound
    omega

theorem jump_next {offset : ℤ} (hoffset : 0 < offset) (stack : List (Value τ)) :
    Frame.jump { fr.next with stack } offset
      = .ok { fr.next with stack, pc := ((fr.pc : ℤ) + offset).toNat } := by
  have htarget : ((fr.pc + 1 : ℕ) : ℤ) - 1 + offset = fr.pc + offset := by omega
  have hpos : ¬ ((fr.pc : ℤ) + offset < 0) := by omega
  simp only [Frame.jump, jumpTarget, Frame.next, htarget, hpos, if_false, bind, Except.bind]

theorem soundStep_jump {offset : ℤ} (h : AtInstr W cfg sc fr s (.jump offset)) :
    SoundStep W deps label fr (.jump offset) (exec sc fr.pc (.jump offset) s) := by
  have hoffset := (checkJump_eq_nil h.structural).1
  have hexec : Frame.exec deps label fr.next (.jump offset) = _ := jump_next hoffset fr.stack
  rw [SoundStep, hexec]
  refine ⟨⟨rfl, rfl, rfl⟩, s, .inr ⟨?_, h.reachable⟩, ⟨h.typed.stack, h.typed.locals⟩⟩
  simp [exec, jumpInstr, jumpEdge, hoffset]

theorem soundStep_jumpWhen {offset : ℤ} {expected : Bool}
    (hexec : Frame.exec deps label fr.next instr = fr.next.jumpWhen expected offset)
    (heffect : exec sc fr.pc instr s = jumpIfInstr sc.func.name fr.pc offset s)
    (hjump : checkJump sc.func fr.pc offset = []) (h : AtInstr W cfg sc fr s instr) :
    SoundStep W deps label fr instr (exec sc fr.pc instr s) := by
  have hoffset := (checkJump_eq_nil hjump).1
  have haccepted := h.accepted
  have htyped := h.typed.stack
  rw [heffect] at haccepted ⊢
  obtain ⟨rest, hstack, hrest⟩ := popExpect_eq_nil haccepted
  rw [hstack] at htyped
  obtain ⟨v, vs, hv, hvs, hfr⟩ := List.forall₂_cons_right_iff.mp htyped
  obtain ⟨x, rfl⟩ := hasType_bool_iff.mp hv
  have hnext : fr.next.stack = .bool x :: vs := hfr
  simp only [jumpIfInstr, hrest]
  by_cases hx : x = expected
  · have hgo : Frame.exec deps label fr.next instr
        = .ok { fr.next with stack := vs, pc := ((fr.pc : ℤ) + offset).toNat } := by
      rw [hexec, ← jump_next hoffset]
      simp [Frame.jumpWhen, hnext, expectBool, Value.asBool, hx, bind, Except.bind]
    rw [SoundStep, hgo]
    refine ⟨⟨rfl, rfl, rfl⟩, { s with stack := rest }, .inr ⟨?_, h.reachable⟩, hvs, h.typed.locals⟩
    simp [jumpEdge, hoffset]
  · have hgo : Frame.exec deps label fr.next instr = .ok { fr.next with stack := vs } := by
      rw [hexec]
      simp [Frame.jumpWhen, hnext, expectBool, Value.asBool, hx, bind, Except.bind]
    rw [SoundStep, hgo]
    exact ⟨⟨rfl, rfl, rfl⟩, { s with stack := rest }, .inl ⟨rfl, rfl, h.reachable⟩, hvs,
      h.typed.locals⟩

theorem soundStep_makeTuple {n : ℕ} (h : AtInstr W cfg sc fr s (.makeTuple n)) :
    SoundStep W deps label fr (.makeTuple n) (exec sc fr.pc (.makeTuple n) s) := by
  have haccepted := h.accepted
  simp only [exec, makeTupleInstr] at haccepted ⊢
  split at haccepted
  · cases haccepted
  · rename_i hlen
    obtain ⟨hpop, hvalues, hrest⟩ := popArgs_typed h.typed.stack (Nat.not_lt.mp hlen)
    simp only [hlen, if_false]
    refine soundStep_stack (.tuple (fr.stack.take n).reverse :: fr.stack.drop n) ?_ h.typed
      h.reachable (.cons (hasType_tuple_iff.mpr ⟨_, rfl, hvalues⟩) hrest)
    simp [Frame.exec, Frame.makeTuple, Frame.next, hpop, bind, Except.bind]

theorem soundStep_unpackTuple {n : ℕ} (h : AtInstr W cfg sc fr s (.unpackTuple n)) :
    SoundStep W deps label fr (.unpackTuple n) (exec sc fr.pc (.unpackTuple n) s) := by
  have haccepted := h.accepted
  have htyped := h.typed.stack
  simp only [exec, unpackTupleInstr] at haccepted ⊢
  split at haccepted
  · cases haccepted
  · rename_i types rest hstack
    rw [hstack] at htyped
    obtain ⟨v, vs, hv, hvs, hfr⟩ := List.forall₂_cons_right_iff.mp htyped
    obtain ⟨elements, rfl, helements⟩ := hasType_tuple_iff.mp hv
    have hnext : fr.next.stack = .tuple elements :: vs := hfr
    split at haccepted
    · rename_i hlen
      simp only [hlen, if_true]
      refine soundStep_stack (elements ++ vs) ?_ h.typed h.reachable (forall₂_append helements hvs)
      simp [Frame.exec, Frame.unpackTuple, hnext, helements.length_eq, hlen]
    · cases haccepted
  · cases haccepted

theorem exec_sound (deps : DepMap) (label : τ) (h : AtInstr W cfg sc fr s instr)
    (hlocal : instr.isLocal = true) (hpath : fr.pathsResolve instr = true) :
    SoundStep W deps label fr instr (exec sc fr.pc instr s) := by
  cases instr with
  | pushBool b => exact soundStep_push (.bool b) rfl h.typed h.reachable rfl
  | pushU64 n => exact soundStep_push (.u64 n) rfl h.typed h.reachable rfl
  | pushAddress x => exact soundStep_push (.address x) rfl h.typed h.reachable rfl
  | pushStr x => exact soundStep_push (.str x) rfl h.typed h.reachable rfl
  | load slot => exact soundStep_load h
  | store slot => exact soundStep_store h
  | loadField slot path => exact soundStep_loadField h hpath
  | storeField slot path => exact soundStep_storeField h hpath
  | add | sub | mul => exact soundStep_binary rfl rfl (operatorOk_arith _) h
  | div | mod => exact soundStep_binary rfl rfl (operatorOk_div _) h
  | eq | ne => exact soundStep_eq rfl rfl h
  | lt | le | gt | ge => exact soundStep_binary rfl rfl (operatorOk_cmp _ fun _ _ => ⟨_, rfl⟩) h
  | not => exact soundStep_not h
  | and | or => exact soundStep_binary rfl rfl (operatorOk_bool _) h
  | newStruct typeName fieldNames => exact soundStep_newStruct h
  | getField field => exact soundStep_getField h
  | unpackStruct typeName fieldNames => exact soundStep_unpackStruct h
  | pop => exact soundStep_pop h
  | dup => exact soundStep_dup h
  | jump offset => exact soundStep_jump h
  | jumpIf offset | jumpIfNot offset => exact soundStep_jumpWhen rfl rfl h.structural h
  | makeTuple n => exact soundStep_makeTuple h
  | unpackTuple n => exact soundStep_unpackTuple h
  | call name | ret => cases hlocal

end Instr

end MeowChain
