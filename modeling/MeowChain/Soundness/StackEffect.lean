import MeowChain.Soundness.Preservation
import MeowChain.Vm.Execution

/-!
# Stack effects

How many values an instruction takes from the stack and leaves there does not depend on the values.
The machine and the language verifier agree on it, so the height of the operand stack at a position
is the height the verifier holds there, on any arguments and any field paths.
-/

set_option autoImplicit false

namespace MeowChain

open Verifier

variable {τ : Type}

def Instruction.pops : Instruction → ℕ
  | .store _ | .storeField _ _ | .not | .getField _ | .unpackStruct _ _ | .pop | .dup
  | .jumpIf _ | .jumpIfNot _ | .unpackTuple _ => 1
  | .add | .sub | .mul | .div | .mod | .eq | .ne | .lt | .le | .gt | .ge | .and | .or => 2
  | .newStruct _ fieldNames => fieldNames.length
  | .makeTuple n => n
  | _ => 0

def Instruction.pushes : Instruction → ℕ
  | .store _ | .storeField _ _ | .pop | .jump _ | .jumpIf _ | .jumpIfNot _ | .call _ | .ret => 0
  | .dup => 2
  | .unpackStruct _ fieldNames => fieldNames.length
  | .unpackTuple n => n
  | _ => 1

def Value.topLabel : Value τ → Option τ
  | .struct label _ _ => some label
  | _ => none

/-- The slot still holds the struct it held, or was emptied. -/
def SlotKept (now before : Option (Value τ)) : Prop :=
  ∀ v ∈ now, ∃ w ∈ before, v.topLabel = w.topLabel

/-- What an executed instruction did to its frame, whatever the values are. -/
structure Frame.Executed (fr fr' : Frame τ) (instr : Instruction) : Prop where
  same : fr.SameActivation fr'
  enough : instr.pops ≤ fr.stack.length
  stack : ∃ vs, vs.length = instr.pushes ∧ fr'.stack = vs ++ fr.stack.drop instr.pops
  stays : instr.jumpOffset = none → fr'.pc = fr.pc
  jumps : ∀ offset, instr.jumpOffset = some offset →
    (fr'.pc = fr.pc ∧ instr ≠ .jump offset) ∨ jumpTarget fr.pc offset = .ok fr'.pc
  slots : (∀ slot, instr ≠ .store slot) → List.Forall₂ SlotKept fr'.locals fr.locals

/-! ## The machine -/

section Machine

variable {fr fr' : Frame τ} {deps : DepMap} {label : τ} {instr : Instruction}

theorem slotsKept_refl (locals : List (Option (Value τ))) :
    List.Forall₂ SlotKept locals locals :=
  List.forall₂_same.mpr fun _ _ v hv => ⟨v, hv, rfl⟩

theorem slotsKept_set {locals : List (Option (Value τ))} {slot : ℕ} {before now : Option (Value τ)}
    (hslot : locals[slot]? = some before) (hkept : SlotKept now before) :
    List.Forall₂ SlotKept (locals.set slot now) locals := by
  have h := forall₂_set (slotsKept_refl locals) slot hkept
  rwa [set_eq_self hslot] at h

theorem executed_stack (taken vs rest : List (Value τ)) (hstack : fr.stack = taken ++ rest)
    (hpops : instr.pops = taken.length) (hpushes : instr.pushes = vs.length)
    (hjump : instr.jumpOffset = none) : fr.Executed { fr with stack := vs ++ rest } instr where
  same := ⟨rfl, rfl, rfl⟩
  enough := by simp [hpops, hstack]
  stack := ⟨vs, hpushes.symm, by simp [hpops, hstack]⟩
  stays _ := rfl
  jumps offset h := by
    rw [hjump] at h
    cases h
  slots _ := slotsKept_refl _

theorem topLabel_writeFieldPath {val v v' : Value τ} {i : ℕ} {path : List String}
    (h : writeFieldPath val i v path = .ok v') : v'.topLabel = v.topLabel := by
  obtain ⟨label, typeName, fields, fields', rfl, rfl⟩ := writeFieldPath_eq_ok h
  rfl

theorem length_unpackFields {typeName : String} {names : List String}
    {fields : List (String × Value τ)} {stack stack' : List (Value τ)}
    (h : unpackFields typeName names fields stack = .ok stack') :
    ∃ vs, vs.length = names.length ∧ stack' = vs ++ stack := by
  induction names generalizing fields stack with
  | nil => exact ⟨[], rfl, (Except.ok.inj h).symm⟩
  | cons name names ih =>
    simp only [unpackFields] at h
    split at h
    · rename_i v _
      obtain ⟨vs, hlen, rfl⟩ := ih h
      exact ⟨vs ++ [v], by simp [hlen], by simp⟩
    · cases h

theorem shape_of_literal {v : Value τ} (h : instr.literal = some v) :
    instr.pops = 0 ∧ instr.pushes = 1 ∧ instr.jumpOffset = none := by
  cases instr with
  | pushBool _ | pushU64 _ | pushAddress _ | pushStr _ => exact ⟨rfl, rfl, rfl⟩
  | _ => cases h

theorem shape_of_operator {op : Value τ → Value τ → Except VmError (Value τ)}
    (h : instr.operator = some op) :
    instr.pops = 2 ∧ instr.pushes = 1 ∧ instr.jumpOffset = none := by
  cases instr with
  | add | sub | mul | div | mod | eq | ne | lt | le | gt | ge | and | or => exact ⟨rfl, rfl, rfl⟩
  | _ => cases h

theorem shape_of_branch {b : Bool} {offset : ℤ} (h : instr.branch = some (b, offset)) :
    instr.pops = 1 ∧ instr.pushes = 0 ∧ instr.jumpOffset = some offset ∧
      instr ≠ .jump offset := by
  cases instr with
  | jumpIf _ | jumpIfNot _ =>
    obtain ⟨-, rfl⟩ := Prod.mk.inj (Option.some.inj h)
    exact ⟨rfl, rfl, rfl, nofun⟩
  | _ => cases h

/-- Every instruction that stays within its frame. -/
theorem executed_exec (hlocal : instr.isLocal = true)
    (hslot : ∀ slot, instr = .store slot → slot < fr.locals.length)
    (h : Frame.exec deps label fr instr = .ok fr') : fr.Executed fr' instr := by
  cases does_of_exec h with
  | @push _ v hv =>
    obtain ⟨hpops, hpushes, hjump⟩ := shape_of_literal hv
    exact executed_stack [] [v] fr.stack rfl hpops hpushes hjump
  | @move _ v hget _ =>
    refine ⟨⟨rfl, rfl, rfl⟩, Nat.zero_le _, ⟨[v], rfl, rfl⟩, fun _ => rfl, nofun, fun _ => ?_⟩
    exact slotsKept_set hget (by simp [SlotKept])
  | @copy _ v _ _ => exact executed_stack [] [v] fr.stack rfl rfl rfl rfl
  | @store slot v rest hstack _ =>
    refine ⟨⟨rfl, rfl, rfl⟩, ?_, ⟨[], rfl, ?_⟩, fun _ => rfl, nofun, fun hne => ?_⟩
    · simp [Instruction.pops, hstack]
    · simp [Instruction.pops, hstack]
    · exact absurd rfl (hne slot)
  | @loadField _ _ _ v _ _ => exact executed_stack [] [v] fr.stack rfl rfl rfl rfl
  | @storeField _ _ v root _ rest hstack hget hwrite =>
    refine ⟨⟨rfl, rfl, rfl⟩, ?_, ⟨[], rfl, ?_⟩, fun _ => rfl, nofun, fun _ => ?_⟩
    · simp [Instruction.pops, hstack]
    · simp [Instruction.pops, hstack]
    · refine slotsKept_set hget fun w hw => ?_
      obtain rfl := Option.some.inj hw
      exact ⟨root, rfl, topLabel_writeFieldPath hwrite⟩
  | @operate _ _ l r v rest hop hstack _ =>
    obtain ⟨hpops, hpushes, hjump⟩ := shape_of_operator hop
    exact executed_stack [r, l] [v] rest hstack hpops hpushes hjump
  | @not b rest hstack => exact executed_stack [_] [_] rest hstack rfl rfl rfl
  | @newStruct _ _ fieldNames _ hlen =>
    exact executed_stack (fr.stack.take fieldNames.length) [_] _ (List.take_append_drop _ _).symm
      (List.length_take_of_le hlen).symm rfl rfl
  | @getField _ _ _ _ _ rest hstack _ => exact executed_stack [_] [_] rest hstack rfl rfl rfl
  | @unpackStruct typeName _ fieldNames _ _ rest _ hstack hunpack =>
    obtain ⟨vs, hlen, rfl⟩ := length_unpackFields hunpack
    exact executed_stack [_] vs rest hstack rfl (by simpa [Instruction.pushes] using hlen.symm) rfl
  | @pop _ rest hstack => exact executed_stack [_] [] rest hstack rfl rfl rfl
  | @dup v rest hstack =>
    have hexec : fr.Executed { fr with stack := [v, v] ++ rest } .dup :=
      executed_stack [v] [v, v] rest hstack rfl rfl rfl
    rwa [show [v, v] ++ rest = v :: fr.stack by rw [hstack]; rfl] at hexec
  | @jump offset _ htarget =>
    refine ⟨⟨rfl, rfl, rfl⟩, Nat.zero_le _, ⟨[], rfl, rfl⟩, nofun, fun offset' hjump => ?_,
      fun _ => slotsKept_refl _⟩
    obtain rfl := Option.some.inj hjump
    exact .inr htarget
  | @taken _ _ offset _ rest hbranch hstack htarget =>
    obtain ⟨hpops, hpushes, hjump, -⟩ := shape_of_branch hbranch
    refine ⟨⟨rfl, rfl, rfl⟩, by simp [hpops, hstack], ⟨[], hpushes.symm, by simp [hpops, hstack]⟩,
      fun hnone => ?_, fun offset' hsome => ?_, fun _ => slotsKept_refl _⟩
    · rw [hjump] at hnone
      cases hnone
    · obtain rfl := Option.some.inj (hjump.symm.trans hsome)
      exact .inr htarget
  | @passed _ _ _ offset rest hbranch hstack =>
    obtain ⟨hpops, hpushes, hjump, hcond⟩ := shape_of_branch hbranch
    refine ⟨⟨rfl, rfl, rfl⟩, by simp [hpops, hstack], ⟨[], hpushes.symm, by simp [hpops, hstack]⟩,
      fun _ => rfl, fun offset' hsome => ?_, fun _ => slotsKept_refl _⟩
    obtain rfl := Option.some.inj (hjump.symm.trans hsome)
    exact .inl ⟨rfl, hcond⟩
  | @makeTuple n hlen =>
    exact executed_stack (fr.stack.take n) [_] _ (List.take_append_drop _ _).symm
      (List.length_take_of_le hlen).symm rfl rfl
  | @unpackTuple values rest hstack => exact executed_stack [_] values rest hstack rfl rfl rfl
  | leave hleaves => simp [hlocal] at hleaves

theorem load_eq_ok {slot : ℕ} (h : Frame.exec deps label fr (.load slot) = .ok fr') :
    ∃ v, fr.locals[slot]? = some (some v) ∧ fr'.stack = v :: fr.stack := by
  cases does_of_exec h with
  | move hslot _ | copy hslot _ => exact ⟨_, hslot, rfl⟩
  | push hv => cases hv
  | operate hop => cases hop
  | taken hbranch | passed hbranch => cases hbranch
  | leave hleaves => cases hleaves

theorem store_eq_ok {slot : ℕ} (hslot : slot < fr.locals.length)
    (h : Frame.exec deps label fr (.store slot) = .ok fr') :
    ∃ v, fr.stack = v :: fr'.stack ∧ fr'.locals = fr.locals.set slot (some v) := by
  have hroom : fr.roomFor slot = fr.locals := by simp [Frame.roomFor, Nat.sub_eq_zero_of_le hslot]
  cases does_of_exec h with
  | store hstack _ => exact ⟨_, hstack, by rw [hroom]⟩
  | push hv => cases hv
  | operate hop => cases hop
  | taken hbranch | passed hbranch => cases hbranch
  | leave hleaves => cases hleaves

theorem dup_eq_ok (h : Frame.exec deps label fr .dup = .ok fr') :
    ∃ v rest, fr.stack = v :: rest ∧ fr'.stack = v :: fr.stack := by
  cases does_of_exec h with
  | dup hstack => exact ⟨_, _, hstack, rfl⟩
  | push hv => cases hv
  | operate hop => cases hop
  | taken hbranch | passed hbranch => cases hbranch
  | leave hleaves => cases hleaves

/-- The activation stays the same, also when `Store` makes room for a new slot. -/
theorem sameActivation_exec (h : Frame.exec deps label fr instr = .ok fr') :
    fr.SameActivation fr' := by
  cases does_of_exec h <;> exact ⟨rfl, rfl, rfl⟩

end Machine

/-! ## The verifier -/

section Checked

variable {sc : Scope} {cfg : CompilerConfig} {pc : ℕ} {t : AbstractState} {instr : Instruction}

/-- An instruction that the verifier accepts in the state `t`. -/
structure Checked (cfg : CompilerConfig) (sc : Scope) (pc : ℕ) (t : AbstractState)
    (instr : Instruction) : Prop where
  slots : t.locals.length = sc.func.localCount
  structural : checkInstr sc.module sc.deps cfg sc.func pc instr = []
  accepted : (exec sc pc instr t).errors = []

/-- The verifier's effect changes the height by what the instruction pops and pushes. -/
def HeightOk (instr : Instruction) (t : AbstractState) (e : Verifier.Effect) : Prop :=
  instr.pops ≤ t.stack.length ∧
    e.state.stack.length + instr.pops = t.stack.length + instr.pushes

theorem Checked.slot (h : Checked cfg sc pc t instr) {slot : ℕ}
    (hcheck : checkSlot sc.func pc slot = []) : ∃ x, t.locals[slot]? = some x := by
  have hlt : slot < t.locals.length := by
    rw [h.slots]
    simpa [checkSlot] using hcheck
  exact ⟨_, List.getElem?_eq_getElem hlt⟩

theorem heightOk_push {ty : AbstractType} {errors : List VerificationError}
    (hpops : instr.pops = 0) (hpushes : instr.pushes = 1) :
    HeightOk instr t (goOn (t.push ty) errors) := by
  simp [HeightOk, goOn, AbstractState.push, hpops, hpushes]

theorem heightOk_binaryOp {fnName : String} {operand result : AbstractType}
    (h : (binaryOp fnName pc operand result t).errors = []) (hpops : instr.pops = 2)
    (hpushes : instr.pushes = 1) : HeightOk instr t (binaryOp fnName pc operand result t) := by
  obtain ⟨rest, hstack, heq⟩ := binaryOp_eq_nil h
  simp [HeightOk, heq, goOn, hstack, hpops, hpushes]

theorem heightOk_eqInstr {fnName : String} (h : (eqInstr fnName pc t).errors = [])
    (hpops : instr.pops = 2) (hpushes : instr.pushes = 1) :
    HeightOk instr t (eqInstr fnName pc t) := by
  unfold eqInstr at h ⊢
  split at h
  · rename_i r l rest hstack
    simp [HeightOk, goOn, hstack, hpops, hpushes]
  · cases h

theorem heightOk_jumpIf {fnName : String} {offset : ℤ}
    (h : (jumpIfInstr fnName pc offset t).errors = []) (hpops : instr.pops = 1)
    (hpushes : instr.pushes = 0) : HeightOk instr t (jumpIfInstr fnName pc offset t) := by
  obtain ⟨rest, hstack, -⟩ := popExpect_eq_nil h
  simp [HeightOk, jumpIfInstr, popExpect, hpops, hpushes, hstack]

theorem Checked.heightOk_loadField {slot : ℕ} {path : List String}
    (h : Checked cfg sc pc t (.loadField slot path)) :
    HeightOk (.loadField slot path) t (exec sc pc (.loadField slot path) t) := by
  obtain ⟨hslot, hpath⟩ := List.append_eq_nil_iff.mp h.structural
  obtain ⟨x, hx⟩ := h.slot hslot
  have haccepted := h.accepted
  simp only [exec, loadFieldInstr, hx] at haccepted ⊢
  split at haccepted
  · rename_i hnone
    cases hnone
  · cases haccepted
  · simp at hpath
  · exact heightOk_push rfl rfl

theorem Checked.heightOk_storeField {slot : ℕ} {path : List String}
    (h : Checked cfg sc pc t (.storeField slot path)) :
    HeightOk (.storeField slot path) t (exec sc pc (.storeField slot path) t) := by
  obtain ⟨hslot, -⟩ := List.append_eq_nil_iff.mp h.structural
  obtain ⟨x, hx⟩ := h.slot hslot
  have haccepted := h.accepted
  simp only [exec, storeFieldInstr, hx] at haccepted ⊢
  split at haccepted
  · cases haccepted
  · rename_i val rest hstack
    -- Whatever the target is, the value is popped and nothing is pushed.
    have hheight : ∀ errors, HeightOk (.storeField slot path) t
        (goOn { t with stack := rest } errors) := by
      intro errors
      simp [HeightOk, goOn, hstack, Instruction.pops, Instruction.pushes]
    split
    · exact hheight _
    · exact hheight _
    · split
      · split <;> exact hheight _
      · exact hheight _

theorem Checked.heightOk_structAccess {typeName : String} {fieldNames : List String}
    (h : Checked cfg sc pc t instr)
    (hinstr : instr = .newStruct typeName fieldNames ∨ instr = .unpackStruct typeName fieldNames) :
    HeightOk instr t (exec sc pc instr t) := by
  have haccepted := h.accepted
  rcases hinstr with rfl | rfl
  · obtain ⟨hparse, structDef, hdef, rfl⟩ := checkStructAccess_eq_nil h.structural
    simp only [exec, newStructInstr, hparse, Option.isSome_none, Bool.false_eq_true, if_false,
      hdef] at haccepted ⊢
    have hlen := congrArg List.length (popFields_eq_nil haccepted)
    simp only [List.length_append, List.length_map, List.length_reverse] at hlen
    simp only [HeightOk, goOn, Instruction.pops, Instruction.pushes, List.length_map,
      List.length_cons]
    omega
  · obtain ⟨hparse, structDef, hdef, rfl⟩ := checkStructAccess_eq_nil h.structural
    simp only [exec, unpackStructInstr, hparse, Option.isSome_none, Bool.false_eq_true, if_false,
      hdef] at haccepted ⊢
    split at haccepted
    · cases haccepted
    · rename_i ty rest hstack
      split at haccepted
      · rename_i hty
        simp only [hty, if_true, HeightOk, goOn, Instruction.pops, Instruction.pushes,
          List.length_append, List.length_map, hstack, List.length_cons]
        omega
      · cases haccepted

theorem Checked.heightOk_getField {field : String} (h : Checked cfg sc pc t (.getField field)) :
    HeightOk (.getField field) t (exec sc pc (.getField field) t) := by
  have haccepted := h.accepted
  simp only [exec, getFieldInstr] at haccepted ⊢
  split at haccepted
  · cases haccepted
  · rename_i typeName rest hstack
    simp [HeightOk, goOn, hstack, Instruction.pops, Instruction.pushes]
  · cases haccepted

theorem Checked.heightOk_tuple {n : ℕ} (h : Checked cfg sc pc t instr)
    (hinstr : instr = .makeTuple n ∨ instr = .unpackTuple n) :
    HeightOk instr t (exec sc pc instr t) := by
  have haccepted := h.accepted
  rcases hinstr with rfl | rfl
  · simp only [exec, makeTupleInstr] at haccepted ⊢
    split at haccepted
    · cases haccepted
    · rename_i hlen
      simp only [hlen, if_false, HeightOk, goOn, Instruction.pops, Instruction.pushes,
        List.length_cons, List.length_drop]
      omega
  · simp only [exec, unpackTupleInstr] at haccepted ⊢
    split at haccepted
    · cases haccepted
    · rename_i types rest hstack
      split at haccepted
      · rename_i hlen
        simp only [hlen, if_true, HeightOk, goOn, Instruction.pops, Instruction.pushes, hstack,
          List.length_append, List.length_cons]
        omega
      · cases haccepted
    · cases haccepted

/-- Every accepted instruction that stays within its frame. -/
theorem Checked.heightOk (h : Checked cfg sc pc t instr) (hlocal : instr.isLocal = true) :
    HeightOk instr t (exec sc pc instr t) := by
  have haccepted := h.accepted
  cases instr with
  | pushBool b | pushU64 n | pushAddress a | pushStr s => exact heightOk_push rfl rfl
  | load slot =>
    obtain ⟨x, hx⟩ := h.slot h.structural
    simp only [exec, loadInstr, hx] at haccepted ⊢
    cases x with
    | dead => cases haccepted
    | live ty => simp [HeightOk, goOn, Instruction.pops, Instruction.pushes]
  | store slot =>
    obtain ⟨x, hx⟩ := h.slot h.structural
    simp only [exec, storeInstr, hx] at haccepted ⊢
    split at haccepted
    · cases haccepted
    · rename_i ty rest hstack
      simp [HeightOk, goOn, hstack, Instruction.pops, Instruction.pushes]
  | loadField slot path => exact h.heightOk_loadField
  | storeField slot path => exact h.heightOk_storeField
  | add | sub | mul | div | mod | lt | le | gt | ge | and | or =>
    exact heightOk_binaryOp haccepted rfl rfl
  | eq | ne => exact heightOk_eqInstr haccepted rfl rfl
  | not =>
    obtain ⟨rest, hstack, -⟩ := popExpect_eq_nil haccepted
    simp [exec, notInstr, popExpect, HeightOk, goOn, hstack, Instruction.pops, Instruction.pushes]
  | newStruct typeName fieldNames => exact h.heightOk_structAccess (.inl rfl)
  | unpackStruct typeName fieldNames => exact h.heightOk_structAccess (.inr rfl)
  | getField field => exact h.heightOk_getField
  | pop =>
    simp only [exec, popInstr] at haccepted ⊢
    split at haccepted
    · cases haccepted
    · rename_i ty rest hstack
      simp [HeightOk, goOn, hstack, Instruction.pops, Instruction.pushes]
  | dup =>
    simp only [exec, dupInstr] at haccepted ⊢
    split at haccepted
    · cases haccepted
    · rename_i ty rest hstack
      split at haccepted
      · cases haccepted
      · rename_i hlinear
        simp [HeightOk, goOn, hlinear, AbstractState.push, hstack, Instruction.pops,
          Instruction.pushes]
  | jump offset => exact ⟨Nat.zero_le _, rfl⟩
  | jumpIf offset | jumpIfNot offset => exact heightOk_jumpIf haccepted rfl rfl
  | call name | ret => cases hlocal
  | makeTuple n => exact h.heightOk_tuple (.inl rfl)
  | unpackTuple n => exact h.heightOk_tuple (.inr rfl)

/-! ## Calls -/

/-- How many arguments the function or native called by `name` takes and whether it has a result,
as the verifier resolves the name. -/
def calleeArity (sc : Scope) (name : String) : Option (ℕ × Bool) :=
  match parseModuleRef name with
  | some (depAddr, fnName) =>
    (sc.deps[depAddr]?.bind (·.getFunction fnName)).map fun callee =>
      (callee.params.length, callee.returnType.isSome)
  | none =>
    match sc.module.getFunction name with
    | some callee => some (callee.params.length, callee.returnType.isSome)
    | none =>
      (sc.natives.find? (·.name == name)).map fun sig =>
        (sig.params.length, sig.returnType.isSome)

theorem returnAbstract_eq_void {ty : Option Ty} : returnAbstract ty = .void ↔ ty.isSome = false := by
  cases ty with
  | none => simp [returnAbstract]
  | some ty => cases ty <;> simp [returnAbstract, fromType]

/-- An accepted call takes its arguments from the stack and leaves one value, `Void` when there is
no result. -/
theorem Checked.call {name : String} (h : Checked cfg sc pc t (.call name)) :
    ∃ n result ty, calleeArity sc name = some (n, result) ∧ n ≤ t.stack.length ∧
      exec sc pc (.call name) t = goOn { t with stack := ty :: t.stack.drop n } [] ∧
      (ty = .void ↔ result = false) := by
  have haccepted := h.accepted
  simp only [exec, callInstr] at haccepted ⊢
  cases hparse : parseModuleRef name with
  | some r =>
    obtain ⟨depAddr, fnName⟩ := r
    simp only [hparse] at haccepted ⊢
    cases hbind : sc.deps[depAddr]?.bind (·.getFunction fnName) with
    | none =>
      rw [hbind] at haccepted
      cases haccepted
    | some callee =>
      simp only [hbind] at haccepted ⊢
      obtain ⟨hle, -, hdrop⟩ := popAndCheckParams_eq_nil haccepted
      rw [List.length_map] at hle hdrop
      refine ⟨callee.params.length, callee.returnType.isSome,
        returnAbstract (callee.returnType.map (qualifyType depAddr)), ?_, hle, ?_, ?_⟩
      · simp only [calleeArity, hparse, hbind, Option.map_some]
      · rw [hdrop, show (popAndCheckParams _ _ _ _ _).2 = [] from haccepted]
      · rw [returnAbstract_eq_void, Option.isSome_map]
  | none =>
    simp only [hparse] at haccepted ⊢
    cases hget : sc.module.getFunction name with
    | some callee =>
      simp only [hget] at haccepted ⊢
      obtain ⟨hle, -, hdrop⟩ := popAndCheckParams_eq_nil haccepted
      rw [List.length_map] at hle hdrop
      refine ⟨callee.params.length, callee.returnType.isSome, returnAbstract callee.returnType, ?_,
        hle, ?_, returnAbstract_eq_void⟩
      · simp only [calleeArity, hparse, hget]
      · rw [hdrop, show (popAndCheckParams _ _ _ _ _).2 = [] from haccepted]
    | none =>
      simp only [hget] at haccepted ⊢
      cases hfind : sc.natives.find? (·.name == name) with
      | none =>
        rw [hfind] at haccepted
        cases haccepted
      | some sig =>
        simp only [hfind] at haccepted ⊢
        obtain ⟨hle, hdrop⟩ := popNativeArgs_eq_nil haccepted
        refine ⟨sig.params.length, sig.returnType.isSome, returnAbstract sig.returnType, ?_, hle, ?_,
          returnAbstract_eq_void⟩
        · simp only [calleeArity, hparse, hget, hfind, Option.map_some]
        · rw [hdrop, show (popNativeArgs _ _ _ _).2 = [] from haccepted]

end Checked

/-- The scope in which `verify` checks a function of the module. -/
def functionScope (m : Module) (deps : DepMap) (sigs : List NativeSig) (f : Function) : Scope where
  func := f
  module := m
  deps
  natives := builtinNatives ++ sigs

theorem checked_of_certified {m : Module} {deps : DepMap} {sigs : List NativeSig}
    {cfg : CompilerConfig} (hverify : verify m deps sigs cfg = []) {f : Function}
    (hf : f ∈ m.functions) {pc : ℕ} {t : AbstractState}
    (hcert : Certified (functionScope m deps sigs f) pc t) {instr : Instruction}
    (hinstr : f.code[pc]? = some instr) :
    t.reachable = true ∧ Checked cfg (functionScope m deps sigs f) pc t instr := by
  obtain ⟨hmodule, hfunctions⟩ := verify_eq_nil hverify
  obtain ⟨hslots, hreach, herrors⟩ := certified_exec (functionScope m deps sigs f)
    (params_le_localCount hmodule hf) (hfunctions f hf) hcert hinstr
  exact ⟨hreach, hslots, checkInstr_of_checkModule hmodule hf hinstr, herrors⟩

theorem certified_succ {m : Module} {deps : DepMap} {sigs : List NativeSig} {cfg : CompilerConfig}
    (hverify : verify m deps sigs cfg = []) {f : Function} (hf : f ∈ m.functions) {pc : ℕ}
    {t : AbstractState} (hcert : Certified (functionScope m deps sigs f) pc t)
    {instr : Instruction} (hinstr : f.code[pc]? = some instr) (hret : instr ≠ .ret)
    (hjump : ∀ offset, instr ≠ .jump offset) :
    ∃ t', Certified (functionScope m deps sigs f) (pc + 1) t' ∧
      (exec (functionScope m deps sigs f) pc instr t).state.le t' := by
  obtain ⟨hmodule, hfunctions⟩ := verify_eq_nil hverify
  obtain ⟨hreach, -⟩ := checked_of_certified hverify hf hcert hinstr
  exact certified_next (functionScope m deps sigs f) (params_le_localCount hmodule hf)
    (hfunctions f hf) hcert hinstr ((exec_reachable _ pc hret hjump t).trans hreach)

theorem certified_target {m : Module} {deps : DepMap} {sigs : List NativeSig}
    {cfg : CompilerConfig} (hverify : verify m deps sigs cfg = []) {f : Function}
    (hf : f ∈ m.functions) {pc : ℕ} {t : AbstractState}
    (hcert : Certified (functionScope m deps sigs f) pc t) {instr : Instruction}
    (hinstr : f.code[pc]? = some instr) {offset : ℤ} (hoffset : instr.jumpOffset = some offset) :
    pc < ((pc : ℤ) + offset).toNat ∧
    ∃ t', Certified (functionScope m deps sigs f) ((pc : ℤ) + offset).toNat t' ∧
      (exec (functionScope m deps sigs f) pc instr t).state.le t' := by
  obtain ⟨hmodule, hfunctions⟩ := verify_eq_nil hverify
  obtain ⟨-, hchecked⟩ := checked_of_certified hverify hf hcert hinstr
  obtain ⟨hpos, hbound⟩ := checkJump_eq_nil (checkJump_of_checkInstr hoffset hchecked.structural)
  obtain ⟨hlocals, hedge⟩ := exec_jump (functionScope m deps sigs f) pc hoffset t
  rw [jumpEdge, if_pos hpos] at hedge
  have hforward : pc < ((pc : ℤ) + offset).toNat := by omega
  obtain ⟨t', hcert', hle⟩ := certified_jump (functionScope m deps sigs f)
    (params_le_localCount hmodule hf) (hfunctions f hf) hcert hinstr hedge hforward
    (by simp only [functionScope] at hbound ⊢; omega)
  exact ⟨hforward, t', hcert', hle.1, hlocals ▸ hle.2⟩

end MeowChain
