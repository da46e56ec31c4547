import MeowChain.Lib.Pairwise
import MeowChain.Verifier.AbstractInterpretation

/-!
# What acceptance by the verifier certifies

The walk of `check_function` is a forward pass in the sense of `ForwardFlow`. A function without
errors therefore comes with a state for every position a path reaches, and these states are closed
under the successors of every instruction.
-/

set_option autoImplicit false

namespace MeowChain.Verifier

/-- A slot may only be forgotten, and only when it holds no live linear value. -/
def SlotState.le (a b : SlotState) : Prop :=
  a = b ∨ (b = .dead ∧ a.isLinear = false)

theorem SlotState.le_refl (a : SlotState) : a.le a :=
  .inl rfl

theorem SlotState.le.trans {a b c : SlotState} (hab : a.le b) (hbc : b.le c) : a.le c := by
  rcases hab with rfl | ⟨rfl, ha⟩
  · exact hbc
  · rcases hbc with rfl | ⟨rfl, -⟩ <;> exact .inr ⟨rfl, ha⟩

def AbstractState.le (s t : AbstractState) : Prop :=
  s.stack = t.stack ∧ List.Forall₂ SlotState.le s.locals t.locals

theorem AbstractState.le_refl (s : AbstractState) : s.le s :=
  ⟨rfl, List.forall₂_same.mpr fun a _ => a.le_refl⟩

theorem AbstractState.le_trans {s t u : AbstractState} (hst : s.le t) (htu : t.le u) : s.le u :=
  ⟨hst.1.trans htu.1, forall₂_comp (fun hxy hyz => hxy.trans hyz) hst.2 htu.2⟩

theorem mergeSlots_spec {fnName : String} {joinPc slot : ℕ} {as bs cs : List SlotState}
    (hlen : as.length = bs.length) (h : mergeSlots fnName joinPc slot as bs = .ok cs) :
    List.Forall₂ SlotState.le as cs ∧ List.Forall₂ SlotState.le bs cs := by
  induction as generalizing slot bs cs with
  | nil =>
    obtain rfl : bs = [] := List.length_eq_zero_iff.mp hlen.symm
    obtain rfl : [] = cs := by simpa [mergeSlots] using h
    exact ⟨.nil, .nil⟩
  | cons a as ih =>
    cases bs with
    | nil => cases hlen
    | cons b bs =>
      have htail : ∀ {ds}, mergeSlots fnName joinPc (slot + 1) as bs = .ok ds →
          List.Forall₂ SlotState.le as ds ∧ List.Forall₂ SlotState.le bs ds :=
        ih (by simpa using hlen)
      simp only [mergeSlots, bind, Except.bind] at h
      by_cases hab : a = b
      · subst hab
        simp only [if_true] at h
        split at h
        · cases h
        · rename_i ds hds
          obtain rfl := Except.ok.inj h
          obtain ⟨has, hbs⟩ := htail hds
          exact ⟨.cons a.le_refl has, .cons a.le_refl hbs⟩
      · simp only [hab, if_false] at h
        cases ha : a.isLinear <;> cases hb : b.isLinear <;> simp [ha, hb] at h
        -- Only the divergence of two non-linear slots is left.
        split at h
        · cases h
        · rename_i ds hds
          obtain rfl := Except.ok.inj h
          obtain ⟨has, hbs⟩ := htail hds
          exact ⟨.cons (.inr ⟨rfl, ha⟩) has, .cons (.inr ⟨rfl, hb⟩) hbs⟩

/-- The ways a merge can succeed. -/
theorem merge_cases {fnName : String} {s t u : AbstractState} {pc : ℕ}
    (h : merge fnName s t pc = (some u, [])) :
    (t.reachable = false ∧ u = s) ∨ (t.reachable = true ∧ s.reachable = false ∧ u = t) ∨
    (t.reachable = true ∧ s.reachable = true ∧ s.stack = t.stack ∧ u.stack = s.stack ∧
      u.reachable = s.reachable ∧ mergeSlots fnName pc 0 s.locals t.locals = .ok u.locals) := by
  unfold merge at h
  split at h
  · rename_i ht
    simp only [Prod.mk.injEq, Option.some.injEq, and_true] at h
    exact .inl ⟨by simpa using ht, h.symm⟩
  · rename_i ht
    split at h
    · rename_i hs
      simp only [Prod.mk.injEq, Option.some.injEq, and_true] at h
      exact .inr (.inl ⟨by simpa using ht, by simpa using hs, h.symm⟩)
    · rename_i hs
      split at h
      · cases h
      · rename_i hstack
        split at h
        · rename_i locals hlocals
          simp only [Prod.mk.injEq, Option.some.injEq, and_true] at h
          subst h
          exact .inr (.inr ⟨by simpa using ht, by simpa using hs, not_not.mp hstack, rfl, rfl,
            hlocals⟩)
        · cases h

theorem merge_none (fnName : String) (s t : AbstractState) (pc : ℕ) :
    merge fnName s t pc ≠ (none, []) := by
  unfold merge
  split
  · simp
  · split
    · simp
    · split
      · simp
      · split <;> simp

def Straight (s : AbstractState) (e : Effect) : Prop :=
  ∃ s' errors, s'.locals.length = s.locals.length ∧ s'.reachable = s.reachable ∧ e = goOn s' errors

theorem straight_goOn {s s' : AbstractState} {errors : List VerificationError}
    (hlen : s'.locals.length = s.locals.length) (hreach : s'.reachable = s.reachable) :
    Straight s (goOn s' errors) :=
  ⟨s', errors, hlen, hreach, rfl⟩

theorem straight_ite {s : AbstractState} {c : Prop} [Decidable c] {e e' : Effect}
    (he : Straight s e) (he' : Straight s e') : Straight s (if c then e else e') := by
  split
  · exact he
  · exact he'

theorem straight_callInstr (sc : Scope) (pc : ℕ) (name : String) (s : AbstractState) :
    Straight s (callInstr sc pc name s) := by
  unfold callInstr
  split
  · split <;> exact straight_goOn rfl rfl
  · split
    · exact straight_goOn rfl rfl
    · split <;> exact straight_goOn rfl rfl

theorem straight_storeFieldInstr (fnName : String) (module : Module) (pc slot : ℕ)
    (path : List String) (s : AbstractState) :
    Straight s (storeFieldInstr fnName module pc slot path s) := by
  unfold storeFieldInstr
  split
  · exact straight_goOn rfl rfl
  · split
    · exact straight_goOn rfl rfl
    · split
      · exact straight_goOn rfl rfl
      · exact straight_goOn rfl rfl
      · split
        · exact straight_ite (straight_goOn rfl rfl) (straight_goOn rfl rfl)
        · exact straight_goOn rfl rfl

theorem straight_unpackStructInstr (fnName : String) (module : Module) (pc : ℕ)
    (typeName : String) (fieldNames : List String) (s : AbstractState) :
    Straight s (unpackStructInstr fnName module pc typeName fieldNames s) := by
  unfold unpackStructInstr
  refine straight_ite (straight_goOn rfl rfl) ?_
  split
  · exact straight_goOn rfl rfl
  · refine straight_ite ?_ (straight_goOn rfl rfl)
    split <;> exact straight_goOn rfl rfl

theorem straight_exec (sc : Scope) (pc : ℕ) {instr : Instruction} (hjump : instr.jumpOffset = none)
    (hret : instr ≠ .ret) (s : AbstractState) : Straight s (exec sc pc instr s) := by
  cases instr with
  | load slot =>
    simp only [exec, loadInstr]
    split
    · exact straight_goOn rfl rfl
    · exact straight_goOn rfl rfl
    · refine straight_goOn ?_ rfl
      dsimp only
      split
      · exact List.length_set
      · rfl
  | store slot =>
    simp only [exec, storeInstr]
    split
    · exact straight_goOn rfl rfl
    · split
      · exact straight_goOn rfl rfl
      · exact straight_goOn List.length_set rfl
  | loadField slot path =>
    simp only [exec, loadFieldInstr]
    split <;> exact straight_goOn rfl rfl
  | storeField slot path => exact straight_storeFieldInstr _ _ _ _ _ _
  | call name => exact straight_callInstr sc pc name s
  | unpackStruct typeName fieldNames => exact straight_unpackStructInstr _ _ _ _ _ _
  | newStruct typeName fieldNames =>
    simp only [exec, newStructInstr]
    refine straight_ite (straight_goOn rfl rfl) ?_
    split <;> exact straight_goOn rfl rfl
  | getField fieldName =>
    simp only [exec, getFieldInstr]
    split <;> exact straight_goOn rfl rfl
  | makeTuple n => exact straight_ite (straight_goOn rfl rfl) (straight_goOn rfl rfl)
  | unpackTuple n =>
    simp only [exec, unpackTupleInstr]
    split
    · exact straight_goOn rfl rfl
    · exact straight_ite (straight_goOn rfl rfl) (straight_goOn rfl rfl)
    · exact straight_goOn rfl rfl
  | pop =>
    simp only [exec, popInstr]
    split <;> exact straight_goOn rfl rfl
  | dup =>
    simp only [exec, dupInstr]
    split
    · exact straight_goOn rfl rfl
    · exact straight_ite (straight_goOn rfl rfl) (straight_goOn rfl rfl)
  | eq | ne =>
    simp only [exec, eqInstr]
    split <;> exact straight_goOn rfl rfl
  | jump offset | jumpIf offset | jumpIfNot offset => cases hjump
  | ret => exact absurd rfl hret
  | _ => exact straight_goOn rfl rfl

theorem exec_jump (sc : Scope) (pc : ℕ) {instr : Instruction} {offset : ℤ}
    (hjump : instr.jumpOffset = some offset) (s : AbstractState) :
    (exec sc pc instr s).state.locals = s.locals ∧
    (exec sc pc instr s).jump
      = jumpEdge pc offset { s with stack := (exec sc pc instr s).state.stack } := by
  cases instr with
  | jump o | jumpIf o | jumpIfNot o =>
    obtain rfl := Option.some.inj hjump
    exact ⟨rfl, rfl⟩
  | _ => cases hjump

/-- Control goes on after every instruction but `Return` and an unconditional jump. -/
theorem exec_reachable (sc : Scope) (pc : ℕ) {instr : Instruction} (hret : instr ≠ .ret)
    (hjump : ∀ offset, instr ≠ .jump offset) (s : AbstractState) :
    (exec sc pc instr s).state.reachable = s.reachable := by
  cases hoffset : instr.jumpOffset with
  | none =>
    obtain ⟨s', errors, -, hreach, he⟩ := straight_exec sc pc hoffset hret s
    rw [he]
    exact hreach
  | some offset =>
    cases instr with
    | jump o => exact absurd rfl (hjump o)
    | jumpIf o | jumpIfNot o => rfl
    | _ => cases hoffset

theorem exec_locals_length (sc : Scope) (pc : ℕ) (instr : Instruction) (s : AbstractState) :
    (exec sc pc instr s).state.locals.length = s.locals.length := by
  cases hjump : instr.jumpOffset with
  | none =>
    by_cases hret : instr = .ret
    · subst hret
      rfl
    · obtain ⟨s', errors, hlen, -, he⟩ := straight_exec sc pc hjump hret s
      rw [he]
      exact hlen
  | some offset => rw [(exec_jump sc pc hjump s).1]

theorem exec_jump_eq_some {sc : Scope} {pc : ℕ} {instr : Instruction} {s s' : AbstractState}
    {target : ℕ} (h : (exec sc pc instr s).jump = some (target, s')) :
    s'.locals = s.locals ∧ s'.reachable = s.reachable ∧
    ∃ offset : ℤ, instr.jumpOffset = some offset ∧ 0 < offset ∧
      target = ((pc : ℤ) + offset).toNat := by
  cases hjump : instr.jumpOffset with
  | none =>
    by_cases hret : instr = .ret
    · subst hret
      cases h
    · obtain ⟨t, errors, -, -, he⟩ := straight_exec sc pc hjump hret s
      rw [he] at h
      cases h
  | some offset =>
    have he := (exec_jump sc pc hjump s).2
    simp only [he, jumpEdge, Option.ite_none_right_eq_some, Option.some.injEq,
      Prod.mk.injEq] at h
    obtain ⟨hoffset, rfl, rfl⟩ := h
    exact ⟨rfl, rfl, offset, rfl, hoffset, rfl⟩

/-- The walk over a function meets the laws of a forward pass. -/
def laws (sc : Scope) : (pass sc).Laws sc.func.code where
  Good _ s := s.locals.length = sc.func.localCount
  le := AbstractState.le
  le_refl := AbstractState.le_refl
  le_trans := AbstractState.le_trans
  merge_good := by
    intro s t u pc hs ht _ h
    rcases merge_cases h with ⟨-, rfl⟩ | ⟨-, -, rfl⟩ | ⟨-, -, -, -, -, hslots⟩
    · exact hs
    · exact ht
    · exact (mergeSlots_spec (hs.trans ht.symm) hslots).1.length_eq.symm.trans hs
  merge_left := by
    intro s t u pc hs ht _ h hreach
    rcases merge_cases h with ⟨-, rfl⟩ | ⟨-, hs', -⟩ | ⟨-, -, -, hstack, hreach', hslots⟩
    · exact ⟨hreach, AbstractState.le_refl _⟩
    · exact absurd hreach (by simp [pass, hs'])
    · exact ⟨hreach'.trans hreach, hstack.symm, (mergeSlots_spec (hs.trans ht.symm) hslots).1⟩
  merge_right := by
    intro s t u pc hs ht hreach h
    rcases merge_cases h with ⟨ht', -⟩ | ⟨-, -, rfl⟩ | ⟨-, hs', hst, hstack, hreach', hslots⟩
    · exact absurd hreach (by simp [pass, ht'])
    · exact ⟨hreach, AbstractState.le_refl _⟩
    · exact ⟨hreach'.trans hs', (hstack.trans hst).symm,
        (mergeSlots_spec (hs.trans ht.symm) hslots).2⟩
  merge_none := merge_none sc.func.name
  exec_good {pc instr s} _ _ hs _ := (exec_locals_length sc pc instr s).trans hs
  jump_good {pc instr s target s'} _ hreach hs _ hjump := by
    obtain ⟨hlocals, hreach', -⟩ := exec_jump_eq_some hjump
    exact ⟨hlocals ▸ hs, hreach'.trans hreach⟩
  dead_good _ hs := hs

theorem initialState_good {func : Function} (h : func.params.length ≤ func.localCount) :
    (initialState func).locals.length = func.localCount := by
  simp [initialState]
  omega

/-- `check_function` holds `s` when it comes to the instruction at `pc`. -/
structure Certified (sc : Scope) (pc : ℕ) (s : AbstractState) : Prop where
  inCode : pc < sc.func.code.length
  state : stateAt sc pc = some s

section Certified

variable (sc : Scope) (hparams : sc.func.params.length ≤ sc.func.localCount)
variable (haccepted : checkFunction sc = [])
include hparams haccepted

theorem run_errors_eq_nil :
    ((pass sc).run (initialState sc.func) sc.func.code).errors = [] ∧
    checkEnd sc.func ((pass sc).run (initialState sc.func) sc.func.code) = [] := by
  simp only [checkFunction, Nat.not_lt.mpr hparams, if_false, List.append_eq_nil_iff] at haccepted
  exact haccepted

/-- No path runs off the end: nothing is pending there and the last state is unreachable. -/
theorem no_path_to_end :
    ((pass sc).run (initialState sc.func) sc.func.code).pending[sc.func.code.length]? = none ∧
    ((pass sc).run (initialState sc.func) sc.func.code).cur.reachable = false := by
  have hend := (run_errors_eq_nil sc hparams haccepted).2
  unfold checkEnd at hend
  split at hend
  · cases hend
  · rename_i hnone
    exact ⟨hnone, report_eq_nil.mp hend⟩

theorem certified_entry : Certified sc 0 (initialState sc.func) := by
  refine ⟨?_, ForwardFlow.Pass.stateAt_zero rfl⟩
  by_contra hlen
  have hcode : sc.func.code = [] := List.length_eq_zero_iff.mp (by omega)
  have hcur := (no_path_to_end sc hparams haccepted).2
  simp [hcode, ForwardFlow.Pass.run, ForwardFlow.Pass.runFrom, ForwardFlow.Pass.start,
    initialState] at hcur

variable {pc : ℕ} {s : AbstractState} {instr : Instruction}
variable (hs : Certified sc pc s) (hinstr : sc.func.code[pc]? = some instr)
include hs hinstr

theorem certified_exec :
    s.locals.length = sc.func.localCount ∧ s.reachable = true ∧ (exec sc pc instr s).errors = [] := by
  have hrun := (run_errors_eq_nil sc hparams haccepted).1
  obtain ⟨hgood, hreach, herrors, -⟩ :=
    ForwardFlow.Pass.stateAt_spec (laws sc) (initialState_good hparams) hrun hinstr hs.state
  exact ⟨hgood, hreach, herrors⟩

theorem certified_next (hreach : (exec sc pc instr s).state.reachable = true) :
    ∃ s', Certified sc (pc + 1) s' ∧ (exec sc pc instr s).state.le s' := by
  have hrun := (run_errors_eq_nil sc hparams haccepted).1
  have hgood := initialState_good hparams
  have hlast : pc + 1 ≠ sc.func.code.length := by
    intro hlast
    have hcur := ForwardFlow.Pass.run_cur_of_last (laws sc) hgood hrun hinstr hs.state hlast
    have hend := (no_path_to_end sc hparams haccepted).2
    rw [hcur] at hend
    exact absurd (hreach.symm.trans hend) (by simp)
  have hlen : pc + 1 < sc.func.code.length := by
    have := hs.inCode
    omega
  obtain ⟨s', hs', -, hle⟩ :=
    ForwardFlow.Pass.below_stateAt_succ (laws sc) hgood hrun hinstr hs.state hlen hreach
  exact ⟨s', ⟨hlen, hs'⟩, hle⟩

theorem certified_jump {target : ℕ} {s' : AbstractState}
    (hjump : (exec sc pc instr s).jump = some (target, s')) (hforward : pc < target)
    (hbound : target ≤ sc.func.code.length) :
    ∃ s'', Certified sc target s'' ∧ s'.le s'' := by
  have hrun := (run_errors_eq_nil sc hparams haccepted).1
  have hgood := initialState_good hparams
  have hlast : target ≠ sc.func.code.length := by
    rintro rfl
    obtain ⟨t, ht, -⟩ :=
      ForwardFlow.Pass.below_run_pending (laws sc) hgood hrun hinstr hs.state hjump le_rfl
    rw [(no_path_to_end sc hparams haccepted).1] at ht
    cases ht
  have hlen : target < sc.func.code.length := by omega
  obtain ⟨s'', hs'', -, hle⟩ :=
    ForwardFlow.Pass.below_stateAt_jump (laws sc) hgood hrun hinstr hs.state hjump hforward hlen
  exact ⟨s'', ⟨hlen, hs''⟩, hle⟩

end Certified

end MeowChain.Verifier
