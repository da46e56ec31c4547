import MeowChain.Vm.Machine

/-!
# What a step of the machine can do

A step that does not end the run executes an instruction within its frame, enters a function,
calls a native function or returns to a caller.
-/

set_option autoImplicit false

namespace MeowChain

variable {τ σ : Type}

def Frame.next (fr : Frame τ) : Frame τ :=
  { fr with pc := fr.pc + 1 }

def Frame.current (fr : Frame τ) : Option Instruction :=
  fr.function.code[fr.pc]?

def Instruction.isLocal : Instruction → Bool
  | .call _ | .ret => false
  | _ => true

/-- A call of `name` from the frame enters the function `callee` of the module `context`. -/
structure Vm.Calls (vm : Vm σ) (fr : Frame τ) (name : String) (context : Module)
    (contextAddr : Address) (callee : Function) : Prop where
  resolved : (∃ fnName, parseModuleRef name = some (contextAddr, fnName) ∧
      vm.deps[contextAddr]? = some context ∧ callee.isPublic = true ∧
      context.getFunction fnName = some callee) ∨
    (parseModuleRef name = none ∧ context = fr.context ∧ contextAddr = fr.contextAddr ∧
      context.getFunction name = some callee)
  argCount : callee.params.length ≤ fr.stack.length

def Vm.nativeCall (vm : Vm σ) (fr : Frame τ) : Option (NativeFnEntry σ) :=
  match fr.current with
  | some (.call name) =>
    if (parseModuleRef name).isNone && (fr.context.getFunction name).isNone then vm.getNative name
    else none
  | _ => none

def Frame.args (fr : Frame τ) (n : ℕ) : List (Value τ) :=
  (fr.stack.take n).reverse

theorem args_erase (fr : Frame Unit) (n : ℕ) : (fr.args n).map Value.erase = fr.args n :=
  (List.map_congr_left fun v _ => erase_unit v).trans (List.map_id _)

/-- The frame after the current instruction, with its `n` arguments popped and `v` pushed. -/
def Frame.replaceArgs (fr : Frame τ) (n : ℕ) (v : Value τ) : Frame τ :=
  { fr.next with stack := v :: fr.stack.drop n }

inductive Vm.Moves (vm : Vm σ) (tok : ℕ → τ) (s : State τ σ) : State τ σ → Prop
  | exec {instr : Instruction} {fr' : Frame τ} {gas : GasMeter}
      (hinstr : s.frame.current = some instr) (hlocal : instr.isLocal = true)
      (hexec : Frame.exec vm.deps (tok s.nextLabel) s.frame.next instr = .ok fr') :
      Moves vm tok s { s with frame := fr', gas, nextLabel := s.nextLabel + 1 }
  | call {name : String} {context : Module} {contextAddr : Address} {callee : Function}
      {gas : GasMeter} (hinstr : s.frame.current = some (.call name))
      (hcalls : vm.Calls s.frame name context contextAddr callee)
      (hdepth : s.callers.length + 1 < vm.config.maxCallDepth) :
      Moves vm tok s { s with
        frame := Frame.new context contextAddr callee (s.frame.args callee.params.length)
        callers := { s.frame.next with stack := s.frame.stack.drop callee.params.length } :: s.callers
        gas }
  | native {entry : NativeFnEntry σ} {v : Option (Value Unit)} {gas : GasMeter} {ctx : σ}
      (hnative : vm.nativeCall s.frame = some entry)
      (hargs : entry.params.length ≤ s.frame.stack.length)
      (hfunc : entry.func s.ctx ((s.frame.args entry.params.length).map Value.erase) = (.ret v, ctx))
      (hqualified : (v.map checkStructQualified).getD true = true) :
      Moves vm tok s { s with
        frame := s.frame.replaceArgs entry.params.length ((v.getD .void).label tok s.nextLabel).1
        gas
        ctx
        nextLabel := ((v.getD .void).label tok s.nextLabel).2 }
  | ret {caller : Frame τ} {callers : List (Frame τ)} {gas : GasMeter}
      (hinstr : s.frame.current = some .ret ∨ s.frame.current = none)
      (hcallers : s.callers = caller :: callers) :
      Moves vm tok s { s with frame := caller.push (s.frame.stack.head?.getD .void), callers, gas }

section Inversion

variable {vm : Vm σ} {tok : ℕ → τ} {s s' : State τ σ}

theorem execInstr_ok {instr : Instruction} {fr' : Frame τ} (hlocal : instr.isLocal = true)
    (h : Frame.exec vm.deps (tok s.nextLabel) s.frame instr = .ok fr') :
    vm.execInstr tok s instr = .next { s with frame := fr', nextLabel := s.nextLabel + 1 } := by
  cases instr with
  | call name | ret => cases hlocal
  | _ => simp only [Vm.execInstr, h]

theorem execInstr_error {instr : Instruction} {e : VmError} (hlocal : instr.isLocal = true)
    (h : Frame.exec vm.deps (tok s.nextLabel) s.frame instr = .error e) :
    vm.execInstr tok s instr = s.fail e := by
  cases instr with
  | call name | ret => cases hlocal
  | _ => simp only [Vm.execInstr, h]

theorem popArgs_eq_ok {n : ℕ} {stack : List (Value τ)} {r : List (Value τ) × List (Value τ)}
    (h : popArgs n stack = .ok r) :
    n ≤ stack.length ∧ r = ((stack.take n).reverse, stack.drop n) := by
  unfold popArgs at h
  split at h
  · rename_i hn
    exact ⟨hn, (Except.ok.inj h).symm⟩
  · cases h

theorem enter_eq_ok {maxCallDepth depth : ℕ} {context : Module} {contextAddr : Address}
    {fnName : String} {args : List (Value τ)} {fr : Frame τ}
    (h : Vm.enter maxCallDepth depth context contextAddr fnName args = .ok fr) :
    depth < maxCallDepth ∧ ∃ function, context.getFunction fnName = some function ∧
      args.length ≤ function.localCount ∧ fr = Frame.new context contextAddr function args := by
  unfold Vm.enter at h
  split at h
  · cases h
  · rename_i hdepth
    split at h
    · cases h
    · rename_i function hget
      split at h
      · cases h
      · rename_i hlen
        exact ⟨Nat.not_le.mp hdepth, function, hget, Nat.not_lt.mp hlen,
          (Except.ok.inj h).symm⟩

theorem invoke_eq_next {context : Module} {contextAddr : Address} {fnName : String}
    {callee : Function} (hget : context.getFunction fnName = some callee)
    (h : vm.invoke s context contextAddr fnName callee.params.length = .next s') :
    s.callers.length + 1 < vm.config.maxCallDepth ∧
    callee.params.length ≤ s.frame.stack.length ∧ s' = { s with
      frame := Frame.new context contextAddr callee (s.frame.args callee.params.length)
      callers := { s.frame with stack := s.frame.stack.drop callee.params.length } :: s.callers } := by
  unfold Vm.invoke at h
  split at h
  · cases h
  · rename_i args rest hpop
    obtain ⟨hlen, hpair⟩ := popArgs_eq_ok hpop
    obtain ⟨rfl, rfl⟩ := Prod.mk.inj hpair
    split at h
    · cases h
    · rename_i frame henter
      obtain ⟨hdepth, function, hfunction, -, rfl⟩ := enter_eq_ok henter
      obtain rfl := Option.some.inj (hget.symm.trans hfunction)
      exact ⟨hdepth, hlen, (StepResult.next.inj h).symm⟩

/-- The first state of a call: an activation of the function, with the labelled arguments. -/
theorem start_eq_next {fnName : String} {args : List (Value Unit)} {gas : GasMeter} {ctx : σ}
    (h : vm.start tok fnName args gas ctx = .next s) :
    0 < vm.config.maxCallDepth ∧ ∃ function, vm.module.getFunction fnName = some function ∧
      (Value.labelList tok 0 args).1.length ≤ function.localCount ∧
      s = { frame := Frame.new vm.module vm.moduleAddr function (Value.labelList tok 0 args).1
            callers := []
            gas
            ctx
            nextLabel := (Value.labelList tok 0 args).2 } := by
  unfold Vm.start at h
  dsimp only at h
  split at h
  · cases h
  · split at h
    · cases h
    · split at h
      · cases h
      · split at h
        · cases h
        · split at h
          · cases h
          · split at h
            · cases h
            · rename_i frame henter
              obtain ⟨hdepth, function, hget, hlen, rfl⟩ := enter_eq_ok henter
              exact ⟨hdepth, function, hget, hlen, (StepResult.next.inj h).symm⟩

theorem callNative_eq_next {entry : NativeFnEntry σ} (h : Vm.callNative tok s entry = .next s') :
    ∃ v ctx gas, entry.params.length ≤ s.frame.stack.length ∧
      entry.func s.ctx ((s.frame.args entry.params.length).map Value.erase) = (.ret v, ctx) ∧
      (v.map checkStructQualified).getD true = true ∧ s' = { s with
        frame := { s.frame with
          stack := ((v.getD .void).label tok s.nextLabel).1 :: s.frame.stack.drop entry.params.length }
        gas
        ctx
        nextLabel := ((v.getD .void).label tok s.nextLabel).2 } := by
  unfold Vm.callNative at h
  split at h
  · cases h
  · rename_i gas _
    split at h
    · cases h
    · rename_i args rest hpop
      obtain ⟨hlen, hpair⟩ := popArgs_eq_ok hpop
      obtain ⟨rfl, rfl⟩ := Prod.mk.inj hpair
      split at h
      · rename_i v ctx hfunc
        split at h
        · rename_i hqualified
          exact ⟨v, ctx, gas, hlen, hfunc, hqualified, (StepResult.next.inj h).symm⟩
        · cases h
      · cases h
      · cases h

theorem moves_of_execCall {name : String} {gas : GasMeter}
    (hinstr : s.frame.current = some (.call name))
    (h : vm.execCall tok { s with gas, frame := s.frame.next } name = .next s') :
    vm.Moves tok s s' := by
  unfold Vm.execCall at h
  cases hparse : parseModuleRef name with
  | some r =>
    obtain ⟨depAddr, fnName⟩ := r
    simp only [hparse] at h
    split at h
    · cases h
    · rename_i dep hdep
      split at h
      · cases h
      · rename_i callee hget
        split at h
        · rename_i hpublic
          obtain ⟨hdepth, hlen, rfl⟩ := invoke_eq_next hget h
          exact .call hinstr ⟨.inl ⟨fnName, hparse, hdep, hpublic, hget⟩, hlen⟩ hdepth
        · cases h
  | none =>
    simp only [hparse] at h
    cases hget : s.frame.context.getFunction name with
    | some callee =>
      have hget' : s.frame.next.context.getFunction name = some callee := hget
      simp only [hget'] at h
      obtain ⟨hdepth, hlen, rfl⟩ := invoke_eq_next hget' h
      exact .call hinstr ⟨.inr ⟨hparse, rfl, rfl, hget⟩, hlen⟩ hdepth
    | none =>
      have hget' : s.frame.next.context.getFunction name = none := hget
      simp only [hget'] at h
      split at h
      · rename_i entry hentry
        obtain ⟨v, ctx, gas', hlen, hfunc, hqualified, rfl⟩ := callNative_eq_next h
        exact .native (by simp [Vm.nativeCall, hinstr, hparse, hget, hentry]) hlen hfunc hqualified
      · cases h

theorem moves_of_leave (gas : GasMeter) (fr : Frame τ) (hstack : fr.stack = s.frame.stack)
    (hinstr : s.frame.current = some .ret ∨ s.frame.current = none)
    (h : Vm.leave { s with gas, frame := fr } = .next s') : vm.Moves tok s s' := by
  unfold Vm.leave at h
  split at h
  · cases h
  · rename_i caller callers hcallers
    obtain rfl := StepResult.next.inj h
    simp only [hstack]
    exact .ret hinstr hcallers

/-- Everything a step can do, short of ending the run. -/
theorem moves_of_step (h : vm.step tok s = .next s') : vm.Moves tok s s' := by
  unfold Vm.step at h
  cases hinstr : s.frame.current with
  | none =>
    have hnone : s.frame.function.code[s.frame.pc]? = none := hinstr
    rw [hnone] at h
    exact moves_of_leave s.gas s.frame rfl (.inr hinstr) h
  | some instr =>
    have hsome : s.frame.function.code[s.frame.pc]? = some instr := hinstr
    simp only [hsome] at h
    split at h
    · cases h
    · cases instr with
      | call name => exact moves_of_execCall hinstr h
      | ret => exact moves_of_leave _ s.frame.next rfl (.inl hinstr) h
      | _ =>
        simp only [Vm.execInstr] at h
        split at h
        · rename_i fr' hexec
          obtain rfl := StepResult.next.inj h
          exact .exec hinstr rfl hexec
        · cases h

theorem Vm.Calls.nativeCall_eq_none {fr : Frame τ} {name : String} {context : Module}
    {contextAddr : Address} {callee : Function} (hinstr : fr.current = some (.call name))
    (h : vm.Calls fr name context contextAddr callee) : vm.nativeCall fr = none := by
  rcases h.resolved with ⟨fnName, hparse, -⟩ | ⟨-, rfl, -, hget⟩
  · simp [Vm.nativeCall, hinstr, hparse]
  · simp [Vm.nativeCall, hinstr, hget]

theorem exists_current_of_nativeCall {fr : Frame τ} {entry : NativeFnEntry σ}
    (h : vm.nativeCall fr = some entry) : ∃ name, fr.current = some (.call name) := by
  unfold Vm.nativeCall at h
  split at h
  · rename_i name hcall
    exact ⟨name, hcall⟩
  · cases h

theorem nativeCall_of_isLocal {fr : Frame τ} {instr : Instruction}
    (hinstr : fr.current = some instr) (hlocal : instr.isLocal = true) :
    vm.nativeCall fr = none := by
  cases instr with
  | call name => cases hlocal
  | _ => simp [Vm.nativeCall, hinstr]

end Inversion

end MeowChain
