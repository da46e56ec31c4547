import MeowChain.Vm.Steps

/-!
# Whole calls

`Vm::call` goes on until the call ends. The model allows as many turns as the gas can pay for, and
as many as code without loops can take within the call depth.
-/

set_option autoImplicit false

namespace MeowChain

variable {τ σ : Type}

def Vm.modules (vm : Vm σ) : List Module :=
  vm.module :: vm.deps.toList.map (·.2)

def Module.longestCode (m : Module) : ℕ :=
  (m.functions.map (·.code.length)).foldr max 0

def Vm.longestCode (vm : Vm σ) : ℕ :=
  (vm.modules.map Module.longestCode).foldr max 0

/-- Every turn that is not paid for moves on in its function or leaves it. -/
def Vm.gasTurns (vm : Vm σ) (gas : GasMeter) : ℕ :=
  (gas.limit - gas.spent + 1) * ((vm.config.maxCallDepth + 1) * (vm.longestCode + 1))

/-- Each instruction of an activation is executed once and may start another activation. -/
def Vm.flowTurns (vm : Vm σ) : ℕ :=
  (vm.longestCode + 2) ^ (vm.config.maxCallDepth + 1)

def Vm.call (vm : Vm σ) (tok : ℕ → τ) (fnName : String) (args : List (Value Unit))
    (gas : GasMeter) (ctx : σ) : Final τ σ :=
  match vm.callFor tok (vm.gasTurns gas + vm.flowTurns) fnName args gas ctx with
  | .done final => final
  | .next s => { outcome := .diverge, gas := s.gas, ctx := s.ctx }

theorem run_add {vm : Vm σ} {tok : ℕ → τ} {s : State τ σ} (n m : ℕ) :
    vm.run tok (n + m) s = match vm.run tok n s with
      | .next s' => vm.run tok m s'
      | .done final => .done final := by
  induction n generalizing s with
  | zero => rw [Nat.zero_add, Vm.run]
  | succ n ih =>
    rw [Nat.succ_add, Vm.run, Vm.run]
    cases vm.step tok s with
    | next s' => exact ih
    | done final => rfl

/-! ## What all frames share -/

def StepResult.gas : StepResult τ σ → GasMeter
  | .next s => s.gas
  | .done final => final.gas

def StepResult.ctx : StepResult τ σ → σ
  | .next s => s.ctx
  | .done final => final.ctx

section Shared

variable {vm : Vm σ} {I : GasMeter → σ → Prop} {tok : ℕ → τ}

theorem Vm.leave_shared {s : State τ σ} (h : I s.gas s.ctx) :
    I (Vm.leave s).gas (Vm.leave s).ctx := by
  unfold Vm.leave
  split <;> exact h

theorem Vm.invoke_shared {s : State τ σ} {context : Module} {contextAddr : Address}
    {fnName : String} {argCount : ℕ} (h : I s.gas s.ctx) :
    I (vm.invoke s context contextAddr fnName argCount).gas
      (vm.invoke s context contextAddr fnName argCount).ctx := by
  unfold Vm.invoke
  split
  · exact h
  · split <;> exact h

variable (hcharge : ∀ gas cost ctx, I gas ctx → I (gas.charge cost).1 ctx)
variable (hnatives : ∀ entry ∈ vm.natives, ∀ gas ctx args, I gas ctx →
  I gas (entry.func ctx args).2)
include hcharge hnatives

theorem Vm.callNative_shared {s : State τ σ} {entry : NativeFnEntry σ}
    (hentry : entry ∈ vm.natives) (h : I s.gas s.ctx) :
    I (Vm.callNative tok s entry).gas (Vm.callNative tok s entry).ctx := by
  have hpaid := hcharge s.gas entry.gasCost s.ctx h
  unfold Vm.callNative
  split
  · rename_i gas e hgas
    rw [hgas] at hpaid
    exact hpaid
  · rename_i gas hgas
    rw [hgas] at hpaid
    split
    · exact hpaid
    · rename_i args rest _
      have hcalled := hnatives entry hentry gas s.ctx (args.map Value.erase) hpaid
      split
      · rename_i v ctx hfunc
        rw [hfunc] at hcalled
        split <;> exact hcalled
      · rename_i hfunc
        rw [hfunc] at hcalled
        exact hcalled
      · rename_i hfunc
        rw [hfunc] at hcalled
        exact hcalled

theorem Vm.execCall_shared {s : State τ σ} (name : String) (h : I s.gas s.ctx) :
    I (vm.execCall tok s name).gas (vm.execCall tok s name).ctx := by
  unfold Vm.execCall
  split
  · split
    · exact h
    · split
      · exact h
      · split
        · exact Vm.invoke_shared h
        · exact h
  · split
    · exact Vm.invoke_shared h
    · split
      · rename_i entry hentry
        exact Vm.callNative_shared hcharge hnatives (List.mem_of_find?_eq_some hentry) h
      · exact h

theorem Vm.step_shared {s : State τ σ} (h : I s.gas s.ctx) :
    I (vm.step tok s).gas (vm.step tok s).ctx := by
  unfold Vm.step
  split
  · exact Vm.leave_shared h
  · rename_i instr _
    have hpaid := hcharge s.gas (vm.gasSchedule.costOf instr) s.ctx h
    split
    · rename_i gas e hgas
      rw [hgas] at hpaid
      exact hpaid
    · rename_i gas hgas
      rw [hgas] at hpaid
      unfold Vm.execInstr
      split
      · exact Vm.execCall_shared hcharge hnatives _ hpaid
      · exact Vm.leave_shared hpaid
      · split <;> exact hpaid

theorem Vm.run_shared (fuel : ℕ) {s : State τ σ} (h : I s.gas s.ctx) :
    I (vm.run tok fuel s).gas (vm.run tok fuel s).ctx := by
  induction fuel generalizing s with
  | zero => exact h
  | succ fuel ih =>
    have hstep : I (vm.step tok s).gas (vm.step tok s).ctx := Vm.step_shared hcharge hnatives h
    unfold Vm.run
    split
    · rename_i s' hs'
      rw [hs'] at hstep
      exact ih hstep
    · rename_i final hfinal
      rw [hfinal] at hstep
      exact hstep

omit hcharge hnatives in
theorem Vm.start_shared {fnName : String} {args : List (Value Unit)} {gas : GasMeter} {ctx : σ}
    (h : I gas ctx) :
    I (vm.start tok fnName args gas ctx).gas (vm.start tok fnName args gas ctx).ctx := by
  unfold Vm.start
  dsimp only
  split
  · exact h
  · split
    · exact h
    · split
      · exact h
      · split
        · exact h
        · split
          · exact h
          · split <;> exact h

/-- What charging and the natives keep true of the meter and the context is true when the call
ends. -/
theorem Vm.call_shared {fnName : String} {args : List (Value Unit)} {gas : GasMeter} {ctx : σ}
    (h : I gas ctx) :
    I (vm.call tok fnName args gas ctx).gas (vm.call tok fnName args gas ctx).ctx := by
  have hstart : I (vm.start tok fnName args gas ctx).gas (vm.start tok fnName args gas ctx).ctx :=
    Vm.start_shared h
  unfold Vm.call Vm.callFor
  cases hs : vm.start tok fnName args gas ctx with
  | done final =>
    rw [hs] at hstart
    exact hstart
  | next s =>
    rw [hs] at hstart
    have hrun : I (vm.run tok (vm.gasTurns gas + vm.flowTurns) s).gas
        (vm.run tok (vm.gasTurns gas + vm.flowTurns) s).ctx :=
      Vm.run_shared hcharge hnatives _ hstart
    dsimp only
    cases hr : vm.run tok (vm.gasTurns gas + vm.flowTurns) s with
    | done final =>
      rw [hr] at hrun
      exact hrun
    | next s' =>
      rw [hr] at hrun
      exact hrun

end Shared

/-- What the natives keep true of their context is true when the call ends. -/
theorem Vm.call_ctx {vm : Vm σ} {I : σ → Prop} {tok : ℕ → τ}
    (hnatives : ∀ entry ∈ vm.natives, ∀ ctx args, I ctx → I (entry.func ctx args).2)
    {fnName : String} {args : List (Value Unit)} {gas : GasMeter} {ctx : σ} (h : I ctx) :
    I (vm.call tok fnName args gas ctx).ctx :=
  Vm.call_shared (I := fun _ ctx => I ctx) (fun _ _ _ h => h)
    (fun entry hentry _ ctx args h => hnatives entry hentry ctx args h) h

/-- A meter that was never charged more than its limit. -/
def GasMeter.Within (limit : ℕ) (gas : GasMeter) : Prop :=
  gas.limit = limit ∧ gas.spent ≤ limit

theorem GasMeter.Within.charge {limit : ℕ} {gas : GasMeter} (h : gas.Within limit) (cost : ℕ) :
    (gas.charge cost).1.Within limit := by
  unfold GasMeter.charge
  dsimp only
  split
  · exact ⟨h.1, h.1.le⟩
  · rename_i hle
    exact ⟨h.1, h.1 ▸ Nat.not_lt.mp hle⟩

theorem Vm.call_within {vm : Vm σ} {tok : ℕ → τ} {fnName : String} {args : List (Value Unit)}
    {gas : GasMeter} {ctx : σ} {limit : ℕ} (h : gas.Within limit) :
    (vm.call tok fnName args gas ctx).gas.Within limit :=
  Vm.call_shared (I := fun gas _ => gas.Within limit) (fun _ cost _ h => h.charge cost)
    (fun _ _ _ _ _ h => h) h

end MeowChain
