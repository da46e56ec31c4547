import MeowChain.Vm.Call

/-!
# The limit on dependencies

It is checked when a call starts; no instruction ends a call with this error.
-/

set_option autoImplicit false

namespace MeowChain

variable {τ σ : Type}

def VmError.isTooManyDepModules : VmError → Bool
  | .tooManyDepModules _ => true
  | _ => false

def Except.Loads {α : Type} (x : Except VmError α) : Prop :=
  ∀ e, x = .error e → e.isTooManyDepModules = false

section Frame

theorem Except.Loads.ok {α : Type} (a : α) : Except.Loads (.ok a : Except VmError α) :=
  fun _ h => by cases h

theorem Except.Loads.error {α : Type} {e : VmError} (he : e.isTooManyDepModules = false) :
    Except.Loads (.error e : Except VmError α) := by
  intro e' h
  cases h
  exact he

theorem Except.Loads.bind {α β : Type} {x : Except VmError α} {f : α → Except VmError β}
    (hx : Except.Loads x) (hf : ∀ a, Except.Loads (f a)) : Except.Loads (x >>= f) := by
  intro e h
  cases x with
  | error e' =>
    cases h
    exact hx _ rfl
  | ok a => exact hf a e h

theorem expectU64_loads (v : Value τ) : Except.Loads (expectU64 v) := by
  unfold expectU64
  split
  · exact .ok _
  · exact .error rfl

theorem expectBool_loads (v : Value τ) : Except.Loads (expectBool v) := by
  unfold expectBool
  split
  · exact .ok _
  · exact .error rfl

theorem arithOp_loads (op : UInt64 → UInt64 → Option UInt64) (l r : Value τ) :
    Except.Loads (arithOp op l r) := by
  refine (expectU64_loads l).bind fun a => (expectU64_loads r).bind fun b => ?_
  split
  · exact .ok _
  · exact .error rfl

theorem divOp_loads (op : UInt64 → UInt64 → Option UInt64) (l r : Value τ) :
    Except.Loads (divOp op l r) := by
  unfold divOp
  split
  · exact .error rfl
  · exact arithOp_loads op l r

theorem cmpValues_loads (l r : Value τ) : Except.Loads (cmpValues l r) :=
  (expectU64_loads l).bind fun _ => (expectU64_loads r).bind fun _ => .ok _

theorem eqOp_loads (negate : Bool) (l r : Value τ) : Except.Loads (eqOp negate l r) := by
  unfold eqOp
  split
  · exact .error rfl
  · exact .ok _

theorem boolOp_loads (op : Bool → Bool → Bool) (l r : Value τ) : Except.Loads (boolOp op l r) :=
  (expectBool_loads l).bind fun _ => (expectBool_loads r).bind fun _ => .ok _

theorem readFieldPath_loads (i : ℕ) (v : Value τ) (path : List String) :
    Except.Loads (readFieldPath i v path) := by
  fun_induction readFieldPath i v path with
  | case1 => exact .ok _
  | case2 _ _ _ _ _ _ _ _ ih => exact ih
  | case3 => exact .error rfl
  | case4 => exact .error rfl

theorem writeFieldPath_loads (val : Value τ) (i : ℕ) (v : Value τ) (path : List String) :
    Except.Loads (writeFieldPath val i v path) := by
  fun_induction writeFieldPath val i v path with
  | case1 => exact .error rfl
  | case2 => exact .error rfl
  | case3 => exact .ok _
  | case4 => exact .error rfl
  | case5 => exact .error rfl
  | case6 _ _ _ _ _ _ _ _ _ ih => exact ih.bind fun _ => .ok _
  | case7 => exact .error rfl
  | case8 => exact .error rfl

theorem unpackFields_loads (typeName : String) (names : List String)
    (fields : List (String × Value τ)) (stack : List (Value τ)) :
    Except.Loads (unpackFields typeName names fields stack) := by
  fun_induction unpackFields typeName names fields stack with
  | case1 => exact .ok _
  | case2 _ _ _ _ _ _ ih => exact ih
  | case3 => exact .error rfl

theorem popArgs_loads (n : ℕ) (stack : List (Value τ)) : Except.Loads (popArgs n stack) := by
  unfold popArgs
  split
  · exact .ok _
  · exact .error rfl

variable (frame : Frame τ)

theorem Frame.unary_loads {op : Value τ → Except VmError (Value τ)}
    (hop : ∀ v, Except.Loads (op v)) : Except.Loads (frame.unary op) := by
  unfold Frame.unary
  split
  · exact (hop _).bind fun _ => .ok _
  · exact .error rfl

theorem Frame.binary_loads {op : Value τ → Value τ → Except VmError (Value τ)}
    (hop : ∀ l r, Except.Loads (op l r)) : Except.Loads (frame.binary op) := by
  unfold Frame.binary
  split
  · exact (hop _ _).bind fun _ => .ok _
  · exact .error rfl

theorem Frame.jump_loads (offset : ℤ) : Except.Loads (frame.jump offset) := by
  refine Except.Loads.bind ?_ fun _ => .ok _
  unfold jumpTarget
  dsimp only
  split
  · exact .error rfl
  · exact .ok _

theorem Frame.jumpWhen_loads (expected : Bool) (offset : ℤ) :
    Except.Loads (frame.jumpWhen expected offset) := by
  unfold Frame.jumpWhen
  split
  · exact .error rfl
  · refine (expectBool_loads _).bind fun _ => ?_
    dsimp only
    split
    · exact Frame.jump_loads _ _
    · exact .ok _

theorem Frame.newStruct_loads (deps : DepMap) (label : τ) (typeName : String)
    (fieldNames : List String) :
    Except.Loads (Frame.newStruct deps label frame typeName fieldNames) := by
  refine Except.Loads.bind ?_ fun _ => (popArgs_loads _ _).bind fun _ => .ok _
  unfold Frame.structTypeName
  split
  · split
    · exact .ok _
    · exact .error rfl
  · split
    · exact .ok _
    · exact .error rfl

theorem Frame.exec_loads (deps : DepMap) (label : τ) (instr : Instruction) :
    Except.Loads (Frame.exec deps label frame instr) := by
  unfold Frame.exec
  split
  case h_5 slot =>
    unfold Frame.load
    split
    · exact .error rfl
    · exact .error rfl
    · split <;> exact .ok _
  case h_6 slot =>
    unfold Frame.store
    split
    · exact .error rfl
    · dsimp only
      split
      · split
        · exact .error rfl
        · exact .ok _
      · exact .ok _
  case h_7 slot path =>
    unfold Frame.loadField
    split
    · exact (readFieldPath_loads _ _ _).bind fun _ => .ok _
    · exact .error rfl
  case h_8 slot path =>
    unfold Frame.storeField
    split
    · exact .error rfl
    · split
      · exact (writeFieldPath_loads _ _ _ _).bind fun _ => .ok _
      · exact .error rfl
  case h_9 | h_10 | h_11 => exact Frame.binary_loads _ (arithOp_loads _)
  case h_12 | h_13 => exact Frame.binary_loads _ (divOp_loads _)
  case h_14 | h_15 => exact Frame.binary_loads _ (eqOp_loads _)
  case h_16 | h_17 | h_18 | h_19 =>
    exact Frame.binary_loads _ fun l r => (cmpValues_loads _ _).bind fun _ => .ok _
  case h_20 => exact Frame.unary_loads _ fun v => (expectBool_loads v).bind fun _ => .ok _
  case h_21 | h_22 => exact Frame.binary_loads _ (boolOp_loads _)
  case h_23 => exact Frame.newStruct_loads _ _ _ _ _
  case h_24 =>
    refine Frame.unary_loads _ fun v => ?_
    split
    · split
      · exact .ok _
      · exact .error rfl
    · exact .error rfl
  case h_25 =>
    unfold Frame.unpackStruct
    split
    · exact .error rfl
    · exact (unpackFields_loads _ _ _ _).bind fun _ => .ok _
    · exact .error rfl
  case h_26 | h_27 =>
    split
    · exact .error rfl
    · exact .ok _
  case h_28 => exact Frame.jump_loads _ _
  case h_29 | h_30 => exact Frame.jumpWhen_loads _ _ _
  case h_31 => exact (popArgs_loads _ _).bind fun _ => .ok _
  case h_32 =>
    unfold Frame.unpackTuple
    split
    · exact .error rfl
    · split
      · exact .ok _
      · exact .error rfl
    · exact .error rfl
  all_goals exact .ok _

end Frame

/-! ## Steps -/

def StepResult.Loads : StepResult τ σ → Prop
  | .next _ => True
  | .done final => ∀ e, final.outcome = .err e → e.isTooManyDepModules = false

section Step

variable {vm : Vm σ} {tok : ℕ → τ}

theorem State.fail_loads (s : State τ σ) {e : VmError} (he : e.isTooManyDepModules = false) :
    (s.fail e).Loads := by
  intro e' h
  obtain rfl := Outcome.err.inj h
  exact he

theorem GasMeter.charge_loads {gas gas' : GasMeter} {cost : ℕ} {e : VmError}
    (h : gas.charge cost = (gas', some e)) : e.isTooManyDepModules = false := by
  unfold GasMeter.charge at h
  dsimp only at h
  split at h
  · cases h
    rfl
  · cases h

theorem Vm.leave_loads (s : State τ σ) : (Vm.leave s).Loads := by
  unfold Vm.leave
  split
  · exact fun e h => by cases h
  · trivial

theorem Vm.enter_loads (maxCallDepth depth : ℕ) (context : Module) (contextAddr : Address)
    (fnName : String) (args : List (Value τ)) :
    Except.Loads (Vm.enter maxCallDepth depth context contextAddr fnName args) := by
  unfold Vm.enter
  split
  · exact .error rfl
  · split
    · exact .error rfl
    · split
      · exact .error rfl
      · exact .ok _

theorem Vm.invoke_loads (s : State τ σ) (context : Module) (contextAddr : Address)
    (fnName : String) (argCount : ℕ) : (vm.invoke s context contextAddr fnName argCount).Loads := by
  unfold Vm.invoke
  split
  · rename_i e he
    exact s.fail_loads (popArgs_loads _ _ e he)
  · split
    · rename_i e he
      exact s.fail_loads (Vm.enter_loads _ _ _ _ _ _ e he)
    · trivial

theorem Vm.callNative_loads (s : State τ σ) (entry : NativeFnEntry σ) :
    (Vm.callNative tok s entry).Loads := by
  unfold Vm.callNative
  split
  · rename_i hcharge
    exact State.fail_loads _ (GasMeter.charge_loads hcharge)
  · split
    · rename_i e he
      exact State.fail_loads _ (popArgs_loads _ _ e he)
    · split
      · split
        · trivial
        · exact fun e h => by cases h
      · exact State.fail_loads _ rfl
      · exact State.fail_loads _ rfl

theorem Vm.execCall_loads (s : State τ σ) (name : String) : (vm.execCall tok s name).Loads := by
  unfold Vm.execCall
  split
  · split
    · exact s.fail_loads rfl
    · split
      · exact s.fail_loads rfl
      · split
        · exact Vm.invoke_loads s _ _ _ _
        · exact s.fail_loads rfl
  · split
    · exact Vm.invoke_loads s _ _ _ _
    · split
      · exact Vm.callNative_loads s _
      · exact s.fail_loads rfl

theorem Vm.step_loads (s : State τ σ) : (vm.step tok s).Loads := by
  unfold Vm.step
  split
  · exact Vm.leave_loads s
  · split
    · rename_i hcharge
      exact State.fail_loads _ (GasMeter.charge_loads hcharge)
    · unfold Vm.execInstr
      split
      · exact Vm.execCall_loads _ _
      · exact Vm.leave_loads _
      · split
        · trivial
        · rename_i e he
          exact State.fail_loads _ (Frame.exec_loads _ _ _ _ e he)

theorem Vm.run_loads (fuel : ℕ) (s : State τ σ) : (vm.run tok fuel s).Loads := by
  induction fuel generalizing s with
  | zero => trivial
  | succ fuel ih =>
    have hstep : (vm.step tok s).Loads := Vm.step_loads s
    unfold Vm.run
    split
    · exact ih _
    · rename_i final hfinal
      rw [hfinal] at hstep
      exact hstep

theorem Vm.start_loads {fnName : String} {args : List (Value Unit)} {gas : GasMeter} {ctx : σ}
    (h : vm.deps.size ≤ vm.config.maxDepModules) :
    (vm.start tok fnName args gas ctx).Loads := by
  have hfail : ∀ e : VmError, e.isTooManyDepModules = false →
      (StepResult.done { outcome := .err e, gas, ctx } : StepResult τ σ).Loads := by
    intro e he e' h
    obtain rfl := Outcome.err.inj h
    exact he
  unfold Vm.start
  dsimp only
  rw [if_neg (Nat.not_lt.mpr h)]
  split
  · exact hfail _ rfl
  · split
    · exact hfail _ rfl
    · split
      · exact hfail _ rfl
      · split
        · exact fun e h => by cases h
        · split
          · rename_i e he
            exact hfail e (Vm.enter_loads _ _ _ _ _ _ e he)
          · trivial

theorem Vm.call_loads {fnName : String} {args : List (Value Unit)} {gas : GasMeter} {ctx : σ}
    (h : vm.deps.size ≤ vm.config.maxDepModules) (limit : ℕ) :
    (vm.call tok fnName args gas ctx).outcome ≠ .err (.tooManyDepModules limit) := by
  intro herr
  have hne : (VmError.tooManyDepModules limit).isTooManyDepModules ≠ false := Bool.noConfusion
  have hstart : (vm.start tok fnName args gas ctx).Loads := Vm.start_loads h
  unfold Vm.call Vm.callFor at herr
  cases hs : vm.start tok fnName args gas ctx with
  | done final =>
    rw [hs] at hstart herr
    exact hne (hstart _ herr)
  | next s =>
    rw [hs] at herr
    have hrun : (vm.run tok (vm.gasTurns gas + vm.flowTurns) s).Loads := Vm.run_loads _ s
    dsimp only at herr
    cases hr : vm.run tok (vm.gasTurns gas + vm.flowTurns) s with
    | done final =>
      rw [hr] at hrun herr
      exact hne (hrun _ herr)
    | next s' =>
      rw [hr] at herr
      cases herr

end Step

end MeowChain
