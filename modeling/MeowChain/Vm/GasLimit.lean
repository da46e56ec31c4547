import MeowChain.Vm.Call

/-!
# Two runs that differ in their gas limit

A limit only matters at a charge. Two runs of one call stay in lockstep until the first charge that
exceeds the smaller limit, so what a call spends is the limit from which on it always ends the same
way.
-/

set_option autoImplicit false

namespace MeowChain

variable {τ σ : Type} {vm : Vm σ} {tok : ℕ → τ} {s : State τ σ}

/-! ## What was spent only grows -/

def GasMeter.Later (g g' : GasMeter) : Prop :=
  g'.limit = g.limit ∧ g.spent ≤ g'.spent ∧ g'.spent ≤ g.limit

theorem GasMeter.Later.charge {g g' : GasMeter} (hlimit : g.limit ≤ u64Max) (h : g.Later g')
    (cost : ℕ) : g.Later (g'.charge cost).1 := by
  obtain ⟨hlim, hle, hwithin⟩ := h
  unfold GasMeter.charge
  dsimp only
  split
  · exact ⟨hlim, show g.spent ≤ g'.limit by omega, hlim.le⟩
  · rename_i hnot
    refine ⟨hlim, ?_, ?_⟩
    · show g.spent ≤ min (g'.spent + cost) u64Max
      omega
    · show min (g'.spent + cost) u64Max ≤ g.limit
      omega

theorem step_later (tok : ℕ → τ) (hlimit : s.gas.limit ≤ u64Max)
    (hspent : s.gas.spent ≤ s.gas.limit) : s.gas.Later (vm.step tok s).gas :=
  Vm.step_shared (I := fun gas _ => s.gas.Later gas) (fun _ cost _ h => h.charge hlimit cost)
    (fun _ _ _ _ _ h => h) ⟨rfl, le_rfl, hspent⟩

theorem run_later (tok : ℕ → τ) (fuel : ℕ) (hlimit : s.gas.limit ≤ u64Max)
    (hspent : s.gas.spent ≤ s.gas.limit) : s.gas.Later (vm.run tok fuel s).gas :=
  Vm.run_shared (I := fun gas _ => s.gas.Later gas) (fun _ cost _ h => h.charge hlimit cost)
    (fun _ _ _ _ _ h => h) fuel ⟨rfl, le_rfl, hspent⟩

/-! ## What is paid -/

/-- At least `cost` was paid between `g` and `g'`, as far as a meter can show it. -/
def GasMeter.Pays (g g' : GasMeter) (cost : ℕ) : Prop :=
  g'.limit = g.limit ∧ (g.spent ≤ g.limit → g'.spent ≤ g.limit) ∧
    min (g.spent + cost) u64Max ≤ g'.spent

theorem GasMeter.Pays.refl (g : GasMeter) : g.Pays g 0 :=
  ⟨rfl, id, Nat.min_le_left _ _⟩

theorem GasMeter.Pays.trans {g g' g'' : GasMeter} {a b : ℕ} (h : g.Pays g' a)
    (h' : g'.Pays g'' b) : g.Pays g'' (a + b) := by
  obtain ⟨hlimit, hwithin, hpaid⟩ := h
  obtain ⟨hlimit', hwithin', hpaid'⟩ := h'
  rw [hlimit] at hlimit' hwithin'
  exact ⟨hlimit', fun hle => hwithin' (hwithin hle), by omega⟩

theorem pays_of_charge {g g' : GasMeter} {cost : ℕ} (h : g.charge cost = (g', none)) :
    g.Pays g' cost := by
  unfold GasMeter.charge at h
  dsimp only at h
  split at h
  · cases h
  · rename_i hwithin
    obtain rfl := (Prod.mk.inj h).1
    exact ⟨rfl, fun _ => Nat.not_lt.mp hwithin, le_rfl⟩

/-! ## Another limit -/

def GasMeter.withLimit (l : ℕ) (gas : GasMeter) : GasMeter :=
  { gas with limit := l }

def State.withLimit (l : ℕ) (s : State τ σ) : State τ σ :=
  { s with gas := s.gas.withLimit l }

def StepResult.withLimit (l : ℕ) : StepResult τ σ → StepResult τ σ
  | .next s => .next (s.withLimit l)
  | .done final => .done { final with gas := final.gas.withLimit l }

def Final.ranOut (final : Final τ σ) : Bool :=
  match final.outcome with
  | .err (.outOfGas _ _) => true
  | _ => false

def StepResult.ranOut : StepResult τ σ → Bool
  | .next _ => false
  | .done final => final.ranOut

/-- The call ended for lack of gas, having spent the limit `l`. -/
def StepResult.OutAt (l : ℕ) (r : StepResult τ σ) : Prop :=
  ∃ ctx, r = .done { outcome := .err (.outOfGas l l), gas := ⟨l, l⟩, ctx }

/-- `r'` is what becomes of `r` under the limit `l`. -/
def StepResult.Follows (l : ℕ) (r r' : StepResult τ σ) : Prop :=
  (r.gas.spent ≤ l → r' = r.withLimit l) ∧ (l < r.gas.spent → r'.OutAt l)

theorem follows_of_eq {l : ℕ} {r r' : StepResult τ σ} (hle : r.gas.spent ≤ l)
    (h : r' = r.withLimit l) : r.Follows l r' :=
  ⟨fun _ => h, fun hlt => absurd hlt (Nat.not_lt.mpr hle)⟩

theorem charge_withLimit {gas gas' : GasMeter} {cost l : ℕ} (h : gas.charge cost = (gas', none)) :
    (gas.withLimit l).charge cost =
      if l < gas'.spent then (⟨l, l⟩, some (.outOfGas l l)) else (gas'.withLimit l, none) := by
  unfold GasMeter.charge at h
  dsimp only at h
  split at h
  · cases h
  · obtain rfl := (Prod.mk.inj h).1
    rfl

/-- What a charge does to the run: it ends it, or lets it go on with `next`. -/
def State.charging (s : State τ σ) (cost : ℕ) (next : State τ σ → StepResult τ σ) :
    StepResult τ σ :=
  match s.gas.charge cost with
  | (gas, some e) => State.fail { s with gas } e
  | (gas, none) => next { s with gas }

/-- A charge that succeeds, or is the first to exceed the limit `l`. -/
theorem charging_follows {l cost : ℕ} {next : State τ σ → StepResult τ σ}
    (hout : (s.charging cost next).ranOut = false)
    (hnext : ∀ gas, s.gas.charge cost = (gas, none) →
      gas.spent ≤ (next { s with gas }).gas.spent ∧
      (gas.spent ≤ l → (next { s with gas }).ranOut = false →
        (next { s with gas }).Follows l (next (State.withLimit l { s with gas })))) :
    (s.charging cost next).Follows l ((s.withLimit l).charging cost next) := by
  unfold State.charging at hout ⊢
  rcases hcharge : s.gas.charge cost with ⟨gas, _ | e⟩
  · rw [hcharge] at hout
    obtain ⟨hle, hfollows⟩ := hnext gas hcharge
    show (next { s with gas }).Follows l
      (match (s.gas.withLimit l).charge cost with
      | (gas, some e) => State.fail { s.withLimit l with gas } e
      | (gas, none) => next { s.withLimit l with gas })
    rw [charge_withLimit hcharge]
    split_ifs with hlt
    · exact ⟨fun hwithin => absurd hlt (by omega), fun _ => ⟨s.ctx, rfl⟩⟩
    · exact hfollows (Nat.not_lt.mp hlt) hout
  · -- Only a lack of gas fails a charge.
    rw [hcharge] at hout
    unfold GasMeter.charge at hcharge
    dsimp only at hcharge
    split at hcharge
    · obtain ⟨-, he⟩ := Prod.mk.inj hcharge
      obtain rfl := Option.some.inj he
      cases hout
    · cases hcharge

/-! ## One step -/

section Step

variable {l : ℕ}

theorem leave_withLimit : Vm.leave (s.withLimit l) = (Vm.leave s).withLimit l := by
  have hcallers : (s.withLimit l).callers = s.callers := rfl
  unfold Vm.leave
  rw [hcallers]
  cases s.callers <;> rfl

theorem leave_gas : (Vm.leave s).gas = s.gas := by
  unfold Vm.leave
  cases s.callers <;> rfl

theorem invoke_withLimit (context : Module) (contextAddr : Address) (fnName : String) (n : ℕ) :
    vm.invoke (s.withLimit l) context contextAddr fnName n
      = (vm.invoke s context contextAddr fnName n).withLimit l := by
  have hstack : (s.withLimit l).frame.stack = s.frame.stack := rfl
  have hcallers : (s.withLimit l).callers = s.callers := rfl
  unfold Vm.invoke
  rw [hstack, hcallers]
  cases popArgs n s.frame.stack with
  | error e => rfl
  | ok r =>
    dsimp only
    cases Vm.enter vm.config.maxCallDepth (s.callers.length + 1) context contextAddr fnName r.1 <;>
      rfl

theorem invoke_gas (context : Module) (contextAddr : Address) (fnName : String) (n : ℕ) :
    (vm.invoke s context contextAddr fnName n).gas = s.gas := by
  unfold Vm.invoke
  split
  · rfl
  · split <;> rfl

/-- `Vm::callNative` once it is paid for. -/
def nativePaid (tok : ℕ → τ) (entry : NativeFnEntry σ) (s : State τ σ) : StepResult τ σ :=
  match popArgs entry.params.length s.frame.stack with
  | .error e => s.fail e
  | .ok (args, rest) =>
    match entry.func s.ctx (args.map Value.erase) with
    | (.ret v, ctx) =>
      if (v.map checkStructQualified).getD true then
        let r := (v.getD .void).label tok s.nextLabel
        .next { s with frame := { s.frame with stack := r.1 :: rest }, ctx, nextLabel := r.2 }
      else
        .done { outcome := .panic ("native function '" ++ entry.name
          ++ "' returned a struct with unqualified type name"), gas := s.gas, ctx }
    | (.abort code message, ctx) => State.fail { s with ctx } (.aborted code message)
    | (.error message, ctx) => State.fail { s with ctx } (.nativeError message)

theorem callNative_eq_charging (entry : NativeFnEntry σ) :
    Vm.callNative tok s entry = s.charging entry.gasCost (nativePaid tok entry) := by
  unfold Vm.callNative State.charging
  rcases s.gas.charge entry.gasCost with ⟨gas, _ | e⟩ <;> rfl

theorem nativePaid_withLimit (entry : NativeFnEntry σ) :
    nativePaid tok entry (s.withLimit l) = (nativePaid tok entry s).withLimit l := by
  unfold nativePaid
  show (match popArgs entry.params.length s.frame.stack with
    | .error e => _
    | .ok (args, rest) => _) = _
  cases popArgs entry.params.length s.frame.stack with
  | error e => rfl
  | ok r =>
    dsimp only
    show (match entry.func s.ctx (r.1.map Value.erase) with
      | (.ret v, ctx) => _
      | (.abort code message, ctx) => _
      | (.error message, ctx) => _) = _
    rcases entry.func s.ctx (r.1.map Value.erase) with ⟨v | ⟨code, message⟩ | message, ctx⟩
    · dsimp only
      split_ifs <;> rfl
    · rfl
    · rfl

theorem nativePaid_gas (entry : NativeFnEntry σ) : (nativePaid tok entry s).gas = s.gas := by
  unfold nativePaid
  split
  · rfl
  · split
    · split_ifs <;> rfl
    · rfl
    · rfl

theorem callNative_follows (entry : NativeFnEntry σ)
    (hout : (Vm.callNative tok s entry).ranOut = false) :
    (Vm.callNative tok s entry).Follows l (Vm.callNative tok (s.withLimit l) entry) := by
  rw [callNative_eq_charging] at hout
  rw [callNative_eq_charging, callNative_eq_charging]
  refine charging_follows hout fun gas _ => ⟨by rw [nativePaid_gas], fun hle _ => ?_⟩
  exact follows_of_eq (by rwa [nativePaid_gas]) (nativePaid_withLimit entry)

theorem execCall_follows (hle : s.gas.spent ≤ l) (name : String)
    (hout : (vm.execCall tok s name).ranOut = false) :
    (vm.execCall tok s name).Follows l (vm.execCall tok (s.withLimit l) name) := by
  have hinvoke : ∀ context contextAddr fnName n,
      (vm.invoke s context contextAddr fnName n).Follows l
        (vm.invoke (s.withLimit l) context contextAddr fnName n) := fun context contextAddr fnName n =>
    follows_of_eq (by rwa [invoke_gas]) (invoke_withLimit context contextAddr fnName n)
  have hfail : ∀ e, (s.fail e).Follows l ((s.withLimit l).fail e) := fun e =>
    follows_of_eq hle rfl
  unfold Vm.execCall at hout ⊢
  cases hparse : parseModuleRef name with
  | some r =>
    dsimp only
    cases vm.deps[r.1]? with
    | none => exact hfail _
    | some dep =>
      dsimp only
      cases dep.getFunction r.2 with
      | none => exact hfail _
      | some callee =>
        dsimp only
        split_ifs
        · exact hinvoke _ _ _ _
        · exact hfail _
  | none =>
    have hcontext : (s.withLimit l).frame.context = s.frame.context := rfl
    rw [hparse] at hout
    dsimp only at hout ⊢
    rw [hcontext]
    cases hget : s.frame.context.getFunction name with
    | some callee => exact hinvoke _ _ _ _
    | none =>
      rw [hget] at hout
      dsimp only at hout ⊢
      cases hnative : vm.getNative name with
      | some entry =>
        rw [hnative] at hout
        exact callNative_follows entry hout
      | none => exact hfail _

theorem execInstr_follows (hle : s.gas.spent ≤ l) (instr : Instruction)
    (hout : (vm.execInstr tok s instr).ranOut = false) :
    (vm.execInstr tok s instr).Follows l (vm.execInstr tok (s.withLimit l) instr) := by
  cases hlocal : instr.isLocal with
  | true =>
    cases hexec : Frame.exec vm.deps (tok s.nextLabel) s.frame instr with
    | ok fr' =>
      rw [execInstr_ok hlocal hexec, execInstr_ok (s := s.withLimit l) hlocal hexec]
      exact follows_of_eq hle rfl
    | error e =>
      rw [execInstr_error hlocal hexec, execInstr_error (s := s.withLimit l) hlocal hexec]
      exact follows_of_eq hle rfl
  | false =>
    cases instr with
    | call name => exact execCall_follows hle name hout
    | ret => exact follows_of_eq (by rwa [show vm.execInstr tok s .ret = Vm.leave s from rfl,
        leave_gas]) leave_withLimit
    | _ => cases hlocal

theorem execInstr_later (instr : Instruction) (hlimit : s.gas.limit ≤ u64Max)
    (hspent : s.gas.spent ≤ s.gas.limit) : s.gas.Later (vm.execInstr tok s instr).gas := by
  cases hlocal : instr.isLocal with
  | true =>
    cases hexec : Frame.exec vm.deps (tok s.nextLabel) s.frame instr with
    | ok fr' =>
      rw [execInstr_ok hlocal hexec]
      exact ⟨rfl, le_rfl, hspent⟩
    | error e =>
      rw [execInstr_error hlocal hexec]
      exact ⟨rfl, le_rfl, hspent⟩
  | false =>
    cases instr with
    | call name =>
      exact Vm.execCall_shared (I := fun gas _ => s.gas.Later gas)
        (fun _ cost _ h => h.charge hlimit cost) (fun _ _ _ _ _ h => h) name ⟨rfl, le_rfl, hspent⟩
    | ret =>
      rw [show vm.execInstr tok s .ret = Vm.leave s from rfl, leave_gas]
      exact ⟨rfl, le_rfl, hspent⟩
    | _ => cases hlocal

def State.advanced (s : State τ σ) : State τ σ :=
  { s with frame := s.frame.next }

theorem step_eq_charging {instr : Instruction} (hinstr : s.frame.current = some instr) :
    vm.step tok s = s.charging (vm.gasSchedule.costOf instr) fun s =>
      vm.execInstr tok s.advanced instr := by
  have hsome : s.frame.function.code[s.frame.pc]? = some instr := hinstr
  unfold Vm.step State.charging
  rw [hsome]
  dsimp only
  rcases s.gas.charge (vm.gasSchedule.costOf instr) with ⟨gas, _ | e⟩ <;> rfl

theorem step_follows (hlimit : s.gas.limit ≤ u64Max) (hspent : s.gas.spent ≤ s.gas.limit)
    (hle : s.gas.spent ≤ l) (hout : (vm.step tok s).ranOut = false) :
    (vm.step tok s).Follows l (vm.step tok (s.withLimit l)) := by
  cases hinstr : s.frame.current with
  | none =>
    have hnone : s.frame.function.code[s.frame.pc]? = none := hinstr
    have hleave : vm.step tok s = Vm.leave s := by
      unfold Vm.step
      rw [hnone]
    have hleave' : vm.step tok (s.withLimit l) = Vm.leave (s.withLimit l) := by
      unfold Vm.step
      rw [show (s.withLimit l).frame.function.code[(s.withLimit l).frame.pc]? = none from hnone]
    rw [hleave, hleave']
    exact follows_of_eq (by rwa [leave_gas]) leave_withLimit
  | some instr =>
    rw [step_eq_charging hinstr] at hout
    rw [step_eq_charging hinstr, step_eq_charging (s := s.withLimit l) hinstr]
    refine charging_follows hout fun gas hcharge => ?_
    have hlater : s.gas.Later gas := by
      have hpaid := GasMeter.Later.charge hlimit ⟨rfl, le_rfl, hspent⟩
        (vm.gasSchedule.costOf instr)
      rwa [hcharge] at hpaid
    obtain ⟨hlim, -, hwithin⟩ := hlater
    refine ⟨?_, fun hpaid hout' => execInstr_follows (s := State.advanced { s with gas }) hpaid
      instr hout'⟩
    exact (execInstr_later (s := State.advanced { s with gas }) instr
      (show gas.limit ≤ u64Max by omega) (show gas.spent ≤ gas.limit by omega)).2.1

end Step

/-! ## What a step costs -/

section Price

variable {s' : State τ σ}

theorem charging_eq_next {cost : ℕ} {next : State τ σ → StepResult τ σ}
    (h : s.charging cost next = .next s') :
    ∃ gas, s.gas.Pays gas cost ∧ next { s with gas } = .next s' := by
  unfold State.charging at h
  rcases hcharge : s.gas.charge cost with ⟨gas, _ | e⟩
  · rw [hcharge] at h
    exact ⟨gas, pays_of_charge hcharge, h⟩
  · rw [hcharge] at h
    cases h

theorem pays_of_execCall {name : String} (h : vm.execCall tok s name = .next s') :
    ∃ cost, s.gas.Pays s'.gas cost := by
  have hinvoke : ∀ {context contextAddr fnName n},
      vm.invoke s context contextAddr fnName n = .next s' → ∃ cost, s.gas.Pays s'.gas cost := by
    intro context contextAddr fnName n hinvoke
    have hkept : (vm.invoke s context contextAddr fnName n).gas = s.gas :=
      invoke_gas context contextAddr fnName n
    rw [hinvoke] at hkept
    rw [show s'.gas = s.gas from hkept]
    exact ⟨0, .refl _⟩
  unfold Vm.execCall at h
  split at h
  · split at h
    · cases h
    · split at h
      · cases h
      · split at h
        · exact hinvoke h
        · cases h
  · split at h
    · exact hinvoke h
    · split at h
      · rename_i entry hentry
        rw [callNative_eq_charging] at h
        obtain ⟨gas, hpaid, hnext⟩ := charging_eq_next h
        have hkept : (nativePaid tok entry { s with gas }).gas = gas := nativePaid_gas entry
        rw [hnext] at hkept
        rw [show s'.gas = gas from hkept]
        exact ⟨_, hpaid⟩
      · cases h

theorem pays_of_step (h : vm.step tok s = .next s') :
    ∃ cost, (∀ instr, s.frame.current = some instr → vm.gasSchedule.costOf instr ≤ cost) ∧
      s.gas.Pays s'.gas cost := by
  cases hinstr : s.frame.current with
  | none =>
    have hnone : s.frame.function.code[s.frame.pc]? = none := hinstr
    have hleave : Vm.leave s = .next s' := by
      unfold Vm.step at h
      rwa [hnone] at h
    have hkept : (Vm.leave s).gas = s.gas := leave_gas
    rw [hleave] at hkept
    rw [show s'.gas = s.gas from hkept]
    exact ⟨0, ⟨fun instr hsome => by simp at hsome, .refl _⟩⟩
  | some instr =>
    rw [step_eq_charging hinstr] at h
    obtain ⟨gas, hpaid, hnext⟩ := charging_eq_next h
    obtain ⟨cost, hrest⟩ : ∃ cost, gas.Pays s'.gas cost := by
      cases hlocal : instr.isLocal with
      | true =>
        cases hexec : Frame.exec vm.deps (tok s.nextLabel) s.frame.next instr with
        | ok fr' =>
          rw [execInstr_ok (s := State.advanced { s with gas }) hlocal hexec] at hnext
          obtain rfl := StepResult.next.inj hnext
          exact ⟨0, .refl _⟩
        | error e =>
          rw [execInstr_error (s := State.advanced { s with gas }) hlocal hexec] at hnext
          cases hnext
      | false =>
        cases instr with
        | call name => exact pays_of_execCall hnext
        | ret =>
          have hkept : (Vm.leave (State.advanced { s with gas })).gas = gas := leave_gas
          rw [show Vm.leave (State.advanced { s with gas }) = .next s' from hnext] at hkept
          rw [show s'.gas = gas from hkept]
          exact ⟨0, .refl _⟩
        | _ => cases hlocal
    refine ⟨_, fun instr' hinstr' => ?_, hpaid.trans hrest⟩
    obtain rfl := Option.some.inj hinstr'
    exact Nat.le_add_right _ _

end Price

/-! ## Native calls -/

def Vm.nativeCalled (vm : Vm σ) (tok : ℕ → τ) (s : State τ σ) :
    Option (String × List (Value Unit)) :=
  if (vm.step tok s).ranOut then none
  else
    match vm.nativeCall s.frame with
    | none => none
    | some entry =>
      match popArgs entry.params.length s.frame.stack with
      | .error _ => none
      | .ok (args, _) => some (entry.name, args.map Value.erase)

def Vm.nativesCalled (vm : Vm σ) (tok : ℕ → τ) : ℕ → State τ σ →
    List (String × List (Value Unit))
  | 0, _ => []
  | fuel + 1, s =>
    (vm.nativeCalled tok s).toList ++ match vm.step tok s with
      | .next s' => vm.nativesCalled tok fuel s'
      | .done _ => []

def Vm.callNatives (vm : Vm σ) (tok : ℕ → τ) (fuel : ℕ) (fnName : String)
    (args : List (Value Unit)) (gas : GasMeter) (ctx : σ) : List (String × List (Value Unit)) :=
  match vm.start tok fnName args gas ctx with
  | .next s => vm.nativesCalled tok fuel s
  | .done _ => []

theorem ranOut_withLimit (l : ℕ) (r : StepResult τ σ) : (r.withLimit l).ranOut = r.ranOut := by
  cases r <;> rfl

theorem nativeCalled_withLimit {l : ℕ}
    (hstep : vm.step tok (s.withLimit l) = (vm.step tok s).withLimit l) :
    vm.nativeCalled tok (s.withLimit l) = vm.nativeCalled tok s := by
  unfold Vm.nativeCalled
  rw [hstep, ranOut_withLimit]
  rfl

/-! ## Runs -/

/-- The run that ends with `final`, under the limit `l`. -/
theorem run_follows {l fuel : ℕ} {final : Final τ σ} (hlimit : s.gas.limit ≤ u64Max)
    (hspent : s.gas.spent ≤ s.gas.limit) (hle : s.gas.spent ≤ l)
    (h : vm.run tok fuel s = .done final) (hout : final.ranOut = false) :
    (final.gas.spent ≤ l →
      vm.run tok fuel (s.withLimit l) = .done { final with gas := final.gas.withLimit l } ∧
      vm.nativesCalled tok fuel (s.withLimit l) = vm.nativesCalled tok fuel s) ∧
    (l < final.gas.spent → (vm.run tok fuel (s.withLimit l)).OutAt l) := by
  induction fuel generalizing s with
  | zero => cases h
  | succ fuel ih =>
    rw [Vm.run] at h
    rw [Vm.run, Vm.nativesCalled, Vm.nativesCalled]
    cases hstep : vm.step tok s with
    | done final' =>
      rw [hstep] at h
      obtain rfl := StepResult.done.inj h
      have hfollows : (vm.step tok s).Follows l (vm.step tok (s.withLimit l)) :=
        step_follows hlimit hspent hle (by rw [hstep]; exact hout)
      rw [hstep] at hfollows
      refine ⟨fun hwithin => ?_, fun hexceeds => ?_⟩
      · have hsame := hfollows.1 hwithin
        rw [nativeCalled_withLimit (by rw [hsame, hstep]), hsame]
        exact ⟨rfl, rfl⟩
      · obtain ⟨ctx, hended⟩ := hfollows.2 hexceeds
        rw [hended]
        exact ⟨ctx, rfl⟩
    | next s' =>
      rw [hstep] at h
      dsimp only at h
      have hfollows : (vm.step tok s).Follows l (vm.step tok (s.withLimit l)) :=
        step_follows hlimit hspent hle (by rw [hstep]; rfl)
      have hlater : s.gas.Later (vm.step tok s).gas := step_later tok hlimit hspent
      rw [hstep] at hfollows hlater
      obtain ⟨hlim', -, hwithin'⟩ : s'.gas.limit = s.gas.limit ∧ s.gas.spent ≤ s'.gas.spent ∧
        s'.gas.spent ≤ s.gas.limit := hlater
      have hlast : s'.gas.Later (vm.run tok fuel s').gas :=
        run_later tok fuel (by omega) (by omega)
      rw [h] at hlast
      have hgrown : s'.gas.spent ≤ final.gas.spent := hlast.2.1
      by_cases hnext : s'.gas.spent ≤ l
      · have hsame : vm.step tok (s.withLimit l) = .next (s'.withLimit l) := hfollows.1 hnext
        obtain ⟨hends, hruns⟩ := ih (by omega) (by omega) hnext h
        rw [nativeCalled_withLimit (by rw [hsame, hstep]; rfl), hsame]
        refine ⟨fun hwithin => ?_, hruns⟩
        obtain ⟨hrun, hnatives⟩ := hends hwithin
        exact ⟨hrun, congrArg _ hnatives⟩
      · rw [Nat.not_le] at hnext
        refine ⟨fun hwithin => absurd hwithin (by omega), fun _ => ?_⟩
        obtain ⟨ctx, hended⟩ := hfollows.2 hnext
        rw [hended]
        exact ⟨ctx, rfl⟩

theorem start_withLimit (l : ℕ) (fnName : String) (args : List (Value Unit)) (gas : GasMeter)
    (ctx : σ) : vm.start tok fnName args (gas.withLimit l) ctx
      = (vm.start tok fnName args gas ctx).withLimit l := by
  unfold Vm.start
  dsimp only
  by_cases hdeps : vm.deps.size > vm.config.maxDepModules
  · rw [if_pos hdeps, if_pos hdeps]
    rfl
  · rw [if_neg hdeps, if_neg hdeps]
    by_cases hnative : (vm.getNative fnName).isSome = true
    · rw [if_pos hnative, if_pos hnative]
      rfl
    · rw [if_neg hnative, if_neg hnative]
      cases vm.module.getFunction fnName with
      | none => rfl
      | some function =>
        dsimp only
        split_ifs
        · rfl
        · rfl
        · cases Vm.enter vm.config.maxCallDepth 0 vm.module vm.moduleAddr fnName
            (Value.labelList tok 0 args).1 <;> rfl

/-- What a call that did not run out of gas has spent is the least limit under which it ends like
this; under a smaller one it spends all of it. -/
theorem gas_threshold {fuel : ℕ} {fnName : String} {args : List (Value Unit)} {ctx : σ}
    {g : UInt64} {final : Final τ σ}
    (h : vm.callFor tok fuel fnName args ⟨g.toNat, 0⟩ ctx = .done final)
    (hout : final.ranOut = false) (g' : UInt64) :
    (final.gas.spent ≤ g'.toNat →
      vm.callFor tok fuel fnName args ⟨g'.toNat, 0⟩ ctx
        = .done { final with gas := ⟨g'.toNat, final.gas.spent⟩ } ∧
      vm.callNatives tok fuel fnName args ⟨g'.toNat, 0⟩ ctx
        = vm.callNatives tok fuel fnName args ⟨g.toNat, 0⟩ ctx) ∧
    (g'.toNat < final.gas.spent → ∃ final',
      vm.callFor tok fuel fnName args ⟨g'.toNat, 0⟩ ctx = .done final' ∧
      final'.outcome = .err (.outOfGas g'.toNat g'.toNat) ∧ final'.gas.spent = g'.toNat) := by
  have hstart' : vm.start tok fnName args ⟨g'.toNat, 0⟩ ctx = _ :=
    start_withLimit g'.toNat fnName args ⟨g.toNat, 0⟩ ctx
  unfold Vm.callFor Vm.callNatives at *
  rw [hstart']
  cases hstart : vm.start tok fnName args ⟨g.toNat, 0⟩ ctx with
  | done final' =>
    rw [hstart] at h
    obtain rfl := StepResult.done.inj h
    have hkept : (vm.start tok fnName args ⟨g.toNat, 0⟩ ctx).gas = ⟨g.toNat, 0⟩ :=
      Vm.start_shared (I := fun gas _ => gas = ⟨g.toNat, 0⟩) rfl
    rw [hstart] at hkept
    have hspent : final'.gas.spent = 0 := congrArg GasMeter.spent hkept
    exact ⟨fun _ => ⟨rfl, rfl⟩, fun hlt => absurd hlt (by omega)⟩
  | next s =>
    rw [hstart] at h
    obtain ⟨-, function, -, -, hs⟩ := start_eq_next hstart
    have hgas : s.gas = ⟨g.toNat, 0⟩ := by rw [hs]
    have hmax : g.toNat ≤ u64Max := Nat.le_sub_one_of_lt g.toNat_lt
    obtain ⟨hends, hruns⟩ := run_follows (l := g'.toNat) (by rwa [hgas]) (by simp [hgas])
      (by simp [hgas]) h hout
    refine ⟨hends, fun hlt => ?_⟩
    obtain ⟨ctx', hended⟩ := hruns hlt
    exact ⟨_, hended, rfl, rfl⟩

namespace Sample

def assertModule : Module where
  name := "assert"
  imports := []
  structs := []
  functions := [{
    name := "check"
    isPublic := true
    params := []
    returnType := none
    localCount := 0
    code := [.pushBool true, .pushU64 1, .pushStr "false", .call meowVmAbort, .pop, .ret] }]

def assertVm : Vm Unit where
  module := assertModule
  moduleAddr := 1
  deps := ∅
  natives := [meowVmAbortEntry Unit]
  gasSchedule := {}
  config := {}

def assertCall (limit : UInt64) : StepResult Unit Unit :=
  assertVm.callFor (fun _ => ()) 6 "check" [] ⟨limit.toNat, 0⟩ ()

theorem assertCall_done :
    assertCall 100 = .done { outcome := .ok none, gas := ⟨100, 27⟩, ctx := () } := by
  rfl

end Sample

open Sample in
/-- The call takes 27 units of gas. -/
theorem assertCall_threshold :
    assertCall 27 = .done { outcome := .ok none, gas := ⟨27, 27⟩, ctx := () } ∧
    ∃ final, assertCall 26 = .done final ∧ final.outcome = .err (.outOfGas 26 26) ∧
      final.gas.spent = 26 :=
  ⟨((gas_threshold assertCall_done rfl 27).1 (by decide)).1,
    (gas_threshold assertCall_done rfl 26).2 (by decide)⟩

end MeowChain
