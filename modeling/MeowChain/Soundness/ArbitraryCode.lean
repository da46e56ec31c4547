import MeowChain.Soundness.Termination
import MeowChain.Vm.GasLimit
import MeowChain.Vm.Panics

/-!
# Arbitrary code

The machine does not rely on the verifier for its own safety: a call of modules that nobody checked
ends, with a value or an error, and meets no panic on the way.
-/

set_option autoImplicit false

namespace MeowChain

variable {τ σ : Type} {vm : Vm σ} {tok : ℕ → τ} {s : State τ σ}

/-! ## Panics -/

theorem State.In.representable (hfits : vm.representable = true) (hin : s.In vm) :
    s.frame.function.representable = true := by
  simp only [Vm.representable, Bool.and_eq_true, List.all_eq_true] at hfits
  exact hfits.1 _ hin.1.1 _ hin.1.2

theorem runChecked_eq (hfits : vm.representable = true) (hschedule : vm.gasSchedule = {})
    (fuel : ℕ) (hin : s.In vm) (hdepth : s.callers.length < vm.config.maxCallDepth) :
    vm.runChecked tok fuel s = vm.run tok fuel s := by
  have hmax : vm.config.maxCallDepth < 2 ^ 64 := by
    simp only [Vm.representable, Bool.and_eq_true, decide_eq_true_eq] at hfits
    exact hfits.2
  induction fuel generalizing s with
  | zero => rfl
  | succ fuel ih =>
    rw [Vm.runChecked, Vm.run,
      stepChecked_eq hschedule (by omega) (hin.representable hfits)]
    cases hstep : vm.step tok s with
    | done final => rfl
    | next s' => exact ih (hin.step hstep) (depth_step hdepth hstep)

/-- `Vm::call` with its panics written out is `Vm::call`. -/
theorem callChecked_eq (hfits : vm.representable = true) (hschedule : vm.gasSchedule = {})
    (fuel : ℕ) (fnName : String) (args : List (Value Unit)) (gas : GasMeter) (ctx : σ) :
    vm.callChecked tok fuel fnName args gas ctx = vm.callFor tok fuel fnName args gas ctx := by
  unfold Vm.callChecked Vm.callFor
  rw [startChecked_eq]
  cases hstart : vm.start tok fnName args gas ctx with
  | done final => rfl
  | next s =>
    obtain ⟨hdepth, function, -, -, hs⟩ := start_eq_next hstart
    exact runChecked_eq hfits hschedule fuel (State.in_start hstart) (by rwa [hs])

/-! ## Gas -/

theorem run_spent (n m : ℕ) (hlimit : s.gas.limit ≤ u64Max) (hspent : s.gas.spent ≤ s.gas.limit) :
    (vm.run tok n s).gas.spent ≤ (vm.run tok (n + m) s).gas.spent ∧
      (vm.run tok (n + m) s).gas.spent ≤ s.gas.limit := by
  have hfirst : s.gas.Later (vm.run tok n s).gas := run_later tok n hlimit hspent
  refine ⟨?_, (run_later tok (n + m) hlimit hspent).2.2⟩
  rw [run_add]
  cases hrun : vm.run tok n s with
  | done final => exact le_rfl
  | next s' =>
    rw [hrun] at hfirst
    have hlim : s'.gas.limit = s.gas.limit := hfirst.1
    have hwithin : s'.gas.spent ≤ s.gas.limit := hfirst.2.2
    exact (run_later tok m (by omega) (by omega)).2.1

/-- Whatever the code, a call with a limit on its gas returns a value or an error, without a panic,
and what it has spent only grows, up to the limit. -/
theorem call_withstands (hfits : vm.representable = true) (hschedule : vm.gasSchedule = {})
    (hnatives : vm.NativesQualified) (fnName : String) {args : List (Value Unit)}
    (hargs : args.all checkStructQualified = true) {gas : GasMeter} (ctx : σ)
    (hlimit : gas.limit < u64Max) (hspent : gas.spent ≤ gas.limit) :
    (∃ fuel final, vm.callChecked tok fuel fnName args gas ctx = .done final ∧ final.Returned) ∧
    ∀ n m, (vm.callChecked tok n fnName args gas ctx).gas.spent
        ≤ (vm.callChecked tok (n + m) fnName args gas ctx).gas.spent ∧
      (vm.callChecked tok (n + m) fnName args gas ctx).gas.spent ≤ gas.limit := by
  simp only [callChecked_eq hfits hschedule]
  unfold Vm.callFor
  cases hstart : vm.start tok fnName args gas ctx with
  | done final =>
    have hkept : (vm.start tok fnName args gas ctx).gas = gas :=
      Vm.start_shared (I := fun g _ => g = gas) rfl
    have hgas : final.gas = gas := by rwa [hstart] at hkept
    refine ⟨⟨0, final, rfl, returned_start hargs hstart⟩, fun n m => ⟨le_rfl, ?_⟩⟩
    show final.gas.spent ≤ gas.limit
    rw [hgas]
    exact hspent
  | next s =>
    obtain ⟨final, hrun⟩ := run_ends_of_gas hschedule hlimit hspent hstart
    obtain ⟨-, function, -, -, hs⟩ := start_eq_next hstart
    have hgas : s.gas = gas := by rw [hs]
    refine ⟨⟨_, final, hrun, returned_run hnatives hrun⟩, fun n m => ?_⟩
    rw [← hgas] at hlimit hspent ⊢
    exact run_spent n m hlimit.le hspent

namespace Sample

/-- Stores to a slot that the function does not have and jumps back. -/
def spinModule : Module where
  name := "spin"
  imports := []
  structs := []
  functions := [{
    name := "spin"
    isPublic := true
    params := []
    returnType := none
    localCount := 0
    code := [.pushU64 1, .store 7, .jump (-2)] }]

def spinVm : Vm Unit where
  module := spinModule
  moduleAddr := 1
  deps := ∅
  natives := []
  gasSchedule := {}
  config := {}

end Sample

open Sample in
/-- A loop that only its gas ends. -/
theorem spin_withstood :
    (∃ fuel final, spinVm.callChecked (fun _ => ()) fuel "spin" [] ⟨1000, 0⟩ () = .done final ∧
      final.Returned) ∧
    ∀ n m, (spinVm.callChecked (fun _ => ()) n "spin" [] ⟨1000, 0⟩ ()).gas.spent
        ≤ (spinVm.callChecked (fun _ => ()) (n + m) "spin" [] ⟨1000, 0⟩ ()).gas.spent ∧
      (spinVm.callChecked (fun _ => ()) (n + m) "spin" [] ⟨1000, 0⟩ ()).gas.spent ≤ 1000 :=
  call_withstands (by decide +kernel) rfl (fun entry hentry => by cases hentry) "spin" rfl ()
    (by decide) (by decide)

end MeowChain
