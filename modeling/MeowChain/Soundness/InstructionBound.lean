import Mathlib.Algebra.BigOperators.Intervals
import Mathlib.Algebra.BigOperators.Ring.Finset
import Mathlib.Tactic.Ring
import MeowChain.Soundness.Termination
import MeowChain.Vm.Panics

/-!
# How many instructions a call executes

In accepted code every instruction of an activation is executed at most once, and each may start
one further activation. With `L` instructions in the longest function an activation that may nest
`n` deep, itself included, executes at most `L + L ^ 2 + ... + L ^ n` of them.
-/

set_option autoImplicit false

namespace MeowChain

open Verifier

variable {τ σ : Type} {vm : Vm σ} {tok : ℕ → τ}

/-- Instructions taken up in `fuel` turns of the loop; running past the last one takes up none. -/
def Vm.instructions (vm : Vm σ) (tok : ℕ → τ) : ℕ → State τ σ → ℕ
  | 0, _ => 0
  | fuel + 1, s =>
    s.frame.current.toList.length + match vm.step tok s with
      | .next s' => vm.instructions tok fuel s'
      | .done _ => 0

def Vm.callInstructions (vm : Vm σ) (tok : ℕ → τ) (fuel : ℕ) (fnName : String)
    (args : List (Value Unit)) (gas : GasMeter) (ctx : σ) : ℕ :=
  match vm.start tok fnName args gas ctx with
  | .next s => vm.instructions tok fuel s
  | .done _ => 0

/-- Instructions of an activation and of all it starts, nested at most `depth` deep. -/
def activationBound (bound : ℕ) : ℕ → ℕ
  | 0 => 0
  | depth + 1 => bound * (1 + activationBound bound depth)

theorem activationBound_eq_sum (bound depth : ℕ) :
    activationBound bound depth = ∑ d ∈ Finset.range depth, bound ^ (d + 1) := by
  induction depth with
  | zero => rfl
  | succ depth ih =>
    rw [activationBound, ih, Finset.sum_range_succ', Nat.mul_add, Finset.mul_sum]
    simp only [pow_succ, pow_zero, one_mul, mul_one]
    rw [Nat.add_comm]
    congr 1
    apply Finset.sum_congr rfl
    intro d _
    ring

/-- Instructions left in a stack of activations, innermost first. -/
def instructionsLeft (bound depth : ℕ) : List (Frame τ) → ℕ
  | [] => 0
  | fr :: callers =>
    (bound - fr.pc) * (1 + activationBound bound (depth - (callers.length + 1)))
      + instructionsLeft bound depth callers

variable {s s' : State τ σ}

theorem left_step {left left' rest weight : ℕ} (h : left' + 1 ≤ left) :
    1 + (left' * (1 + weight) + rest) ≤ left * (1 + weight) + rest := by
  have hmul := Nat.mul_le_mul_right (1 + weight) h
  rw [Nat.add_mul] at hmul
  omega

/-- Every step pays for the instruction it takes up. -/
theorem instructionsLeft_step (hc : vm.Checked) (hin : s.In vm) (hstep : vm.step tok s = .next s') :
    s.frame.current.toList.length
        + instructionsLeft vm.longestCode vm.config.maxCallDepth (s'.frame :: s'.callers)
      ≤ instructionsLeft vm.longestCode vm.config.maxCallDepth (s.frame :: s.callers) := by
  obtain ⟨deps, cfg, hcheck⟩ := hc _ hin.1.1
  set bound := vm.longestCode
  set depth := vm.config.maxCallDepth
  have hcode : s.frame.function.code.length ≤ bound := hin.1.code_le
  have hpc : ∀ {instr}, s.frame.current = some instr → s.frame.pc < bound := fun hinstr =>
    (List.getElem?_eq_some_iff.mp hinstr).1.trans_le hcode
  cases moves_of_step hstep with
  | @exec instr fr' gas hinstr hlocal hexec =>
    have hlt := exec_pc_lt hcheck hin.1.2 hinstr hlocal hexec
    have hbound := hpc hinstr
    rw [hinstr]
    apply left_step
    show bound - fr'.pc + 1 ≤ bound - s.frame.pc
    omega
  | @call name context contextAddr callee gas hinstr hcalls hcall =>
    have hbound := hpc hinstr
    rw [hinstr]
    -- The new activation is what the instruction was worth beyond itself.
    have hnew : bound * (1 + activationBound bound (depth - (s.callers.length + 1 + 1)))
        = activationBound bound (depth - (s.callers.length + 1)) := by
      rw [show depth - (s.callers.length + 1) = depth - (s.callers.length + 1 + 1) + 1 by omega]
      rfl
    have hsub : bound - s.frame.pc = (bound - (s.frame.pc + 1)) + 1 := by omega
    show 1 + ((bound - 0) * (1 + activationBound bound (depth - (s.callers.length + 1 + 1)))
        + ((bound - (s.frame.pc + 1)) * (1 + activationBound bound (depth - (s.callers.length + 1)))
          + instructionsLeft bound depth s.callers))
      ≤ (bound - s.frame.pc) * (1 + activationBound bound (depth - (s.callers.length + 1)))
        + instructionsLeft bound depth s.callers
    rw [Nat.sub_zero, hnew, hsub, Nat.add_mul]
    omega
  | @native entry v gas ctx hnative hargs hfunc hqualified =>
    obtain ⟨name, hinstr⟩ := exists_current_of_nativeCall hnative
    have hbound := hpc hinstr
    rw [hinstr]
    apply left_step
    show bound - (s.frame.pc + 1) + 1 ≤ bound - s.frame.pc
    omega
  | @ret caller callers gas hinstr hcallers =>
    have hframe : s.frame.current.toList.length ≤ bound - s.frame.pc := by
      cases hcurrent : s.frame.current with
      | none => exact Nat.zero_le _
      | some instr =>
        have hbound := hpc hcurrent
        show 1 ≤ bound - s.frame.pc
        omega
    rw [hcallers]
    show s.frame.current.toList.length + instructionsLeft bound depth (caller :: callers)
      ≤ (bound - s.frame.pc) * _ + instructionsLeft bound depth (caller :: callers)
    apply Nat.add_le_add_right
    exact hframe.trans (Nat.le_mul_of_pos_right _ (by omega))

theorem instructions_le (tok : ℕ → τ) (hc : vm.Checked) (fuel : ℕ) (hin : s.In vm)
    (hdepth : s.callers.length < vm.config.maxCallDepth) :
    vm.instructions tok fuel s
      ≤ instructionsLeft vm.longestCode vm.config.maxCallDepth (s.frame :: s.callers) := by
  induction fuel generalizing s with
  | zero => exact Nat.zero_le _
  | succ fuel ih =>
    rw [Vm.instructions]
    cases hstep : vm.step tok s with
    | next s' =>
      have hpaid := instructionsLeft_step hc hin hstep
      have hrest := ih (hin.step hstep) (depth_step hdepth hstep)
      dsimp only
      omega
    | done final =>
      dsimp only
      cases hcurrent : s.frame.current with
      | none => exact Nat.zero_le _
      | some instr =>
        have hlt := (List.getElem?_eq_some_iff.mp hcurrent).1.trans_le hin.1.code_le
        have hpos : 1 ≤ vm.longestCode - s.frame.pc := by omega
        exact (hpos.trans (Nat.le_mul_of_pos_right _ (by omega))).trans (Nat.le_add_right _ _)

theorem callInstructions_le (hc : vm.Checked) (fuel : ℕ) (fnName : String)
    (args : List (Value Unit)) (gas : GasMeter) (ctx : σ) :
    vm.callInstructions tok fuel fnName args gas ctx
      ≤ activationBound vm.longestCode vm.config.maxCallDepth := by
  unfold Vm.callInstructions
  cases hstart : vm.start tok fnName args gas ctx with
  | done final => exact Nat.zero_le _
  | next s =>
    obtain ⟨hdepth, function, -, -, hs⟩ := start_eq_next hstart
    have hcallers : s.callers = [] := by rw [hs]
    have hpc : s.frame.pc = 0 := by rw [hs]; rfl
    have hle := instructions_le tok hc fuel (State.in_start hstart) (by rwa [hcallers])
    rw [hcallers] at hle
    simp only [instructionsLeft, hpc, List.length_nil, Nat.sub_zero, Nat.add_zero,
      Nat.zero_add] at hle
    obtain ⟨n, hn⟩ := Nat.exists_eq_succ_of_ne_zero (Nat.pos_iff_ne_zero.mp hdepth)
    rw [hn] at hle ⊢
    exact hle

/-- Calls of accepted code return, within a number of instructions that gas plays no part in. -/
theorem returns_within_bound
    (haccepted : ∀ m ∈ vm.modules, ∃ deps sigs cfg, Verifier.verify m deps sigs cfg = [])
    (fnName : String) (args : List (Value Unit)) (gas : GasMeter) (ctx : σ) :
    (∃ fuel final, vm.callFor tok fuel fnName args gas ctx = .done final ∧
      (args.all checkStructQualified = true → vm.NativesQualified → final.Returned)) ∧
    ∀ fuel, vm.callInstructions tok fuel fnName args gas ctx
      ≤ ∑ d ∈ Finset.range vm.config.maxCallDepth, vm.longestCode ^ (d + 1) := by
  have hc : vm.Checked := by
    intro m hm
    obtain ⟨deps, sigs, cfg, hverify⟩ := haccepted m hm
    exact ⟨deps, cfg, (verify_eq_nil hverify).1⟩
  constructor
  · refine ⟨vm.gasTurns gas + vm.flowTurns, ?_⟩
    unfold Vm.callFor
    cases hstart : vm.start tok fnName args gas ctx with
    | done final => exact ⟨final, rfl, fun hargs _ => returned_start hargs hstart⟩
    | next s =>
      obtain ⟨final, hrun⟩ := run_ends_of_checked hc hstart
      exact ⟨final, hrun, fun _ hnatives => returned_run hnatives hrun⟩
  · intro fuel
    rw [← activationBound_eq_sum]
    exact callInstructions_le hc fuel fnName args gas ctx

namespace Sample

/-- Calls itself twice. -/
def descendModule : Module where
  name := "descend"
  imports := []
  structs := []
  functions := [{
    name := "descend"
    isPublic := true
    params := []
    returnType := none
    localCount := 0
    code := [.call "descend", .pop, .call "descend", .pop, .ret] }]

def freeSchedule : GasSchedule :=
  ⟨0, 0, 0, 0, 0, 0, 0, 0, 0, 0, 0, 0, 0, 0, 0, 0, 0, 0, 0, 0⟩

def descendVm : Vm Unit where
  module := descendModule
  moduleAddr := 1
  deps := ∅
  natives := []
  gasSchedule := freeSchedule
  config := {}

theorem descend_accepted : Verifier.verify descendModule ∅ [] {} = [] := by
  decide +kernel

end Sample

open Sample in
/-- Without a price on anything, and without a limit. -/
theorem descend_returns :
    (∃ fuel final, descendVm.callFor (fun _ => ()) fuel "descend" [] ⟨u64Max, 0⟩ () = .done final ∧
      ((([] : List (Value Unit)).all checkStructQualified = true) → descendVm.NativesQualified →
        final.Returned)) ∧
    ∀ fuel, descendVm.callInstructions (fun _ => ()) fuel "descend" [] ⟨u64Max, 0⟩ ()
      ≤ ∑ d ∈ Finset.range descendVm.config.maxCallDepth, descendVm.longestCode ^ (d + 1) :=
  returns_within_bound (fun m hm => by
    have hmem : m ∈ [descendModule] := by simpa [Vm.modules, descendVm] using hm
    rw [List.mem_singleton.mp hmem]
    exact ⟨∅, [], {}, descend_accepted⟩) "descend" [] ⟨u64Max, 0⟩ ()

end MeowChain
