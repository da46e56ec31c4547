import Mathlib.Data.List.MinMax
import MeowChain.Soundness.StackEffect
import MeowChain.Soundness.TypeSafety
import MeowChain.Vm.GasLimit

/-!
# Calls end

Accepted code only jumps forward, so a call of it ends within its turns whatever its gas. A call of
any code ends as long as its gas can run out.
-/

set_option autoImplicit false

namespace MeowChain

open Verifier

variable {τ σ : Type} {vm : Vm σ} {tok : ℕ → τ}

/-- A measure that every step of a run lowers bounds the turns of the run. -/
theorem run_ends {I : State τ σ → Prop} (μ : State τ σ → ℕ)
    (hstep : ∀ {s s'}, I s → vm.step tok s = .next s' → I s' ∧ μ s' < μ s) {fuel : ℕ}
    {s : State τ σ} (hs : I s) (hfuel : μ s < fuel) : ∃ final, vm.run tok fuel s = .done final := by
  induction fuel generalizing s with
  | zero => omega
  | succ fuel ih =>
    rw [Vm.run]
    cases hnext : vm.step tok s with
    | done final => exact ⟨final, rfl⟩
    | next s' =>
      obtain ⟨hs', hlt⟩ := hstep hs hnext
      exact ih hs' (by omega)

/-! ## Frames of the machine's modules -/

def Frame.In (vm : Vm σ) (fr : Frame τ) : Prop :=
  fr.context ∈ vm.modules ∧ fr.function ∈ fr.context.functions

def State.In (vm : Vm σ) (s : State τ σ) : Prop :=
  s.frame.In vm ∧ ∀ fr ∈ s.callers, fr.In vm

theorem Frame.In.code_le {fr : Frame τ} (h : fr.In vm) :
    fr.function.code.length ≤ vm.longestCode :=
  List.le_max_of_le (List.mem_map_of_mem h.1)
    (List.le_max_of_le (List.mem_map_of_mem h.2) le_rfl)

theorem Frame.In.of_same {fr fr' : Frame τ} (h : fr.In vm) (hsame : fr.SameActivation fr') :
    fr'.In vm := by
  obtain ⟨hcontext, -, hfunction⟩ := hsame
  unfold Frame.In
  rwa [hcontext, hfunction]

theorem mem_modules_of_deps {a : Address} {m : Module} (h : vm.deps[a]? = some m) :
    m ∈ vm.modules :=
  List.mem_cons_of_mem _ (List.mem_map.mpr
    ⟨(a, m), Std.ExtTreeMap.mem_toList_iff_getElem?_eq_some.mpr h, rfl⟩)

theorem State.In.step {s s' : State τ σ} (h : s.In vm) (hstep : vm.step tok s = .next s') :
    s'.In vm := by
  obtain ⟨hframe, hcallers⟩ := h
  cases moves_of_step hstep with
  | @exec instr fr' gas hinstr hlocal hexec =>
    have hnext : s.frame.next.In vm := hframe
    exact ⟨hnext.of_same (sameActivation_exec hexec), hcallers⟩
  | @call name context contextAddr callee gas hinstr hcalls _ =>
    refine ⟨?_, fun fr hfr => ?_⟩
    · rcases hcalls.resolved with ⟨fnName, -, hdep, -, hget⟩ | ⟨-, rfl, rfl, hget⟩
      · exact ⟨mem_modules_of_deps hdep, List.mem_of_find?_eq_some hget⟩
      · exact ⟨hframe.1, List.mem_of_find?_eq_some hget⟩
    · rcases List.mem_cons.mp hfr with rfl | hfr
      · exact hframe
      · exact hcallers fr hfr
  | native => exact ⟨hframe, hcallers⟩
  | @ret caller callers gas hinstr hcallers' =>
    rw [hcallers'] at hcallers
    exact ⟨hcallers caller List.mem_cons_self, fun fr hfr =>
      hcallers fr (List.mem_cons_of_mem _ hfr)⟩

theorem State.in_start {fnName : String} {args : List (Value Unit)} {gas : GasMeter} {ctx : σ}
    {s : State τ σ} (h : vm.start tok fnName args gas ctx = .next s) : s.In vm := by
  obtain ⟨-, function, hget, -, rfl⟩ := start_eq_next h
  exact ⟨⟨List.mem_cons_self, List.mem_of_find?_eq_some hget⟩, by simp⟩

theorem depth_step {s s' : State τ σ} (hdepth : s.callers.length < vm.config.maxCallDepth)
    (hstep : vm.step tok s = .next s') : s'.callers.length < vm.config.maxCallDepth := by
  cases moves_of_step hstep with
  | exec | native => exact hdepth
  | @call name context contextAddr callee gas hinstr hcalls hcall => exact hcall
  | @ret caller callers gas hinstr hcallers =>
    rw [hcallers, List.length_cons] at hdepth
    exact (Nat.lt_succ_self _).trans hdepth

/-- An instruction that does not jump moves on to the next one. -/
theorem exec_pc {deps : DepMap} {label : τ} {fr fr' : Frame τ} {instr : Instruction}
    (hjump : instr.jumpOffset = none) (h : Frame.exec deps label fr instr = .ok fr') :
    fr'.pc = fr.pc := by
  cases does_of_exec h with
  | jump _ => cases hjump
  | taken hbranch =>
    rw [(shape_of_branch hbranch).2.2.1] at hjump
    cases hjump
  | _ => rfl

/-! ## Code without loops -/

section Accepted

variable {cfg : CompilerConfig}

/-- What is left to execute in an activation, counting the turn that leaves it. -/
def Frame.left (bound : ℕ) (fr : Frame τ) : ℕ :=
  bound - fr.pc + 1

/-- Turns left in a stack of activations, innermost first, when an activation may take `bound + 2`
times as many turns as those it starts. -/
def turnsLeft (bound depth : ℕ) : List (Frame τ) → ℕ
  | [] => 0
  | fr :: callers =>
    fr.left bound * (bound + 2) ^ (depth - callers.length) + turnsLeft bound depth callers

def Vm.Checked (vm : Vm σ) : Prop :=
  ∀ m ∈ vm.modules, ∃ deps cfg, checkModule m deps cfg = []

theorem exec_pc_lt {m : Module} {deps : DepMap} {vmDeps : DepMap} {label : τ} {fr fr' : Frame τ}
    {instr : Instruction} (hcheck : checkModule m deps cfg = []) (hf : fr.function ∈ m.functions)
    (hinstr : fr.current = some instr) (hlocal : instr.isLocal = true)
    (hexec : Frame.exec vmDeps label fr.next instr = .ok fr') : fr.pc < fr'.pc := by
  cases hoffset : instr.jumpOffset with
  | none =>
    have hpc := exec_pc hoffset hexec
    have hnext : fr.next.pc = fr.pc + 1 := rfl
    omega
  | some offset =>
    have hpositive := (checkJump_eq_nil (checkJump_of_checkInstr hoffset
      (checkInstr_of_checkModule hcheck hf hinstr))).1
    have hnext : fr.next.pc = fr.pc + 1 := rfl
    have hexecuted := executed_exec hlocal (fun _ heq => by subst heq; cases hoffset) hexec
    rcases hexecuted.jumps offset hoffset with ⟨hpc, -⟩ | htarget
    · omega
    · unfold jumpTarget at htarget
      dsimp only at htarget
      split at htarget
      · cases htarget
      · have hpc := Except.ok.inj htarget
        omega

variable {s s' : State τ σ}

/-- Every step of accepted code lowers the turns left. -/
theorem turnsLeft_step (hc : vm.Checked) (hin : s.In vm) (hstep : vm.step tok s = .next s') :
    turnsLeft vm.longestCode vm.config.maxCallDepth (s'.frame :: s'.callers)
      < turnsLeft vm.longestCode vm.config.maxCallDepth (s.frame :: s.callers) := by
  obtain ⟨deps, cfg, hcheck⟩ := hc _ hin.1.1
  set bound := vm.longestCode
  set depth := vm.config.maxCallDepth
  have hcode : s.frame.function.code.length ≤ bound := hin.1.code_le
  have hpow : ∀ n, 0 < (bound + 2) ^ n := fun n => Nat.pow_pos (by omega)
  have hpc : ∀ {instr}, s.frame.current = some instr → s.frame.pc < bound := fun hinstr =>
    (List.getElem?_eq_some_iff.mp hinstr).1.trans_le hcode
  cases moves_of_step hstep with
  | @exec instr fr' gas hinstr hlocal hexec =>
    have hlt := exec_pc_lt hcheck hin.1.2 hinstr hlocal hexec
    have hbound := hpc hinstr
    refine Nat.add_lt_add_right (Nat.mul_lt_mul_of_pos_right ?_ (hpow _)) _
    show bound - fr'.pc + 1 < bound - s.frame.pc + 1
    omega
  | @call name context contextAddr callee gas hinstr hcalls hcall =>
    have hbound := hpc hinstr
    -- The new activation takes fewer turns than one instruction of its caller stands for.
    have hsucc : (bound + 2) ^ (depth - s.callers.length)
        = (bound + 2) * (bound + 2) ^ (depth - (s.callers.length + 1)) := by
      rw [← Nat.pow_succ', show depth - s.callers.length = depth - (s.callers.length + 1) + 1 by
        omega]
    have hleft : s.frame.left bound = s.frame.next.left bound + 1 := by
      show bound - s.frame.pc + 1 = bound - (s.frame.pc + 1) + 1 + 1
      omega
    have hnew : (bound + 1) * (bound + 2) ^ (depth - (s.callers.length + 1))
        < (bound + 2) ^ (depth - s.callers.length) := by
      rw [hsucc]
      exact Nat.mul_lt_mul_of_pos_right (by omega) (hpow _)
    show (bound + 1) * (bound + 2) ^ (depth - (s.callers.length + 1))
        + (s.frame.next.left bound * (bound + 2) ^ (depth - s.callers.length)
          + turnsLeft bound depth s.callers)
      < s.frame.left bound * (bound + 2) ^ (depth - s.callers.length)
        + turnsLeft bound depth s.callers
    rw [hleft, Nat.succ_mul (s.frame.next.left bound)]
    omega
  | @native entry v gas ctx hnative hargs hfunc hqualified =>
    obtain ⟨name, hinstr⟩ := exists_current_of_nativeCall hnative
    have hbound := hpc hinstr
    refine Nat.add_lt_add_right (Nat.mul_lt_mul_of_pos_right ?_ (hpow _)) _
    show bound - (s.frame.pc + 1) + 1 < bound - s.frame.pc + 1
    omega
  | @ret caller callers gas hinstr hcallers =>
    rw [hcallers]
    show turnsLeft bound depth (caller :: callers) < s.frame.left bound * _ + _
    exact Nat.lt_add_of_pos_left (Nat.mul_pos (Nat.succ_pos _) (hpow _))

theorem run_ends_of_checked (hc : vm.Checked) {fnName : String} {args : List (Value Unit)}
    {gas : GasMeter} {ctx : σ} (hstart : vm.start tok fnName args gas ctx = .next s) :
    ∃ final, vm.run tok (vm.gasTurns gas + vm.flowTurns) s = .done final := by
  obtain ⟨-, function, -, -, hs⟩ := start_eq_next hstart
  have hcallers : s.callers = [] := by rw [hs]
  have hpc : s.frame.pc = 0 := by rw [hs]; rfl
  refine run_ends (I := fun s => s.In vm)
    (fun s => turnsLeft vm.longestCode vm.config.maxCallDepth (s.frame :: s.callers))
    (fun hs hstep => ?_) (State.in_start hstart) ?_
  · exact ⟨hs.step hstep, turnsLeft_step hc hs hstep⟩
  · have hlt : (vm.longestCode + 1) * (vm.longestCode + 2) ^ vm.config.maxCallDepth
        < vm.flowTurns := by
      rw [Vm.flowTurns, Nat.pow_succ']
      exact Nat.mul_lt_mul_of_pos_right (by omega) (Nat.pow_pos (by omega))
    simp only [hcallers, turnsLeft, Frame.left, hpc, List.length_nil, Nat.sub_zero, Nat.add_zero]
    omega

end Accepted

/-! ## Gas that runs out -/

section Gas

/-- `g'` is what is left of the meter `g` when at least `cost` was paid. A meter whose limit is the
largest number never runs out. -/
def GasMeter.Charged (g g' : GasMeter) (cost : ℕ) : Prop :=
  g'.limit = g.limit ∧
  (g.limit < u64Max → g.spent ≤ g.limit → g.spent + cost ≤ g'.spent ∧ g'.spent ≤ g.limit)

theorem GasMeter.Pays.charged {g g' : GasMeter} {cost : ℕ} (h : g.Pays g' cost) :
    g.Charged g' cost := by
  obtain ⟨hlimit, hwithin, hpaid⟩ := h
  refine ⟨hlimit, fun hmax hspent => ?_⟩
  have hle := hwithin hspent
  omega

variable {s s' : State τ σ}

/-- Instructions for free stay in their frame and do not jump. -/
theorem free_instruction {instr : Instruction} (h : ({} : GasSchedule).costOf instr = 0) :
    instr.isLocal = true ∧ instr.jumpOffset = none := by
  cases instr with
  | jump _ | jumpIf _ | jumpIfNot _ | call _ | ret => cases h
  | _ => exact ⟨rfl, rfl⟩

/-- Turns the gas can still pay for, with those for free in between. -/
def State.affordable (vm : Vm σ) (s : State τ σ) : ℕ :=
  (s.gas.limit - s.gas.spent) * ((vm.config.maxCallDepth + 1) * (vm.longestCode + 1))
    + s.callers.length * (vm.longestCode + 1) + (vm.longestCode - s.frame.pc)

/-- A paid turn can afford any number of callers and any position. -/
theorem affordable_lt_of_paid (hdepth : s'.callers.length ≤ vm.config.maxCallDepth)
    (hlimit : s'.gas.limit = s.gas.limit) (hspent : s.gas.spent < s'.gas.spent)
    (hwithin : s'.gas.spent ≤ s.gas.limit) : s'.affordable vm < s.affordable vm := by
  unfold State.affordable
  set m := (vm.config.maxCallDepth + 1) * (vm.longestCode + 1) with hm
  have hcallers : s'.callers.length * (vm.longestCode + 1)
      ≤ vm.config.maxCallDepth * (vm.longestCode + 1) := Nat.mul_le_mul_right _ hdepth
  have hrem : (s'.gas.limit - s'.gas.spent + 1) * m ≤ (s.gas.limit - s.gas.spent) * m :=
    Nat.mul_le_mul_right _ (by omega)
  rw [Nat.succ_mul] at hrem
  rw [Nat.succ_mul] at hm
  omega

theorem affordable_step (hschedule : vm.gasSchedule = {}) (hin : s.In vm)
    (hdepth : s.callers.length < vm.config.maxCallDepth) (hlimit : s.gas.limit < u64Max)
    (hspent : s.gas.spent ≤ s.gas.limit) (hstep : vm.step tok s = .next s') :
    s'.gas.limit = s.gas.limit ∧ s'.gas.spent ≤ s.gas.limit ∧
      s'.affordable vm < s.affordable vm := by
  cases hinstr : s.frame.current with
  | none =>
    have hnone : s.frame.function.code[s.frame.pc]? = none := hinstr
    simp only [Vm.step, hnone, Vm.leave] at hstep
    split at hstep
    · cases hstep
    · rename_i caller callers hsplit
      obtain rfl := StepResult.next.inj hstep
      refine ⟨rfl, hspent, ?_⟩
      simp only [State.affordable, hsplit, List.length_cons, Nat.succ_mul]
      omega
  | some instr =>
    obtain ⟨cost, hprice, hpays⟩ := pays_of_step hstep
    have hcost := hprice instr hinstr
    have hcharged := hpays.charged
    obtain ⟨hpaid, hwithin⟩ := hcharged.2 hlimit hspent
    refine ⟨hcharged.1, hwithin, ?_⟩
    rw [hschedule] at hcost
    by_cases hfree : ({} : GasSchedule).costOf instr = 0
    · obtain ⟨hlocal, hjump⟩ := free_instruction hfree
      have hpc : s.frame.pc < vm.longestCode :=
        (List.getElem?_eq_some_iff.mp hinstr).1.trans_le hin.1.code_le
      cases moves_of_step hstep with
      | @exec instr' fr' gas hinstr' hlocal' hexec =>
        obtain rfl := Option.some.inj (hinstr.symm.trans hinstr')
        have hnext : fr'.pc = s.frame.pc + 1 := exec_pc hjump hexec
        have hrem : (gas.limit - gas.spent) * ((vm.config.maxCallDepth + 1) * (vm.longestCode + 1))
            ≤ (s.gas.limit - s.gas.spent)
              * ((vm.config.maxCallDepth + 1) * (vm.longestCode + 1)) := by
          have hlim : gas.limit = s.gas.limit := hcharged.1
          have hle : s.gas.spent + cost ≤ gas.spent := hpaid
          exact Nat.mul_le_mul_right _ (by omega)
        simp only [State.affordable, hnext]
        omega
      | @call name context contextAddr callee gas hinstr' =>
        obtain rfl := Option.some.inj (hinstr.symm.trans hinstr')
        cases hlocal
      | @native entry v gas ctx hnative =>
        rw [nativeCall_of_isLocal hinstr hlocal] at hnative
        cases hnative
      | @ret caller callers gas hret =>
        rcases hret with hret | hret
        · obtain rfl := Option.some.inj (hinstr.symm.trans hret)
          cases hlocal
        · rw [hinstr] at hret
          cases hret
    · exact affordable_lt_of_paid (depth_step hdepth hstep).le hcharged.1 (by omega) hwithin

theorem run_ends_of_gas (hschedule : vm.gasSchedule = {}) {fnName : String}
    {args : List (Value Unit)} {gas : GasMeter} {ctx : σ} (hlimit : gas.limit < u64Max)
    (hspent : gas.spent ≤ gas.limit) (hstart : vm.start tok fnName args gas ctx = .next s) :
    ∃ final, vm.run tok (vm.gasTurns gas + vm.flowTurns) s = .done final := by
  obtain ⟨hdepth, function, -, -, hs⟩ := start_eq_next hstart
  have hcallers : s.callers = [] := by rw [hs]
  have hgas : s.gas = gas := by rw [hs]
  refine run_ends (I := fun s => s.In vm ∧ s.callers.length < vm.config.maxCallDepth ∧
      s.gas.limit < u64Max ∧ s.gas.spent ≤ s.gas.limit) (State.affordable vm)
    (fun {t u} ht hstep => ?_) ⟨State.in_start hstart, by rwa [hcallers], by rwa [hgas],
      by rwa [hgas]⟩ ?_
  · obtain ⟨hin, hdepth, hlim, hle⟩ := ht
    obtain ⟨hlim', hle', hlt⟩ := affordable_step hschedule hin hdepth hlim hle hstep
    exact ⟨⟨hin.step hstep, depth_step hdepth hstep, hlim' ▸ hlim, hlim' ▸ hle'⟩, hlt⟩
  · simp only [State.affordable, hgas, hcallers, List.length_nil, Nat.zero_mul, Nat.add_zero,
      Vm.gasTurns]
    rw [Nat.succ_mul (gas.limit - gas.spent), Nat.succ_mul vm.config.maxCallDepth]
    omega

end Gas

end MeowChain
