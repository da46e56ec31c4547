import MeowChain.Vm.Call

/-!
# Running given code

What a piece of code does when there is gas for it. A straight-line piece is executed by
`Frame.advance`, which a known frame reduces to its result; calls, native functions and returns are
single steps. Pieces are put together by transitivity, with their turns and their costs added up.
-/

set_option autoImplicit false

namespace MeowChain

variable {σ : Type}

/-- A state without its gas and its labels. -/
structure Point (σ : Type) where
  frame : Frame Unit
  callers : List (Frame Unit)
  ctx : σ

def Point.state (p : Point σ) (gas : GasMeter) (nextLabel : ℕ) : State Unit σ where
  frame := p.frame
  callers := p.callers
  gas
  ctx := p.ctx
  nextLabel

structure GasMeter.Covers (gas : GasMeter) (cost : ℕ) : Prop where
  limit_le : gas.limit ≤ u64Max
  spent_le : gas.spent + cost ≤ gas.limit

def GasMeter.plus (gas : GasMeter) (cost : ℕ) : GasMeter :=
  { gas with spent := gas.spent + cost }

theorem GasMeter.Covers.charge {gas : GasMeter} {cost : ℕ} (h : gas.Covers cost) :
    gas.charge cost = (gas.plus cost, none) := by
  have hlimit := h.limit_le
  have hspent := h.spent_le
  unfold GasMeter.charge
  rw [Nat.min_eq_left (by omega)]
  exact if_neg (Nat.not_lt.mpr hspent)

theorem GasMeter.Covers.mono {gas : GasMeter} {a b : ℕ} (h : gas.Covers b) (hle : a ≤ b) :
    gas.Covers a :=
  ⟨h.limit_le, (Nat.add_le_add_left hle gas.spent).trans h.spent_le⟩

theorem GasMeter.Covers.split {gas : GasMeter} {a b : ℕ} (h : gas.Covers (a + b)) :
    gas.Covers a ∧ (gas.plus a).Covers b := by
  obtain ⟨hlimit, hspent⟩ := h
  refine ⟨⟨hlimit, by omega⟩, hlimit, ?_⟩
  show gas.spent + a + b ≤ gas.limit
  omega

theorem GasMeter.plus_plus (gas : GasMeter) (a b : ℕ) : (gas.plus a).plus b = gas.plus (a + b) := by
  simp [GasMeter.plus, Nat.add_assoc]

variable (vm : Vm σ)

/-- With gas for it, `turns` turns lead from `p` to `q` and spend `cost`. -/
def Vm.Reaches (turns cost : ℕ) (p q : Point σ) : Prop :=
  ∀ gas n, gas.Covers cost → ∃ n',
    vm.run (fun _ => ()) turns (p.state gas n) = .next (q.state (gas.plus cost) n')

/-- With gas for it, the run from `p` ends within `turns` turns and spends `cost`. -/
def Vm.Finishes (turns cost : ℕ) (p : Point σ) (outcome : Outcome VmError (Option (Value Unit)))
    (ctx : σ) : Prop :=
  ∀ gas n, gas.Covers cost →
    vm.run (fun _ => ()) turns (p.state gas n) = .done { outcome, gas := gas.plus cost, ctx }

variable {vm} {p q r : Point σ} {turns turns' cost cost' : ℕ}
  {outcome : Outcome VmError (Option (Value Unit))} {ctx : σ}

theorem Vm.Reaches.refl : vm.Reaches 0 0 p p :=
  fun _ n _ => ⟨n, rfl⟩

theorem Vm.Reaches.trans (h : vm.Reaches turns cost p q) (h' : vm.Reaches turns' cost' q r) :
    vm.Reaches (turns + turns') (cost + cost') p r := by
  intro gas n hgas
  obtain ⟨hfirst, hrest⟩ := hgas.split
  obtain ⟨m, hm⟩ := h gas n hfirst
  obtain ⟨m', hm'⟩ := h' _ m hrest
  refine ⟨m', ?_⟩
  rw [run_add, hm, ← gas.plus_plus]
  exact hm'

/-- Runs are written as chains. -/
instance : Trans (vm.Reaches turns cost) (vm.Reaches turns' cost')
    (vm.Reaches (turns + turns') (cost + cost')) where
  trans := Vm.Reaches.trans

theorem Vm.Reaches.finish (h : vm.Reaches turns cost p q)
    (h' : vm.Finishes turns' cost' q outcome ctx) :
    vm.Finishes (turns + turns') (cost + cost') p outcome ctx := by
  intro gas n hgas
  obtain ⟨hfirst, hrest⟩ := hgas.split
  obtain ⟨m, hm⟩ := h gas n hfirst
  rw [run_add, hm, ← gas.plus_plus]
  exact h' _ m hrest

/-! ## Single steps -/

theorem step_covered {instr : Instruction} {gas : GasMeter} {n : ℕ}
    (hinstr : p.frame.current = some instr) (hgas : gas.Covers (vm.gasSchedule.costOf instr)) :
    vm.step (fun _ => ()) (p.state gas n) =
      vm.execInstr (fun _ => ())
        ({ p with frame := p.frame.next }.state (gas.plus (vm.gasSchedule.costOf instr)) n) instr := by
  have hsome : p.frame.function.code[p.frame.pc]? = some instr := hinstr
  unfold Vm.step
  simp only [Point.state, hsome, hgas.charge]
  rfl

theorem run_one_next {s s' : State Unit σ} (h : vm.step (fun _ => ()) s = .next s') :
    vm.run (fun _ => ()) 1 s = .next s' := by
  rw [Vm.run, h]
  rfl

theorem run_one_done {s : State Unit σ} {final : Final Unit σ}
    (h : vm.step (fun _ => ()) s = .done final) : vm.run (fun _ => ()) 1 s = .done final := by
  rw [Vm.run, h]

section Instructions

variable {instr : Instruction}

theorem reaches_exec {frame : Frame Unit} (hinstr : p.frame.current = some instr)
    (hlocal : instr.isLocal = true)
    (hexec : Frame.exec vm.deps () p.frame.next instr = .ok frame) :
    vm.Reaches 1 (vm.gasSchedule.costOf instr) p { p with frame } := by
  intro gas n hgas
  refine ⟨n + 1, run_one_next ?_⟩
  rw [step_covered hinstr hgas]
  exact execInstr_ok hlocal hexec

theorem finishes_error {e : VmError} (hinstr : p.frame.current = some instr)
    (hlocal : instr.isLocal = true)
    (hexec : Frame.exec vm.deps () p.frame.next instr = .error e) :
    vm.Finishes 1 (vm.gasSchedule.costOf instr) p (.err e) p.ctx := by
  intro gas n hgas
  refine run_one_done ?_
  rw [step_covered hinstr hgas]
  exact execInstr_error hlocal hexec

section Arithmetic

variable {frame : Frame Unit} {callers : List (Frame Unit)} {stack : List (Value Unit)}
  {op : UInt64 → UInt64 → Option UInt64} {a b c : UInt64}

theorem arithOp_u64 : arithOp op (.u64 a) (.u64 b : Value Unit) =
    match op a b with
    | some c => .ok (.u64 c)
    | none => .error .arithmeticOverflow :=
  rfl

structure Vm.Computes (vm : Vm σ) (instr : Instruction)
    (op : UInt64 → UInt64 → Option UInt64) : Prop where
  isLocal : instr.isLocal = true
  exec_eq (frame : Frame Unit) : Frame.exec vm.deps () frame instr = frame.binary (arithOp op)

theorem reaches_arith (h : vm.Computes instr op) (hinstr : frame.current = some instr)
    (hstack : frame.stack = .u64 b :: .u64 a :: stack) (hop : op a b = some c) :
    vm.Reaches 1 (vm.gasSchedule.costOf instr) ⟨frame, callers, ctx⟩
      ⟨{ frame.next with stack := .u64 c :: stack }, callers, ctx⟩ := by
  refine reaches_exec (p := ⟨frame, callers, ctx⟩) hinstr h.isLocal ?_
  have hnext : frame.next.stack = .u64 b :: .u64 a :: stack := hstack
  simp only [h.exec_eq, Frame.binary, hnext, arithOp_u64, hop]
  rfl

theorem finishes_overflow (h : vm.Computes instr op) (hinstr : frame.current = some instr)
    (hstack : frame.stack = .u64 b :: .u64 a :: stack) (hop : op a b = none) :
    vm.Finishes 1 (vm.gasSchedule.costOf instr) ⟨frame, callers, ctx⟩ (.err .arithmeticOverflow)
      ctx := by
  refine finishes_error (p := ⟨frame, callers, ctx⟩) hinstr h.isLocal ?_
  have hnext : frame.next.stack = .u64 b :: .u64 a :: stack := hstack
  simp only [h.exec_eq, Frame.binary, hnext, arithOp_u64, hop]
  rfl

end Arithmetic

/-- `n` instructions that stay within the frame, with what they cost. -/
def Frame.advance (schedule : GasSchedule) (deps : DepMap) :
    ℕ → Frame Unit → Option (ℕ × Frame Unit)
  | 0, frame => some (0, frame)
  | n + 1, frame =>
    match frame.current with
    | none => none
    | some instr =>
      if instr.isLocal then
        match Frame.exec deps () frame.next instr with
        | .error _ => none
        | .ok next => (advance schedule deps n next).map fun r => (schedule.costOf instr + r.1, r.2)
      else none

theorem reaches_advance {frame : Frame Unit}
    (h : Frame.advance vm.gasSchedule vm.deps turns p.frame = some (cost, frame)) :
    vm.Reaches turns cost p { p with frame } := by
  induction turns generalizing p cost frame with
  | zero =>
    cases h
    exact .refl
  | succ turns ih =>
    rw [Frame.advance] at h
    cases hinstr : p.frame.current with
    | none => simp [hinstr] at h
    | some instr =>
      by_cases hlocal : instr.isLocal = true
      · cases hexec : Frame.exec vm.deps () p.frame.next instr with
        | error e => simp [hinstr, hlocal, hexec] at h
        | ok next =>
          simp only [hinstr, hlocal, if_true, hexec, Option.map_eq_some_iff] at h
          obtain ⟨⟨rest, last⟩, hrest, hpair⟩ := h
          cases hpair
          rw [Nat.add_comm turns]
          exact (reaches_exec hinstr hlocal hexec).trans (ih (p := { p with frame := next }) hrest)
      · simp [hinstr, hlocal] at h

end Instructions

/-! ## Calls -/

section Calls

variable {name : String}

structure Vm.CallsNative (vm : Vm σ) (frame : Frame Unit) (name : String)
    (entry : NativeFnEntry σ) : Prop where
  current : frame.current = some (.call name)
  unqualified : parseModuleRef name = none
  notLocal : frame.context.getFunction name = none
  native : vm.getNative name = some entry
  args_le : entry.params.length ≤ frame.stack.length

theorem Vm.CallsNative.step {entry : NativeFnEntry σ} (h : vm.CallsNative p.frame name entry)
    {gas : GasMeter} {n : ℕ} (hgas : gas.Covers (vm.gasSchedule.call + entry.gasCost)) :
    vm.step (fun _ => ()) (p.state gas n) =
      Vm.callNative (fun _ => ())
        ({ p with frame := p.frame.next }.state (gas.plus vm.gasSchedule.call) n) entry := by
  rw [step_covered h.current hgas.split.1]
  show vm.execCall _ _ name = _
  have hnotLocal : p.frame.next.context.getFunction name = none := h.notLocal
  unfold Vm.execCall
  simp only [Point.state, h.unqualified, hnotLocal, h.native]
  rfl

theorem popArgs_frame {frame : Frame Unit} {n : ℕ} (h : n ≤ frame.stack.length) :
    popArgs n frame.stack = .ok (frame.args n, frame.stack.drop n) :=
  if_pos h

section Natives

variable {frame : Frame Unit} {callers : List (Frame Unit)} {ctx' : σ} {entry : NativeFnEntry σ}
  {args : List (Value Unit)}

theorem reaches_native (h : vm.CallsNative frame name entry)
    (hargs : frame.args entry.params.length = args) {v : Option (Value Unit)}
    (hfunc : entry.func ctx args = (.ret v, ctx'))
    (hqualified : (v.map checkStructQualified).getD true = true) :
    vm.Reaches 1 (vm.gasSchedule.call + entry.gasCost) ⟨frame, callers, ctx⟩
      ⟨frame.replaceArgs entry.params.length (v.getD .void), callers, ctx'⟩ := by
  intro gas n hgas
  subst hargs
  refine ⟨((v.getD .void).label (fun _ => ()) n).2, run_one_next ?_⟩
  rw [Vm.CallsNative.step (p := ⟨frame, callers, ctx⟩) h hgas]
  unfold Vm.callNative
  have hpop : popArgs entry.params.length frame.next.stack =
      .ok (frame.args entry.params.length, frame.stack.drop entry.params.length) :=
    popArgs_frame h.args_le
  simp only [Point.state, hgas.split.2.charge, hpop, args_erase, hfunc, hqualified, if_true,
    gas.plus_plus, label_unit]
  rfl

theorem finishes_abort (h : vm.CallsNative frame name entry)
    (hargs : frame.args entry.params.length = args) {code : UInt64} {message : String}
    (hfunc : entry.func ctx args = (.abort code message, ctx')) :
    vm.Finishes 1 (vm.gasSchedule.call + entry.gasCost) ⟨frame, callers, ctx⟩
      (.err (.aborted code message)) ctx' := by
  intro gas n hgas
  subst hargs
  refine run_one_done ?_
  rw [Vm.CallsNative.step (p := ⟨frame, callers, ctx⟩) h hgas]
  unfold Vm.callNative
  have hpop : popArgs entry.params.length frame.next.stack =
      .ok (frame.args entry.params.length, frame.stack.drop entry.params.length) :=
    popArgs_frame h.args_le
  simp only [Point.state, hgas.split.2.charge, hpop, args_erase, hfunc, gas.plus_plus]
  rfl

end Natives

theorem reaches_call {callee : Function} (hinstr : p.frame.current = some (.call name))
    (hname : parseModuleRef name = none) (hget : p.frame.context.getFunction name = some callee)
    (hargs : callee.params.length ≤ p.frame.stack.length)
    (hslots : callee.params.length ≤ callee.localCount)
    (hdepth : p.callers.length + 1 < vm.config.maxCallDepth) :
    vm.Reaches 1 vm.gasSchedule.call p
      ⟨Frame.new p.frame.context p.frame.contextAddr callee (p.frame.args callee.params.length),
        { p.frame.next with stack := p.frame.stack.drop callee.params.length } :: p.callers,
        p.ctx⟩ := by
  intro gas n hgas
  refine ⟨n, run_one_next ?_⟩
  rw [step_covered hinstr hgas]
  show vm.execCall _ _ name = _
  have hget' : p.frame.next.context.getFunction name = some callee := hget
  have hpop : popArgs callee.params.length p.frame.next.stack =
      .ok (p.frame.args callee.params.length, p.frame.stack.drop callee.params.length) :=
    popArgs_frame hargs
  have hlength : ¬ (p.frame.args callee.params.length).length > callee.localCount := by
    simp only [Frame.args, List.length_reverse, List.length_take]
    omega
  unfold Vm.execCall Vm.invoke Vm.enter
  simp only [Point.state, hname, hget', hpop, ge_iff_le, Nat.not_le.mpr hdepth, if_false, hlength]
  rfl

theorem reaches_ret {caller : Frame Unit} {callers : List (Frame Unit)}
    (hinstr : p.frame.current = some .ret) (hcallers : p.callers = caller :: callers) :
    vm.Reaches 1 vm.gasSchedule.ret p
      ⟨caller.push (p.frame.stack.head?.getD .void), callers, p.ctx⟩ := by
  intro gas n hgas
  refine ⟨n, run_one_next ?_⟩
  rw [step_covered hinstr hgas]
  show Vm.leave _ = _
  unfold Vm.leave
  simp only [Point.state, hcallers]
  rfl

theorem finishes_ret (hinstr : p.frame.current = some .ret) (hcallers : p.callers = []) :
    vm.Finishes 1 vm.gasSchedule.ret p (.ok p.frame.stack.head?) p.ctx := by
  intro gas n hgas
  refine run_one_done ?_
  rw [step_covered hinstr hgas]
  show Vm.leave _ = _
  unfold Vm.leave
  simp only [Point.state, hcallers]
  rfl

end Calls

/-! ## Functions -/

section Functions

variable (vm)

/-- The function runs up to its return, whatever waits below its frame. -/
def Vm.Returns (turns cost : ℕ) (function : Function) (args : List (Value Unit)) (ctx : σ)
    (v : Option (Value Unit)) (ctx' : σ) : Prop :=
  ∀ callers, ∃ frame : Frame Unit, frame.current = some .ret ∧ frame.stack.head? = v ∧
    vm.Reaches turns cost ⟨Frame.new vm.module vm.moduleAddr function args, callers, ctx⟩
      ⟨frame, callers, ctx'⟩

/-- The function fails before its return, whatever waits below its frame. -/
def Vm.Fails (turns cost : ℕ) (function : Function) (args : List (Value Unit)) (ctx : σ)
    (e : VmError) (ctx' : σ) : Prop :=
  ∀ callers, vm.Finishes turns cost
    ⟨Frame.new vm.module vm.moduleAddr function args, callers, ctx⟩ (.err e) ctx'

/-- The frame is about to call a function of its module, which is the machine's. -/
structure Vm.CallsOwn (frame : Frame Unit) (callers : List (Frame Unit)) (name : String)
    (callee : Function) : Prop where
  context : frame.context = vm.module
  contextAddr : frame.contextAddr = vm.moduleAddr
  current : frame.current = some (.call name)
  unqualified : parseModuleRef name = none
  declared : frame.context.getFunction name = some callee
  args_le : callee.params.length ≤ frame.stack.length
  slots : callee.params.length ≤ callee.localCount
  depth : callers.length + 1 < vm.config.maxCallDepth

variable {vm} {frame : Frame Unit} {callers : List (Frame Unit)} {name : String} {callee : Function}
  {args : List (Value Unit)} {ctx' : σ} {v : Option (Value Unit)} {e : VmError}

theorem Vm.CallsOwn.reaches (h : vm.CallsOwn frame callers name callee) :
    vm.Reaches 1 vm.gasSchedule.call ⟨frame, callers, ctx⟩
      ⟨Frame.new vm.module vm.moduleAddr callee (frame.args callee.params.length),
        { frame.next with stack := frame.stack.drop callee.params.length } :: callers, ctx⟩ := by
  rw [← h.context, ← h.contextAddr]
  exact reaches_call (p := ⟨frame, callers, ctx⟩) h.current h.unqualified h.declared h.args_le
    h.slots h.depth

/-- A call of a function that returns. -/
theorem Vm.Returns.called (hcallee : vm.Returns turns cost callee args ctx v ctx')
    (h : vm.CallsOwn frame callers name callee)
    (hargs : frame.args callee.params.length = args) :
    vm.Reaches (1 + turns + 1) (vm.gasSchedule.call + cost + vm.gasSchedule.ret)
      ⟨frame, callers, ctx⟩
      ⟨frame.replaceArgs callee.params.length (v.getD .void), callers, ctx'⟩ := by
  subst hargs
  obtain ⟨last, hret, rfl, hreaches⟩ := hcallee
    ({ frame.next with stack := frame.stack.drop callee.params.length } :: callers)
  have hback : ∀ caller : Frame Unit, vm.Reaches 1 vm.gasSchedule.ret
      ⟨last, caller :: callers, ctx'⟩
      ⟨caller.push (last.stack.head?.getD .void), callers, ctx'⟩ :=
    fun _ => reaches_ret hret rfl
  exact (h.reaches.trans hreaches).trans (hback _)

theorem Vm.Fails.called (hcallee : vm.Fails turns cost callee args ctx e ctx')
    (h : vm.CallsOwn frame callers name callee)
    (hargs : frame.args callee.params.length = args) :
    vm.Finishes (1 + turns) (vm.gasSchedule.call + cost) ⟨frame, callers, ctx⟩ (.err e) ctx' := by
  subst hargs
  exact h.reaches.finish (hcallee _)

theorem Vm.Returns.finishes {function : Function}
    (h : vm.Returns turns cost function args ctx v ctx') :
    vm.Finishes (turns + 1) (cost + vm.gasSchedule.ret)
      ⟨Frame.new vm.module vm.moduleAddr function args, [], ctx⟩ (.ok v) ctx' := by
  obtain ⟨frame, hret, rfl, hreaches⟩ := h []
  exact hreaches.finish (finishes_ret hret rfl)

end Functions

/-! ## Whole calls -/

structure Vm.Callable (vm : Vm σ) (fnName : String) (function : Function)
    (args : List (Value Unit)) : Prop where
  deps_le : vm.deps.size ≤ vm.config.maxDepModules
  notNative : vm.getNative fnName = none
  declared : vm.module.getFunction fnName = some function
  allowed : function.isPublic = true ∨ vm.config.enableCallPrivateFunctions = true
  qualified : args.all checkStructQualified = true
  slots : args.length ≤ function.localCount
  depth : 0 < vm.config.maxCallDepth

theorem Vm.Callable.start {fnName : String} {function : Function} {args : List (Value Unit)}
    (h : vm.Callable fnName function args) (gas : GasMeter) (ctx : σ) :
    vm.start (fun _ => ()) fnName args gas ctx =
      .next (Point.state ⟨Frame.new vm.module vm.moduleAddr function args, [], ctx⟩ gas
        (Value.labelList (fun _ => ()) 0 args).2) := by
  have hallowed : (!function.isPublic && !vm.config.enableCallPrivateFunctions) = false := by
    rcases h.allowed with hpublic | hprivate
    · simp [hpublic]
    · simp [hprivate]
  have hslots := Nat.not_lt.mpr h.slots
  have hdepth := Nat.not_le.mpr h.depth
  unfold Vm.start Vm.enter
  simp only [Nat.not_lt.mpr h.deps_le, h.notNative, h.declared, hallowed, h.qualified,
    labelList_unit, gt_iff_lt, ge_iff_le, hslots, hdepth, if_false, Option.isSome_none,
    Bool.false_eq_true, Bool.not_true]
  rfl

/-- What a call returns whose run was followed to its end. -/
theorem Vm.Callable.call {fnName : String} {function : Function} {args : List (Value Unit)}
    (h : vm.Callable fnName function args) {ctx' : σ}
    (hfinishes : vm.Finishes turns cost
      ⟨Frame.new vm.module vm.moduleAddr function args, [], ctx⟩ outcome ctx')
    (hturns : turns ≤ cost) {gas : GasMeter} (hgas : gas.Covers cost) :
    vm.call (fun _ => ()) fnName args gas ctx = { outcome, gas := gas.plus cost, ctx := ctx' } := by
  -- The model's bound on the turns is no limit: every turn here costs something.
  have hspent := hgas.spent_le
  have hle : turns ≤ vm.gasTurns gas + vm.flowTurns := by
    have hfactor : 1 ≤ (vm.config.maxCallDepth + 1) * (vm.longestCode + 1) :=
      Nat.mul_pos (Nat.succ_pos _) (Nat.succ_pos _)
    have hmul := Nat.mul_le_mul_left (gas.limit - gas.spent + 1) hfactor
    unfold Vm.gasTurns
    omega
  obtain ⟨more, hmore⟩ := Nat.exists_eq_add_of_le hle
  unfold Vm.call Vm.callFor
  rw [h.start, hmore]
  dsimp only
  rw [run_add, hfinishes gas _ hgas]

end MeowChain
