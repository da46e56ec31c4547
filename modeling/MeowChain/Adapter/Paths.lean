import MeowChain.Adapter.Shadow

/-!
# Paths through a function

What a path through a function tells of the values on it: which of them are unused results of
`meow_vm_fresh_id`, which are tuples that were made on the path, and whether the adapter counts the
stack as the machine does.
-/

set_option autoImplicit false

namespace MeowChain.Adapter

open Verifier (Scope AbstractState Certified)

inductive Mark where
  /-- The result of a call of `meow_vm_fresh_id`, moved at most between stack and slots since. -/
  | freshId
  /-- A tuple that the function made or got from a function of its module, and only moved since. -/
  | tuple
  | other
  deriving DecidableEq

/-- The adapter is in step as long as its stack has the values of the machine's. -/
structure PathState where
  stack : List Mark
  locals : List Mark
  inStep : Bool

/-- How many values a call takes, and whether it has a result. -/
def callArity (sc : Scope) (name : String) : ℕ × Bool :=
  (calleeArity sc name).getD (0, false)

def callMark (sc : Scope) (name : String) : Mark :=
  if name = nativeFnFreshId then .freshId
  else
    match (sc.module.getFunction name).bind (·.returnType) with
    | some (.tuple _) => .tuple
    | _ => .other

namespace PathState

def entry (func : Function) : PathState where
  stack := []
  locals := List.replicate func.localCount .other
  inStep := true

variable (sc : Scope) (instr : Instruction) (x : PathState)

def stackAfter : List Mark :=
  match instr with
  | .load slot => x.locals[slot]?.getD .other :: x.stack
  | .dup => x.stack.head?.getD .other :: x.stack
  | .call name => callMark sc name :: x.stack.drop (callArity sc name).1
  | .makeTuple n => .tuple :: x.stack.drop n
  | instr => List.replicate instr.pushes .other ++ x.stack.drop instr.pops

/-- A slot that a value was moved out of keeps its mark; accepted code does not read it before it is
stored to. -/
def localsAfter : List Mark :=
  match instr with
  | .store slot => x.locals.set slot (x.stack.head?.getD .other)
  | _ => x.locals

/-- The adapter pops a value at `LoadField` and pushes none for a call without a result. It is in
step again after an instruction that takes all values off, unless what that instruction pushes
depends on them. -/
def inStepAfter : Bool :=
  match instr with
  | .loadField _ _ => x.stack.isEmpty
  | .call name =>
    (callArity sc name).2 && (x.inStep || (x.stack.drop (callArity sc name).1).isEmpty)
  | .dup | .makeTuple _ | .unpackTuple _ => x.inStep
  | instr => x.inStep || (x.stack.drop instr.pops).isEmpty

def exec : PathState where
  stack := x.stackAfter sc instr
  locals := x.localsAfter instr
  inStep := x.inStepAfter sc instr

end PathState

inductive OnPath (sc : Scope) : ℕ → PathState → Prop where
  | entry : OnPath sc 0 (.entry sc.func)
  | next {pc : ℕ} {x : PathState} {instr : Instruction} (h : OnPath sc pc x)
      (hinstr : sc.func.code[pc]? = some instr) (hret : instr ≠ .ret)
      (hjump : ∀ offset, instr ≠ .jump offset) : OnPath sc (pc + 1) (x.exec sc instr)
  | jump {pc : ℕ} {x : PathState} {instr : Instruction} {offset : ℤ} (h : OnPath sc pc x)
      (hinstr : sc.func.code[pc]? = some instr) (hoffset : instr.jumpOffset = some offset) :
      OnPath sc (jumpTarget pc offset) (x.exec sc instr)

/-! ## Paths and the language verifier -/

section Certified

variable {cfg : CompilerConfig} {sc : Scope} {pc : ℕ} {t : AbstractState} {instr : Instruction}

theorem length_stackAfter {x : PathState} (hret : instr ≠ .ret)
    (hchecked : Checked cfg sc pc t instr) (h : x.stack.length = t.stack.length) :
    (x.stackAfter sc instr).length = (Verifier.exec sc pc instr t).state.stack.length := by
  by_cases hlocal : instr.isLocal = true
  · obtain ⟨hpops, hlen⟩ := hchecked.heightOk hlocal
    cases instr with
    | call name | ret => cases hlocal
    | load slot | dup | makeTuple n =>
      simp only [Instruction.pops, Instruction.pushes] at hpops hlen
      simp only [PathState.stackAfter, List.length_cons, List.length_drop]
      omega
    | _ =>
      simp only [PathState.stackAfter, List.length_append, List.length_replicate, List.length_drop]
      omega
  · cases instr with
    | call name =>
      obtain ⟨n, result, ty, harity, hle, heq, -⟩ := hchecked.call
      simp only [PathState.stackAfter, callArity, harity, Option.getD_some, heq, Verifier.goOn,
        List.length_cons, List.length_drop, h]
    | ret => exact absurd rfl hret
    | _ => exact absurd rfl hlocal

variable {m : Module} {deps : DepMap} {sigs : List NativeSig}
  (hverify : Verifier.verify m deps sigs cfg = []) {f : Function} (hf : f ∈ m.functions)
include hverify hf

theorem OnPath.certified {x : PathState} (h : OnPath (functionScope m deps sigs f) pc x) :
    ∃ t, Certified (functionScope m deps sigs f) pc t ∧ x.stack.length = t.stack.length := by
  induction h with
  | entry =>
    obtain ⟨hmodule, hfunctions⟩ := verify_eq_nil hverify
    exact ⟨_, Verifier.certified_entry _ (params_le_localCount hmodule hf) (hfunctions f hf), rfl⟩
  | next _ hinstr hret hjump ih =>
    obtain ⟨t, hcert, hlen⟩ := ih
    obtain ⟨-, hchecked⟩ := checked_of_certified hverify hf hcert hinstr
    obtain ⟨t', hcert', hle⟩ := certified_succ hverify hf hcert hinstr hret hjump
    exact ⟨t', hcert', (length_stackAfter hret hchecked hlen).trans (congrArg _ hle.1)⟩
  | @jump pc x instr offset _ hinstr hoffset ih =>
    obtain ⟨t, hcert, hlen⟩ := ih
    have hret : instr ≠ .ret := by
      rintro rfl
      cases hoffset
    obtain ⟨-, hchecked⟩ := checked_of_certified hverify hf hcert hinstr
    obtain ⟨-, t', hcert', hle⟩ := certified_target hverify hf hcert hinstr hoffset
    exact ⟨t', hcert', (length_stackAfter hret hchecked hlen).trans (congrArg _ hle.1)⟩

theorem OnPath.height {x : PathState} (h : OnPath (functionScope m deps sigs f) pc x)
    (hcert : Certified (functionScope m deps sigs f) pc t) :
    x.stack.length = t.stack.length := by
  obtain ⟨t', hcert', hlen⟩ := h.certified hverify hf
  obtain rfl := Option.some.inj (hcert.state.symm.trans hcert'.state)
  exact hlen

end Certified

end MeowChain.Adapter
