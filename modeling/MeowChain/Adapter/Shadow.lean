import MeowChain.Adapter.BytecodeVerifier
import MeowChain.Soundness.StackEffect

/-!
# The adapter's shadow stack

The adapter finds the id of a new object by counting from the top of its own stack. That stack has
the height of the machine's as long as two instructions are used in a certain way: `LoadField` on
an empty stack, and a call without a result as a statement of its own, whose `Void` the next
instruction takes away.
-/

set_option autoImplicit false

namespace MeowChain.Adapter

open Verifier (Scope AbstractState AbstractType Certified)

/-! ## Joins lose information -/

/-- `b` is known to be fresh wherever `a` is. -/
def Slot.Supports (b a : Slot) : Prop :=
  a.fresh = .id → b.fresh = .id

/-- `t` is what joins leave of `s`: the bottom of its stack, with fewer fresh slots. -/
structure VerifyState.Le (s t : VerifyState) : Prop where
  height : t.stack.length ≤ s.stack.length
  stack : List.Forall₂ Slot.Supports (s.stack.drop (s.stack.length - t.stack.length)) t.stack
  locals : List.Forall₂ Slot.Supports s.locals t.locals

theorem VerifyState.Le.refl (s : VerifyState) : s.Le s where
  height := le_rfl
  stack := by
    rw [Nat.sub_self, List.drop_zero]
    exact List.forall₂_same.mpr fun _ _ => id
  locals := List.forall₂_same.mpr fun _ _ => id

theorem VerifyState.Le.trans {s t u : VerifyState} (hst : s.Le t) (htu : t.Le u) : s.Le u where
  height := htu.height.trans hst.height
  stack := by
    have hdrop := List.forall₂_drop (t.stack.length - u.stack.length) hst.stack
    rw [List.drop_drop] at hdrop
    have hsum : s.stack.length - t.stack.length + (t.stack.length - u.stack.length)
        = s.stack.length - u.stack.length := by
      have := hst.height
      have := htu.height
      omega
    rw [hsum] at hdrop
    exact forall₂_comp (fun hst htu hu => hst (htu hu)) hdrop htu.stack
  locals := forall₂_comp (fun hst htu hu => hst (htu hu)) hst.locals htu.locals

theorem supports_mergeSlot_left (a b : Slot) : a.Supports (mergeSlot a b) := by
  intro h
  simp only [mergeSlot] at h
  split at h
  · exact h
  · cases h

theorem supports_mergeSlot_right (a b : Slot) : b.Supports (mergeSlot a b) := by
  intro h
  simp only [mergeSlot] at h
  split at h
  · assumption
  · cases h

theorem length_mergeLocals (as bs : List Slot) : (mergeLocals as bs).length = as.length := by
  induction as generalizing bs with
  | nil => cases bs <;> rfl
  | cons a as ih => cases bs <;> simp [mergeLocals, ih]

theorem mergeLocals_eq_zipWith {as bs : List Slot} (hlen : as.length = bs.length) :
    mergeLocals as bs = List.zipWith mergeSlot as bs := by
  induction as generalizing bs with
  | nil =>
    obtain rfl : bs = [] := List.length_eq_zero_iff.mp hlen.symm
    rfl
  | cons a as ih =>
    cases bs with
    | nil => cases hlen
    | cons b bs => simp [mergeLocals, ih (by simpa using hlen)]

theorem length_mergeFrom (s t : VerifyState) :
    (mergeFrom s t).stack.length = min s.stack.length t.stack.length := by
  simp only [mergeFrom, List.length_zipWith, List.length_drop]
  omega

theorem le_mergeFrom_left {s t : VerifyState} (hlen : s.locals.length = t.locals.length) :
    s.Le (mergeFrom s t) where
  height := by
    rw [length_mergeFrom]
    exact Nat.min_le_left _ _
  stack := by
    rw [length_mergeFrom]
    refine forall₂_zipWith_left supports_mergeSlot_left ?_
    simp only [List.length_drop]
    omega
  locals := by
    simp only [mergeFrom, mergeLocals_eq_zipWith hlen]
    exact forall₂_zipWith_left supports_mergeSlot_left hlen

theorem le_mergeFrom_right {s t : VerifyState} (hlen : s.locals.length = t.locals.length) :
    t.Le (mergeFrom s t) where
  height := by
    rw [length_mergeFrom]
    exact Nat.min_le_right _ _
  stack := by
    rw [length_mergeFrom]
    refine forall₂_zipWith_right supports_mergeSlot_right ?_
    simp only [List.length_drop]
    omega
  locals := by
    simp only [mergeFrom, mergeLocals_eq_zipWith hlen]
    exact forall₂_zipWith_right supports_mergeSlot_right hlen

/-! ## Instructions -/

section Exec

variable {sc : Scope} {pc : ℕ} {s : VerifyState} {instr : Instruction}

/-- The instruction replaces the top of the stack by values of unknown origin. -/
def Plain (instr : Instruction) (s : VerifyState) (e : Effect) : Prop :=
  ∃ us, us.length = instr.pushes ∧ (∀ u ∈ us, u.fresh = .other) ∧
    e.state.stack = us ++ s.stack.drop instr.pops ∧ e.state.locals = s.locals

theorem plain_goOn (us : List Slot) {errors : List BytecodeVerifierError} {stack : List Slot}
    (hlen : us.length = instr.pushes) (hother : ∀ u ∈ us, u.fresh = .other)
    (hstack : stack = us ++ s.stack.drop instr.pops) :
    Plain instr s (goOn { s with stack } errors) :=
  ⟨us, hlen, hother, hstack, rfl⟩

/-- Instructions whose effect on the shadow is the effect on the machine. The others copy a slot,
or are counted differently. -/
def isPlain : Instruction → Bool
  | .load _ | .store _ | .dup | .loadField _ _ | .call _ | .ret => false
  | _ => true

variable (sc pc s) in
theorem plain_exec (hplain : isPlain instr = true) : Plain instr s (exec sc pc instr s) := by
  cases instr with
  | load slot | store slot | dup | loadField slot path | call name | ret => cases hplain
  | pushBool b | pushU64 n | pushAddress a | pushStr str | not | getField field | add | sub | mul
  | div | mod | eq | ne | lt | le | gt | ge | and | or =>
    refine plain_goOn [.other] rfl (by simp [Slot.other, Slot.scalar]) ?_
    simp [VerifyState.pop, VerifyState.popN, Instruction.pops]
  | storeField slot path | pop =>
    exact plain_goOn [] rfl (by simp) (by simp [Instruction.pops])
  | jump offset => exact ⟨[], rfl, by simp, rfl, rfl⟩
  | jumpIf offset | jumpIfNot offset =>
    exact ⟨[], rfl, by simp, by simp [exec, VerifyState.pop, Instruction.pops], rfl⟩
  | newStruct typeName fieldNames =>
    exact plain_goOn [_] rfl (by simp [Slot.scalar]) rfl
  | unpackStruct typeName fieldNames =>
    refine plain_goOn ((fieldNames.map fun fieldName =>
      Slot.scalar .other (fieldTag sc typeName fieldName)).reverse) ?_ ?_ ?_
    · simp [Instruction.pushes]
    · simp [Slot.scalar]
    · simp [VerifyState.pop, Instruction.pops]
  | makeTuple n => exact plain_goOn [_] rfl (by simp) rfl
  | unpackTuple n =>
    have hothers : Plain (.unpackTuple n) s
        (goOn (s.pop.2.pushAll (List.replicate n .other)) []) :=
      plain_goOn (List.replicate n Slot.other).reverse (by simp [Instruction.pushes])
        (by simp [Slot.other, Slot.scalar]) (by simp [VerifyState.pop, Instruction.pops])
    simp only [exec, unpackTupleInstr]
    split
    · rename_i tags _
      split
      · rename_i hlen
        refine plain_goOn (tags.reverse.map (Slot.scalar .other)).reverse ?_ ?_ ?_
        · simp [Instruction.pushes, hlen]
        · simp [Slot.scalar]
        · simp [VerifyState.pop, Instruction.pops]
      · exact hothers
    · exact hothers

variable (sc pc s) in
theorem exec_jump_eq {offset : ℤ} (hjump : instr.jumpOffset = some offset) :
    ∃ s', (exec sc pc instr s).jump = some (jumpTarget pc offset, s') ∧
      s'.stack = (exec sc pc instr s).state.stack ∧ s'.locals = s.locals ∧
      s'.reachable = s.reachable := by
  cases instr with
  | jump o | jumpIf o | jumpIfNot o =>
    obtain rfl := Option.some.inj hjump
    exact ⟨_, rfl, rfl, rfl, rfl⟩
  | _ => cases hjump

theorem exec_jump_none (hjump : instr.jumpOffset = none) : (exec sc pc instr s).jump = none := by
  cases instr with
  | jump o | jumpIf o | jumpIfNot o => cases hjump
  | unpackTuple n =>
    simp only [exec, unpackTupleInstr]
    split
    · split <;> rfl
    · rfl
  | _ => rfl

theorem exec_reachable (hret : instr ≠ .ret) (hjump : ∀ offset, instr ≠ .jump offset) :
    (exec sc pc instr s).state.reachable = s.reachable := by
  cases instr with
  | ret => exact absurd rfl hret
  | jump offset => exact absurd rfl (hjump offset)
  | call name =>
    simp only [exec, callInstr, goOn]
    split <;> rfl
  | unpackTuple n =>
    simp only [exec, unpackTupleInstr]
    split
    · split <;> rfl
    · rfl
  | _ => rfl

theorem exec_locals_length : (exec sc pc instr s).state.locals.length = s.locals.length := by
  by_cases hplain : isPlain instr = true
  · obtain ⟨us, -, -, -, hlocals⟩ := plain_exec sc pc s hplain
    rw [hlocals]
  · cases instr with
    | store slot => exact List.length_set
    | call name =>
      simp only [exec, callInstr, goOn]
      split <;> rfl
    | load slot | dup | loadField slot path | ret => rfl
    | _ => exact absurd rfl hplain

/-- The adapter looks natives up before functions of the module, the verifier after them; no
function of an accepted module has the name of a native. -/
theorem callEffect_eq {name : String} {n : ℕ} {result : Bool}
    (hnative : ∀ sig ∈ sc.natives, sc.module.getFunction sig.name = none)
    (h : calleeArity sc name = some (n, result)) : callEffect sc name = (n, result) := by
  unfold calleeArity at h
  unfold callEffect
  cases hparse : parseModuleRef name with
  | some r =>
    rw [hparse] at h
    obtain ⟨callee, hbind, heq⟩ := Option.map_eq_some_iff.mp h
    simp only [hbind, heq]
  | none =>
    rw [hparse] at h
    dsimp only at h ⊢
    cases hget : sc.module.getFunction name with
    | some callee =>
      rw [hget] at h
      have hfind : sc.natives.find? (·.name == name) = none := by
        rw [List.find?_eq_none]
        intro sig hsig hname
        have hnone := hnative sig hsig
        rw [beq_iff_eq.mp hname, hget] at hnone
        cases hnone
      rw [hfind]
      exact Option.some.inj h
    | none =>
      rw [hget] at h
      obtain ⟨sig, hfind, heq⟩ := Option.map_eq_some_iff.mp h
      rw [hfind]
      exact heq

@[simp] theorem fresh_returnSlot (sc : Scope) (name : String) (fresh : Fresh) :
    (returnSlot sc name fresh).fresh = fresh := by
  unfold returnSlot
  split
  · rfl
  · split <;> rfl

theorem fresh_of_newStruct {typeName : String} {fieldNames : List String}
    (hobject : (objectTypes sc.module).contains typeName = true) (hpos : 0 < fieldNames.length)
    (h : (exec sc pc (.newStruct typeName fieldNames) s).errors = []) :
    ∃ slot, s.nthFromTop fieldNames.length = some slot ∧ slot.fresh = .id := by
  simp only [exec, newStructInstr, goOn, objects, hobject, Bool.true_and] at h
  split at h
  · cases h
  · rename_i hstale
    simp only [gt_iff_lt, hpos, decide_true, Bool.true_and, decide_eq_true_eq, ne_eq,
      not_not] at hstale
    exact Option.map_eq_some_iff.mp hstale

end Exec

/-! ## Where the shadow keeps its height -/

/-- The instruction takes one value from the stack, or leaves the function. -/
def takesOff : Instruction → Bool
  | .pop | .store _ | .ret => true
  | _ => false

/-- The adapter and the machine count the instruction at `pc` alike. The conditions are on the
state of the language verifier: a field is loaded onto an empty stack, and `Void` is alone on the
stack and taken off next. -/
def countedAlike (sc : Scope) (pc : ℕ) (instr : Instruction) : Bool :=
  match Verifier.stateAt sc pc with
  | none => true
  | some t =>
    match instr with
    | .loadField _ _ => t.stack.isEmpty
    | .call _ =>
      match (Verifier.exec sc pc instr t).state.stack with
      | .void :: rest => rest.isEmpty && (sc.func.code[pc + 1]?).any takesOff
      | _ => true
    | _ => true

/-- The shadow has the height of the verifier's stack, or misses a `Void` about to be taken off. -/
structure Aligned (sc : Scope) (pc : ℕ) (s : VerifyState) (t : AbstractState) : Prop where
  locals : s.locals.length = sc.func.localCount
  stack : s.stack.length = t.stack.length ∨
    (s.stack = [] ∧ t.stack.length = 1 ∧ (sc.func.code[pc]?).any takesOff = true)

theorem Aligned.of_stack {sc : Scope} {pc : ℕ} {s : VerifyState} {t t' : AbstractState}
    (h : Aligned sc pc s t) (hstack : t.stack = t'.stack) : Aligned sc pc s t' :=
  ⟨h.locals, hstack ▸ h.stack⟩

theorem Aligned.height {sc : Scope} {pc : ℕ} {s : VerifyState} {t : AbstractState}
    {instr : Instruction} (h : Aligned sc pc s t) (hinstr : sc.func.code[pc]? = some instr)
    (htakes : takesOff instr = false) : s.stack.length = t.stack.length := by
  rcases h.stack with heq | ⟨-, -, htakes'⟩
  · exact heq
  · rw [hinstr] at htakes'
    exact absurd (htakes.symm.trans (by simpa using htakes')) (by simp)

def ShadowGood (sc : Scope) (pc : ℕ) (s : VerifyState) : Prop :=
  s.reachable = true → ∃ t, Certified sc pc t ∧ Aligned sc pc s t

theorem merge_cases {s t u : VerifyState} (pc : ℕ) (h : merge s t pc = (some u, [])) :
    s.reachable = true ∧ u = mergeFrom s t ∨ s.reachable = false ∧ u = t := by
  obtain rfl := Option.some.inj (Prod.mk.inj h).1
  cases hreach : s.reachable with
  | true => exact .inl ⟨rfl, if_pos rfl⟩
  | false => exact .inr ⟨rfl, if_neg Bool.false_ne_true⟩

theorem merge_ne_none (s t : VerifyState) (pc : ℕ) : merge s t pc ≠ (none, []) := by
  intro h
  cases (Prod.mk.inj h).1

section Laws

variable {m : Module} {deps : DepMap} {sigs : List NativeSig} {cfg : CompilerConfig}
variable (hverify : Verifier.verify m deps sigs cfg = [])
variable (hnative : ∀ sig ∈ builtinNatives ++ sigs, m.getFunction sig.name = none)
variable {f : Function} (hf : f ∈ m.functions)
variable (halike : ∀ {pc : ℕ} {instr : Instruction}, f.code[pc]? = some instr →
  countedAlike (functionScope m deps sigs f) pc instr = true)
include hverify hnative hf halike

omit hverify hnative hf halike in
/-- `Pop` and `Store` take one value off, also when the shadow misses it. -/
theorem length_takesOff {sc : Scope} {pc : ℕ} {instr : Instruction} (s : VerifyState)
    (htakes : takesOff instr = true) :
    (exec sc pc instr s).state.stack.length = s.stack.length - 1 := by
  cases instr with
  | pop | store slot | ret => simp [exec, goOn, VerifyState.pop]
  | _ => cases htakes

omit hnative in
theorem height_exec {pc : ℕ} {instr : Instruction} {s : VerifyState} {t : AbstractState}
    (hinstr : f.code[pc]? = some instr) (hlocal : instr.isLocal = true)
    (hcert : Certified (functionScope m deps sigs f) pc t)
    (haligned : Aligned (functionScope m deps sigs f) pc s t) :
    (exec (functionScope m deps sigs f) pc instr s).state.stack.length
      = (Verifier.exec (functionScope m deps sigs f) pc instr t).state.stack.length := by
  obtain ⟨-, hchecked⟩ := checked_of_certified hverify hf hcert hinstr
  obtain ⟨hpops, hlen⟩ := hchecked.heightOk hlocal
  by_cases htakes : takesOff instr = true
  · have hone : instr.pops = 1 ∧ instr.pushes = 0 := by
      cases instr with
      | pop | store slot => exact ⟨rfl, rfl⟩
      | ret => cases hlocal
      | _ => cases htakes
    rw [length_takesOff s htakes]
    rcases haligned.stack with heq | ⟨hnil, ht, -⟩
    · omega
    · simp only [hnil, List.length_nil]
      omega
  · have hheight := haligned.height hinstr (by simpa using htakes)
    by_cases hplain : isPlain instr = true
    · obtain ⟨us, hus, -, hstack, -⟩ := plain_exec (functionScope m deps sigs f) pc s hplain
      rw [hstack, List.length_append, List.length_drop, hus]
      omega
    · cases instr with
      | load slot | dup =>
        simp only [Instruction.pops, Instruction.pushes] at hpops hlen
        simp only [exec, goOn, VerifyState.push, List.length_cons]
        omega
      | loadField slot path =>
        have hcounted := halike hinstr
        simp only [countedAlike, hcert.state, List.isEmpty_iff] at hcounted
        simp only [Instruction.pops, Instruction.pushes, hcounted, List.length_nil] at hlen hheight
        simp only [exec, goOn, VerifyState.push, VerifyState.pop, List.length_cons,
          List.length_tail]
        omega
      | call name | ret => cases hlocal
      | store slot => exact absurd rfl htakes
      | _ => exact absurd rfl hplain

/-- A call leaves the heights equal, or its `Void` out of the shadow. -/
theorem aligned_call {pc : ℕ} {name : String} {s : VerifyState} {t : AbstractState}
    (hinstr : f.code[pc]? = some (.call name))
    (hcert : Certified (functionScope m deps sigs f) pc t)
    (haligned : Aligned (functionScope m deps sigs f) pc s t) :
    Aligned (functionScope m deps sigs f) (pc + 1)
      (exec (functionScope m deps sigs f) pc (.call name) s).state
      (Verifier.exec (functionScope m deps sigs f) pc (.call name) t).state := by
  obtain ⟨-, hchecked⟩ := checked_of_certified hverify hf hcert hinstr
  obtain ⟨n, result, ty, harity, hle, heq, hvoid⟩ := hchecked.call
  have hcounted := halike hinstr
  have hheight := haligned.height hinstr rfl
  refine ⟨exec_locals_length.trans haligned.locals, ?_⟩
  simp only [countedAlike, hcert.state, heq, Verifier.goOn] at hcounted
  simp only [heq, Verifier.goOn, exec, callInstr, goOn, callEffect_eq hnative harity,
    List.length_cons, List.length_drop]
  cases result with
  | true =>
    simp only [if_true, VerifyState.push, VerifyState.popN, List.length_cons, List.length_drop]
    exact .inl (by omega)
  | false =>
    obtain rfl := hvoid.mpr rfl
    simp only [Bool.and_eq_true, List.isEmpty_iff] at hcounted
    have hrest := congrArg List.length hcounted.1
    simp only [List.length_drop, List.length_nil] at hrest
    refine .inr ⟨?_, by omega, hcounted.2⟩
    simp only [Bool.false_eq_true, if_false, VerifyState.popN]
    exact List.drop_eq_nil_of_le (by omega)

theorem shadowGood_exec {pc : ℕ} {instr : Instruction} {s : VerifyState}
    (hinstr : f.code[pc]? = some instr) (hreach : s.reachable = true)
    (hgood : ShadowGood (functionScope m deps sigs f) pc s) :
    ShadowGood (functionScope m deps sigs f) (pc + 1)
      (exec (functionScope m deps sigs f) pc instr s).state := by
  intro hreach'
  obtain ⟨t, hcert, haligned⟩ := hgood hreach
  have hret : instr ≠ .ret := by
    rintro rfl
    cases hreach'
  have hjump : ∀ offset, instr ≠ .jump offset := by
    rintro offset rfl
    cases hreach'
  obtain ⟨t', hcert', hle⟩ := certified_succ hverify hf hcert hinstr hret hjump
  refine ⟨t', hcert', ?_⟩
  by_cases hlocal : instr.isLocal = true
  · refine ⟨exec_locals_length.trans haligned.locals, .inl ?_⟩
    rw [height_exec hverify hf halike hinstr hlocal hcert haligned, hle.1]
  · cases instr with
    | call name =>
      exact (aligned_call hverify hnative hf halike hinstr hcert haligned).of_stack hle.1
    | ret => exact absurd rfl hret
    | _ => exact absurd rfl hlocal

omit hnative in
theorem shadowGood_jump {pc target : ℕ} {instr : Instruction} {s s' : VerifyState}
    (hinstr : f.code[pc]? = some instr) (hreach : s.reachable = true)
    (hgood : ShadowGood (functionScope m deps sigs f) pc s)
    (hjump : (exec (functionScope m deps sigs f) pc instr s).jump = some (target, s')) :
    ShadowGood (functionScope m deps sigs f) target s' ∧ s'.reachable = true := by
  cases hoffset : instr.jumpOffset with
  | none =>
    rw [exec_jump_none hoffset] at hjump
    cases hjump
  | some offset =>
    obtain ⟨s'', heq, hstack, hlocals, hsame⟩ := exec_jump_eq (functionScope m deps sigs f)
      pc s hoffset
    rw [heq, Option.some.injEq, Prod.mk.injEq] at hjump
    obtain ⟨rfl, rfl⟩ := hjump
    refine ⟨fun _ => ?_, hsame.trans hreach⟩
    obtain ⟨t, hcert, haligned⟩ := hgood hreach
    have hlocal : instr.isLocal = true := by
      cases instr with
      | jump o | jumpIf o | jumpIfNot o => rfl
      | _ => cases hoffset
    obtain ⟨-, t', hcert', hle⟩ := certified_target hverify hf hcert hinstr hoffset
    refine ⟨t', hcert', hlocals ▸ haligned.locals, .inl ?_⟩
    rw [hstack, height_exec hverify hf halike hinstr hlocal hcert haligned, ← hle.1]

/-- The walk of the adapter is aligned with the walk of the language verifier. -/
def shadowLaws : (pass (functionScope m deps sigs f)).Laws f.code where
  Good := ShadowGood (functionScope m deps sigs f)
  le := VerifyState.Le
  le_refl := VerifyState.Le.refl
  le_trans := VerifyState.Le.trans
  merge_good := by
    intro s t u pc hs ht hreach h hu
    rcases merge_cases pc h with ⟨hsreach, rfl⟩ | ⟨-, rfl⟩
    · obtain ⟨a, ha, hsa⟩ := hs hsreach
      obtain ⟨b, hb, htb⟩ := ht hreach
      obtain rfl := Option.some.inj (ha.state.symm.trans hb.state)
      refine ⟨a, ha, (length_mergeLocals _ _).trans hsa.locals, ?_⟩
      have hlen := length_mergeFrom s t
      -- One shadow without its `Void` is enough to cut the other down.
      have hnil : ∀ {x : VerifyState}, x = s ∨ x = t → x.stack = [] → (mergeFrom s t).stack = [] := by
        rintro x (rfl | rfl) hx <;> exact List.length_eq_zero_iff.mp (by simp [hlen, hx])
      rcases hsa.stack with hsa' | ⟨hsnil, hone, htakes⟩
      · rcases htb.stack with htb' | ⟨htnil, hone, htakes⟩
        · exact .inl (by omega)
        · exact .inr ⟨hnil (.inr rfl) htnil, hone, htakes⟩
      · exact .inr ⟨hnil (.inl rfl) hsnil, hone, htakes⟩
    · exact ht hreach
  merge_left := by
    intro s t u pc hs ht hreach h hsreach
    rcases merge_cases pc h with ⟨hlive, rfl⟩ | ⟨hdead, -⟩
    · obtain ⟨a, -, hsa⟩ := hs hsreach
      obtain ⟨b, -, htb⟩ := ht hreach
      exact ⟨hlive, le_mergeFrom_left (hsa.locals.trans htb.locals.symm)⟩
    · exact absurd (hdead.symm.trans hsreach) Bool.false_ne_true
  merge_right := by
    intro s t u pc hs ht hreach h
    rcases merge_cases pc h with ⟨hlive, rfl⟩ | ⟨-, rfl⟩
    · obtain ⟨a, -, hsa⟩ := hs hlive
      obtain ⟨b, -, htb⟩ := ht hreach
      exact ⟨hlive, le_mergeFrom_right (hsa.locals.trans htb.locals.symm)⟩
    · exact ⟨hreach, VerifyState.Le.refl _⟩
  merge_none := merge_ne_none
  exec_good hinstr hreach hgood _ :=
    shadowGood_exec hverify hnative hf halike hinstr hreach hgood
  jump_good hinstr hreach hgood _ hjump :=
    shadowGood_jump hverify hf halike hinstr hreach hgood hjump
  dead_good hdead _ hlive := absurd (hdead.symm.trans hlive) Bool.false_ne_true

end Laws

end MeowChain.Adapter
