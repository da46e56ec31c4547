import Mathlib.Data.List.Infix
import Mathlib.Tactic.Common
import Std.Data.ExtTreeMap.Lemmas

/-!
# One-pass abstract interpretation of code with forward jumps

A pass walks straight-line code once. States that arrive by a jump wait in `pending` until the
walk reaches their target, where they are merged into the current state. When such a pass ends
without an error, the states it held are a certificate: every successor computed at a position is
below the state held at the successor's position.
-/

set_option autoImplicit false

namespace MeowChain.ForwardFlow

/-- What an instruction does to the state: the state after it, the errors found and the state sent
to a jump target. -/
structure Effect (σ ε : Type) where
  state : σ
  errors : List ε
  jump : Option (ℕ × σ)

structure Pass (ι σ ε : Type) where
  reachable : σ → Bool
  /-- `merge current incoming joinPc`; a failed merge stops the walk. -/
  merge : σ → σ → ℕ → Option σ × List ε
  exec : ℕ → ι → σ → Effect σ ε

structure Flow (σ ε : Type) where
  cur : σ
  pending : Std.ExtTreeMap ℕ σ
  errors : List ε
  halted : Bool

namespace Pass

variable {ι σ ε : Type} (P : Pass ι σ ε)

def start (init : σ) : Flow σ ε where
  cur := init
  pending := ∅
  errors := []
  halted := false

def mergeAt (pending : Std.ExtTreeMap ℕ σ) (target : ℕ) (incoming : σ) :
    Std.ExtTreeMap ℕ σ × List ε :=
  match pending[target]? with
  | none => (pending.insert target incoming, [])
  | some current =>
    match P.merge current incoming target with
    | (some merged, errors) => (pending.insert target merged, errors)
    | (none, errors) => (pending, errors)

/-- Merge what is pending at `pc` into the current state. -/
def arrive (f : Flow σ ε) (pc : ℕ) : Flow σ ε :=
  match f.pending[pc]? with
  | none => f
  | some incoming =>
    match P.merge f.cur incoming pc with
    | (some merged, errors) =>
      { f with cur := merged, pending := f.pending.erase pc, errors := f.errors ++ errors }
    | (none, errors) =>
      { f with pending := f.pending.erase pc, errors := f.errors ++ errors, halted := true }

/-- Execute the instruction at `pc`, unless no path reaches it. -/
def depart (f : Flow σ ε) (pc : ℕ) (instr : ι) : Flow σ ε :=
  if f.halted || !P.reachable f.cur then f
  else
    let effect := P.exec pc instr f.cur
    match effect.jump with
    | none => { f with cur := effect.state, errors := f.errors ++ effect.errors }
    | some (target, state) =>
      let merged := P.mergeAt f.pending target state
      { f with
        cur := effect.state
        pending := merged.1
        errors := f.errors ++ effect.errors ++ merged.2 }

def advance (f : Flow σ ε) (pc : ℕ) (instr : ι) : Flow σ ε :=
  if f.halted then f else P.depart (P.arrive f pc) pc instr

def runFrom : ℕ → Flow σ ε → List ι → Flow σ ε
  | _, f, [] => f
  | pc, f, instr :: code => runFrom (pc + 1) (P.advance f pc instr) code

def run (init : σ) (code : List ι) : Flow σ ε :=
  P.runFrom 0 (start init) code

/-- The flow just before position `pc`. -/
def flowAt (init : σ) (code : List ι) (pc : ℕ) : Flow σ ε :=
  P.run init (code.take pc)

/-- The state the pass holds at `pc` once pending states are merged, if a path reaches `pc`. -/
def stateAt (init : σ) (code : List ι) (pc : ℕ) : Option σ :=
  let f := P.arrive (P.flowAt init code pc) pc
  if !f.halted && P.reachable f.cur then some f.cur else none

theorem runFrom_append (pc : ℕ) (f : Flow σ ε) (front back : List ι) :
    P.runFrom pc f (front ++ back) = P.runFrom (pc + front.length) (P.runFrom pc f front) back := by
  induction front generalizing pc f with
  | nil => rfl
  | cons instr front ih =>
    simp only [List.cons_append, runFrom, ih, List.length_cons]
    congr 1
    omega

theorem flowAt_succ {init : σ} {code : List ι} {pc : ℕ} {instr : ι}
    (h : code[pc]? = some instr) :
    P.flowAt init code (pc + 1) = P.advance (P.flowAt init code pc) pc instr := by
  have hlt : pc < code.length := (List.getElem?_eq_some_iff.mp h).1
  simp only [flowAt, run, List.take_add_one, h, Option.toList_some, runFrom_append,
    List.length_take, Nat.min_eq_left hlt.le]
  simp [runFrom]

theorem flowAt_length (init : σ) (code : List ι) :
    P.flowAt init code code.length = P.run init code := by
  simp [flowAt]

/-! ## Errors only accumulate -/

theorem errors_arrive (f : Flow σ ε) (pc : ℕ) : f.errors <+: (P.arrive f pc).errors := by
  unfold arrive
  split
  · exact List.prefix_rfl
  · split <;> exact List.prefix_append _ _

theorem errors_depart (f : Flow σ ε) (pc : ℕ) (instr : ι) :
    f.errors <+: (P.depart f pc instr).errors := by
  unfold depart
  split
  · exact List.prefix_rfl
  · dsimp only
    split
    · exact List.prefix_append _ _
    · exact (List.prefix_append _ _).trans (List.prefix_append _ _)

theorem errors_advance (f : Flow σ ε) (pc : ℕ) (instr : ι) :
    f.errors <+: (P.advance f pc instr).errors := by
  unfold advance
  split
  · exact List.prefix_rfl
  · exact (P.errors_arrive f pc).trans (P.errors_depart _ pc instr)

theorem errors_flowAt_mono (init : σ) (code : List ι) {pc pc' : ℕ} (h : pc ≤ pc') :
    (P.flowAt init code pc).errors <+: (P.flowAt init code pc').errors := by
  induction pc', h using Nat.le_induction with
  | base => exact List.prefix_rfl
  | succ pc' _ ih =>
    cases hinstr : code[pc']? with
    | none =>
      have hlen : code.length ≤ pc' := List.getElem?_eq_none_iff.mp hinstr
      have hsame : P.flowAt init code (pc' + 1) = P.flowAt init code pc' := by
        simp only [flowAt, List.take_of_length_le hlen, List.take_of_length_le (hlen.trans pc'.le_succ)]
      rw [hsame]
      exact ih
    | some instr =>
      rw [P.flowAt_succ hinstr]
      exact ih.trans (P.errors_advance _ _ _)

theorem errors_flowAt_eq_nil {init : σ} {code : List ι} (h : (P.run init code).errors = [])
    {pc : ℕ} (hpc : pc ≤ code.length) : (P.flowAt init code pc).errors = [] := by
  have hprefix := P.errors_flowAt_mono init code hpc
  rw [flowAt_length, h] at hprefix
  exact List.prefix_nil.mp hprefix

/-! ## The certificate -/

/-- What makes a pass over `code` sound: an order that merging moves up in, on the states the pass
can hold at a position. Only reachable states are ever sent to a jump target. -/
structure Laws (code : List ι) where
  Good : ℕ → σ → Prop
  le : σ → σ → Prop
  le_refl : ∀ s, le s s
  le_trans : ∀ {s t u}, le s t → le t u → le s u
  merge_good : ∀ {s t u pc}, Good pc s → Good pc t → P.reachable t = true →
    P.merge s t pc = (some u, []) → Good pc u
  merge_left : ∀ {s t u pc}, Good pc s → Good pc t → P.reachable t = true →
    P.merge s t pc = (some u, []) → P.reachable s = true → P.reachable u = true ∧ le s u
  merge_right : ∀ {s t u pc}, Good pc s → Good pc t → P.reachable t = true →
    P.merge s t pc = (some u, []) → P.reachable u = true ∧ le t u
  merge_none : ∀ s t pc, P.merge s t pc ≠ (none, [])
  exec_good : ∀ {pc instr s}, code[pc]? = some instr → P.reachable s = true → Good pc s →
    (P.exec pc instr s).errors = [] → Good (pc + 1) (P.exec pc instr s).state
  jump_good : ∀ {pc instr s target s'}, code[pc]? = some instr → P.reachable s = true → Good pc s →
    (P.exec pc instr s).errors = [] → (P.exec pc instr s).jump = some (target, s') →
    Good target s' ∧ P.reachable s' = true
  dead_good : ∀ {pc s}, P.reachable s = false → Good pc s → Good (pc + 1) s

variable {P} {code : List ι} (L : P.Laws code)

/-- A reachable state `s` is below `t?`, which is present and reachable. -/
def Laws.Below (s : σ) (t? : Option σ) : Prop :=
  ∃ t, t? = some t ∧ P.reachable t = true ∧ L.le s t

theorem Laws.Below.trans {s t : σ} {u? : Option σ} (hst : L.le s t) (h : L.Below t u?) :
    L.Below s u? := by
  obtain ⟨u, hu, hreach, htu⟩ := h
  exact ⟨u, hu, hreach, L.le_trans hst htu⟩

structure Laws.GoodFlow (pc : ℕ) (f : Flow σ ε) : Prop where
  cur : L.Good pc f.cur
  pending : ∀ {target : ℕ} {s : σ}, f.pending[target]? = some s →
    L.Good target s ∧ P.reachable s = true
  running : f.halted = false

theorem mergeAt_spec {pending : Std.ExtTreeMap ℕ σ} {target : ℕ} {s : σ}
    (hpending : ∀ {u : ℕ} {p : σ}, pending[u]? = some p → L.Good u p ∧ P.reachable p = true)
    (hs : L.Good target s) (hreach : P.reachable s = true)
    (herrors : (P.mergeAt pending target s).2 = []) :
    (∀ {u : ℕ} {p : σ}, (P.mergeAt pending target s).1[u]? = some p →
      L.Good u p ∧ P.reachable p = true) ∧
    (∀ {u : ℕ} {p : σ}, pending[u]? = some p → L.Below p (P.mergeAt pending target s).1[u]?) ∧
    L.Below s (P.mergeAt pending target s).1[target]? := by
  unfold mergeAt at herrors ⊢
  split at herrors
  · rename_i hnone
    refine ⟨fun {u p} hu => ?_, fun {u p} hu => ?_, ?_⟩
    · rw [Std.ExtTreeMap.getElem?_insert] at hu
      split at hu
      · rename_i htarget
        obtain rfl := Std.LawfulEqOrd.eq_of_compare htarget
        rw [← Option.some.inj hu]
        exact ⟨hs, hreach⟩
      · exact hpending hu
    · have hne : target ≠ u := by
        rintro rfl
        rw [hnone] at hu
        cases hu
      exact ⟨p, by simp [Std.ExtTreeMap.getElem?_insert, hne, hu], (hpending hu).2, L.le_refl p⟩
    · exact ⟨s, by simp, hreach, L.le_refl s⟩
  · rename_i current hcurrent
    split at herrors
    · rename_i merged errors hmerge
      simp only at herrors
      subst herrors
      obtain ⟨hgood, hlive⟩ := hpending hcurrent
      have hright := L.merge_right hgood hs hreach hmerge
      refine ⟨fun {u p} hu => ?_, fun {u p} hu => ?_, ?_⟩
      · rw [Std.ExtTreeMap.getElem?_insert] at hu
        split at hu
        · rename_i htarget
          obtain rfl := Std.LawfulEqOrd.eq_of_compare htarget
          rw [← Option.some.inj hu]
          exact ⟨L.merge_good hgood hs hreach hmerge, hright.1⟩
        · exact hpending hu
      · by_cases htarget : target = u
        · subst htarget
          rw [hcurrent, Option.some.injEq] at hu
          subst hu
          exact ⟨merged, by simp, L.merge_left hgood hs hreach hmerge hlive⟩
        · exact ⟨p, by simp [Std.ExtTreeMap.getElem?_insert, htarget, hu], (hpending hu).2,
            L.le_refl p⟩
      · exact ⟨merged, by simp, hright⟩
    · rename_i errors hmerge
      simp only at herrors
      exact absurd (herrors ▸ hmerge) (L.merge_none _ _ _)

theorem arrive_spec {f : Flow σ ε} {pc : ℕ} (hf : L.GoodFlow pc f)
    (herrors : (P.arrive f pc).errors = []) :
    L.GoodFlow pc (P.arrive f pc) ∧
    (P.reachable f.cur = true → L.Below f.cur (some (P.arrive f pc).cur)) ∧
    (∀ {p : σ}, f.pending[pc]? = some p → L.Below p (some (P.arrive f pc).cur)) ∧
    (∀ {u : ℕ}, u ≠ pc → (P.arrive f pc).pending[u]? = f.pending[u]?) := by
  unfold arrive at herrors ⊢
  split at herrors
  · rename_i hnone
    refine ⟨hf, fun hreach => ⟨_, rfl, hreach, L.le_refl _⟩, fun hp => ?_, fun _ => rfl⟩
    rw [hnone] at hp
    cases hp
  · rename_i incoming hincoming
    obtain ⟨hgood, hlive⟩ := hf.pending hincoming
    split at herrors
    · rename_i merged errors hmerge
      obtain rfl : errors = [] := (List.append_eq_nil_iff.mp herrors).2
      refine ⟨⟨L.merge_good hf.cur hgood hlive hmerge, fun {u p} hu => ?_, hf.running⟩,
        fun hreach => ⟨merged, rfl, L.merge_left hf.cur hgood hlive hmerge hreach⟩,
        fun {p} hp => ?_, fun {u} hu => ?_⟩
      · rw [Std.ExtTreeMap.getElem?_erase] at hu
        split at hu
        · cases hu
        · exact hf.pending hu
      · rw [hincoming, Option.some.injEq] at hp
        subst hp
        exact ⟨merged, rfl, L.merge_right hf.cur hgood hlive hmerge⟩
      · simp [Std.ExtTreeMap.getElem?_erase, Ne.symm hu]
    · rename_i errors hmerge
      obtain rfl : errors = [] := (List.append_eq_nil_iff.mp herrors).2
      exact absurd hmerge (L.merge_none _ _ _)

theorem depart_spec {f : Flow σ ε} {pc : ℕ} (hf : L.GoodFlow pc f) {instr : ι}
    (hinstr : code[pc]? = some instr) (herrors : (P.depart f pc instr).errors = []) :
    L.GoodFlow (pc + 1) (P.depart f pc instr) ∧
    (∀ {u : ℕ} {p : σ}, f.pending[u]? = some p → L.Below p (P.depart f pc instr).pending[u]?) ∧
    (P.reachable f.cur = true →
      (P.exec pc instr f.cur).errors = [] ∧
      (P.depart f pc instr).cur = (P.exec pc instr f.cur).state ∧
      ∀ {target : ℕ} {s : σ}, (P.exec pc instr f.cur).jump = some (target, s) →
        L.Below s (P.depart f pc instr).pending[target]?) := by
  by_cases hskip : (f.halted || !P.reachable f.cur) = true
  · simp only [depart, hskip, if_true] at herrors ⊢
    have hdead : P.reachable f.cur = false := by simpa [hf.running] using hskip
    refine ⟨⟨L.dead_good hdead hf.cur, hf.pending, hf.running⟩,
      fun {u p} hu => ⟨p, hu, (hf.pending hu).2, L.le_refl p⟩, fun hreach => ?_⟩
    simp [hf.running, hreach] at hskip
  · have hlive : P.reachable f.cur = true := by simpa [hf.running] using hskip
    simp only [depart, hskip, Bool.false_eq_true, if_false] at herrors ⊢
    split at herrors
    · rename_i hjump
      have hexec := (List.append_eq_nil_iff.mp herrors).2
      have hstate := L.exec_good hinstr hlive hf.cur hexec
      refine ⟨⟨hstate, hf.pending, hf.running⟩,
        fun {u p} hu => ⟨p, hu, (hf.pending hu).2, L.le_refl p⟩, fun _ => ⟨?_, rfl, ?_⟩⟩
      · exact hexec
      · intro target s hsome
        rw [hjump] at hsome
        cases hsome
    · rename_i target s hjump
      simp only [List.append_eq_nil_iff] at herrors
      obtain ⟨⟨-, hexec⟩, hmerge⟩ := herrors
      have hstate := L.exec_good hinstr hlive hf.cur hexec
      obtain ⟨hgood, hreach⟩ := L.jump_good hinstr hlive hf.cur hexec hjump
      obtain ⟨hpending, hold, hnew⟩ := mergeAt_spec L hf.pending hgood hreach hmerge
      refine ⟨⟨hstate, hpending, hf.running⟩, hold, fun _ => ⟨hexec, rfl, ?_⟩⟩
      intro target' s' hsome
      rw [hjump, Option.some.injEq, Prod.mk.injEq] at hsome
      obtain ⟨rfl, rfl⟩ := hsome
      exact hnew

section NoErrors

variable (hexec : ∀ {pc : ℕ} {instr : ι} {s : σ}, code[pc]? = some instr → P.reachable s = true →
  L.Good pc s → (P.exec pc instr s).errors = [])
variable (hmerge : ∀ s t pc, (P.merge s t pc).2 = [])
include hmerge

omit L in
theorem errors_arrive_eq_nil {f : Flow σ ε} (pc : ℕ) (hf : f.errors = []) :
    (P.arrive f pc).errors = [] := by
  unfold arrive
  cases hpending : f.pending[pc]? with
  | none => exact hf
  | some incoming =>
    have hnil := hmerge f.cur incoming pc
    dsimp only
    cases hmerged : P.merge f.cur incoming pc with
    | mk merged errors =>
      rw [hmerged] at hnil
      obtain rfl : errors = [] := hnil
      cases merged <;> exact List.append_eq_nil_iff.mpr ⟨hf, rfl⟩

omit L in
theorem errors_mergeAt_eq_nil (pending : Std.ExtTreeMap ℕ σ) (target : ℕ) (s : σ) :
    (P.mergeAt pending target s).2 = [] := by
  unfold mergeAt
  cases hpending : pending[target]? with
  | none => rfl
  | some current =>
    have hnil := hmerge current s target
    dsimp only
    cases hmerged : P.merge current s target with
    | mk merged errors =>
      rw [hmerged] at hnil
      obtain rfl : errors = [] := hnil
      cases merged <;> rfl

omit L in
theorem errors_depart_eq_nil {f : Flow σ ε} {pc : ℕ} {instr : ι}
    (heffect : P.reachable f.cur = true → (P.exec pc instr f.cur).errors = [])
    (hnil : f.errors = []) : (P.depart f pc instr).errors = [] := by
  unfold depart
  by_cases hstop : (f.halted || !P.reachable f.cur) = true
  · rw [if_pos hstop]
    exact hnil
  · rw [if_neg hstop]
    have hlive : P.reachable f.cur = true := by simp_all
    dsimp only
    cases hjump : (P.exec pc instr f.cur).jump with
    | none => simp only [hnil, heffect hlive, List.append_nil]
    | some jump => simp only [hnil, heffect hlive, errors_mergeAt_eq_nil hmerge, List.append_nil]

omit L in
theorem errors_run_eq_nil_of_exec
    (hnever : ∀ {pc : ℕ} {instr : ι} (s : σ), code[pc]? = some instr →
      (P.exec pc instr s).errors = []) (init : σ) : (P.run init code).errors = [] := by
  have hflow : ∀ pc, pc ≤ code.length → (P.flowAt init code pc).errors = [] := by
    intro pc
    induction pc with
    | zero => exact fun _ => rfl
    | succ pc ih =>
      intro hpc
      have hinstr := List.getElem?_eq_getElem (Nat.lt_of_succ_le hpc)
      have hmid := errors_arrive_eq_nil hmerge pc (ih (by omega))
      rw [P.flowAt_succ hinstr, advance]
      split
      · exact ih (by omega)
      · exact errors_depart_eq_nil hmerge (fun _ => hnever _ hinstr) hmid
  rw [← flowAt_length]
  exact hflow code.length le_rfl

include hexec

theorem errors_run_eq_nil {init : σ} (hinit : L.Good 0 init) : (P.run init code).errors = [] := by
  have hflow : ∀ pc, pc ≤ code.length →
      (P.flowAt init code pc).errors = [] ∧ L.GoodFlow pc (P.flowAt init code pc) := by
    intro pc
    induction pc with
    | zero => exact fun _ => ⟨rfl, hinit, by simp [flowAt, run, runFrom, start], rfl⟩
    | succ pc ih =>
      intro hpc
      obtain ⟨hnil, hgood⟩ := ih (by omega)
      have hinstr := List.getElem?_eq_getElem (Nat.lt_of_succ_le hpc)
      have hmid := errors_arrive_eq_nil hmerge pc hnil
      have hgood' := (arrive_spec L hgood hmid).1
      have hend := errors_depart_eq_nil hmerge (hexec hinstr · hgood'.cur) hmid
      rw [P.flowAt_succ hinstr]
      simp only [advance, hgood.running, Bool.false_eq_true, if_false]
      exact ⟨hend, (depart_spec L hgood' hinstr hend).1⟩
  rw [← flowAt_length]
  exact (hflow code.length le_rfl).1

end NoErrors

section Certificate

variable {init : σ} (hinit : L.Good 0 init) (herrors : (P.run init code).errors = [])
include hinit herrors

omit hinit in
theorem errors_arrive_flowAt {pc : ℕ} (hpc : pc < code.length)
    (hrunning : (P.flowAt init code pc).halted = false) :
    (P.arrive (P.flowAt init code pc) pc).errors = [] := by
  have hnil := P.errors_flowAt_eq_nil herrors (Nat.succ_le_of_lt hpc)
  rw [P.flowAt_succ (List.getElem?_eq_getElem hpc)] at hnil
  simp only [advance, hrunning, Bool.false_eq_true, if_false] at hnil
  exact List.prefix_nil.mp (hnil ▸ P.errors_depart _ pc code[pc])

theorem flowAt_good {pc : ℕ} (hpc : pc ≤ code.length) :
    L.GoodFlow pc (P.flowAt init code pc) := by
  induction pc with
  | zero => exact ⟨hinit, by simp [flowAt, run, runFrom, start], rfl⟩
  | succ pc ih =>
    have hf := ih (by omega)
    have hmid := errors_arrive_flowAt herrors hpc hf.running
    have hnil := P.errors_flowAt_eq_nil herrors hpc
    rw [P.flowAt_succ (List.getElem?_eq_getElem hpc)] at hnil ⊢
    simp only [advance, hf.running, Bool.false_eq_true, if_false] at hnil ⊢
    exact (depart_spec L (arrive_spec L hf hmid).1 (List.getElem?_eq_getElem hpc) hnil).1

/-- The two halves of the step from `pc` to `pc + 1`, with the specifications that hold of them. -/
theorem flowAt_step {pc : ℕ} {instr : ι} (hinstr : code[pc]? = some instr) :
    L.GoodFlow pc (P.flowAt init code pc) ∧
    (P.arrive (P.flowAt init code pc) pc).errors = [] ∧
    P.flowAt init code (pc + 1) = P.depart (P.arrive (P.flowAt init code pc) pc) pc instr ∧
    (P.flowAt init code (pc + 1)).errors = [] := by
  have hpc : pc < code.length := (List.getElem?_eq_some_iff.mp hinstr).1
  have hf := flowAt_good L hinit herrors hpc.le
  refine ⟨hf, errors_arrive_flowAt herrors hpc hf.running, ?_, P.errors_flowAt_eq_nil herrors hpc⟩
  rw [P.flowAt_succ hinstr, advance]
  simp [hf.running]

theorem below_pending_mono {s : σ} {pc pc' target : ℕ} (hle : pc ≤ pc') (htarget : pc' ≤ target)
    (hlen : pc' ≤ code.length) (h : L.Below s (P.flowAt init code pc).pending[target]?) :
    L.Below s (P.flowAt init code pc').pending[target]? := by
  induction pc', hle using Nat.le_induction with
  | base => exact h
  | succ pc' _ ih =>
    obtain ⟨p, hp, -, hsp⟩ := ih (by omega) (by omega)
    obtain ⟨hf, hmid, hstep, hnil⟩ := flowAt_step L hinit herrors (List.getElem?_eq_getElem hlen)
    obtain ⟨hgood, -, -, hkeep⟩ := arrive_spec L hf hmid
    rw [hstep] at hnil ⊢
    have hp' := (hkeep (by omega : target ≠ pc')).trans hp
    exact ((depart_spec L hgood (List.getElem?_eq_getElem hlen) hnil).2.1 hp').trans L hsp

/-- A state pending at a position of the code is below the state held there. -/
theorem below_stateAt_of_pending {s : σ} {pc target : ℕ} (hle : pc ≤ target)
    (hlen : target < code.length) (h : L.Below s (P.flowAt init code pc).pending[target]?) :
    L.Below s (P.stateAt init code target) := by
  obtain ⟨p, hp, -, hsp⟩ := below_pending_mono L hinit herrors hle le_rfl hlen.le h
  obtain ⟨hf, hmid, -, -⟩ := flowAt_step L hinit herrors (List.getElem?_eq_getElem hlen)
  obtain ⟨hgood, -, hpending, -⟩ := arrive_spec L hf hmid
  obtain ⟨t, ht, htreach, hpt⟩ := hpending hp
  obtain rfl := Option.some.inj ht
  exact ⟨_, by simp [stateAt, hgood.running, htreach], htreach, L.le_trans hsp hpt⟩

theorem stateAt_spec {pc : ℕ} {instr : ι} {s : σ} (hinstr : code[pc]? = some instr)
    (hs : P.stateAt init code pc = some s) :
    L.Good pc s ∧ P.reachable s = true ∧ (P.exec pc instr s).errors = [] ∧
    (P.flowAt init code (pc + 1)).cur = (P.exec pc instr s).state ∧
    ∀ {target : ℕ} {s' : σ}, (P.exec pc instr s).jump = some (target, s') →
      L.Below s' (P.flowAt init code (pc + 1)).pending[target]? := by
  obtain ⟨hf, hmid, hstep, hnil⟩ := flowAt_step L hinit herrors hinstr
  have hgood := (arrive_spec L hf hmid).1
  simp only [stateAt, hgood.running, Bool.not_false, Bool.true_and, Option.ite_none_right_eq_some,
    Option.some.injEq] at hs
  obtain ⟨hreach, rfl⟩ := hs
  rw [hstep] at hnil ⊢
  exact ⟨hgood.cur, hreach, (depart_spec L hgood hinstr hnil).2.2 hreach⟩

theorem below_stateAt_succ {pc : ℕ} {instr : ι} {s : σ} (hinstr : code[pc]? = some instr)
    (hs : P.stateAt init code pc = some s) (hlen : pc + 1 < code.length)
    (hreach : P.reachable (P.exec pc instr s).state = true) :
    L.Below (P.exec pc instr s).state (P.stateAt init code (pc + 1)) := by
  have hcur := (stateAt_spec L hinit herrors hinstr hs).2.2.2.1
  obtain ⟨hf, hmid, -, -⟩ := flowAt_step L hinit herrors (List.getElem?_eq_getElem hlen)
  obtain ⟨hgood, hfall, -, -⟩ := arrive_spec L hf hmid
  rw [hcur] at hfall
  obtain ⟨t, ht, htreach, hle⟩ := hfall hreach
  obtain rfl := Option.some.inj ht
  exact ⟨_, by simp [stateAt, hgood.running, htreach], htreach, hle⟩

theorem run_cur_of_last {pc : ℕ} {instr : ι} {s : σ} (hinstr : code[pc]? = some instr)
    (hs : P.stateAt init code pc = some s) (hlast : pc + 1 = code.length) :
    (P.run init code).cur = (P.exec pc instr s).state := by
  rw [← flowAt_length, ← hlast]
  exact (stateAt_spec L hinit herrors hinstr hs).2.2.2.1

/-- What a forward jump sends to a position of the code is below the state held there. -/
theorem below_stateAt_jump {pc target : ℕ} {instr : ι} {s s' : σ}
    (hinstr : code[pc]? = some instr) (hs : P.stateAt init code pc = some s)
    (hjump : (P.exec pc instr s).jump = some (target, s')) (hforward : pc < target)
    (hlen : target < code.length) : L.Below s' (P.stateAt init code target) :=
  below_stateAt_of_pending L hinit herrors hforward hlen
    ((stateAt_spec L hinit herrors hinstr hs).2.2.2.2 hjump)

theorem below_run_pending {pc target : ℕ} {instr : ι} {s s' : σ}
    (hinstr : code[pc]? = some instr) (hs : P.stateAt init code pc = some s)
    (hjump : (P.exec pc instr s).jump = some (target, s')) (hlen : code.length ≤ target) :
    L.Below s' (P.run init code).pending[target]? := by
  have hpc : pc < code.length := (List.getElem?_eq_some_iff.mp hinstr).1
  rw [← flowAt_length]
  exact below_pending_mono L hinit herrors hpc hlen le_rfl
    ((stateAt_spec L hinit herrors hinstr hs).2.2.2.2 hjump)

omit hinit herrors in
theorem stateAt_zero (hreach : P.reachable init = true) :
    P.stateAt init code 0 = some init := by
  simp [stateAt, flowAt, run, runFrom, start, arrive, hreach]

end Certificate

end Pass

end MeowChain.ForwardFlow
