import Mathlib.Algebra.Order.Group.Multiset
import MeowChain.Soundness.Accounting

/-!
# Structs are used once

In a run labelled with numbers every struct gets a number of its own when it enters the machine.
No number is ever held twice, and a number leaves the machine only with a struct that is opened,
handed to a native function or returned to the caller of the machine.
-/

set_option autoImplicit false

namespace MeowChain

open Verifier

variable {τ σ : Type}

def slotLabels : Option (Value τ) → List τ
  | some v => v.labels
  | none => []

def Frame.labels (fr : Frame τ) : List τ :=
  Value.labelsList fr.stack ++ fr.locals.flatMap slotLabels

/-- The label of every struct in the stacks and locals of all frames, nested structs included. -/
def State.labels (s : State τ σ) : List τ :=
  s.frame.labels ++ s.callers.flatMap Frame.labels

def Vm.releasedLabels (vm : Vm σ) (fr : Frame τ) : List τ :=
  match vm.nativeCall fr with
  | some entry => Value.labelsList (fr.stack.take entry.params.length)
  | none =>
    match fr.current, fr.stack with
    | some (.getField _), .struct label _ _ :: _ => [label]
    | some (.unpackStruct _ _), .struct label _ _ :: _ => [label]
    | _, _ => []

/-! ## Labels as a weight -/

def tokenWeight : Weight τ (Multiset τ) := fun label _ _ => {label}

theorem tokenWeight_fieldFree (a : Address) : (tokenWeight (τ := τ)).FieldFree a :=
  fun _ _ _ _ => rfl

mutual
theorem coe_labels : ∀ v : Value τ, (v.labels : Multiset τ) = v.total tokenWeight
  | .bool _ | .u64 _ | .address _ | .str _ | .void => rfl
  | .struct label _ fields => by
    rw [Value.labels, Value.total, ← coe_labelsFields fields, ← Multiset.cons_coe,
      ← Multiset.singleton_add]
    rfl
  | .tuple vs => coe_labelsList vs

theorem coe_labelsList : ∀ vs : List (Value τ),
    (Value.labelsList vs : Multiset τ) = Value.totalList tokenWeight vs
  | [] => rfl
  | v :: vs => by
    rw [Value.labelsList, Value.totalList, ← coe_labels v, ← coe_labelsList vs, Multiset.coe_add]

theorem coe_labelsFields : ∀ fields : List (String × Value τ),
    (Value.labelsFields fields : Multiset τ) = Value.totalFields tokenWeight fields
  | [] => rfl
  | (_, v) :: fields => by
    rw [Value.labelsFields, Value.totalFields, ← coe_labels v, ← coe_labelsFields fields,
      Multiset.coe_add]
end

theorem coe_slotLabels (o : Option (Value τ)) :
    (slotLabels o : Multiset τ) = slotTotal tokenWeight o := by
  cases o with
  | none => rfl
  | some v => exact coe_labels v

theorem coe_flatMap {α : Type} {f : α → List τ} {g : α → Multiset τ}
    (h : ∀ x, (f x : Multiset τ) = g x) (xs : List α) :
    (xs.flatMap f : Multiset τ) = (xs.map g).sum := by
  induction xs with
  | nil => rfl
  | cons x xs ih => rw [List.flatMap_cons, List.map_cons, List.sum_cons, ← h x, ← ih, Multiset.coe_add]

theorem coe_frameLabels (fr : Frame τ) : (fr.labels : Multiset τ) = fr.total tokenWeight := by
  rw [Frame.labels, Frame.total, ← coe_labelsList, ← coe_flatMap coe_slotLabels, Multiset.coe_add]

theorem coe_stateLabels (s : State τ σ) : (s.labels : Multiset τ) = s.total tokenWeight := by
  rw [State.labels, State.total, ← coe_frameLabels, ← coe_flatMap coe_frameLabels,
    Multiset.coe_add]

theorem coe_releasedLabels (vm : Vm σ) (fr : Frame τ) :
    (vm.releasedLabels fr : Multiset τ) = vm.released tokenWeight fr := by
  unfold Vm.releasedLabels Vm.released
  cases vm.nativeCall fr with
  | some entry => exact coe_labelsList _
  | none =>
    cases hcurrent : fr.current with
    | none => rfl
    | some instr =>
      cases instr with
      | getField field =>
        simp only [Frame.opened, Frame.topWeight]
        split <;> simp_all [tokenWeight]
      | unpackStruct typeName fieldNames =>
        simp only [Frame.opened, Frame.topWeight]
        split <;> simp_all [tokenWeight]
      | _ => rfl

/-! ## New labels -/

theorem range'_append_range' {a b c : ℕ} (hab : a ≤ b) (hbc : b ≤ c) :
    List.range' a (b - a) ++ List.range' b (c - b) = List.range' a (c - a) := by
  obtain ⟨m, rfl⟩ := Nat.exists_eq_add_of_le hab
  obtain ⟨n, rfl⟩ := Nat.exists_eq_add_of_le hbc
  have happend := List.range'_append_1 (s := a) (m := m) (n := n)
  rw [Nat.add_sub_cancel_left, Nat.add_sub_cancel_left, Nat.add_assoc, Nat.add_sub_cancel_left]
  exact happend

mutual
theorem labels_label : ∀ (n : ℕ) (v : Value Unit),
    n ≤ (v.label id n).2 ∧ (v.label id n).1.labels = List.range' n ((v.label id n).2 - n)
  | n, .bool _ | n, .u64 _ | n, .address _ | n, .str _ | n, .void => by
    simp [Value.label, Value.labels]
  | n, .struct _ name fields => by
    obtain ⟨hle, hlabels⟩ := labelsFields_labelFields (n + 1) fields
    simp only [Value.label, Value.labels, hlabels]
    refine ⟨by omega, ?_⟩
    rw [show (Value.labelFields id (n + 1) fields).2 - n
      = (Value.labelFields id (n + 1) fields).2 - (n + 1) + 1 by omega, List.range'_succ]
    rfl
  | n, .tuple vs => labelsList_labelList n vs

theorem labelsList_labelList : ∀ (n : ℕ) (vs : List (Value Unit)),
    n ≤ (Value.labelList id n vs).2 ∧
      Value.labelsList (Value.labelList id n vs).1
        = List.range' n ((Value.labelList id n vs).2 - n)
  | n, [] => by simp [Value.labelList, Value.labelsList]
  | n, v :: vs => by
    obtain ⟨hle, hv⟩ := labels_label n v
    obtain ⟨hle', hvs⟩ := labelsList_labelList (v.label id n).2 vs
    simp only [Value.labelList, Value.labelsList, hv, hvs]
    exact ⟨hle.trans hle', range'_append_range' hle hle'⟩

theorem labelsFields_labelFields : ∀ (n : ℕ) (fields : List (String × Value Unit)),
    n ≤ (Value.labelFields id n fields).2 ∧
      Value.labelsFields (Value.labelFields id n fields).1
        = List.range' n ((Value.labelFields id n fields).2 - n)
  | n, [] => by simp [Value.labelFields, Value.labelsFields]
  | n, (_, v) :: fields => by
    obtain ⟨hle, hv⟩ := labels_label n v
    obtain ⟨hle', hvs⟩ := labelsFields_labelFields (v.label id n).2 fields
    simp only [Value.labelFields, Value.labelsFields, hv, hvs]
    exact ⟨hle.trans hle', range'_append_range' hle hle'⟩
end

section Run

variable {vm : Vm σ} {sigs : List NativeSig} {cfg : CompilerConfig} {depsOf : Address → DepMap}
variable {s s' : State ℕ σ}

/-- The labels of `m` are among the numbers from `a` up to `b`. -/
def FreshBetween (a b : ℕ) (m : Multiset ℕ) : Prop :=
  a ≤ b ∧ m ≤ (List.range' a (b - a) : Multiset ℕ)

theorem freshBetween_zero {a b : ℕ} (h : a ≤ b) : FreshBetween a b 0 :=
  ⟨h, Multiset.zero_le _⟩

theorem built_fresh {deps : DepMap} {fr fr' : Frame ℕ} {n : ℕ} {instr : Instruction}
    (h : Frame.exec deps n fr instr = .ok fr') :
    FreshBetween n (n + 1) (fr'.built tokenWeight instr) := by
  cases instr with
  | newStruct typeName fieldNames =>
    obtain ⟨qualified, -, hpopped⟩ := ok_of_bind h
    obtain ⟨r, -, hbuilt⟩ := ok_of_bind hpopped
    obtain rfl := Except.ok.inj hbuilt
    refine ⟨Nat.le_succ n, ?_⟩
    rw [Nat.add_sub_cancel_left]
    exact le_refl _
  | _ => exact freshBetween_zero (Nat.le_succ n)

theorem acquired_fresh (hstep : vm.step id s = .next s') :
    FreshBetween s.nextLabel s'.nextLabel (vm.acquired tokenWeight s.frame s'.frame) := by
  cases moves_of_step hstep with
  | @exec instr fr' gas hinstr hlocal hexec =>
    simp only [Vm.acquired, nativeCall_of_isLocal hinstr hlocal, hinstr]
    exact built_fresh hexec
  | @call name context contextAddr callee gas hinstr hcalls _ =>
    simp only [Vm.acquired, hcalls.nativeCall_eq_none hinstr, hinstr, Frame.built]
    exact freshBetween_zero (le_refl _)
  | @native entry v gas ctx hnative hargs hfunc hqualified =>
    obtain ⟨hle, hlabels⟩ := labels_label s.nextLabel (v.getD .void)
    simp only [Vm.acquired, hnative, Frame.replaceArgs, List.head?_cons, slotTotal]
    refine ⟨hle, ?_⟩
    rw [← coe_labels, hlabels]
  | @ret caller callers gas hinstr hcallers =>
    have hzero : vm.acquired tokenWeight s.frame
        (caller.push (s.frame.stack.head?.getD .void)) = 0 := by
      rcases hinstr with hinstr | hinstr <;> simp [Vm.acquired, Vm.nativeCall, hinstr, Frame.built]
    simp only [hzero]
    exact freshBetween_zero (le_refl _)

/-- No label is held twice, and the next label is larger than all of them. -/
structure LabelsFresh (s : State ℕ σ) : Prop where
  nodup : s.labels.Nodup
  lt : ∀ l ∈ s.labels, l < s.nextLabel

theorem LabelsFresh.step (h : LabelsFresh s) (hstep : vm.step id s = .next s')
    (htotal : s'.total tokenWeight + vm.released tokenWeight s.frame
      = s.total tokenWeight + vm.acquired tokenWeight s.frame s'.frame) : LabelsFresh s' := by
  obtain ⟨hle, hfresh⟩ := acquired_fresh hstep
  have hbound : (s'.labels : Multiset ℕ)
      ≤ ((s.labels ++ List.range' s.nextLabel (s'.nextLabel - s.nextLabel) : List ℕ) :
        Multiset ℕ) := by
    rw [← Multiset.coe_add, coe_stateLabels, coe_stateLabels]
    calc s'.total tokenWeight
        ≤ s'.total tokenWeight + vm.released tokenWeight s.frame := Multiset.le_add_right _ _
      _ = s.total tokenWeight + vm.acquired tokenWeight s.frame s'.frame := htotal
      _ ≤ _ := by gcongr
  have hnodup : (s.labels ++ List.range' s.nextLabel (s'.nextLabel - s.nextLabel)).Nodup := by
    rw [List.nodup_append]
    refine ⟨h.nodup, List.nodup_range', ?_⟩
    intro a ha b hb
    have hlt := h.lt a ha
    have hge := (List.mem_range'_1.mp hb).1
    omega
  refine ⟨Multiset.coe_nodup.mp (Multiset.nodup_of_le hbound (Multiset.coe_nodup.mpr hnodup)), ?_⟩
  intro l hl
  have hmem := Multiset.mem_of_le hbound (Multiset.mem_coe.mpr hl)
  rcases List.mem_append.mp (Multiset.mem_coe.mp hmem) with hl | hl
  · exact (h.lt l hl).trans_le hle
  · have := List.mem_range'_1.mp hl
    omega

theorem labelsFresh_start {fnName : String} {args : List (Value Unit)} {gas : GasMeter} {ctx : σ}
    (h : vm.start id fnName args gas ctx = .next s) : LabelsFresh s := by
  obtain ⟨-, function, -, -, hs⟩ := start_eq_next h
  obtain ⟨-, hlabels⟩ := labelsList_labelList 0 args
  have hperm : (s.labels : Multiset ℕ) = (List.range' 0 s.nextLabel : Multiset ℕ) := by
    rw [coe_stateLabels, State.total, hs, total_new, ← coe_labelsList, hlabels]
    exact add_zero _
  have hlist := Multiset.coe_eq_coe.mp hperm
  refine ⟨hlist.nodup_iff.mpr List.nodup_range', fun l hl => ?_⟩
  have hmem := List.mem_range'_1.mp (hlist.mem_iff.mp hl)
  omega

variable {s₀ : State ℕ σ} {fnName : String} {args : List (Value Unit)} {gas : GasMeter} {ctx : σ}

theorem struct_linearity (hl : Linked vm sigs cfg depsOf) (hn : NativesTyped vm)
    (hargs : ArgsTyped vm fnName args) (hstart : vm.start id fnName args gas ctx = .next s₀)
    (hrun : GuardedRun State.FieldPathsResolve (vm.Steps id) s₀ s) :
    s.labels.Nodup ∧ (s.FieldPathsResolve →
      (∀ s', vm.Steps id s s' → ∀ l ∈ s.labels, l ∈ s'.labels ∨ l ∈ vm.releasedLabels s.frame) ∧
      ∀ final v, vm.step id s = .done final → final.outcome = .ok v →
        ∀ l ∈ s.labels, l ∈ slotLabels v) := by
  have hinv : StateOk vm sigs depsOf s ∧ LabelsFresh s := by
    refine hrun.invariant (I := fun s => StateOk vm sigs depsOf s ∧ LabelsFresh s) ?_
      ⟨start_sound hl hargs hstart, labelsFresh_start hstart⟩
    intro t u ht hguard hstep
    have hsound := step_sound hl hn ht.1 hguard id
    rw [show vm.step id t = .next u from hstep] at hsound
    exact ⟨hsound, ht.2.step hstep
      (step_total hl ht.1 hguard (tokenWeight_fieldFree _).steady hstep)⟩
  refine ⟨hinv.2.nodup, fun hguard => ⟨fun s' hstep l hmem => ?_, ?_⟩⟩
  · have htotal := step_total hl hinv.1 hguard (tokenWeight_fieldFree _).steady hstep
    rw [← coe_stateLabels, ← coe_stateLabels, ← coe_releasedLabels] at htotal
    have hleft : l ∈ (s'.labels : Multiset ℕ) + (vm.releasedLabels s.frame : Multiset ℕ) := by
      rw [htotal]
      exact Multiset.mem_add.mpr (.inl (Multiset.mem_coe.mpr hmem))
    exact (Multiset.mem_add.mp hleft).imp Multiset.mem_coe.mp Multiset.mem_coe.mp
  · intro final v hstep hok l hmem
    have htotal := step_total_done (w := tokenWeight) hl hinv.1 hstep hok
    rw [← coe_stateLabels, ← coe_slotLabels] at htotal
    exact (Multiset.coe_eq_coe.mp htotal).mem_iff.mp hmem

open Sample in
theorem struct_linearity_readTag :
    ∃ s₀ s : State ℕ Unit,
      walletVm.start id "read_tag" [wallet] walletGas () = .next s₀ ∧
      GuardedRun State.FieldPathsResolve (walletVm.Steps id) s₀ s ∧ s.labels = [0, 1, 2] ∧
      s.labels.Nodup := by
  obtain ⟨s₀, hstart, hpath, hnext⟩ := StepResult.Next.exists
    (r := walletVm.start id "read_tag" [wallet] walletGas ())
    (P := fun s₀ => s₀.FieldPathsResolve ∧ (walletVm.step id s₀).Next fun s =>
      s.labels = [0, 1, 2]) (by decide +kernel)
  obtain ⟨s, hstep, hlabels⟩ := hnext.exists
  have hrun : GuardedRun State.FieldPathsResolve (walletVm.Steps id) s₀ s :=
    .single ⟨hpath, hstep⟩
  exact ⟨s₀, s, hstart, hrun, hlabels, (struct_linearity walletVm_linked walletVm_nativesTyped
    (wallet_typed _ (by decide +kernel)) hstart hrun).1⟩

open Sample in
/-- `copy_seal` loads the seal of the foreign coin without taking it out of the wallet. -/
theorem struct_linearity_fails :
    Linked walletVm [] {} walletDepsOf ∧ NativesTyped walletVm ∧
    ArgsTyped walletVm "copy_seal" [wallet] ∧
    ∃ s₀ s : State ℕ Unit,
      walletVm.start id "copy_seal" [wallet] walletGas () = .next s₀ ∧
      walletVm.Run id s₀ s ∧ ¬ s.labels.Nodup := by
  refine ⟨walletVm_linked, walletVm_nativesTyped, wallet_typed _ (by decide +kernel), ?_⟩
  obtain ⟨s₀, hstart, hnext⟩ := StepResult.Next.exists
    (r := walletVm.start id "copy_seal" [wallet] walletGas ())
    (P := fun s₀ => (walletVm.step id s₀).Next fun s => ¬ s.labels.Nodup) (by decide +kernel)
  obtain ⟨s, hstep, hdup⟩ := hnext.exists
  exact ⟨s₀, s, hstart, .single ⟨trivial, hstep⟩, hdup⟩

end Run

end MeowChain
