import Mathlib.Data.List.Forall2

/-!
# Two lists related position by position

Access and update for `List.Forall₂`, as used for a frame against its abstract state.
-/

set_option autoImplicit false

namespace MeowChain

variable {α β : Type} {R : α → β → Prop} {xs : List α} {ys : List β}

theorem forall₂_getElem? (h : List.Forall₂ R xs ys) {i : ℕ} {y : β} (hy : ys[i]? = some y) :
    ∃ x, xs[i]? = some x ∧ R x y := by
  induction h generalizing i with
  | nil => simp at hy
  | @cons x y' xs ys hxy _ ih =>
    cases i with
    | zero =>
      obtain rfl : y' = y := by simpa using hy
      exact ⟨x, rfl, hxy⟩
    | succ i => exact ih (by simpa using hy)

theorem forall₂_set (h : List.Forall₂ R xs ys) (i : ℕ) {x : α} {y : β} (hxy : R x y) :
    List.Forall₂ R (xs.set i x) (ys.set i y) := by
  induction h generalizing i with
  | nil => exact .nil
  | cons hhead htail ih =>
    cases i with
    | zero => exact .cons hxy htail
    | succ i => exact .cons hhead (ih i)

theorem set_eq_self {i : ℕ} {x : α} (h : xs[i]? = some x) : xs.set i x = xs := by
  obtain ⟨hlt, rfl⟩ := List.getElem?_eq_some_iff.mp h
  exact List.set_getElem_self hlt

theorem forall₂_of_length (hlen : xs.length = ys.length) (h : ∀ x, ∀ y ∈ ys, R x y) :
    List.Forall₂ R xs ys := by
  induction ys generalizing xs with
  | nil =>
    rw [List.length_eq_zero_iff.mp hlen]
    exact .nil
  | cons y ys ih =>
    cases xs with
    | nil => cases hlen
    | cons x xs =>
      exact .cons (h x y (by simp))
        (ih (by simpa using hlen) fun x' y' hy' => h x' y' (List.mem_cons_of_mem _ hy'))

theorem forall₂_comp {γ : Type} {S : β → γ → Prop} {T : α → γ → Prop} {zs : List γ}
    (hcomp : ∀ {x y z}, R x y → S y z → T x z) (h : List.Forall₂ R xs ys)
    (h' : List.Forall₂ S ys zs) : List.Forall₂ T xs zs := by
  induction h generalizing zs with
  | nil =>
    rw [List.forall₂_nil_left_iff.mp h']
    exact .nil
  | cons hxy _ ih =>
    obtain ⟨z, zs, hyz, hrest, rfl⟩ := List.forall₂_cons_left_iff.mp h'
    exact .cons (hcomp hxy hyz) (ih hrest)

theorem forall₂_zipWith_left {γ : Type} {f : α → γ → β} (hf : ∀ x z, R x (f x z)) {zs : List γ}
    (hlen : xs.length = zs.length) : List.Forall₂ R xs (List.zipWith f xs zs) := by
  induction xs generalizing zs with
  | nil => exact .nil
  | cons x xs ih =>
    cases zs with
    | nil => cases hlen
    | cons z zs => exact .cons (hf x z) (ih (by simpa using hlen))

theorem forall₂_zipWith_right {γ : Type} {f : γ → α → β} (hf : ∀ z x, R x (f z x)) {zs : List γ}
    (hlen : zs.length = xs.length) : List.Forall₂ R xs (List.zipWith f zs xs) := by
  rw [List.zipWith_comm]
  exact forall₂_zipWith_left (fun x z => hf z x) hlen.symm

theorem forall₂_zipWith {γ δ : Type} {S : γ → β → Prop} {Q : δ → β → Prop} {f : α → γ → δ}
    {zs : List γ} (hf : ∀ {x z y}, R x y → S z y → Q (f x z) y) (h : List.Forall₂ R xs ys)
    (h' : List.Forall₂ S zs ys) : List.Forall₂ Q (List.zipWith f xs zs) ys := by
  induction h generalizing zs with
  | nil =>
    rw [List.forall₂_nil_right_iff.mp h']
    exact .nil
  | cons hxy _ ih =>
    obtain ⟨z, zs, hz, hzs, rfl⟩ := List.forall₂_cons_right_iff.mp h'
    exact .cons (hf hxy hz) (ih hzs)

theorem forall₂_append {us : List α} {vs : List β} (h : List.Forall₂ R xs ys)
    (h' : List.Forall₂ R us vs) : List.Forall₂ R (xs ++ us) (ys ++ vs) :=
  List.rel_append h h'

theorem forall₂_take_reverse (h : List.Forall₂ R xs ys) (n : ℕ) :
    List.Forall₂ R (xs.take n).reverse (ys.take n).reverse :=
  List.forall₂_reverse_iff.mpr (List.forall₂_take n h)

theorem forall₂_replicate {x : α} {y : β} (hxy : R x y) (n : ℕ) :
    List.Forall₂ R (List.replicate n x) (List.replicate n y) := by
  induction n with
  | zero => exact .nil
  | succ n ih => exact .cons hxy ih

theorem forall₂_replicate_left {x : α} {n : ℕ} (hlen : n = ys.length) (h : ∀ y ∈ ys, R x y) :
    List.Forall₂ R (List.replicate n x) ys := by
  subst hlen
  induction ys with
  | nil => exact .nil
  | cons y ys ih =>
    exact .cons (h y (by simp)) (ih fun y' hy' => h y' (List.mem_cons_of_mem _ hy'))

end MeowChain
