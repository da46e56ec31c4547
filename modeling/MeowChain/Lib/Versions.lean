import Mathlib.Data.List.Induction
import Mathlib.Data.List.Nodup
import MeowChain.Lib.Run

/-!
# Histories of versioned objects

A state holds objects under names. A step creates objects under names that belong to its label,
replaces objects by ones of a higher version and removes objects. As long as no name belongs to two
steps, versions only grow and a removed object never comes back; and when a step uses up the version
of some object, it cannot be repeated.
-/

set_option autoImplicit false

namespace MeowChain.Versions

variable {A D L O S : Type}

inductive Change (version : O → ℕ) (owns : Prop) : Option O → Option O → Prop where
  | keep (o : Option O) : Change version owns o o
  | create {o : O} (howns : owns) : Change version owns none (some o)
  | replace {o o' : O} (hlt : version o < version o') : Change version owns (some o) (some o')
  | remove (o : O) : Change version owns (some o) none

/-- No name belongs to steps with different keys, and the names in use at the start belong to
none. -/
structure Fresh (key : L → D) (Owns : L → A → Prop) (start : A → Option O) (labels : List L) :
    Prop where
  apart : ∀ l ∈ labels, ∀ l' ∈ labels, ∀ a, Owns l a → Owns l' a → key l = key l'
  start : ∀ a, start a ≠ none → ∀ l ∈ labels, ¬ Owns l a

theorem Fresh.mono {key : L → D} {Owns : L → A → Prop} {start : A → Option O}
    {labels labels' : List L} (h : Fresh key Owns start labels) (hsub : ∀ l ∈ labels', l ∈ labels) :
    Fresh key Owns start labels' where
  apart l hl l' hl' := h.apart l (hsub l hl) l' (hsub l' hl')
  start a ha l hl := h.start a ha l (hsub l hl)

section History

variable {version : O → ℕ} {Owns : L → A → Prop} {view : S → A → Option O}
  {Step : L → S → S → Prop} {key : L → D} {s t u v : S} {labels labels' labels'' : List L}
  (hchange : ∀ l s t, Step l s t → ∀ a, Change version (Owns l a) (view s a) (view t a))
include hchange

theorem owned (h : Trace Step s labels t) {a : A} (ha : view t a ≠ none) :
    view s a ≠ none ∨ ∃ l ∈ labels, Owns l a := by
  induction h with
  | nil => exact .inl ha
  | @cons s t u labels l hstep _ ih =>
    rcases ih ha with hnext | ⟨l', hl', howns⟩
    · have hstepped := hchange _ _ _ hstep a
      generalize view s a = before at hstepped ⊢
      generalize view t a = after at hstepped hnext
      cases hstepped with
      | keep => exact .inl hnext
      | create howns => exact .inr ⟨l, List.mem_cons_self, howns⟩
      | replace => exact .inl (Option.some_ne_none _)
      | remove => exact .inl (Option.some_ne_none _)
    · exact .inr ⟨l', List.mem_cons_of_mem _ hl', howns⟩

theorem not_owned_later (h : Trace Step s labels t)
    (hfresh : Fresh key Owns (view s) (labels ++ labels'))
    (hnodup : ((labels ++ labels').map key).Nodup) {a : A} (ha : view t a ≠ none) :
    ∀ l ∈ labels', ¬ Owns l a := by
  intro l hl howns
  have hmem : l ∈ labels ++ labels' := List.mem_append_right _ hl
  rcases owned hchange h ha with hstart | ⟨l', hl', howns'⟩
  · exact hfresh.start a hstart l hmem howns
  · have hkey := hfresh.apart l hmem l' (List.mem_append_left _ hl') a howns howns'
    rw [List.map_append, List.nodup_append] at hnodup
    exact hnodup.2.2 _ (List.mem_map_of_mem hl') _ (List.mem_map_of_mem hl) hkey.symm

theorem later (h : Trace Step s labels t) {a : A} (hfree : ∀ l ∈ labels, ¬ Owns l a) {o' : O}
    (ho' : view t a = some o') :
    ∃ o, view s a = some o ∧ (o = o' ∨ version o < version o') := by
  induction h with
  | nil => exact ⟨o', ho', .inl rfl⟩
  | @cons s t u labels l hstep _ ih =>
    rw [List.forall_mem_cons] at hfree
    obtain ⟨o, ho, hle⟩ := ih hfree.2 ho'
    have hstepped := hchange _ _ _ hstep a
    rw [ho] at hstepped
    generalize view s a = before at hstepped ⊢
    cases hstepped with
    | keep => exact ⟨o, rfl, hle⟩
    | create howns => exact absurd howns hfree.1
    | @replace first _ hlt =>
      refine ⟨first, rfl, .inr ?_⟩
      rcases hle with rfl | hlt'
      · exact hlt
      · exact Nat.lt_trans hlt hlt'

/-- Whatever is found under a name later is the same object or a later version. -/
theorem ascends (h : Trace Step s labels t) (h' : Trace Step t labels' u)
    (hfresh : Fresh key Owns (view s) (labels ++ labels'))
    (hnodup : ((labels ++ labels').map key).Nodup) {a : A} {o o' : O} (ho : view t a = some o)
    (ho' : view u a = some o') : o = o' ∨ version o < version o' := by
  have hfree := not_owned_later hchange h hfresh hnodup (ho ▸ Option.some_ne_none o)
  obtain ⟨first, hfirst, hle⟩ := later hchange h' hfree ho'
  obtain rfl := Option.some.inj (ho.symm.trans hfirst)
  exact hle

/-- A removed object never comes back. -/
theorem removed (h : Trace Step s labels t) (h'' : Trace Step u labels'' v)
    (hfresh : Fresh key Owns (view s) (labels ++ (labels' ++ labels'')))
    (hnodup : ((labels ++ (labels' ++ labels'')).map key).Nodup) {a : A} (ha : view t a ≠ none)
    (hgone : view u a = none) : view v a = none := by
  have hfree := not_owned_later hchange h hfresh hnodup ha
  by_contra hback
  obtain ⟨o, ho⟩ := Option.ne_none_iff_exists'.mp hback
  obtain ⟨_, hsome, -⟩ :=
    later hchange h'' (fun l hl => hfree l (List.mem_append_right _ hl)) ho
  rw [hgone] at hsome
  cases hsome

theorem key_notMem {l : L} (h : Trace Step s labels t)
    (hfresh : Fresh key Owns (view s) labels) (hnodup : (labels.map key).Nodup) {a : A} {n : ℕ}
    (hspends : ∀ l' ∈ labels, key l' = key l → ∀ s t, Step l' s t →
      ∃ o, view t a = some o ∧ n < version o)
    {o : O} (ho : view t a = some o) (hversion : version o = n) : key l ∉ labels.map key := by
  intro hmem
  obtain ⟨l', hl', hkey⟩ := List.mem_map.mp hmem
  obtain ⟨before, after, rfl⟩ := List.append_of_mem hl'
  obtain ⟨t₁, h₁, h₂⟩ := Trace.cut h
  cases h₂ with
  | @cons _ t₂ _ _ _ hstep h₂ =>
    obtain ⟨o', ho', hlt⟩ := hspends l' hl' hkey _ _ hstep
    have hsplit : before ++ l' :: after = (before ++ [l']) ++ after := by simp
    rw [hsplit] at hfresh hnodup
    rcases ascends hchange (h₁.trans (.single hstep)) h₂ hfresh hnodup ho' ho with rfl | hlt'
    · omega
    · omega

end History

end MeowChain.Versions
