import Mathlib.Algebra.BigOperators.Group.List.Basic
import Mathlib.Algebra.GroupWithZero.Nat
import Mathlib.Algebra.Order.BigOperators.Group.List
import Mathlib.Algebra.Order.Group.Nat
import Mathlib.Data.Set.Basic
import Mathlib.Logic.Relation

/-!
# Graphs that grow

New vertices with edges into the old ones make no cycle and change no reachability. A search that
takes every vertex once is paid for by the edges of the vertices it has not taken.
-/

set_option autoImplicit false

namespace MeowChain.Graphs

open Relation

variable {α : Type} {R R' : α → α → Prop} {V : Set α}

/-- The edges of `R'` all end in `V`, and those that start there are the edges of `R`. -/
structure Grows (V : Set α) (R R' : α → α → Prop) : Prop where
  target : ∀ {x y}, R' x y → y ∈ V
  same : ∀ {x y}, x ∈ V → (R' x y ↔ R x y)

theorem Grows.mem (h : Grows V R R') {x y : α} (hxy : TransGen R' x y) : y ∈ V := by
  cases hxy with
  | single hedge => exact h.target hedge
  | tail _ hedge => exact h.target hedge

theorem Grows.transGen (h : Grows V R R') {x y : α} (hx : x ∈ V) (hxy : TransGen R' x y) :
    TransGen R x y := by
  induction hxy with
  | single hedge => exact .single ((h.same hx).mp hedge)
  | tail hpath hedge ih => exact .tail ih ((h.same (h.mem hpath)).mp hedge)

theorem Grows.acyclic (h : Grows V R R') (hacyclic : ∀ x, ¬ TransGen R x x) (x : α) :
    ¬ TransGen R' x x :=
  fun hcycle => hacyclic x (h.transGen (h.mem hcycle) hcycle)

theorem Grows.reflTransGen_iff (h : Grows V R R') (htarget : ∀ {x y}, R x y → y ∈ V) {x y : α}
    (hx : x ∈ V) : ReflTransGen R' x y ↔ ReflTransGen R x y := by
  constructor
  · intro hxy
    rcases reflTransGen_iff_eq_or_transGen.mp hxy with rfl | hpath
    · exact .refl
    · exact (h.transGen hx hpath).to_reflTransGen
  · intro hxy
    suffices hboth : y ∈ V ∧ ReflTransGen R' x y from hboth.2
    induction hxy with
    | refl => exact ⟨hx, .refl⟩
    | tail _ hedge ih => exact ⟨htarget hedge, ih.2.tail ((h.same ih.1).mpr hedge)⟩

/-- What is closed under the edges has everything that can be reached from it. -/
theorem closed_reflTransGen (hclosed : ∀ x ∈ V, ∀ y, R x y → y ∈ V) {x y : α} (hx : x ∈ V)
    (hxy : ReflTransGen R x y) : y ∈ V := by
  induction hxy with
  | refl => exact hx
  | tail _ hedge ih => exact hclosed _ ih _ hedge

theorem cycle_or_leaves (hinside : ∀ {x y}, x ∈ V → y ∈ V → R x y → R' x y) {x : α}
    (hcycle : TransGen R x x) :
    TransGen R' x x ∨ ∃ y, y ∉ V ∧ ReflTransGen R x y ∧ TransGen R y y := by
  by_cases hleaves : ∃ y, y ∉ V ∧ ReflTransGen R x y ∧ ReflTransGen R y x
  · obtain ⟨y, hy, hxy, hyx⟩ := hleaves
    exact .inr ⟨y, hy, hxy, (TransGen.trans_right hyx hcycle).trans_left hxy⟩
  · left
    have hstays : ∀ y, ReflTransGen R x y → ReflTransGen R y x → y ∈ V := fun y hxy hyx =>
      by_contra fun hy => hleaves ⟨y, hy, hxy, hyx⟩
    have hpath : ∀ y, TransGen R y x → ReflTransGen R x y → TransGen R' y x := by
      intro y hyx
      induction hyx using TransGen.head_induction_on with
      | single hedge =>
        exact fun hxy => .single (hinside (hstays _ hxy (.single hedge)) (hstays _ .refl .refl) hedge)
      | head hedge hrest ih =>
        intro hxy
        have hxz := hxy.tail hedge
        have hzx := hrest.to_reflTransGen
        exact .head (hinside (hstays _ hxy (.head hedge hzx)) (hstays _ hxz hzx) hedge) (ih hxz)
    exact hpath x hcycle .refl

/-- Taking one more element out of a list pays for it. -/
theorem sum_filter_add_le {p q : α → Bool} (f : α → ℕ) {x : α} {l : List α} (hx : x ∈ l)
    (hp : p x = true) (hq : q x = false) (himp : ∀ y, q y = true → p y = true) :
    ((l.filter q).map f).sum + f x ≤ ((l.filter p).map f).sum := by
  have hmono : ∀ l : List α, ((l.filter q).map f).sum ≤ ((l.filter p).map f).sum := by
    intro l
    refine List.Sublist.sum_le_sum (List.Sublist.map f ?_) (by simp)
    exact List.monotone_filter_right l himp
  induction l with
  | nil => cases hx
  | cons y l ih =>
    rcases List.mem_cons.mp hx with rfl | hx
    · rw [List.filter_cons_of_pos hp, List.filter_cons_of_neg (by simp [hq]), List.map_cons,
        List.sum_cons]
      have := hmono l
      omega
    · have := ih hx
      by_cases hqy : q y = true
      · rw [List.filter_cons_of_pos hqy, List.filter_cons_of_pos (himp y hqy), List.map_cons,
          List.map_cons, List.sum_cons, List.sum_cons]
        omega
      · rw [List.filter_cons_of_neg hqy]
        by_cases hpy : p y = true
        · rw [List.filter_cons_of_pos hpy, List.map_cons, List.sum_cons]
          omega
        · rw [List.filter_cons_of_neg hpy]
          exact this

theorem length_filter_lt {p q : α → Bool} {x : α} {l : List α} (hx : x ∈ l) (hp : p x = true)
    (hq : q x = false) (himp : ∀ y, q y = true → p y = true) :
    (l.filter q).length < (l.filter p).length := by
  have h := sum_filter_add_le (fun _ => 1) hx hp hq himp
  rw [List.map_const', List.map_const', List.sum_replicate_nat, List.sum_replicate_nat] at h
  omega

theorem length_filter_le {p q : α → Bool} {l : List α} (himp : ∀ y, q y = true → p y = true) :
    (l.filter q).length ≤ (l.filter p).length :=
  (List.monotone_filter_right l himp).length_le

/-! ## Depth-first search -/

/-- Vertices that a search is done with: it has followed their edges and met no cycle. -/
structure Settled (R : α → α → Prop) (V : Set α) : Prop where
  closed : ∀ x ∈ V, ∀ y, R x y → y ∈ V
  acyclic : ∀ x ∈ V, ¬ TransGen R x x

/-- A vertex is settled after all vertices it has edges to. -/
theorem Settled.insert (h : Settled R V) {x : α} (hx : x ∉ V) (hnext : ∀ y, R x y → y ∈ V) :
    Settled R (insert x V) where
  closed := by
    rintro z (rfl | hz) y hedge
    · exact .inr (hnext y hedge)
    · exact .inr (h.closed z hz y hedge)
  acyclic := by
    rintro z (rfl | hz) hcycle
    · obtain ⟨y, hedge, hpath⟩ := TransGen.head'_iff.mp hcycle
      exact hx (closed_reflTransGen h.closed (hnext y hedge) hpath)
    · exact h.acyclic z hz hcycle

theorem Settled.not_cycle (h : Settled R V) {x y : α} (hx : x ∈ V) (hxy : ReflTransGen R x y) :
    ¬ TransGen R y y :=
  h.acyclic y (closed_reflTransGen h.closed hx hxy)

end MeowChain.Graphs
