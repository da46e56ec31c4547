import Std.Data.ExtTreeMap.Lemmas
import Std.Data.ExtTreeSet.Lemmas
import Mathlib.Tactic.Tauto

/-!
# Maps

Removing a list of keys from a finite map; adding and removing lists of elements of a finite set.
-/

set_option autoImplicit false

namespace MeowChain

section Maps

variable {κ β : Type} [Ord κ] [Std.TransOrd κ] [Std.LawfulEqOrd κ]

theorem getElem?_insert_eq_some {m : Std.ExtTreeMap κ β} {key k : κ} {b b' : β} :
    (m.insert key b)[k]? = some b' ↔ key = k ∧ b = b' ∨ key ≠ k ∧ m[k]? = some b' := by
  rw [Std.ExtTreeMap.getElem?_insert]
  by_cases hkey : key = k
  · simp [hkey]
  · simp [hkey]

theorem mem_insert_iff {m : Std.ExtTreeMap κ β} {key k : κ} {b : β} :
    k ∈ m.insert key b ↔ key = k ∨ k ∈ m := by
  rw [Std.ExtTreeMap.mem_insert, Std.compare_eq_iff_eq]

omit [Std.LawfulEqOrd κ] in
theorem mem_of_getElem? {m : Std.ExtTreeMap κ β} {k : κ} {b : β} (h : m[k]? = some b) :
    k ∈ m :=
  Std.ExtTreeMap.mem_iff_isSome_getElem?.mpr (by rw [h]; rfl)

omit [Std.LawfulEqOrd κ] in
theorem exists_of_mem {m : Std.ExtTreeMap κ β} {k : κ} (h : k ∈ m) : ∃ b, m[k]? = some b :=
  Option.isSome_iff_exists.mp (Std.ExtTreeMap.mem_iff_isSome_getElem?.mp h)

def eraseAll (m : Std.ExtTreeMap κ β) (keys : List κ) : Std.ExtTreeMap κ β :=
  keys.foldl (·.erase) m

theorem getElem?_eraseAll_of_notMem {keys : List κ} {k : κ} (hk : k ∉ keys)
    (m : Std.ExtTreeMap κ β) :
    (eraseAll m keys)[k]? = m[k]? := by
  induction keys generalizing m with
  | nil => rfl
  | cons key keys ih =>
    rw [List.mem_cons, not_or] at hk
    have hne : compare key k ≠ .eq := fun h => hk.1 (Std.LawfulEqOrd.eq_of_compare h).symm
    calc (eraseAll (m.erase key) keys)[k]? = (m.erase key)[k]? := ih hk.2 _
      _ = m[k]? := by rw [Std.ExtTreeMap.getElem?_erase, if_neg hne]

theorem mem_eraseAll {keys : List κ} {k : κ} {m : Std.ExtTreeMap κ β} :
    k ∈ eraseAll m keys ↔ k ∈ m ∧ k ∉ keys := by
  induction keys generalizing m with
  | nil => simp [eraseAll]
  | cons key keys ih =>
    show k ∈ eraseAll (m.erase key) keys ↔ _
    rw [ih, Std.ExtTreeMap.mem_erase, List.mem_cons, not_or, ne_eq, Std.compare_eq_iff_eq,
      eq_comm (a := key)]
    tauto

theorem getElem?_eraseAll_eq_some {keys : List κ} {k : κ} {m : Std.ExtTreeMap κ β} {b : β} :
    (eraseAll m keys)[k]? = some b ↔ m[k]? = some b ∧ k ∉ keys := by
  by_cases hk : k ∈ keys
  · have habsent : k ∉ eraseAll m keys := fun hmem => (mem_eraseAll.mp hmem).2 hk
    simp only [hk, not_true_eq_false, and_false, iff_false]
    exact fun hsome => habsent (mem_of_getElem? hsome)
  · rw [getElem?_eraseAll_of_notMem hk]
    exact (and_iff_left hk).symm

end Maps

section Sets

variable {κ α : Type} [Ord κ] [Std.TransOrd κ] [Std.LawfulEqOrd κ] (key : α → κ)

theorem mem_foldl_insert {k : κ} {xs : List α} {s : Std.ExtTreeSet κ} :
    k ∈ xs.foldl (fun s x => s.insert (key x)) s ↔ k ∈ s ∨ k ∈ xs.map key := by
  induction xs generalizing s with
  | nil => simp
  | cons x xs ih =>
    rw [List.foldl_cons, ih, Std.ExtTreeSet.mem_insert, Std.compare_eq_iff_eq, List.map_cons,
      List.mem_cons, eq_comm (a := key x)]
    tauto

theorem mem_foldl_erase {k : κ} {xs : List α} {s : Std.ExtTreeSet κ} :
    k ∈ xs.foldl (fun s x => s.erase (key x)) s ↔ k ∈ s ∧ k ∉ xs.map key := by
  induction xs generalizing s with
  | nil => simp
  | cons x xs ih =>
    rw [List.foldl_cons, ih, Std.ExtTreeSet.mem_erase, ne_eq, Std.compare_eq_iff_eq, List.map_cons,
      List.mem_cons, not_or, eq_comm (a := key x)]
    tauto

end Sets

end MeowChain
