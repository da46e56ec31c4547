import Mathlib.Data.List.Nodup

/-!
# Association lists

`List.lookup` finds the first entry of a key, so a map that is built by insertion is the list of its
entries with the latest one first. Where at most one entry qualifies, the order plays no part.
-/

set_option autoImplicit false

namespace MeowChain.Assoc

variable {κ β γ : Type} [DecidableEq κ]

theorem lookup_cons_self (key : κ) (b : β) (entries : List (κ × β)) :
    ((key, b) :: entries).lookup key = some b := by
  rw [List.lookup_cons, beq_self_eq_true]

theorem lookup_cons_of_ne {key other : κ} (h : other ≠ key) (b : β) (entries : List (κ × β)) :
    ((key, b) :: entries).lookup other = entries.lookup other := by
  rw [List.lookup_cons, beq_eq_false_iff_ne.mpr h]

theorem mem_of_lookup {key : κ} {b : β} {entries : List (κ × β)}
    (h : entries.lookup key = some b) : (key, b) ∈ entries := by
  induction entries with
  | nil => cases h
  | cons entry entries ih =>
    obtain ⟨key', b'⟩ := entry
    by_cases hkey : key = key'
    · subst hkey
      rw [lookup_cons_self] at h
      cases h
      exact List.mem_cons_self
    · rw [lookup_cons_of_ne hkey] at h
      exact List.mem_cons_of_mem _ (ih h)

theorem lookup_isSome_of_mem {key : κ} {b : β} {entries : List (κ × β)} (h : (key, b) ∈ entries) :
    (entries.lookup key).isSome = true := by
  induction entries with
  | nil => cases h
  | cons entry entries ih =>
    obtain ⟨key', b'⟩ := entry
    by_cases hkey : key = key'
    · subst hkey
      rw [lookup_cons_self]
      rfl
    · rw [lookup_cons_of_ne hkey]
      rcases List.mem_cons.mp h with heq | hmem
      · exact absurd (congrArg Prod.fst heq) hkey
      · exact ih hmem

theorem lookup_eq_some_iff {entries : List (κ × β)} (hkeys : (entries.map (·.1)).Nodup) {key : κ}
    {b : β} : entries.lookup key = some b ↔ (key, b) ∈ entries := by
  refine ⟨mem_of_lookup, fun hmem => ?_⟩
  obtain ⟨b', hb'⟩ := Option.isSome_iff_exists.mp (lookup_isSome_of_mem hmem)
  have heq := List.inj_on_of_nodup_map hkeys hmem (mem_of_lookup hb') rfl
  rw [hb', (Prod.mk.inj heq).2]

theorem lookup_map (f : β → γ) (key : κ) (entries : List (κ × β)) :
    (entries.map fun entry => (entry.1, f entry.2)).lookup key = (entries.lookup key).map f := by
  induction entries with
  | nil => rfl
  | cons entry entries ih =>
    obtain ⟨key', b⟩ := entry
    rw [List.map_cons]
    by_cases hkey : key = key'
    · subst hkey
      rw [lookup_cons_self, lookup_cons_self]
      rfl
    · rw [lookup_cons_of_ne hkey, lookup_cons_of_ne hkey, ih]

theorem lookup_filter (entries : List (κ × β)) (key other : κ) :
    (entries.filter (·.1 != key)).lookup other
      = if other = key then none else entries.lookup other := by
  induction entries with
  | nil => simp
  | cons entry entries ih =>
    obtain ⟨key', b⟩ := entry
    by_cases hkey : key' = key
    · subst hkey
      rw [List.filter_cons_of_neg (by simp), ih]
      by_cases hother : other = key'
      · rw [if_pos hother, if_pos hother]
      · rw [if_neg hother, if_neg hother, lookup_cons_of_ne hother]
    · rw [List.filter_cons_of_pos (by simpa using hkey)]
      by_cases hother : other = key'
      · subst hother
        rw [lookup_cons_self, if_neg hkey, lookup_cons_self]
      · rw [lookup_cons_of_ne hother, ih, lookup_cons_of_ne hother]

section Find

variable {α : Type} {p : α → Bool} {xs ys : List α}

theorem find?_eq_some_of_unique {x : α} (hx : x ∈ xs) (hp : p x = true)
    (hunique : ∀ y ∈ xs, p y = true → y = x) : xs.find? p = some x := by
  obtain ⟨y, hy⟩ := Option.isSome_iff_exists.mp (List.find?_isSome.mpr ⟨x, hx, hp⟩)
  rw [hy, hunique y (List.mem_of_find?_eq_some hy) (List.find?_some hy)]

theorem find?_eq_find? (hunique : ∀ x ∈ ys, ∀ y ∈ ys, p x = true → p y = true → x = y)
    (hmem : ∀ x, p x = true → (x ∈ xs ↔ x ∈ ys)) : xs.find? p = ys.find? p := by
  cases hfind : ys.find? p with
  | none =>
    refine List.find?_eq_none.mpr fun x hx hp => ?_
    exact List.find?_eq_none.mp hfind x ((hmem x hp).mp hx) hp
  | some y =>
    have hy := List.mem_of_find?_eq_some hfind
    have hpy := List.find?_some hfind
    refine find?_eq_some_of_unique ((hmem y hpy).mpr hy) hpy fun x hx hpx => ?_
    exact hunique x ((hmem x hpx).mp hx) y hy hpx hpy

end Find

end MeowChain.Assoc
