import MeowChain.Verifier.AbstractInterpretation

/-!
# The order of the edges into a join

The states that arrive at a join are merged one after the other. What comes out is described here
by the set of the reachable states alone: their common stack, the slots they agree on, and dead
slots elsewhere. So the order cannot matter, neither for the result nor for whether there is one.
-/

set_option autoImplicit false

namespace MeowChain.Verifier

/-! ## One slot -/

/-- What `merge` does with one slot. -/
def mergeSlot (a b : SlotState) : Option SlotState :=
  if a = b then some a
  else if a.isLinear || b.isLinear then none
  else some .dead

/-- The states can be merged in a slot: they agree, or none of them holds a linear value. -/
def SlotJoinable (slots : List (Option SlotState)) : Prop :=
  (∀ x ∈ slots, ∀ y ∈ slots, x = y) ∨ ∀ a, some a ∈ slots → a.isLinear = false

/-- The slot is kept where all states agree, and dead otherwise. -/
def SlotJoin (slots : List (Option SlotState)) (a : Option SlotState) : Prop :=
  (∀ x ∈ slots, x = a) ∨ (∃ x ∈ slots, ∃ y ∈ slots, x ≠ y) ∧ a = some .dead

section Slot

variable {slots more : List (Option SlotState)} {a b c : SlotState} {x y : Option SlotState}

theorem SlotJoinable.mono (h : SlotJoinable slots) (hsub : ∀ x ∈ more, x ∈ slots) :
    SlotJoinable more := by
  rcases h with hagree | hlinear
  · exact .inl fun x hx y hy => hagree x (hsub x hx) y (hsub y hy)
  · exact .inr fun a ha => hlinear a (hsub _ ha)

theorem SlotJoin.congr (h : SlotJoin slots x) (hsame : ∀ y, y ∈ slots ↔ y ∈ more) :
    SlotJoin more x := by
  rcases h with hagree | ⟨⟨y, hy, z, hz, hne⟩, rfl⟩
  · exact .inl fun y hy => hagree y ((hsame y).mpr hy)
  · exact .inr ⟨⟨y, (hsame y).mp hy, z, (hsame z).mp hz, hne⟩, rfl⟩

theorem SlotJoin.unique (hslots : slots ≠ []) (hx : SlotJoin slots x) (hy : SlotJoin slots y) :
    x = y := by
  obtain ⟨z, hz⟩ := List.exists_mem_of_ne_nil slots hslots
  rcases hx with hx | ⟨⟨u, hu, v, hv, hne⟩, rfl⟩
  · rcases hy with hy | ⟨⟨u, hu, v, hv, hne⟩, rfl⟩
    · exact (hx z hz).symm.trans (hy z hz)
    · exact absurd ((hx u hu).trans (hx v hv).symm) hne
  · rcases hy with hy | ⟨-, rfl⟩
    · exact absurd ((hy u hu).trans (hy v hv).symm) hne
    · rfl

theorem mergeSlot_cases (h : mergeSlot a b = some c) :
    a = b ∧ c = a ∨ a ≠ b ∧ a.isLinear = false ∧ b.isLinear = false ∧ c = .dead := by
  unfold mergeSlot at h
  by_cases hab : a = b
  · rw [if_pos hab] at h
    exact .inl ⟨hab, (Option.some.inj h).symm⟩
  · rw [if_neg hab] at h
    cases hlinear : (a.isLinear || b.isLinear) with
    | true => simp [hlinear] at h
    | false =>
      obtain ⟨ha, hb⟩ := Bool.or_eq_false_iff.mp hlinear
      rw [hlinear] at h
      exact .inr ⟨hab, ha, hb, (Option.some.inj h).symm⟩

theorem mergeSlot_some (hslots : slots ≠ []) (h : SlotJoin slots (some a))
    (hjoinable : SlotJoinable slots) (hmerge : mergeSlot a b = some c) :
    SlotJoin (slots ++ [some b]) (some c) ∧ SlotJoinable (slots ++ [some b]) := by
  obtain ⟨z, hz⟩ := List.exists_mem_of_ne_nil slots hslots
  have hmem : ∀ {x}, x ∈ slots ++ [some b] → x ∈ slots ∨ x = some b := fun hx =>
    (List.mem_append.mp hx).imp_right List.mem_singleton.mp
  have hold : ∀ {x}, x ∈ slots → x ∈ slots ++ [some b] := List.mem_append_left _
  have hnew : some b ∈ slots ++ [some b] := List.mem_append_right _ List.mem_cons_self
  rcases mergeSlot_cases hmerge with ⟨rfl, rfl⟩ | ⟨hab, ha, hb, rfl⟩
  · rcases h with hagree | ⟨⟨x, hx, y, hy, hne⟩, hdead⟩
    · have hall : ∀ x ∈ slots ++ [some c], x = some c := fun x hx => (hmem hx).elim (hagree x) id
      exact ⟨.inl hall, .inl fun x hx y hy => (hall x hx).trans (hall y hy).symm⟩
    · -- The slot was dead already, so nothing linear was in it.
      obtain rfl := Option.some.inj hdead
      refine ⟨.inr ⟨⟨x, hold hx, y, hold hy, hne⟩, rfl⟩, .inr fun a ha => ?_⟩
      rcases hmem ha with hold | heq
      · rcases hjoinable with hagree | hlinear
        · exact absurd (hagree x hx y hy) hne
        · exact hlinear a hold
      · rw [Option.some.inj heq]
        rfl
  · refine ⟨.inr ⟨?_, rfl⟩, .inr fun d hd => ?_⟩
    · rcases h with hagree | ⟨⟨x, hx, y, hy, hne⟩, -⟩
      · refine ⟨z, hold hz, some b, hnew, ?_⟩
        rw [hagree z hz]
        exact fun heq => hab (Option.some.inj heq)
      · exact ⟨x, hold hx, y, hold hy, hne⟩
    · rcases hmem hd with hd | heq
      · rcases h with hagree | ⟨⟨x, hx, y, hy, hne⟩, -⟩
        · rw [Option.some.inj (hagree _ hd)]
          exact ha
        · rcases hjoinable with hagree | hlinear
          · exact absurd (hagree x hx y hy) hne
          · exact hlinear d hd
      · rw [Option.some.inj heq]
        exact hb

theorem mergeSlot_none (hslots : slots ≠ []) (h : SlotJoin slots (some a))
    (hmerge : mergeSlot a b = none) : ¬ SlotJoinable (slots ++ [some b]) := by
  obtain ⟨z, hz⟩ := List.exists_mem_of_ne_nil slots hslots
  have hnew : some b ∈ slots ++ [some b] := List.mem_append_right _ List.mem_cons_self
  unfold mergeSlot at hmerge
  have hab : a ≠ b := by
    rintro rfl
    rw [if_pos rfl] at hmerge
    cases hmerge
  have hlinear : (a.isLinear || b.isLinear) = true := by
    by_contra hnot
    rw [if_neg hab, if_neg hnot] at hmerge
    cases hmerge
  rintro (hagree | hnone)
  · have hsame : ∀ x ∈ slots, x = some b := fun x hx =>
      hagree x (List.mem_append_left _ hx) (some b) hnew
    rcases h with hall | ⟨⟨x, hx, y, hy, hne⟩, -⟩
    · exact hab (Option.some.inj ((hall z hz).symm.trans (hsame z hz)))
    · exact hne ((hsame x hx).trans (hsame y hy).symm)
  · rw [hnone b hnew, Bool.or_false] at hlinear
    rcases h with hall | ⟨-, hdead⟩
    · have ha := hnone a (List.mem_append_left _ (hall z hz ▸ hz))
      rw [ha] at hlinear
      cases hlinear
    · rw [Option.some.inj hdead] at hlinear
      cases hlinear

theorem slotJoin_none (h : SlotJoin slots none) :
    SlotJoin (slots ++ [none]) none ∧ SlotJoinable (slots ++ [none]) := by
  rcases h with hagree | ⟨-, hdead⟩
  · have hall : ∀ x ∈ slots ++ [none], x = none := by
      intro x hx
      rcases List.mem_append.mp hx with hx | hx
      · exact hagree x hx
      · exact List.mem_singleton.mp hx
    exact ⟨.inl hall, .inl fun x hx y hy => (hall x hx).trans (hall y hy).symm⟩
  · cases hdead

end Slot

/-! ## All slots -/

section Slots

variable {fnName : String} {joinPc slot : ℕ} {as bs cs : List SlotState}

theorem mergeSlots_cons (a b : SlotState) :
    mergeSlots fnName joinPc slot (a :: as) (b :: bs) =
      match mergeSlot a b with
      | some c => (mergeSlots fnName joinPc (slot + 1) as bs).map (c :: ·)
      | none => .error (if a.isLinear != b.isLinear then .livenessMergeConflict fnName joinPc slot
          else .slotTypeMergeConflict fnName joinPc slot) := by
  rw [mergeSlots, mergeSlot]
  by_cases hab : a = b
  · rw [if_pos hab, if_pos hab]
    rfl
  · rw [if_neg hab, if_neg hab]
    cases a.isLinear <;> cases b.isLinear <;> rfl

theorem mergeSlots_ok (hlen : as.length = bs.length)
    (h : mergeSlots fnName joinPc slot as bs = .ok cs) :
    cs.length = as.length ∧ ∀ (i : ℕ) a b, as[i]? = some a → bs[i]? = some b →
      mergeSlot a b = cs[i]? := by
  induction as generalizing slot bs cs with
  | nil =>
    rw [mergeSlots] at h
    · cases h
      exact ⟨rfl, fun i a b ha => by simp at ha⟩
    · exact nofun
  | cons a as ih =>
    cases bs with
    | nil => cases hlen
    | cons b bs =>
      rw [mergeSlots_cons] at h
      cases hmerge : mergeSlot a b with
      | none =>
        rw [hmerge] at h
        cases h
      | some c =>
        rw [hmerge] at h
        cases hrest : mergeSlots fnName joinPc (slot + 1) as bs with
        | error e =>
          rw [hrest] at h
          cases h
        | ok ds =>
          rw [hrest] at h
          cases h
          obtain ⟨hds, hslots⟩ := ih (Nat.succ.inj hlen) hrest
          refine ⟨congrArg (· + 1) hds, fun i a' b' ha hb => ?_⟩
          cases i with
          | zero =>
            cases ha
            cases hb
            exact hmerge
          | succ i => exact hslots i a' b' ha hb

theorem mergeSlots_error (hlen : as.length = bs.length) {e : VerificationError}
    (h : mergeSlots fnName joinPc slot as bs = .error e) :
    ∃ (i : ℕ) (a b : SlotState), as[i]? = some a ∧ bs[i]? = some b ∧ mergeSlot a b = none := by
  induction as generalizing slot bs e with
  | nil =>
    rw [mergeSlots] at h
    · cases h
    · exact nofun
  | cons a as ih =>
    cases bs with
    | nil => cases hlen
    | cons b bs =>
      rw [mergeSlots_cons] at h
      cases hmerge : mergeSlot a b with
      | none => exact ⟨0, a, b, rfl, rfl, hmerge⟩
      | some c =>
        rw [hmerge] at h
        cases hrest : mergeSlots fnName joinPc (slot + 1) as bs with
        | error e' =>
          obtain ⟨i, a', b', ha, hb, hnone⟩ := ih (Nat.succ.inj hlen) hrest
          exact ⟨i + 1, a', b', ha, hb, hnone⟩
        | ok ds =>
          rw [hrest] at h
          cases h

end Slots

/-! ## States -/

def mergeAll (fnName : String) (joinPc : ℕ) : List AbstractState → Option AbstractState
  | [] => none
  | state :: states =>
    states.foldlM (fun current incoming => (merge fnName current incoming joinPc).1) state

def slotsAt (states : List AbstractState) (i : ℕ) : List (Option SlotState) :=
  (states.filter (·.reachable)).map fun state => state.locals[i]?

structure Joinable (states : List AbstractState) : Prop where
  stack : ∀ s ∈ states, s.reachable → ∀ t ∈ states, t.reachable → s.stack = t.stack
  slots : ∀ i, SlotJoinable (slotsAt states i)

/-- The common stack of the reachable states, and their slots where they agree on them. -/
structure IsJoin (states : List AbstractState) (stack : List AbstractType)
    (locals : List SlotState) : Prop where
  stack : ∀ s ∈ states, s.reachable → s.stack = stack
  slots : ∀ i, SlotJoin (slotsAt states i) locals[i]?

section States

variable {fnName : String} {joinPc : ℕ} {states order : List AbstractState}

theorem mem_slotsAt {i : ℕ} {x : Option SlotState} :
    x ∈ slotsAt states i ↔ ∃ s ∈ states, s.reachable = true ∧ s.locals[i]? = x := by
  simp only [slotsAt, List.mem_map, List.mem_filter, and_assoc]

theorem Joinable.mono (h : Joinable states) (hsub : ∀ s ∈ order, s ∈ states) : Joinable order where
  stack s hs hreach t ht := h.stack s (hsub s hs) hreach t (hsub t ht)
  slots i := by
    refine (h.slots i).mono fun x hx => ?_
    obtain ⟨s, hs, hreach, rfl⟩ := mem_slotsAt.mp hx
    exact mem_slotsAt.mpr ⟨s, hsub s hs, hreach, rfl⟩

theorem IsJoin.perm {stack : List AbstractType} {locals : List SlotState}
    (h : IsJoin order stack locals) (hperm : order.Perm states) : IsJoin states stack locals where
  stack s hs := h.stack s (hperm.mem_iff.mpr hs)
  slots i := by
    refine (h.slots i).congr fun x => ?_
    simp only [mem_slotsAt, hperm.mem_iff]

theorem IsJoin.unique {stack stack' : List AbstractType} {locals locals' : List SlotState}
    (hreach : ∃ s ∈ states, s.reachable) (h : IsJoin states stack locals)
    (h' : IsJoin states stack' locals') : stack = stack' ∧ locals = locals' := by
  obtain ⟨s, hs, hreach⟩ := hreach
  refine ⟨(h.stack s hs hreach).symm.trans (h'.stack s hs hreach), ?_⟩
  refine List.ext_getElem? fun i => (h.slots i).unique ?_ (h'.slots i)
  exact List.ne_nil_of_mem (mem_slotsAt.mpr ⟨s, hs, hreach, rfl⟩)

/-- What is known of the state merged from `seen`, all of them with `count` slots. -/
structure Merged (count : ℕ) (seen : List AbstractState) (u : AbstractState) : Prop where
  length : u.locals.length = count
  reachable : u.reachable = true ↔ ∃ s ∈ seen, s.reachable = true
  join : u.reachable → IsJoin seen u.stack u.locals ∧ Joinable seen

variable {count : ℕ} {seen : List AbstractState} {u t v : AbstractState}

theorem slotsAt_append_of_not_reachable (ht : t.reachable = false) (i : ℕ) :
    slotsAt (seen ++ [t]) i = slotsAt seen i := by
  simp [slotsAt, ht]

theorem slotsAt_append_of_reachable (ht : t.reachable = true) (i : ℕ) :
    slotsAt (seen ++ [t]) i = slotsAt seen i ++ [t.locals[i]?] := by
  simp [slotsAt, ht]

theorem exists_append_singleton {p : AbstractState → Prop} :
    (∃ s ∈ seen ++ [t], p s) ↔ (∃ s ∈ seen, p s) ∨ p t := by
  simp only [List.mem_append, List.mem_singleton, or_and_right, exists_or, exists_eq_left]

theorem Merged.skip (h : Merged count seen u) (ht : t.reachable = false) :
    Merged count (seen ++ [t]) u where
  length := h.length
  reachable := by rw [h.reachable, exists_append_singleton, ht]; simp
  join hu := by
    obtain ⟨hjoin, hjoinable⟩ := h.join hu
    have hseen : ∀ s ∈ seen ++ [t], s.reachable = true → s ∈ seen := by
      intro s hs hreach
      rcases List.mem_append.mp hs with hs | hs
      · exact hs
      · rw [List.mem_singleton.mp hs, ht] at hreach
        cases hreach
    refine ⟨⟨fun s hs hreach => hjoin.stack s (hseen s hs hreach) hreach, fun i => ?_⟩,
      ⟨fun s hs hs' r hr hr' => ?_, fun i => ?_⟩⟩
    · rw [slotsAt_append_of_not_reachable ht]
      exact hjoin.slots i
    · exact hjoinable.stack s (hseen s hs hs') hs' r (hseen r hr hr') hr'
    · rw [slotsAt_append_of_not_reachable ht]
      exact hjoinable.slots i

theorem Merged.first (h : Merged count seen u) (hu : u.reachable = false) (ht : t.reachable = true)
    (hlen : t.locals.length = count) : Merged count (seen ++ [t]) t where
  length := hlen
  reachable := iff_of_true ht ⟨t, List.mem_append_right _ List.mem_cons_self, ht⟩
  join _ := by
    have honly : ∀ s ∈ seen ++ [t], s.reachable = true → s = t := by
      intro s hs hreach
      rcases List.mem_append.mp hs with hs | hs
      · have hnot := h.reachable.mpr ⟨s, hs, hreach⟩
        rw [hu] at hnot
        cases hnot
      · exact List.mem_singleton.mp hs
    have hslots : ∀ i, ∀ x ∈ slotsAt (seen ++ [t]) i, x = t.locals[i]? := by
      intro i x hx
      obtain ⟨s, hs, hreach, rfl⟩ := mem_slotsAt.mp hx
      rw [honly s hs hreach]
    refine ⟨⟨fun s hs hreach => by rw [honly s hs hreach], fun i => .inl (hslots i)⟩,
      ⟨fun s hs hs' r hr hr' => by rw [honly s hs hs', honly r hr hr'], fun i => .inl ?_⟩⟩
    exact fun x hx y hy => (hslots i x hx).trans (hslots i y hy).symm

theorem Merged.slotsAt_ne_nil (h : Merged count seen u) (hu : u.reachable = true) (i : ℕ) :
    slotsAt seen i ≠ [] := by
  obtain ⟨s, hs, hreach⟩ := h.reachable.mp hu
  exact List.ne_nil_of_mem (mem_slotsAt.mpr ⟨s, hs, hreach, rfl⟩)

theorem Merged.both (h : Merged count seen u) (hu : u.reachable = true) (ht : t.reachable = true)
    (hlen : t.locals.length = count) (hstack : u.stack = t.stack) {locals : List SlotState}
    (hslots : mergeSlots fnName joinPc 0 u.locals t.locals = .ok locals) :
    Merged count (seen ++ [t]) { u with locals } := by
  obtain ⟨hjoin, hjoinable⟩ := h.join hu
  obtain ⟨hlocals, hmerge⟩ := mergeSlots_ok (h.length.trans hlen.symm) hslots
  have hstacks : ∀ s ∈ seen ++ [t], s.reachable = true → s.stack = u.stack := by
    intro s hs hreach
    rcases List.mem_append.mp hs with hs | hs
    · exact hjoin.stack s hs hreach
    · rw [List.mem_singleton.mp hs, hstack]
  have hstep : ∀ i, SlotJoin (slotsAt (seen ++ [t]) i) locals[i]? ∧
      SlotJoinable (slotsAt (seen ++ [t]) i) := by
    intro i
    rw [slotsAt_append_of_reachable ht]
    by_cases hi : i < count
    · have ha := List.getElem?_eq_getElem (h.length.symm ▸ hi : i < u.locals.length)
      have hb := List.getElem?_eq_getElem (hlen.symm ▸ hi : i < t.locals.length)
      have hc := List.getElem?_eq_getElem
        (hlocals.trans h.length ▸ hi : i < locals.length)
      have hslot := hjoin.slots i
      rw [ha] at hslot
      rw [hb, hc]
      exact mergeSlot_some (h.slotsAt_ne_nil hu i) hslot (hjoinable.slots i)
        ((hmerge i _ _ ha hb).trans hc)
    · have hi := Nat.le_of_not_lt hi
      have hslot := hjoin.slots i
      rw [List.getElem?_eq_none (h.length.trans_le hi)] at hslot
      rw [List.getElem?_eq_none (hlen.trans_le hi),
        List.getElem?_eq_none ((hlocals.trans h.length).trans_le hi)]
      exact slotJoin_none hslot
  refine ⟨hlocals.trans h.length, iff_of_true hu ?_, fun _ => ⟨⟨hstacks, fun i => (hstep i).1⟩,
    ⟨fun s hs hs' r hr hr' => ?_, fun i => (hstep i).2⟩⟩⟩
  · exact ⟨t, List.mem_append_right _ List.mem_cons_self, ht⟩
  · exact (hstacks s hs hs').trans (hstacks r hr hr').symm

theorem Merged.conflict (h : Merged count seen u) (hu : u.reachable = true)
    (ht : t.reachable = true) (hlen : t.locals.length = count) {e : VerificationError}
    (hslots : mergeSlots fnName joinPc 0 u.locals t.locals = .error e) :
    ¬ Joinable (seen ++ [t]) := by
  obtain ⟨i, a, b, ha, hb, hmerge⟩ := mergeSlots_error (h.length.trans hlen.symm) hslots
  intro hjoinable
  have hslot := (h.join hu).1.slots i
  have hall := hjoinable.slots i
  rw [ha] at hslot
  rw [slotsAt_append_of_reachable ht, hb] at hall
  exact mergeSlot_none (h.slotsAt_ne_nil hu i) hslot hmerge hall

theorem Merged.merge (fnName : String) (joinPc : ℕ) (h : Merged count seen u)
    (hlen : t.locals.length = count) :
    match (Verifier.merge fnName u t joinPc).1 with
    | some v => Merged count (seen ++ [t]) v
    | none => ¬ Joinable (seen ++ [t]) := by
  unfold Verifier.merge
  cases ht : t.reachable with
  | false => exact h.skip ht
  | true =>
    cases hu : u.reachable with
    | false => exact h.first hu ht hlen
    | true =>
      by_cases hstack : u.stack = t.stack
      · cases hslots : mergeSlots fnName joinPc 0 u.locals t.locals with
        | ok locals => simpa [hstack, hslots, hu] using h.both hu ht hlen hstack hslots
        | error e => simpa [hstack, hslots] using h.conflict hu ht hlen hslots
      · obtain ⟨s, hs, hreach⟩ := h.reachable.mp hu
        simp only [Bool.not_true, Bool.false_eq_true, if_false, ne_eq, hstack, not_false_eq_true,
          if_true]
        intro hjoinable
        have hsame := hjoinable.stack s (List.mem_append_left _ hs) hreach t
          (List.mem_append_right _ List.mem_cons_self) ht
        exact hstack (((h.join hu).1.stack s hs hreach).symm.trans hsame)

theorem Merged.foldlM (fnName : String) (joinPc : ℕ) (h : Merged count seen u)
    (hlen : ∀ t ∈ order, t.locals.length = count) :
    match order.foldlM
      (fun current incoming => (Verifier.merge fnName current incoming joinPc).1) u with
    | some v => Merged count (seen ++ order) v
    | none => ¬ Joinable (seen ++ order) := by
  induction order generalizing seen u with
  | nil => simpa using h
  | cons t order ih =>
    obtain ⟨ht, hrest⟩ := List.forall_mem_cons.mp hlen
    have hstep := h.merge fnName joinPc ht
    rw [List.foldlM_cons]
    have hassoc : seen ++ t :: order = seen ++ [t] ++ order := by simp
    rw [hassoc]
    cases hmerge : (Verifier.merge fnName u t joinPc).1 with
    | none =>
      rw [hmerge] at hstep
      exact fun hall => hstep (hall.mono fun s hs => List.mem_append_left _ hs)
    | some v =>
      rw [hmerge] at hstep
      exact ih hstep hrest

theorem merged_singleton (hlen : u.locals.length = count) : Merged count [u] u where
  length := hlen
  reachable := by simp
  join hu := by
    have hslots : ∀ i, slotsAt [u] i = [u.locals[i]?] := by simp [slotsAt, hu]
    refine ⟨⟨by simp, fun i => ?_⟩, ⟨by simp, fun i => ?_⟩⟩
    · rw [hslots]
      exact .inl (by simp)
    · rw [hslots]
      exact .inl (by simp)

/-- A fold over the states fails exactly if they cannot be merged. -/
theorem mergeAll_spec (hlocals : ∀ s ∈ states, s.locals.length = count)
    (hreach : ∃ s ∈ states, s.reachable = true) :
    match mergeAll fnName joinPc states with
    | some v => IsJoin states v.stack v.locals ∧ Joinable states
    | none => ¬ Joinable states := by
  cases states with
  | nil =>
    obtain ⟨s, hs, -⟩ := hreach
    cases hs
  | cons first rest =>
    obtain ⟨hfirst, hrest⟩ := List.forall_mem_cons.mp hlocals
    have hfold := (merged_singleton hfirst).foldlM fnName joinPc hrest
    rw [mergeAll]
    cases hmerge : rest.foldlM
      (fun current incoming => (Verifier.merge fnName current incoming joinPc).1) first with
    | none =>
      rw [hmerge] at hfold
      exact hfold
    | some v =>
      rw [hmerge] at hfold
      exact hfold.join (hfold.reachable.mpr hreach)

end States

/-- In every order the states that arrive at a join merge to the same stack and the same slots, or
in every order they do not merge. -/
theorem join_order_irrelevant (fnName : String) (joinPc : ℕ) (states : List AbstractState)
    (hlocals : ∀ s ∈ states, ∀ t ∈ states, s.locals.length = t.locals.length)
    (hreach : ∃ s ∈ states, s.reachable = true) :
    (∀ order, order.Perm states → mergeAll fnName joinPc order = none) ∨
      ∃ stack locals, IsJoin states stack locals ∧ ∀ order, order.Perm states →
        ∃ u, mergeAll fnName joinPc order = some u ∧ u.stack = stack ∧ u.locals = locals := by
  have hspec : ∀ order, order.Perm states →
      match mergeAll fnName joinPc order with
      | some v => IsJoin order v.stack v.locals ∧ Joinable order
      | none => ¬ Joinable order := by
    intro order hperm
    obtain ⟨s, hs, hs'⟩ := hreach
    refine mergeAll_spec (fun t ht => hlocals t (hperm.mem_iff.mp ht) s hs) ?_
    exact ⟨s, hperm.mem_iff.mpr hs, hs'⟩
  cases hstates : mergeAll fnName joinPc states with
  | none =>
    have hnot := hspec states (.refl _)
    rw [hstates] at hnot
    refine .inl fun order hperm => ?_
    have horder := hspec order hperm
    cases hmerge : mergeAll fnName joinPc order with
    | none => rfl
    | some v =>
      rw [hmerge] at horder
      exact absurd (horder.2.mono fun s hs => hperm.mem_iff.mpr hs) hnot
  | some u =>
    have hjoin := hspec states (.refl _)
    rw [hstates] at hjoin
    refine .inr ⟨u.stack, u.locals, hjoin.1, fun order hperm => ?_⟩
    have horder := hspec order hperm
    cases hmerge : mergeAll fnName joinPc order with
    | none =>
      rw [hmerge] at horder
      exact absurd (hjoin.2.mono fun s hs => hperm.mem_iff.mp hs) horder
    | some v =>
      rw [hmerge] at horder
      exact ⟨v, rfl, (horder.1.perm hperm).unique hreach hjoin.1⟩

/-! ### Two numbers, a boolean and a path that is not taken -/

namespace Diverging

def number : AbstractState := ⟨[], [.live .u64, .live (.struct "Coin")], true⟩

def truth : AbstractState := ⟨[], [.live .bool, .live (.struct "Coin")], true⟩

def skipped : AbstractState := ⟨[.u64], [.dead, .dead], false⟩

end Diverging

open Diverging in
theorem join_order_irrelevant_diverging :
    ∃ stack locals, IsJoin [number, truth, skipped, number] stack locals ∧
      ∀ order, order.Perm [number, truth, skipped, number] → ∃ u,
        mergeAll "f" 0 order = some u ∧ u.stack = stack ∧ u.locals = locals := by
  refine (join_order_irrelevant "f" 0 [number, truth, skipped, number] (by decide)
    (by decide)).resolve_left fun hnone => ?_
  have hfails := congrArg Option.isSome (hnone _ (.refl _))
  exact absurd hfails (by decide +kernel)

end MeowChain.Verifier
