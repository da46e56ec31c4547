import MeowChain.Compiler.Validator
import MeowChain.Lib.Graphs
import MeowChain.Lib.Outcome

/-!
# Depth-first search for a cycle

`dfsCycle` is the search that the compiler runs over structs and over modules. It finds a cycle
exactly if one can be reached from a start.
-/

set_option autoImplicit false

namespace MeowChain.Compiler

open Relation Graphs

/-! ## From one node -/

section Search

variable {κ : Type} (next : κ → List κ)

def Edge (a b : κ) : Prop :=
  b ∈ next a

def Visits.enter (st : Visits κ) (node : κ) : Visits κ where
  visited := node :: st.visited
  inStack := node :: st.inStack

def Visits.done (st : Visits κ) : Set κ :=
  { x | x ∈ st.visited ∧ x ∉ st.inStack }

/-- Between two steps of the search. -/
structure Visits.Sound (st : Visits κ) : Prop where
  stack : ∀ x ∈ st.inStack, x ∈ st.visited
  settled : Settled (Edge next) st.done

/-- A search without a find leaves the stack as it was and is done with more nodes. -/
structure Visits.After (st st' : Visits κ) : Prop where
  sound : st'.Sound next
  stack : ∀ x, x ∈ st'.inStack ↔ x ∈ st.inStack
  visited : ∀ x ∈ st.visited, x ∈ st'.visited

variable {next} {st st' st'' : Visits κ} {node : κ}

theorem Visits.mem_done {x : κ} : x ∈ st.done ↔ x ∈ st.visited ∧ x ∉ st.inStack :=
  Iff.rfl

theorem Visits.After.trans (h : st.After next st') (h' : st'.After next st'') :
    st.After next st'' where
  sound := h'.sound
  stack x := (h'.stack x).trans (h.stack x)
  visited x hx := h'.visited x (h.visited x hx)

theorem Visits.After.mem_done (h : st.After next st') {x : κ} (hx : x ∈ st.done) : x ∈ st'.done :=
  ⟨h.visited x hx.1, fun hstack => hx.2 ((h.stack x).mp hstack)⟩

theorem Visits.Sound.enter (h : st.Sound next) (hnew : node ∉ st.visited) :
    (st.enter node).Sound next where
  stack := by
    intro x hx
    rcases List.mem_cons.mp hx with rfl | hx
    · exact List.mem_cons_self
    · exact List.mem_cons_of_mem _ (h.stack x hx)
  settled := by
    have hdone : (st.enter node).done = st.done := by
      ext x
      simp only [Visits.mem_done, Visits.enter, List.mem_cons, not_or]
      constructor
      · rintro ⟨rfl | hvisited, hne, hstack⟩
        · exact absurd rfl hne
        · exact ⟨hvisited, hstack⟩
      · rintro ⟨hvisited, hstack⟩
        exact ⟨.inr hvisited, fun heq => hnew (heq ▸ hvisited), hstack⟩
    rw [hdone]
    exact h.settled

def Finds (next : κ → List κ) (node : κ) (st : Visits κ) (found : κ) : Prop :=
  TransGen (Edge next) found found ∧ (found ∈ st.inStack ∨ ReflTransGen (Edge next) node found)

structure SearchSpec (next : κ → List κ) (node : κ) (st : Visits κ)
    (result : Option κ × Visits κ) : Prop where
  none_spec : result.1 = none → st.After next result.2 ∧ node ∈ result.2.done
  some_spec : ∀ found, result.1 = some found →
    (∀ x ∈ st.inStack, TransGen (Edge next) x node) → Finds next node st found

structure LoopSpec (next : κ → List κ) (node : κ) (succs : List κ) (st : Visits κ)
    (result : Option κ × Visits κ) : Prop where
  none_spec : result.1 = none → st.After next result.2 ∧ ∀ y ∈ succs, y ∈ result.2.done
  some_spec : ∀ found, result.1 = some found →
    (∀ x ∈ st.inStack, ReflTransGen (Edge next) x node) → Finds next node st found

theorem loopSpec_cons {y : κ} {ys : List κ} {st₁ : Visits κ} {result : Option κ × Visits κ}
    (hafter : st.After next st₁) (hy : y ∈ st₁.done) (h : LoopSpec next node ys st₁ result) :
    LoopSpec next node (y :: ys) st result where
  none_spec hnone := by
    obtain ⟨hrest, hdone⟩ := h.none_spec hnone
    refine ⟨hafter.trans hrest, fun z hz => ?_⟩
    rcases List.mem_cons.mp hz with rfl | hz
    · exact hrest.mem_done hy
    · exact hdone z hz
  some_spec found hsome hpath := by
    obtain ⟨hcycle, hreached⟩ :=
      h.some_spec found hsome fun x hx => hpath x ((hafter.stack x).mp hx)
    exact ⟨hcycle, hreached.imp_left (hafter.stack found).mp⟩

theorem Visits.sound_empty : Visits.Sound next {} := by
  refine ⟨nofun, ⟨?_, ?_⟩⟩
  · rintro x ⟨hx, -⟩
    cases hx
  · rintro x ⟨hx, -⟩
    cases hx

structure SweepSpec (next : κ → List κ) (starts : List κ) (st : Visits κ)
    (result : Option κ × Visits κ) : Prop where
  none_spec : result.1 = none → result.2.Sound next ∧ (∀ x, x ∉ result.2.inStack) ∧
    (∀ x ∈ st.visited, x ∈ result.2.visited) ∧ ∀ start ∈ starts, start ∈ result.2.visited
  some_spec : ∀ found, result.1 = some found → ∃ start ∈ starts,
    ReflTransGen (Edge next) start found ∧ TransGen (Edge next) found found

theorem sweepSpec_cons {starts : List κ} {start : κ} {result : Option κ × Visits κ}
    (hvisited : ∀ x ∈ st.visited, x ∈ st'.visited)
    (hstart : start ∈ st'.visited) (h : SweepSpec next starts st' result) :
    SweepSpec next (start :: starts) st result where
  none_spec hnone := by
    obtain ⟨hsound, hstack, hmore, hstarts⟩ := h.none_spec hnone
    refine ⟨hsound, hstack, fun x hx => hmore x (hvisited x hx), fun other hother => ?_⟩
    rcases List.mem_cons.mp hother with rfl | hother
    · exact hmore _ hstart
    · exact hstarts other hother
  some_spec found hsome := by
    obtain ⟨other, hother, hfound⟩ := h.some_spec found hsome
    exact ⟨other, List.mem_cons_of_mem _ hother, hfound⟩

variable [DecidableEq κ]

def Visits.unvisited (st : Visits κ) (nodes : List κ) : ℕ :=
  (nodes.filter fun x => !st.visited.contains x).length

theorem Visits.After.unvisited_le (h : st.After next st') (nodes : List κ) :
    st'.unvisited nodes ≤ st.unvisited nodes := by
  refine length_filter_le fun x hx => ?_
  simp only [Bool.not_eq_true', List.contains_eq_mem, decide_eq_false_iff_not] at hx ⊢
  exact fun hvisited => hx (h.visited x hvisited)

theorem Visits.unvisited_enter_lt {nodes : List κ} (hnode : node ∈ nodes)
    (hnew : node ∉ st.visited) : (st.enter node).unvisited nodes < st.unvisited nodes := by
  refine length_filter_lt hnode ?_ ?_ fun x hx => ?_
  · simpa using hnew
  · simp [Visits.enter]
  · simp only [Bool.not_eq_true', List.contains_eq_mem, decide_eq_false_iff_not] at hx ⊢
    exact fun hvisited => hx (List.mem_cons_of_mem _ hvisited)

def dfsVisit (next : κ → List κ) (fuel : ℕ) (acc : Option κ × Visits κ) (succ : κ) :
    Option κ × Visits κ :=
  if acc.1.isSome then acc
  else if !acc.2.visited.contains succ then dfsCycle next fuel succ acc.2
  else if acc.2.inStack.contains succ then (some succ, acc.2)
  else acc

theorem dfsCycle_succ (next : κ → List κ) (fuel : ℕ) (node : κ) (st : Visits κ) :
    dfsCycle next (fuel + 1) node st =
      match (next node).foldl (dfsVisit next fuel) (none, st.enter node) with
      | (some found, st) => (some found, st)
      | (none, st) => (none, { st with inStack := st.inStack.filter (· ≠ node) }) :=
  rfl

theorem foldl_dfsVisit_some (next : κ → List κ) (fuel : ℕ) (found : κ) (st : Visits κ)
    (succs : List κ) : succs.foldl (dfsVisit next fuel) (some found, st) = (some found, st) := by
  induction succs with
  | nil => rfl
  | cons succ succs ih => exact ih

section Step

variable {nodes : List κ} {fuel : ℕ}

theorem loopSpec_foldl
    (ih : ∀ {node : κ} {st : Visits κ}, st.Sound next → node ∈ nodes → node ∉ st.visited →
      st.unvisited nodes < fuel → SearchSpec next node st (dfsCycle next fuel node st))
    {succs : List κ} (hsuccs : ∀ y ∈ succs, Edge next node y ∧ y ∈ nodes) (hsound : st.Sound next)
    (hfuel : st.unvisited nodes < fuel) :
    LoopSpec next node succs st (succs.foldl (dfsVisit next fuel) (none, st)) := by
  induction succs generalizing st with
  | nil =>
    refine ⟨fun _ => ⟨⟨hsound, fun _ => .rfl, fun _ hx => hx⟩, nofun⟩, fun found hsome => ?_⟩
    cases hsome
  | cons y ys ihys =>
    obtain ⟨⟨hedge, hnode⟩, hys⟩ := List.forall_mem_cons.mp hsuccs
    rw [List.foldl_cons]
    by_cases hvisited : y ∈ st.visited
    · by_cases hstack : y ∈ st.inStack
      · -- The search is back on its own path.
        have hvisit : dfsVisit next fuel (none, st) y = (some y, st) := by
          simp [dfsVisit, hvisited, hstack]
        rw [hvisit, foldl_dfsVisit_some]
        refine ⟨nofun, fun found hsome hpath => ?_⟩
        cases hsome
        exact ⟨TransGen.tail' (hpath y hstack) hedge, .inl hstack⟩
      · have hvisit : dfsVisit next fuel (none, st) y = (none, st) := by
          simp [dfsVisit, hvisited, hstack]
        rw [hvisit]
        exact loopSpec_cons ⟨hsound, fun _ => .rfl, fun _ hx => hx⟩ ⟨hvisited, hstack⟩
          (ihys hys hsound hfuel)
    · have hvisit : dfsVisit next fuel (none, st) y = dfsCycle next fuel y st := by
        simp [dfsVisit, hvisited]
      have hspec := ih hsound hnode hvisited hfuel
      rw [hvisit]
      generalize dfsCycle next fuel y st = result at hspec ⊢
      obtain ⟨r, st₁⟩ := result
      cases r with
      | some found =>
        rw [foldl_dfsVisit_some]
        refine ⟨nofun, fun found' hsome hpath => ?_⟩
        cases hsome
        obtain ⟨hcycle, hreached⟩ := hspec.some_spec found rfl fun x hx =>
          TransGen.tail' (hpath x hx) hedge
        exact ⟨hcycle, hreached.imp_right (.head hedge)⟩
      | none =>
        obtain ⟨hafter, hdone⟩ := hspec.none_spec rfl
        exact loopSpec_cons hafter hdone
          (ihys hys hafter.sound ((hafter.unvisited_le nodes).trans_lt hfuel))

theorem after_leave (hnew : node ∉ st.visited) (hstack : ∀ x ∈ st.inStack, x ∈ st.visited)
    (hafter : (st.enter node).After next st') (hdone : ∀ y ∈ next node, y ∈ st'.done) :
    st.After next { st' with inStack := st'.inStack.filter (· ≠ node) } ∧
      node ∈ Visits.done { st' with inStack := st'.inStack.filter (· ≠ node) } := by
  have hnode : node ∈ st'.inStack := (hafter.stack node).mpr List.mem_cons_self
  have hsame : ∀ x, x ∈ st'.inStack.filter (· ≠ node) ↔ x ∈ st.inStack := by
    intro x
    rw [List.mem_filter, hafter.stack]
    simp only [Visits.enter, List.mem_cons, ne_eq, decide_eq_true_eq]
    constructor
    · rintro ⟨heq | hx, hne⟩
      · exact absurd heq hne
      · exact hx
    · exact fun hx => ⟨.inr hx, fun heq => hnew (heq ▸ hstack x hx)⟩
  have hleft : Visits.done { st' with inStack := st'.inStack.filter (· ≠ node) } =
      insert node st'.done := by
    ext x
    simp only [Visits.mem_done, Set.mem_insert_iff, List.mem_filter, ne_eq, decide_eq_true_eq]
    constructor
    · rintro ⟨hvisited, hnot⟩
      by_cases heq : x = node
      · exact .inl heq
      · exact .inr ⟨hvisited, fun hx => hnot ⟨hx, heq⟩⟩
    · rintro (rfl | ⟨hvisited, hx⟩)
      · exact ⟨hafter.sound.stack x hnode, fun h => h.2 rfl⟩
      · exact ⟨hvisited, fun h => hx h.1⟩
  refine ⟨⟨⟨fun x hx => ?_, ?_⟩, hsame, fun x hx => ?_⟩, ?_⟩
  · exact hafter.sound.stack x (List.mem_filter.mp hx).1
  · rw [hleft]
    exact hafter.sound.settled.insert (fun h => h.2 hnode) hdone
  · exact hafter.visited x (List.mem_cons_of_mem _ hx)
  · rw [hleft]
    exact .inl rfl

/-- With fuel for every node, the search finds a cycle or is done with everything it can reach. -/
theorem searchSpec_dfsCycle (hnodes : ∀ x, ∀ y ∈ next x, y ∈ nodes) (hsound : st.Sound next)
    (hnode : node ∈ nodes) (hnew : node ∉ st.visited) (hfuel : st.unvisited nodes < fuel) :
    SearchSpec next node st (dfsCycle next fuel node st) := by
  induction fuel generalizing node st with
  | zero => exact absurd hfuel (Nat.not_lt_zero _)
  | succ fuel ih =>
    have henter := Visits.unvisited_enter_lt hnode hnew
    have hloop := loopSpec_foldl ih (fun y hy => ⟨hy, hnodes node y hy⟩) (hsound.enter hnew)
      (Nat.lt_of_lt_of_le henter (Nat.le_of_lt_succ hfuel))
    rw [dfsCycle_succ]
    generalize (next node).foldl (dfsVisit next fuel) (none, st.enter node) = result at hloop ⊢
    obtain ⟨r, st'⟩ := result
    cases r with
    | some found =>
      refine ⟨nofun, fun found' hsome hpath => ?_⟩
      cases hsome
      obtain ⟨hcycle, hreached⟩ := hloop.some_spec found rfl fun x hx => by
        rcases List.mem_cons.mp hx with rfl | hx
        · exact .refl
        · exact (hpath x hx).to_reflTransGen
      refine ⟨hcycle, ?_⟩
      rcases hreached with hstack | hreached
      · rcases List.mem_cons.mp hstack with rfl | hstack
        · exact .inr .refl
        · exact .inl hstack
      · exact .inr hreached
    | none =>
      obtain ⟨hafter, hdone⟩ := hloop.none_spec rfl
      refine ⟨fun _ => after_leave hnew hsound.stack hafter hdone, fun found hsome => ?_⟩
      cases hsome

/-! ## With the depth used up in sight -/

/-- `dfsCycle`, but without a result when it would go deeper than the fuel. -/
def dfsCycleWithin (next : κ → List κ) : ℕ → κ → Visits κ → Option (Option κ × Visits κ)
  | 0, _, _ => none
  | fuel + 1, node, st =>
    let visit (acc : Option κ × Visits κ) (succ : κ) : Option (Option κ × Visits κ) :=
      if acc.1.isSome then some acc
      else if !acc.2.visited.contains succ then dfsCycleWithin next fuel succ acc.2
      else if acc.2.inStack.contains succ then some (some succ, acc.2)
      else some acc
    let st := { visited := node :: st.visited, inStack := node :: st.inStack }
    ((next node).foldlM visit (none, st)).map fun
      | (some found, st) => (some found, st)
      | (none, st) => (none, { st with inStack := st.inStack.filter (· ≠ node) })

def dfsVisitWithin (next : κ → List κ) (fuel : ℕ) (acc : Option κ × Visits κ) (succ : κ) :
    Option (Option κ × Visits κ) :=
  if acc.1.isSome then some acc
  else if !acc.2.visited.contains succ then dfsCycleWithin next fuel succ acc.2
  else if acc.2.inStack.contains succ then some (some succ, acc.2)
  else some acc

theorem dfsVisitWithin_eq {acc : Option κ × Visits κ} {succ : κ}
    (h : acc.1 = none → succ ∉ acc.2.visited →
      dfsCycleWithin next fuel succ acc.2 = some (dfsCycle next fuel succ acc.2)) :
    dfsVisitWithin next fuel acc succ = some (dfsVisit next fuel acc succ) := by
  obtain ⟨r, st⟩ := acc
  unfold dfsVisitWithin dfsVisit
  cases r with
  | some found => rfl
  | none =>
    by_cases hvisited : succ ∈ st.visited
    · by_cases hstack : succ ∈ st.inStack <;> simp [hvisited, hstack]
    · simpa [hvisited] using h rfl hvisited

theorem foldlM_dfsVisitWithin
    (ih : ∀ {node : κ} {st : Visits κ}, st.Sound next → node ∈ nodes → node ∉ st.visited →
      st.unvisited nodes < fuel →
        dfsCycleWithin next fuel node st = some (dfsCycle next fuel node st))
    (hnodes : ∀ x, ∀ y ∈ next x, y ∈ nodes) {succs : List κ} (hsuccs : ∀ y ∈ succs, y ∈ nodes)
    {acc : Option κ × Visits κ} (hacc : acc.1 = none → acc.2.Sound next ∧ acc.2.unvisited nodes < fuel) :
    succs.foldlM (dfsVisitWithin next fuel) acc = some (succs.foldl (dfsVisit next fuel) acc) := by
  induction succs generalizing acc with
  | nil => rfl
  | cons y ys ihys =>
    obtain ⟨hy, hys⟩ := List.forall_mem_cons.mp hsuccs
    have hvisit : dfsVisitWithin next fuel acc y = some (dfsVisit next fuel acc y) := by
      refine dfsVisitWithin_eq fun hnone hnew => ?_
      obtain ⟨hsound, hfuel⟩ := hacc hnone
      exact ih hsound hy hnew hfuel
    rw [List.foldlM_cons, hvisit, List.foldl_cons]
    refine ihys hys fun hnone => ?_
    obtain ⟨r, st⟩ := acc
    cases r with
    | some found => cases hnone
    | none =>
      obtain ⟨hsound, hfuel⟩ := hacc rfl
      by_cases hvisited : y ∈ st.visited
      · by_cases hstack : y ∈ st.inStack
        · simp [dfsVisit, hvisited, hstack] at hnone
        · simpa [dfsVisit, hvisited, hstack] using ⟨hsound, hfuel⟩
      · have hstep : dfsVisit next fuel (none, st) y = dfsCycle next fuel y st := by
          simp [dfsVisit, hvisited]
        rw [hstep] at hnone ⊢
        obtain ⟨hafter, -⟩ := (searchSpec_dfsCycle hnodes hsound hy hvisited hfuel).none_spec hnone
        exact ⟨hafter.sound, (hafter.unvisited_le nodes).trans_lt hfuel⟩

theorem dfsCycleWithin_eq (hnodes : ∀ x, ∀ y ∈ next x, y ∈ nodes) (hsound : st.Sound next)
    (hnode : node ∈ nodes) (hnew : node ∉ st.visited) (hfuel : st.unvisited nodes < fuel) :
    dfsCycleWithin next fuel node st = some (dfsCycle next fuel node st) := by
  induction fuel generalizing node st with
  | zero => exact absurd hfuel (Nat.not_lt_zero _)
  | succ fuel ih =>
    have henter := Visits.unvisited_enter_lt hnode hnew
    have hloop : (next node).foldlM (dfsVisitWithin next fuel) (none, st.enter node) =
        some ((next node).foldl (dfsVisit next fuel) (none, st.enter node)) :=
      foldlM_dfsVisitWithin ih hnodes (fun y hy => hnodes node y hy) fun _ =>
        ⟨hsound.enter hnew, Nat.lt_of_lt_of_le henter (Nat.le_of_lt_succ hfuel)⟩
    rw [dfsCycle_succ]
    refine (congrArg (Option.map _) hloop).trans ?_
    rfl

end Step

/-! ## From one start after the other -/

/-- Starts that are visited already, and all after a find, are passed over. -/
def searchFrom (next : κ → List κ) (fuel : ℕ) (acc : Option κ × Visits κ) (start : κ) :
    Option κ × Visits κ :=
  if acc.1.isSome || acc.2.visited.contains start then acc
  else dfsCycle next fuel start acc.2

theorem foldl_searchFrom_some (next : κ → List κ) (fuel : ℕ) (found : κ) (st : Visits κ)
    (starts : List κ) :
    starts.foldl (searchFrom next fuel) (some found, st) = (some found, st) := by
  induction starts with
  | nil => rfl
  | cons start starts ih => exact ih

section Sweep

variable {starts nodes : List κ} {fuel : ℕ}

theorem sweepSpec_foldl (hnodes : ∀ x, ∀ y ∈ next x, y ∈ nodes) (hfuel : nodes.length < fuel)
    (hstarts : ∀ start ∈ starts, start ∈ nodes) (hsound : st.Sound next)
    (hstack : ∀ x, x ∉ st.inStack) :
    SweepSpec next starts st (starts.foldl (searchFrom next fuel) (none, st)) := by
  induction starts generalizing st with
  | nil =>
    refine ⟨fun _ => ⟨hsound, hstack, fun _ hx => hx, nofun⟩, fun found hsome => ?_⟩
    cases hsome
  | cons start starts ih =>
    obtain ⟨hstart, hrest⟩ := List.forall_mem_cons.mp hstarts
    rw [List.foldl_cons]
    by_cases hvisited : start ∈ st.visited
    · have hvisit : searchFrom next fuel (none, st) start = (none, st) := by
        simp [searchFrom, hvisited]
      rw [hvisit]
      exact sweepSpec_cons (fun _ hx => hx) hvisited (ih hrest hsound hstack)
    · have hvisit : searchFrom next fuel (none, st) start = dfsCycle next fuel start st := by
        simp [searchFrom, hvisited]
      have hspec := searchSpec_dfsCycle hnodes hsound hstart hvisited
        ((List.length_filter_le _ _).trans_lt hfuel)
      rw [hvisit]
      generalize dfsCycle next fuel start st = result at hspec ⊢
      obtain ⟨r, st₁⟩ := result
      cases r with
      | some found =>
        rw [foldl_searchFrom_some]
        refine ⟨nofun, fun found' hsome => ?_⟩
        cases hsome
        obtain ⟨hcycle, hreached⟩ :=
          hspec.some_spec found rfl fun x hx => absurd hx (hstack x)
        exact ⟨start, List.mem_cons_self, hreached.resolve_left (hstack found), hcycle⟩
      | none =>
        obtain ⟨hafter, hdone⟩ := hspec.none_spec rfl
        exact sweepSpec_cons hafter.visited hdone.1
          (ih hrest hafter.sound fun x hx => hstack x ((hafter.stack x).mp hx))

/-- What a sweep finds is a cycle, and without a find no start leads to one. -/
theorem sweep_spec (hnodes : ∀ x, ∀ y ∈ next x, y ∈ nodes) (hfuel : nodes.length < fuel)
    (hstarts : ∀ start ∈ starts, start ∈ nodes) :
    match (starts.foldl (searchFrom next fuel) (none, {})).1 with
    | some found => ∃ start ∈ starts,
        ReflTransGen (Edge next) start found ∧ TransGen (Edge next) found found
    | none => ∀ start ∈ starts, ∀ node, ReflTransGen (Edge next) start node →
        ¬ TransGen (Edge next) node node := by
  have hspec := sweepSpec_foldl hnodes hfuel hstarts Visits.sound_empty nofun
  cases hfound : (starts.foldl (searchFrom next fuel) (none, {})).1 with
  | some found => exact hspec.some_spec found hfound
  | none =>
    obtain ⟨hsound, hstack, -, hvisited⟩ := hspec.none_spec hfound
    exact fun start hstart node hreached =>
      hsound.settled.not_cycle ⟨hvisited start hstart, hstack _⟩ hreached

end Sweep

end Search

end MeowChain.Compiler
