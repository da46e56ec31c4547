import MeowChain.Executor.Resolvers
import MeowChain.Lib.Graphs
import MeowChain.Lib.Maps

/-!
# Dependencies

The search for dependencies ends with exactly the modules that the imports reach.
-/

set_option autoImplicit false

namespace MeowChain

open Relation

variable {B : Type} {P : Platform B} {inputs : List (Object B)}

/-- `a` is a module that imports `b`. -/
def DepMap.Imports (deps : DepMap) (a b : Address) : Prop :=
  ∃ m, deps[a]? = some m ∧ b ∈ m.imports

/-- `deps` are the modules that `imports` reach: closed under imports, and nothing else. -/
structure DepMap.ClosureOf (imports : List Address) (deps : DepMap) : Prop where
  roots : ∀ a ∈ imports, a ∈ deps
  closed : ∀ (a : Address) (m : Module), deps[a]? = some m → ∀ b ∈ m.imports, b ∈ deps
  reached : ∀ a ∈ deps, ∃ root ∈ imports, ReflTransGen deps.Imports root a

theorem moduleIndex_eq_some {a : Address} {obj : Object B} (h : moduleIndex inputs a = some obj) :
    obj ∈ inputs ∧ obj.type = .module ∧ obj.address = a := by
  refine ⟨List.mem_reverse.mp (List.mem_of_find?_eq_some h), ?_⟩
  simpa using List.find?_some h

theorem resolveModule_eq_ok {a : Address} {m : Module} (h : resolveModule P inputs a = .ok m) :
    ∃ obj ∈ inputs, obj.type = .module ∧ obj.address = a ∧ P.decodeModule obj.content = .ok m := by
  unfold resolveModule at h
  dsimp only at h
  split at h
  · cases h
  · rename_i obj hobj
    refine ⟨obj, List.mem_of_find?_eq_some hobj, ?_⟩
    have hfound : obj.type = .module ∧ obj.address = a := by simpa using List.find?_some hobj
    cases hdecode : P.decodeModule obj.content with
    | error e =>
      rw [hdecode] at h
      cases h
    | ok m' =>
      rw [hdecode] at h
      cases h
      exact ⟨hfound.1, hfound.2, rfl⟩

/-! ## One turn of the search -/

/-- The state of the search: what is missing is in the queue, and what it has is reached. -/
structure Searching (P : Platform B) (inputs : List (Object B)) (imports queue : List Address)
    (deps : DepMap) : Prop where
  found : ∀ (a : Address) (m : Module), deps[a]? = some m → ∃ obj ∈ inputs,
    obj.type = .module ∧ obj.address = a ∧ P.decodeModule obj.content = .ok m
  roots : ∀ a ∈ imports, a ∈ queue ∨ a ∈ deps
  closed : ∀ (a : Address) (m : Module), deps[a]? = some m → ∀ b ∈ m.imports, b ∈ queue ∨ b ∈ deps
  reached : ∀ a, a ∈ queue ∨ a ∈ deps → ∃ root ∈ imports, ReflTransGen deps.Imports root a

section Turn

variable {imports queue : List Address} {deps : DepMap} {a : Address}

theorem searching_start : Searching P inputs imports imports.reverse ∅ where
  found a m h := by simp at h
  roots a ha := .inl (List.mem_reverse.mpr ha)
  closed a m h := by simp at h
  reached a ha := by
    rcases ha with ha | ha
    · exact ⟨a, List.mem_reverse.mp ha, .refl⟩
    · simp at ha

theorem Searching.skip (h : Searching P inputs imports (a :: queue) deps) (ha : a ∈ deps) :
    Searching P inputs imports queue deps := by
  have hleave : ∀ b, b ∈ a :: queue ∨ b ∈ deps → b ∈ queue ∨ b ∈ deps := by
    rintro b (hb | hb)
    · rcases List.mem_cons.mp hb with rfl | hb
      · exact .inr ha
      · exact .inl hb
    · exact .inr hb
  exact {
    found := h.found
    roots := fun b hb => hleave b (h.roots b hb)
    closed := fun b m hm c hc => hleave c (h.closed b m hm c hc)
    reached := fun b hb => h.reached b (hb.imp_left (List.mem_cons_of_mem _)) }

theorem DepMap.Imports.insert {m : Module} (ha : a ∉ deps) {b c : Address}
    (h : deps.Imports b c) : DepMap.Imports (deps.insert a m) b c := by
  obtain ⟨n, hn, hc⟩ := h
  refine ⟨n, getElem?_insert_eq_some.mpr (.inr ⟨?_, hn⟩), hc⟩
  rintro rfl
  exact ha (mem_of_getElem? hn)

theorem Searching.take (h : Searching P inputs imports (a :: queue) deps) (ha : a ∉ deps)
    {obj : Object B} (hobj : moduleIndex inputs a = some obj) {m : Module}
    (hm : P.decodeModule obj.content = .ok m) :
    Searching P inputs imports ((m.imports.filter fun b => !deps.contains b).reverse ++ queue)
      (deps.insert a m) := by
  have hself : a ∈ deps.insert a m := mem_insert_iff.mpr (.inl rfl)
  have hkeep : ∀ b, b ∈ deps → b ∈ deps.insert a m := fun b hb => mem_insert_iff.mpr (.inr hb)
  have hpath : ∀ {b c : Address}, ReflTransGen deps.Imports b c →
      ReflTransGen (DepMap.Imports (deps.insert a m)) b c :=
    fun hbc => ReflTransGen.mono (fun _ _ hstep => DepMap.Imports.insert ha hstep) _ _ hbc
  have hleave : ∀ b, b ∈ a :: queue ∨ b ∈ deps →
      b ∈ (m.imports.filter fun b => !deps.contains b).reverse ++ queue ∨ b ∈ deps.insert a m := by
    rintro b (hb | hb)
    · rcases List.mem_cons.mp hb with rfl | hb
      · exact .inr hself
      · exact .inl (List.mem_append_right _ hb)
    · exact .inr (hkeep b hb)
  obtain ⟨root, hroot, hreached⟩ := h.reached a (.inl List.mem_cons_self)
  refine ⟨?_, fun b hb => hleave b (h.roots b hb), ?_, ?_⟩
  · intro b n hn
    obtain ⟨hmem, hmodule, haddress⟩ := moduleIndex_eq_some hobj
    obtain ⟨rfl, rfl⟩ | ⟨-, hold⟩ := getElem?_insert_eq_some.mp hn
    · exact ⟨obj, hmem, hmodule, haddress, hm⟩
    · exact h.found b n hold
  · intro b n hn c hc
    obtain ⟨rfl, rfl⟩ | ⟨-, hold⟩ := getElem?_insert_eq_some.mp hn
    · by_cases hknown : c ∈ deps
      · exact .inr (hkeep c hknown)
      · refine .inl (List.mem_append_left _ (List.mem_reverse.mpr (List.mem_filter.mpr ⟨hc, ?_⟩)))
        simpa [← Bool.not_eq_true, Std.ExtTreeMap.contains_iff_mem] using hknown
    · exact hleave c (h.closed b n hold c hc)
  · rintro b (hb | hb)
    · rcases List.mem_append.mp hb with hnew | hold
      · -- An import of the module that was taken is reached through it.
        have himport := (List.mem_filter.mp (List.mem_reverse.mp hnew)).1
        exact ⟨root, hroot, (hpath hreached).tail
          ⟨m, getElem?_insert_eq_some.mpr (.inl ⟨rfl, rfl⟩), himport⟩⟩
      · obtain ⟨root, hroot, hpath'⟩ := h.reached b (.inl (List.mem_cons_of_mem _ hold))
        exact ⟨root, hroot, hpath hpath'⟩
    · rcases mem_insert_iff.mp hb with rfl | hold
      · exact ⟨root, hroot, hpath hreached⟩
      · obtain ⟨root, hroot, hpath'⟩ := h.reached b (.inr hold)
        exact ⟨root, hroot, hpath hpath'⟩

def importsLeft (P : Platform B) (inputs : List (Object B)) (deps : DepMap) : ℕ :=
  ((inputs.filter fun obj => !deps.contains obj.address).map (importCount P)).sum

theorem importsLeft_take (ha : a ∉ deps) {obj : Object B} (hobj : moduleIndex inputs a = some obj)
    {m : Module} (hm : P.decodeModule obj.content = .ok m) :
    importsLeft P inputs (deps.insert a m) + m.imports.length ≤ importsLeft P inputs deps := by
  obtain ⟨hmem, -, haddress⟩ := moduleIndex_eq_some hobj
  have hcount : importCount P obj = m.imports.length := by
    unfold importCount
    rw [hm]
  rw [← hcount]
  refine Graphs.sum_filter_add_le (importCount P) hmem ?_ ?_ ?_
  · simpa [haddress, ← Bool.not_eq_true, Std.ExtTreeMap.contains_iff_mem] using ha
  · simp [haddress]
  · intro other hother
    simp only [Bool.not_eq_true', Std.ExtTreeMap.contains_insert, Bool.or_eq_false_iff] at hother ⊢
    exact hother.2

end Turn

/-! ## The whole search -/

theorem Searching.loop {imports queue : List Address} {deps deps' : DepMap} {turns : ℕ}
    (h : Searching P inputs imports queue deps)
    (hturns : queue.length + importsLeft P inputs deps < turns)
    (hloop : resolveDepLoop P inputs turns queue deps = .ok deps') :
    Searching P inputs imports [] deps' := by
  induction turns generalizing queue deps with
  | zero => omega
  | succ turns ih =>
    cases queue with
    | nil =>
      cases hloop
      exact h
    | cons a queue =>
      rw [List.length_cons] at hturns
      unfold resolveDepLoop at hloop
      split at hloop
      · rename_i hknown
        exact ih (h.skip (Std.ExtTreeMap.contains_iff_mem.mp hknown)) (by omega) hloop
      · rename_i hknown
        have ha : a ∉ deps := fun hmem => hknown (Std.ExtTreeMap.contains_iff_mem.mpr hmem)
        dsimp only at hloop
        split at hloop
        · cases hloop
        · rename_i obj hobj
          split at hloop
          · cases hloop
          · rename_i m hm
            refine ih (h.take ha hobj hm) ?_ hloop
            have hleft := importsLeft_take ha hobj hm
            have hfilter := List.length_filter_le (fun b => !deps.contains b) m.imports
            rw [List.length_append, List.length_reverse]
            omega

theorem searching_of_resolveDepModules {imports : List Address} {deps : DepMap}
    (h : resolveDepModules P inputs imports = .ok deps) : Searching P inputs imports [] deps := by
  refine searching_start.loop ?_ h
  have hleft : importsLeft P inputs ∅ = (inputs.map (importCount P)).sum := by
    simp [importsLeft]
  rw [List.length_reverse, hleft]
  omega

theorem resolveDepModules_closure {imports : List Address} {deps : DepMap}
    (h : resolveDepModules P inputs imports = .ok deps) : deps.ClosureOf imports := by
  have hsearched := searching_of_resolveDepModules h
  exact {
    roots := fun a ha => (hsearched.roots a ha).resolve_left List.not_mem_nil
    closed := fun a m hm b hb => (hsearched.closed a m hm b hb).resolve_left List.not_mem_nil
    reached := fun a ha => hsearched.reached a (.inr ha) }

/-! ## Collecting -/

section Collect

variable (P) (getObject : Address → Option (Object B))

/-- One import of a module, visited with `collect` for what it imports in turn. -/
def visitImport (collect : Object B → Collected B → Collected B) (acc : Collected B) (a : Address) :
    Collected B :=
  if acc.seen.contains a then acc
  else
    match getObject a with
    | none => { acc with seen := a :: acc.seen }
    | some dep =>
      let acc := collect dep { acc with seen := a :: acc.seen }
      { acc with inputs := acc.inputs ++ [dep] }

theorem collectDepModules_succ (depth : ℕ) (root : Object B) (acc : Collected B) :
    collectDepModules P getObject (depth + 1) root acc =
      match P.decodeModule root.content with
      | .error _ => acc
      | .ok m => m.imports.foldl (visitImport getObject (collectDepModules P getObject depth)) acc :=
  rfl

variable {P} {getObject}

theorem visitImport_seen {collect : Object B → Collected B → Collected B}
    (hcollect : ∀ root acc, acc.seen ⊆ (collect root acc).seen) (acc : Collected B) (a : Address) :
    acc.seen ⊆ (visitImport getObject collect acc a).seen := by
  unfold visitImport
  split
  · exact List.Subset.refl _
  · split
    · exact List.subset_cons_self _ _
    · exact List.Subset.trans (List.subset_cons_self a _) (hcollect _ ⟨acc.inputs, a :: acc.seen⟩)

theorem collectDepModules_seen (depth : ℕ) (root : Object B) (acc : Collected B) :
    acc.seen ⊆ (collectDepModules P getObject depth root acc).seen := by
  induction depth generalizing root acc with
  | zero => exact List.Subset.refl _
  | succ depth ih =>
    rw [collectDepModules_succ]
    split
    · exact List.Subset.refl _
    · rename_i m _
      exact List.foldlRecOn (motive := fun acc' : Collected B => acc.seen ⊆ acc'.seen) m.imports _
        (List.Subset.refl _) fun acc' hacc' a _ => List.Subset.trans hacc' (visitImport_seen ih acc' a)

def unseen (addresses seen : List Address) : ℕ :=
  (addresses.filter fun a => !seen.contains a).length

theorem unseen_le {addresses seen seen' : List Address} (h : seen ⊆ seen') :
    unseen addresses seen' ≤ unseen addresses seen := by
  refine (List.monotone_filter_right addresses ?_).length_le
  intro a ha
  simp only [Bool.not_eq_true', List.contains_eq_mem, decide_eq_false_iff_not] at ha ⊢
  exact fun hmem => ha (h hmem)

theorem unseen_cons_lt {addresses seen : List Address} {a : Address} (ha : a ∈ addresses)
    (hnew : a ∉ seen) : unseen addresses (a :: seen) < unseen addresses seen := by
  have hlt := Graphs.sum_filter_add_le (p := fun b => !seen.contains b)
    (q := fun b => !(a :: seen).contains b) (fun _ => 1) ha (by simpa using hnew) (by simp)
    (fun b hb => by simp at hb ⊢; exact hb.2)
  simp only [List.map_const', List.sum_replicate_nat, Nat.mul_one] at hlt
  exact hlt

variable {addresses : List Address}
  (hclosed : ∀ a ∈ addresses, ∀ obj, getObject a = some obj → ∀ m,
    P.decodeModule obj.content = .ok m → ∀ b ∈ m.imports, b ∈ addresses)
include hclosed

/-- The recursion goes no deeper than there are addresses to be seen. -/
theorem collectDepModules_stable {depth : ℕ} {root : Object B} {acc : Collected B}
    (hroot : ∀ m, P.decodeModule root.content = .ok m → ∀ b ∈ m.imports, b ∈ addresses)
    (hdepth : unseen addresses acc.seen < depth) :
    collectDepModules P getObject (depth + 1) root acc =
      collectDepModules P getObject depth root acc := by
  induction depth generalizing root acc with
  | zero => omega
  | succ depth ih =>
    rw [collectDepModules_succ, collectDepModules_succ P getObject depth]
    split
    · rfl
    · rename_i m hm
      have himports := hroot m hm
      clear hroot hm
      generalize m.imports = imports at himports
      -- Every import is visited alike, and leaves no more addresses to be seen.
      induction imports generalizing acc with
      | nil => rfl
      | cons a imports ihImports =>
        rw [List.forall_mem_cons] at himports
        have hvisit : visitImport getObject (collectDepModules P getObject (depth + 1)) acc a =
            visitImport getObject (collectDepModules P getObject depth) acc a := by
          unfold visitImport
          split
          · rfl
          · rename_i hnew
            split
            · rfl
            · rename_i dep hdep
              have hunseen := unseen_cons_lt himports.1 (by simpa using hnew)
              rw [ih (hclosed a himports.1 dep hdep) (by dsimp only; omega)]
        rw [List.foldl_cons, List.foldl_cons, hvisit]
        refine ihImports ?_ himports.2
        have hseen : acc.seen ⊆
            (visitImport getObject (collectDepModules P getObject depth) acc a).seen :=
          visitImport_seen (collectDepModules_seen depth) acc a
        have hle : unseen addresses _ ≤ unseen addresses acc.seen := unseen_le hseen
        omega

theorem collectDepModules_eq {depth depth' : ℕ} {root : Object B} {acc : Collected B}
    (hroot : ∀ m, P.decodeModule root.content = .ok m → ∀ b ∈ m.imports, b ∈ addresses)
    (hdepth : unseen addresses acc.seen < depth) (hle : depth ≤ depth') :
    collectDepModules P getObject depth' root acc =
      collectDepModules P getObject depth root acc := by
  induction hle with
  | refl => rfl
  | step hle ih =>
    have hdepth' := lt_of_lt_of_le hdepth hle
    rw [collectDepModules_stable hclosed hroot hdepth', ih]

end Collect

end MeowChain
