import Mathlib.Data.Set.Finite.Basic
import MeowChain.Executor.Dependencies

/-!
# The two collectors of inputs

`collect_inputs` follows imports recursively, `collect_inputs_async` first fetches everything they
reach into a cache and then does the same on the cache. Both are written here so that running out
of depth or turns shows.
-/

set_option autoImplicit false

namespace MeowChain

variable {B : Type} (P : Platform B)

def importsOf (obj : Object B) : List Address :=
  match P.decodeModule obj.content with
  | .ok module => module.imports
  | .error _ => []

/-! ## Collecting, with a limit on the depth -/

section Within

variable (getObject : Address → Option (Object B))

/-- One import of a module, visited with `collect` for what it imports in turn. -/
def visitWithin (collect : Object B → Collected B → Option (Collected B)) (acc : Collected B)
    (a : Address) : Option (Collected B) :=
  if acc.seen.contains a then some acc
  else
    let acc := { acc with seen := a :: acc.seen }
    match getObject a with
    | none => some acc
    | some dep =>
      (collect dep acc).map fun acc : Collected B => { acc with inputs := acc.inputs ++ [dep] }

/-- `collect_dep_modules`, unless it goes deeper than `depth`. -/
def collectDepModulesWithin : ℕ → Object B → Collected B → Option (Collected B)
  | 0, _, _ => none
  | depth + 1, root, acc =>
    (importsOf P root).foldlM (visitWithin getObject (collectDepModulesWithin depth)) acc

/-- `collect_inputs`, unless it goes deeper than `depth`. -/
def collectInputsWithin (depth : ℕ) (tx : Transaction B) : Option (List (Object B)) :=
  let gasCoin := (getObject tx.gasCoin.address).toList
  match tx.type with
  | .meowCall call =>
    let modules := match getObject call.module with
      | none => some []
      | some obj =>
        (collectDepModulesWithin P getObject depth obj ⟨[], [call.module]⟩).map
          fun acc : Collected B => acc.inputs ++ [obj]
    let arguments := call.arguments.filterMap fun
      | .object ref => getObject ref.address
      | .raw _ => none
    modules.map fun modules => gasCoin ++ modules ++ arguments
  | .meowModulePublish bytes =>
    let root : Object B := Object.freshModule 0 0 bytes
    (collectDepModulesWithin P getObject (depth + 1) root ⟨[], []⟩).map
      fun acc : Collected B => gasCoin ++ acc.inputs

end Within

/-! ## Collecting through a cache -/

section Async

variable (getObject : Address → Option (Object B))

abbrev ObjectCache (B : Type) := Std.ExtTreeMap Address (Object B)

/-- Get an object and remember it. -/
def fetch (cache : ObjectCache B) (a : Address) : ObjectCache B :=
  match getObject a with
  | some obj => cache.insert a obj
  | none => cache

/-- Fetch what can be reached; `queue` has the address to be popped next first. -/
def bfsFetchModules : ℕ → List Address → List Address → ObjectCache B → Option (ObjectCache B)
  | 0, _, _, _ => none
  | _ + 1, [], _, cache => some cache
  | turns + 1, a :: queue, seen, cache =>
    if seen.contains a then bfsFetchModules turns queue seen cache
    else
      match getObject a with
      | some obj =>
        bfsFetchModules turns ((importsOf P obj).reverse ++ queue) (a :: seen)
          (cache.insert a obj)
      | none => bfsFetchModules turns queue (a :: seen) cache

def fetchSeeds (tx : Transaction B) : List Address :=
  match tx.type with
  | .meowCall call => [call.module]
  | .meowModulePublish bytes =>
    match P.decodeModule bytes with
    | .ok module => module.imports
    | .error _ => []

/-- What is fetched before the collection starts, unless the search takes more than `turns`. -/
def fetchInputs (turns : ℕ) (tx : Transaction B) : Option (ObjectCache B) :=
  let cache := fetch getObject ∅ tx.gasCoin.address
  (bfsFetchModules P getObject turns (fetchSeeds P tx).reverse [] cache).map fun cache =>
    (tx.argumentRefs.map (·.address)).foldl (fetch getObject) cache

/-- `collect_inputs_async`, unless the search takes more than `turns` or the collection goes deeper
than `depth`. -/
def collectInputsAsync (turns depth : ℕ) (tx : Transaction B) : Option (List (Object B)) :=
  (fetchInputs P getObject turns tx).bind fun cache =>
    collectInputsWithin P (fun a => cache[a]?) depth tx

end Async

/-! ## The recursion -/

section Recursion

variable {P} {getObject getObject' : Address → Option (Object B)}
  {collect collect' : Object B → Collected B → Option (Collected B)} {acc acc' : Collected B}
  {a : Address}

/-- What a visit of `a` leaves behind: nothing new, or the address alone, or its object after what
the object imports. -/
theorem visitWithin_eq_some (h : visitWithin getObject collect acc a = some acc') :
    (a ∈ acc.seen ∧ acc' = acc) ∨
    (a ∉ acc.seen ∧ getObject a = none ∧ acc' = { acc with seen := a :: acc.seen }) ∨
    (a ∉ acc.seen ∧ ∃ dep next, getObject a = some dep ∧
      collect dep { acc with seen := a :: acc.seen } = some next ∧
      acc' = { next with inputs := next.inputs ++ [dep] }) := by
  unfold visitWithin at h
  by_cases hseen : a ∈ acc.seen
  · rw [if_pos (by simpa using hseen)] at h
    exact .inl ⟨hseen, (Option.some.inj h).symm⟩
  · rw [if_neg (by simpa using hseen)] at h
    dsimp only at h
    cases hget : getObject a with
    | none =>
      rw [hget] at h
      exact .inr (.inl ⟨hseen, rfl, (Option.some.inj h).symm⟩)
    | some dep =>
      rw [hget] at h
      obtain ⟨next, hnext, rfl⟩ := Option.map_eq_some_iff.mp h
      exact .inr (.inr ⟨hseen, dep, next, rfl, hnext, rfl⟩)

/-- Between `acc` and `acc'` every address newly seen was followed up: its object was collected, and
its imports were seen. -/
structure Explored (P : Platform B) (getObject : Address → Option (Object B))
    (acc acc' : Collected B) : Prop where
  seen : acc.seen ⊆ acc'.seen
  inputs : acc.inputs ⊆ acc'.inputs
  followed : ∀ a ∈ acc'.seen, a ∉ acc.seen → ∀ obj, getObject a = some obj →
    obj ∈ acc'.inputs ∧ importsOf P obj ⊆ acc'.seen

theorem Explored.refl (acc : Collected B) : Explored P getObject acc acc :=
  ⟨List.Subset.refl _, List.Subset.refl _, fun _ hnew hold => absurd hnew hold⟩

theorem Explored.trans {acc'' : Collected B} (h : Explored P getObject acc acc')
    (h' : Explored P getObject acc' acc'') : Explored P getObject acc acc'' := by
  refine ⟨List.Subset.trans h.seen h'.seen, List.Subset.trans h.inputs h'.inputs,
    fun a ha hnew obj hobj => ?_⟩
  by_cases hmid : a ∈ acc'.seen
  · obtain ⟨hinput, himports⟩ := h.followed a hmid hnew obj hobj
    exact ⟨h'.inputs hinput, List.Subset.trans himports h'.seen⟩
  · exact h'.followed a ha hmid obj hobj

theorem explored_visitWithin
    (hcollect : ∀ root acc acc', collect root acc = some acc' →
      Explored P getObject acc acc' ∧ importsOf P root ⊆ acc'.seen)
    (h : visitWithin getObject collect acc a = some acc') :
    Explored P getObject acc acc' ∧ a ∈ acc'.seen := by
  rcases visitWithin_eq_some h with ⟨hseen, rfl⟩ | ⟨hnew, hget, rfl⟩ |
      ⟨hnew, dep, next, hget, hnext, rfl⟩
  · exact ⟨.refl _, hseen⟩
  · refine ⟨⟨List.subset_cons_self _ _, List.Subset.refl _, ?_⟩, List.mem_cons_self⟩
    intro b hb hold obj hobj
    rcases List.mem_cons.mp hb with rfl | hb
    · rw [hget] at hobj
      cases hobj
    · exact absurd hb hold
  · obtain ⟨hexplored, himports⟩ := hcollect _ _ _ hnext
    refine ⟨⟨List.Subset.trans (List.subset_cons_self _ _) hexplored.seen,
      List.Subset.trans hexplored.inputs (List.subset_append_left _ _), ?_⟩,
      hexplored.seen List.mem_cons_self⟩
    intro b hb hold obj hobj
    by_cases hba : b = a
    · subst hba
      obtain rfl := Option.some.inj (hget.symm.trans hobj)
      exact ⟨List.mem_append_right _ List.mem_cons_self, himports⟩
    · have hnotin : b ∉ a :: acc.seen := by
        rw [List.mem_cons, not_or]
        exact ⟨hba, hold⟩
      obtain ⟨hinput, himports'⟩ := hexplored.followed b hb hnotin obj hobj
      exact ⟨List.mem_append_left _ hinput, himports'⟩

theorem explored_foldlM
    (hcollect : ∀ root acc acc', collect root acc = some acc' →
      Explored P getObject acc acc' ∧ importsOf P root ⊆ acc'.seen)
    {imports : List Address} (h : imports.foldlM (visitWithin getObject collect) acc = some acc') :
    Explored P getObject acc acc' ∧ imports ⊆ acc'.seen := by
  induction imports generalizing acc with
  | nil =>
    obtain rfl := Option.some.inj h
    exact ⟨.refl _, List.nil_subset _⟩
  | cons a imports ih =>
    rw [List.foldlM_cons] at h
    obtain ⟨next, hnext, hrest⟩ := Option.bind_eq_some_iff.mp h
    obtain ⟨hfirst, ha⟩ := explored_visitWithin hcollect hnext
    obtain ⟨hlater, hseen⟩ := ih hrest
    exact ⟨hfirst.trans hlater, List.cons_subset.mpr ⟨hlater.seen ha, hseen⟩⟩

/-- The recursion follows up what it sees, and sees the imports of its root. -/
theorem explored_collectDepModulesWithin {depth : ℕ} {root : Object B}
    (h : collectDepModulesWithin P getObject depth root acc = some acc') :
    Explored P getObject acc acc' ∧ importsOf P root ⊆ acc'.seen := by
  induction depth generalizing root acc acc' with
  | zero => cases h
  | succ depth ih => exact explored_foldlM (fun _ _ _ h => ih h) h

theorem collectDepModulesWithin_mono {depth depth' : ℕ} (hle : depth ≤ depth') {root : Object B}
    (h : collectDepModulesWithin P getObject depth root acc = some acc') :
    collectDepModulesWithin P getObject depth' root acc = some acc' := by
  induction depth generalizing depth' root acc acc' with
  | zero => cases h
  | succ depth ih =>
    obtain ⟨depth', rfl⟩ : ∃ k, depth' = k + 1 := ⟨depth' - 1, by omega⟩
    rw [collectDepModulesWithin] at h ⊢
    generalize importsOf P root = imports at h
    induction imports generalizing acc with
    | nil => exact h
    | cons a imports ihImports =>
      rw [List.foldlM_cons] at h
      obtain ⟨next, hnext, hrest⟩ := Option.bind_eq_some_iff.mp h
      rw [List.foldlM_cons]
      refine Option.bind_eq_some_iff.mpr ⟨next, ?_, ihImports hrest⟩
      unfold visitWithin
      rcases visitWithin_eq_some hnext with ⟨hseen, rfl⟩ | ⟨hnew, hget, rfl⟩ |
          ⟨hnew, dep, mid, hget, hmid, rfl⟩
      · rw [if_pos (by simpa using hseen)]
      · rw [if_neg (by simpa using hnew), hget]
      · rw [if_neg (by simpa using hnew), hget]
        dsimp only
        rw [ih (Nat.le_of_succ_le_succ hle) hmid]
        rfl

theorem collectDepModules_of_within {depth : ℕ} {root : Object B}
    (h : collectDepModulesWithin P getObject depth root acc = some acc') :
    collectDepModules P getObject depth root acc = acc' := by
  induction depth generalizing root acc acc' with
  | zero => cases h
  | succ depth ih =>
    have hfold : ∀ {imports : List Address} {acc : Collected B},
        imports.foldlM (visitWithin getObject (collectDepModulesWithin P getObject depth)) acc
          = some acc' →
        imports.foldl (visitImport getObject (collectDepModules P getObject depth)) acc = acc' := by
      intro imports
      induction imports with
      | nil => exact fun h => Option.some.inj h
      | cons a imports ihImports =>
        intro acc h
        rw [List.foldlM_cons] at h
        obtain ⟨next, hnext, hrest⟩ := Option.bind_eq_some_iff.mp h
        rw [List.foldl_cons, ← ihImports hrest]
        congr 1
        unfold visitImport
        rcases visitWithin_eq_some hnext with ⟨hseen, rfl⟩ | ⟨hnew, hget, rfl⟩ |
            ⟨hnew, dep, mid, hget, hmid, rfl⟩
        · rw [if_pos (by simpa using hseen)]
        · rw [if_neg (by simpa using hnew), hget]
        · rw [if_neg (by simpa using hnew), hget]
          dsimp only
          rw [ih hmid]
    rw [collectDepModulesWithin] at h
    rw [collectDepModules_succ]
    unfold importsOf at h
    cases hdecode : P.decodeModule root.content with
    | error e =>
      rw [hdecode] at h
      exact Option.some.inj h
    | ok m =>
      rw [hdecode] at h
      exact hfold h

/-- Every level of the recursion sees an object it has not seen before. -/
theorem exists_collectDepModulesWithin {stored : List Address}
    (hstored : ∀ a obj, getObject a = some obj → a ∈ stored) {depth : ℕ} (root : Object B)
    (acc : Collected B) (hdepth : unseen stored acc.seen < depth) :
    ∃ acc', collectDepModulesWithin P getObject depth root acc = some acc' := by
  induction depth generalizing root acc with
  | zero => omega
  | succ depth ih =>
    rw [collectDepModulesWithin]
    generalize importsOf P root = imports
    induction imports generalizing acc with
    | nil => exact ⟨acc, rfl⟩
    | cons a imports ihImports =>
      have hvisit : ∃ next, visitWithin getObject (collectDepModulesWithin P getObject depth) acc a
          = some next := by
        unfold visitWithin
        by_cases hseen : a ∈ acc.seen
        · rw [if_pos (by simpa using hseen)]
          exact ⟨acc, rfl⟩
        · rw [if_neg (by simpa using hseen)]
          cases hget : getObject a with
          | none => exact ⟨_, rfl⟩
          | some dep =>
            have hless := unseen_cons_lt (hstored a dep hget) hseen
            obtain ⟨next, hnext⟩ := ih dep ⟨acc.inputs, a :: acc.seen⟩
              (Nat.lt_of_lt_of_le hless (Nat.lt_succ_iff.mp hdepth))
            dsimp only
            rw [hnext]
            exact ⟨_, rfl⟩
      obtain ⟨next, hnext⟩ := hvisit
      have hseen := (explored_visitWithin
        (fun _ _ _ h => explored_collectDepModulesWithin h) hnext).1.seen
      have hle : unseen stored next.seen ≤ unseen stored acc.seen := unseen_le hseen
      obtain ⟨acc', hrest⟩ := ihImports next (by omega)
      rw [List.foldlM_cons]
      exact ⟨acc', Option.bind_eq_some_iff.mpr ⟨next, hnext, hrest⟩⟩

/-- Objects of `reached` import only what is in `reached`. -/
def ClosedUnderImports (P : Platform B) (getObject : Address → Option (Object B))
    (reached : List Address) : Prop :=
  ∀ a ∈ reached, ∀ obj, getObject a = some obj → importsOf P obj ⊆ reached

/-- Nothing is looked up but what the imports reach. -/
theorem collectDepModulesWithin_congr {reached : List Address}
    (hclosed : ClosedUnderImports P getObject reached)
    (hagree : ∀ a ∈ reached, getObject' a = getObject a) (depth : ℕ) {root : Object B}
    (hroot : importsOf P root ⊆ reached) :
    collectDepModulesWithin P getObject' depth root acc =
      collectDepModulesWithin P getObject depth root acc := by
  induction depth generalizing root acc with
  | zero => rfl
  | succ depth ih =>
    rw [collectDepModulesWithin, collectDepModulesWithin]
    generalize importsOf P root = imports at hroot
    induction imports generalizing acc with
    | nil => rfl
    | cons a imports ihImports =>
      obtain ⟨ha, himports⟩ := List.cons_subset.mp hroot
      have hvisit : visitWithin getObject' (collectDepModulesWithin P getObject' depth) acc a =
          visitWithin getObject (collectDepModulesWithin P getObject depth) acc a := by
        unfold visitWithin
        rw [hagree a ha]
        cases hget : getObject a with
        | none => rfl
        | some dep =>
          dsimp only
          rw [ih (hclosed a ha dep hget)]
      rw [List.foldlM_cons, List.foldlM_cons, hvisit]
      exact congrArg _ (funext fun next => ihImports himports)

end Recursion

/-! ## The search -/

section Search

variable {P} {getObject : Address → Option (Object B)} {queue seen : List Address}
  {cache cache' : ObjectCache B} {a : Address} {obj : Object B}

def Faithful (getObject : Address → Option (Object B)) (cache : ObjectCache B) : Prop :=
  ∀ a obj, cache[a]? = some obj → getObject a = some obj

def Fetched (getObject : Address → Option (Object B)) (cache : ObjectCache B) (a : Address) :
    Prop :=
  ∀ obj, getObject a = some obj → cache[a]? = some obj

theorem Faithful.answers (h : Faithful getObject cache) (ha : Fetched getObject cache a) :
    cache[a]? = getObject a := by
  cases hget : getObject a with
  | some obj => exact ha obj hget
  | none =>
    cases hcache : cache[a]? with
    | none => rfl
    | some obj =>
      rw [h a obj hcache] at hget
      cases hget

theorem Faithful.insert (h : Faithful getObject cache) (hget : getObject a = some obj) :
    Faithful getObject (cache.insert a obj) := by
  intro b other hb
  obtain ⟨rfl, rfl⟩ | ⟨-, hold⟩ := getElem?_insert_eq_some.mp hb
  · exact hget
  · exact h b other hold

theorem Fetched.insert (hget : getObject a = some obj) {b : Address}
    (hb : Fetched getObject cache b) : Fetched getObject (cache.insert a obj) b := by
  intro other hother
  by_cases hab : a = b
  · subst hab
    exact getElem?_insert_eq_some.mpr (.inl ⟨rfl, Option.some.inj (hget.symm.trans hother)⟩)
  · exact getElem?_insert_eq_some.mpr (.inr ⟨hab, hb other hother⟩)

theorem fetched_insert_self (hget : getObject a = some obj) :
    Fetched getObject (cache.insert a obj) a := by
  intro other hother
  exact getElem?_insert_eq_some.mpr (.inl ⟨rfl, Option.some.inj (hget.symm.trans hother)⟩)

theorem fetch_spec (h : Faithful getObject cache) (a : Address) :
    Faithful getObject (fetch getObject cache a) ∧ Fetched getObject (fetch getObject cache a) a ∧
      ∀ b, Fetched getObject cache b → Fetched getObject (fetch getObject cache a) b := by
  unfold fetch
  cases hget : getObject a with
  | none =>
    refine ⟨h, fun obj hobj => ?_, fun b hb => hb⟩
    rw [hget] at hobj
    cases hobj
  | some obj => exact ⟨h.insert hget, fetched_insert_self hget, fun b hb => hb.insert hget⟩

theorem foldl_fetch_spec (h : Faithful getObject cache) (addresses : List Address) :
    Faithful getObject (addresses.foldl (fetch getObject) cache) ∧
      ∀ a, a ∈ addresses ∨ Fetched getObject cache a →
        Fetched getObject (addresses.foldl (fetch getObject) cache) a := by
  induction addresses generalizing cache with
  | nil => exact ⟨h, fun a ha => ha.resolve_left List.not_mem_nil⟩
  | cons b addresses ih =>
    obtain ⟨hfaithful, hb, hkeep⟩ := fetch_spec h b
    obtain ⟨hrest, hfetched⟩ := ih hfaithful
    refine ⟨hrest, fun a ha => hfetched a ?_⟩
    rcases ha with ha | ha
    · rcases List.mem_cons.mp ha with rfl | ha
      · exact .inr hb
      · exact .inl ha
    · exact .inr (hkeep a ha)

/-- The state of the search: what was seen is in the cache, and what it imports was seen or is in
the queue. -/
structure Fetching (P : Platform B) (getObject : Address → Option (Object B))
    (queue seen : List Address) (cache : ObjectCache B) : Prop where
  faithful : Faithful getObject cache
  fetched : ∀ a ∈ seen, Fetched getObject cache a
  closed : ∀ a ∈ seen, ∀ obj, getObject a = some obj → importsOf P obj ⊆ queue ++ seen

theorem Fetching.skip (h : Fetching P getObject (a :: queue) seen cache) (ha : a ∈ seen) :
    Fetching P getObject queue seen cache := by
  refine ⟨h.faithful, h.fetched, fun b hb obj hobj c hc => ?_⟩
  rcases List.mem_cons.mp (h.closed b hb obj hobj hc) with rfl | hc
  · exact List.mem_append_right _ ha
  · exact hc

theorem Fetching.missing (h : Fetching P getObject (a :: queue) seen cache)
    (hget : getObject a = none) : Fetching P getObject queue (a :: seen) cache := by
  refine ⟨h.faithful, ?_, ?_⟩
  · intro b hb obj hobj
    rcases List.mem_cons.mp hb with rfl | hb
    · rw [hget] at hobj
      cases hobj
    · exact h.fetched b hb obj hobj
  · intro b hb obj hobj c hc
    rcases List.mem_cons.mp hb with rfl | hb
    · rw [hget] at hobj
      cases hobj
    · exact List.perm_middle.mem_iff.mpr (h.closed b hb obj hobj hc)

theorem Fetching.take (h : Fetching P getObject (a :: queue) seen cache)
    (hget : getObject a = some obj) :
    Fetching P getObject ((importsOf P obj).reverse ++ queue) (a :: seen)
      (cache.insert a obj) := by
  refine ⟨h.faithful.insert hget, ?_, ?_⟩
  · intro b hb
    rcases List.mem_cons.mp hb with rfl | hb
    · exact fetched_insert_self hget
    · exact (h.fetched b hb).insert hget
  · intro b hb other hother c hc
    rw [List.append_assoc]
    rcases List.mem_cons.mp hb with rfl | hb
    · obtain rfl := Option.some.inj (hget.symm.trans hother)
      exact List.mem_append_left _ (List.mem_reverse.mpr hc)
    · exact List.mem_append_right _ (List.perm_middle.mem_iff.mpr (h.closed b hb other hother hc))

/-- The search ends with everything in the cache that the queue reaches. -/
theorem Fetching.loop {turns : ℕ} (h : Fetching P getObject queue seen cache)
    (hloop : bfsFetchModules P getObject turns queue seen cache = some cache') :
    ∃ seen', Fetching P getObject [] seen' cache' ∧ seen ⊆ seen' ∧ queue ⊆ seen' ∧
      ∀ a, Fetched getObject cache a → Fetched getObject cache' a := by
  induction turns generalizing queue seen cache with
  | zero => cases hloop
  | succ turns ih =>
    cases queue with
    | nil =>
      obtain rfl := Option.some.inj hloop
      exact ⟨seen, h, List.Subset.refl _, List.nil_subset _, fun a ha => ha⟩
    | cons a queue =>
      rw [bfsFetchModules] at hloop
      by_cases hseen : a ∈ seen
      · rw [if_pos (by simpa using hseen)] at hloop
        obtain ⟨seen', hdone, hsub, hqueue, hkeep⟩ := ih (h.skip hseen) hloop
        exact ⟨seen', hdone, hsub, List.cons_subset.mpr ⟨hsub hseen, hqueue⟩, hkeep⟩
      · rw [if_neg (by simpa using hseen)] at hloop
        cases hget : getObject a with
        | none =>
          rw [hget] at hloop
          obtain ⟨seen', hdone, hsub, hqueue, hkeep⟩ := ih (h.missing hget) hloop
          obtain ⟨ha, hsub⟩ := List.cons_subset.mp hsub
          exact ⟨seen', hdone, hsub, List.cons_subset.mpr ⟨ha, hqueue⟩, hkeep⟩
        | some obj =>
          rw [hget] at hloop
          obtain ⟨seen', hdone, hsub, hqueue, hkeep⟩ := ih (h.take hget) hloop
          obtain ⟨ha, hsub⟩ := List.cons_subset.mp hsub
          exact ⟨seen', hdone, hsub,
            List.cons_subset.mpr ⟨ha, (List.append_subset.mp hqueue).2⟩,
            fun b hb => hkeep b (hb.insert hget)⟩

/-- How many addresses the objects in `reached` that were not seen would put into the queue. -/
def pushesLeft (P : Platform B) (getObject : Address → Option (Object B))
    (reached seen : List Address) : ℕ :=
  ((reached.filter fun a => !seen.contains a).map fun a =>
    ((getObject a).map fun obj => (importsOf P obj).length).getD 0).sum

theorem pushesLeft_take {reached : List Address} (ha : a ∈ reached) (hnew : a ∉ seen)
    (hget : getObject a = some obj) :
    pushesLeft P getObject reached (a :: seen) + (importsOf P obj).length ≤
      pushesLeft P getObject reached seen := by
  have hle := Graphs.sum_filter_add_le (p := fun b => !seen.contains b)
    (q := fun b => !(a :: seen).contains b)
    (fun a => ((getObject a).map fun obj => (importsOf P obj).length).getD 0) ha
    (by simpa using hnew) (by simp) (fun b hb => by simp at hb ⊢; exact hb.2)
  rw [hget] at hle
  exact hle

variable (P getObject) in
theorem pushesLeft_missing {reached : List Address} (ha : a ∈ reached) (hnew : a ∉ seen) :
    pushesLeft P getObject reached (a :: seen) ≤ pushesLeft P getObject reached seen := by
  have hle := Graphs.sum_filter_add_le (p := fun b => !seen.contains b)
    (q := fun b => !(a :: seen).contains b)
    (fun a => ((getObject a).map fun obj => (importsOf P obj).length).getD 0) ha
    (by simpa using hnew) (by simp) (fun b hb => by simp at hb ⊢; exact hb.2)
  exact Nat.le_of_add_right_le hle

theorem exists_bfsFetchModules {reached : List Address}
    (hclosed : ClosedUnderImports P getObject reached) {turns : ℕ} (cache : ObjectCache B)
    (hqueue : queue ⊆ reached)
    (hturns : queue.length + pushesLeft P getObject reached seen < turns) :
    ∃ cache', bfsFetchModules P getObject turns queue seen cache = some cache' := by
  induction turns generalizing queue seen cache with
  | zero => omega
  | succ turns ih =>
    cases queue with
    | nil => exact ⟨cache, rfl⟩
    | cons a queue =>
      obtain ⟨ha, hqueue⟩ := List.cons_subset.mp hqueue
      rw [List.length_cons] at hturns
      rw [bfsFetchModules]
      by_cases hseen : a ∈ seen
      · rw [if_pos (by simpa using hseen)]
        exact ih _ hqueue (by omega)
      · rw [if_neg (by simpa using hseen)]
        cases hget : getObject a with
        | none =>
          have hleft := pushesLeft_missing P getObject ha hseen
          exact ih _ hqueue (by omega)
        | some obj =>
          have hleft := pushesLeft_take (P := P) ha hseen hget
          refine ih _ (List.append_subset.mpr ⟨?_, hqueue⟩) ?_
          · exact List.Subset.trans (List.reverse_subset.mpr (List.Subset.refl _))
              (hclosed a ha obj hget)
          · rw [List.length_append, List.length_reverse]
            omega

end Search

/-! ## The two collectors -/

section Agree

variable {P} {getObject getObject' : Address → Option (Object B)} {tx : Transaction B}

/-- A call looks up its module; what else is collected follows imports from the seeds. -/
theorem collectInputsWithin_congr {reached : List Address}
    (hclosed : ClosedUnderImports P getObject reached)
    (hagree : ∀ a ∈ reached, getObject' a = getObject a) (hseeds : fetchSeeds P tx ⊆ reached)
    (hgas : getObject' tx.gasCoin.address = getObject tx.gasCoin.address)
    (harguments : ∀ ref ∈ tx.argumentRefs, getObject' ref.address = getObject ref.address)
    (depth : ℕ) :
    collectInputsWithin P getObject' depth tx = collectInputsWithin P getObject depth tx := by
  simp only [Transaction.mem_argumentRefs] at harguments
  unfold collectInputsWithin fetchSeeds at *
  rw [hgas]
  cases htype : tx.type with
  | meowModulePublish bytes =>
    rw [htype] at hseeds
    dsimp only
    have hroot : importsOf P (Object.freshModule 0 0 bytes) ⊆ reached := hseeds
    rw [collectDepModulesWithin_congr hclosed hagree (depth + 1) hroot]
  | meowCall call =>
    rw [htype] at hseeds harguments
    have hmodule : call.module ∈ reached := hseeds List.mem_cons_self
    dsimp only
    have hargs : (call.arguments.filterMap fun
          | .object ref => getObject' ref.address
          | .raw _ => none) =
        call.arguments.filterMap fun
          | .object ref => getObject ref.address
          | .raw _ => none := by
      refine List.filterMap_congr fun input hinput => ?_
      cases input with
      | raw bytes => rfl
      | object ref => exact harguments ref hinput
    rw [hagree _ hmodule, hargs]
    cases hget : getObject call.module with
    | none => rfl
    | some obj =>
      dsimp only
      rw [collectDepModulesWithin_congr hclosed hagree depth (hclosed _ hmodule obj hget)]

theorem collectInputsAsync_eq {turns : ℕ} {cache : ObjectCache B}
    (h : fetchInputs P getObject turns tx = some cache) (depth : ℕ) :
    collectInputsAsync P getObject turns depth tx = collectInputsWithin P getObject depth tx := by
  unfold collectInputsAsync
  rw [h]
  obtain ⟨searched, hsearch, rfl⟩ := Option.map_eq_some_iff.mp h
  have hempty : Faithful getObject ∅ := fun a obj hobj => by simp at hobj
  obtain ⟨hgasFaithful, hgas, -⟩ := fetch_spec hempty tx.gasCoin.address
  have hstart : Fetching P getObject (fetchSeeds P tx).reverse []
      (fetch getObject ∅ tx.gasCoin.address) :=
    ⟨hgasFaithful, fun a ha => absurd ha List.not_mem_nil, fun a ha => absurd ha List.not_mem_nil⟩
  obtain ⟨reached, hdone, -, hseeds, hkeep⟩ := hstart.loop hsearch
  obtain ⟨hfaithful, hfetched⟩ := foldl_fetch_spec hdone.faithful (tx.argumentRefs.map (·.address))
  have hclosed : ClosedUnderImports P getObject reached := hdone.closed
  refine collectInputsWithin_congr hclosed ?_ ?_ ?_ ?_ depth
  · exact fun a ha => hfaithful.answers (hfetched a (.inr (hdone.fetched a ha)))
  · exact List.Subset.trans (List.subset_reverse.mpr (List.Subset.refl _)) hseeds
  · exact hfaithful.answers (hfetched _ (.inr (hkeep _ hgas)))
  · exact fun ref href => hfaithful.answers (hfetched _ (.inl (List.mem_map_of_mem href)))

/-- Everything that the imports of the seeds reach is collected. -/
theorem reached_of_collectInputsWithin {depth : ℕ} {inputs : List (Object B)}
    (h : collectInputsWithin P getObject depth tx = some inputs) :
    ∃ reached, ClosedUnderImports P getObject reached ∧ fetchSeeds P tx ⊆ reached ∧
      ∀ a ∈ reached, ∀ obj, getObject a = some obj → obj ∈ inputs := by
  unfold collectInputsWithin at h
  unfold fetchSeeds
  cases htype : tx.type with
  | meowModulePublish bytes =>
    rw [htype] at h
    obtain ⟨acc, hacc, rfl⟩ := Option.map_eq_some_iff.mp h
    obtain ⟨hexplored, hroot⟩ := explored_collectDepModulesWithin hacc
    exact ⟨acc.seen, fun a ha obj hobj => (hexplored.followed a ha List.not_mem_nil obj hobj).2,
      hroot, fun a ha obj hobj => List.mem_append_right _
        (hexplored.followed a ha List.not_mem_nil obj hobj).1⟩
  | meowCall call =>
    rw [htype] at h
    dsimp only at h
    obtain ⟨modules, hmodules, rfl⟩ := Option.map_eq_some_iff.mp h
    cases hget : getObject call.module with
    | none =>
      have habsent : ∀ a ∈ [call.module], ∀ obj, getObject a ≠ some obj := by
        intro a ha obj
        rw [List.mem_singleton.mp ha, hget]
        exact (Option.some_ne_none obj).symm
      exact ⟨[call.module], fun a ha obj hobj => absurd hobj (habsent a ha obj),
        List.Subset.refl _, fun a ha obj hobj => absurd hobj (habsent a ha obj)⟩
    | some obj =>
      rw [hget] at hmodules
      obtain ⟨acc, hacc, rfl⟩ := Option.map_eq_some_iff.mp hmodules
      obtain ⟨hexplored, hroot⟩ := explored_collectDepModulesWithin hacc
      have hmodule : call.module ∈ acc.seen := hexplored.seen List.mem_cons_self
      -- The module itself was seen before the recursion started.
      have hfollowed : ∀ a ∈ acc.seen, ∀ other, getObject a = some other →
          other ∈ acc.inputs ++ [obj] ∧ importsOf P other ⊆ acc.seen := by
        intro a ha other hother
        by_cases haModule : a = call.module
        · subst haModule
          obtain rfl := Option.some.inj (hget.symm.trans hother)
          exact ⟨List.mem_append_right _ List.mem_cons_self, hroot⟩
        · have hnew : a ∉ [call.module] := fun hmem => haModule (List.mem_singleton.mp hmem)
          obtain ⟨hinput, himports⟩ := hexplored.followed a ha hnew other hother
          exact ⟨List.mem_append_left _ hinput, himports⟩
      exact ⟨acc.seen, fun a ha other hother => (hfollowed a ha other hother).2,
        List.cons_subset.mpr ⟨hmodule, List.nil_subset _⟩, fun a ha other hother =>
          List.mem_append_left _ (List.mem_append_right _ (hfollowed a ha other hother).1)⟩

theorem collectInputsWithin_mono {depth depth' : ℕ} (hle : depth ≤ depth')
    {inputs : List (Object B)} (h : collectInputsWithin P getObject depth tx = some inputs) :
    collectInputsWithin P getObject depth' tx = some inputs := by
  unfold collectInputsWithin at h ⊢
  cases htype : tx.type with
  | meowModulePublish bytes =>
    rw [htype] at h
    obtain ⟨acc, hacc, rfl⟩ := Option.map_eq_some_iff.mp h
    exact Option.map_eq_some_iff.mpr
      ⟨acc, collectDepModulesWithin_mono (Nat.succ_le_succ hle) hacc, rfl⟩
  | meowCall call =>
    rw [htype] at h
    obtain ⟨modules, hmodules, rfl⟩ := Option.map_eq_some_iff.mp h
    refine Option.map_eq_some_iff.mpr ⟨modules, ?_, rfl⟩
    cases hget : getObject call.module with
    | none =>
      rw [hget] at hmodules
      exact hmodules
    | some obj =>
      rw [hget] at hmodules
      obtain ⟨acc, hacc, rfl⟩ := Option.map_eq_some_iff.mp hmodules
      exact Option.map_eq_some_iff.mpr ⟨acc, collectDepModulesWithin_mono hle hacc, rfl⟩

theorem collectInputs_of_within {depth : ℕ} {inputs : List (Object B)}
    (h : collectInputsWithin P getObject depth tx = some inputs) :
    collectInputs P getObject depth tx = inputs := by
  unfold collectInputsWithin at h
  unfold collectInputs
  cases htype : tx.type with
  | meowModulePublish bytes =>
    rw [htype] at h
    obtain ⟨acc, hacc, rfl⟩ := Option.map_eq_some_iff.mp h
    obtain rfl := collectDepModules_of_within hacc
    rfl
  | meowCall call =>
    rw [htype] at h
    obtain ⟨modules, hmodules, rfl⟩ := Option.map_eq_some_iff.mp h
    dsimp only
    cases hget : getObject call.module with
    | none =>
      rw [hget] at hmodules
      obtain rfl := Option.some.inj hmodules
      rfl
    | some obj =>
      rw [hget] at hmodules
      obtain ⟨acc, hacc, rfl⟩ := Option.map_eq_some_iff.mp hmodules
      obtain rfl := collectDepModules_of_within hacc
      rfl

variable (P tx) in
theorem exists_collectInputsWithin {stored : List Address}
    (hstored : ∀ a obj, getObject a = some obj → a ∈ stored) {depth : ℕ}
    (hdepth : stored.length < depth) :
    ∃ inputs, collectInputsWithin P getObject depth tx = some inputs := by
  have hunseen : ∀ seen, unseen stored seen < depth := fun seen =>
    lt_of_le_of_lt (List.length_filter_le _ _) hdepth
  unfold collectInputsWithin
  cases htype : tx.type with
  | meowModulePublish bytes =>
    obtain ⟨acc, hacc⟩ := exists_collectDepModulesWithin (P := P) hstored
      (Object.freshModule 0 0 bytes) ⟨[], []⟩ (Nat.lt_succ_of_lt (hunseen []))
    exact ⟨_, Option.map_eq_some_iff.mpr ⟨acc, hacc, rfl⟩⟩
  | meowCall call =>
    dsimp only
    cases hget : getObject call.module with
    | none => exact ⟨_, rfl⟩
    | some obj =>
      obtain ⟨acc, hacc⟩ := exists_collectDepModulesWithin (P := P) hstored obj
        ⟨[], [call.module]⟩ (hunseen [call.module])
      dsimp only
      rw [hacc]
      exact ⟨_, rfl⟩

theorem exists_fetchInputs {depth : ℕ} {inputs : List (Object B)}
    (h : collectInputsWithin P getObject depth tx = some inputs) :
    ∃ turns, ∀ turns' ≥ turns, ∃ cache, fetchInputs P getObject turns' tx = some cache := by
  obtain ⟨reached, hclosed, hseeds, -⟩ := reached_of_collectInputsWithin h
  refine ⟨(fetchSeeds P tx).reverse.length + pushesLeft P getObject reached [] + 1,
    fun turns' hturns => ?_⟩
  obtain ⟨cache, hcache⟩ := exists_bfsFetchModules hclosed (fetch getObject ∅ tx.gasCoin.address)
    (List.Subset.trans (List.reverse_subset.mpr (List.Subset.refl _)) hseeds)
    (Nat.lt_of_succ_le hturns)
  exact ⟨_, Option.map_eq_some_iff.mpr ⟨cache, hcache, rfl⟩⟩

/-- What one collector returns the other one returns, with enough turns and depth; and both return
where finitely many addresses have objects. -/
theorem collectors_agree (P : Platform B) (getObject : Address → Option (Object B))
    (tx : Transaction B) :
    (∀ turns depth inputs, collectInputsAsync P getObject turns depth tx = some inputs →
      collectInputsWithin P getObject depth tx = some inputs) ∧
    (∀ depth inputs, collectInputsWithin P getObject depth tx = some inputs →
      ∃ turns, ∀ turns' ≥ turns, collectInputsAsync P getObject turns' depth tx = some inputs) ∧
    ({a | (getObject a).isSome}.Finite → ∃ limit inputs, ∀ n ≥ limit,
      collectInputs P getObject n tx = inputs ∧
      collectInputsWithin P getObject n tx = some inputs ∧
      collectInputsAsync P getObject n n tx = some inputs) := by
  refine ⟨?_, ?_, ?_⟩
  · intro turns depth inputs h
    obtain ⟨cache, hcache, -⟩ := Option.bind_eq_some_iff.mp h
    rw [← collectInputsAsync_eq hcache depth]
    exact h
  · intro depth inputs h
    obtain ⟨turns, hturns⟩ := exists_fetchInputs h
    refine ⟨turns, fun turns' hle => ?_⟩
    obtain ⟨cache, hcache⟩ := hturns turns' hle
    rw [collectInputsAsync_eq hcache depth]
    exact h
  · intro hfinite
    have hstored : ∀ a obj, getObject a = some obj → a ∈ hfinite.toFinset.toList := by
      intro a obj hobj
      rw [Finset.mem_toList, Set.Finite.mem_toFinset, Set.mem_ofPred_eq, hobj]
      rfl
    obtain ⟨inputs, hinputs⟩ := exists_collectInputsWithin P tx hstored
      (Nat.lt_succ_self _)
    obtain ⟨turns, hturns⟩ := exists_fetchInputs hinputs
    refine ⟨max turns (hfinite.toFinset.toList.length + 1), inputs, fun n hn => ?_⟩
    have hwithin := collectInputsWithin_mono (le_trans (le_max_right _ _) hn) hinputs
    obtain ⟨cache, hcache⟩ := hturns n (le_trans (le_max_left _ _) hn)
    refine ⟨collectInputs_of_within hwithin, hwithin, ?_⟩
    rw [collectInputsAsync_eq hcache n]
    exact hwithin

end Agree

end MeowChain
