import MeowChain.Chain.Frame
import MeowChain.Executor.Collecting
import MeowChain.Lib.Assoc

/-!
# What the executor needs of its inputs

The executor looks up the gas coin, the object arguments, the module and what the module imports.
Two lists of inputs that agree there give the same result.
-/

set_option autoImplicit false

namespace MeowChain

variable {B : Type} {P : Platform B} {inputs inputs' : List (Object B)}

/-! ## Two lists of inputs -/

/-- At `a` both lists have the same objects, and only one. -/
structure SameInputsAt (inputs inputs' : List (Object B)) (a : Address) : Prop where
  unique : ∀ x ∈ inputs', ∀ y ∈ inputs', x.address = a → y.address = a → x = y
  mem : ∀ x, x.address = a → (x ∈ inputs ↔ x ∈ inputs')

section Lookups

variable {a : Address}

theorem SameInputsAt.findInput (h : SameInputsAt inputs inputs' a) :
    findInput inputs a = findInput inputs' a := by
  refine Assoc.find?_eq_find? (fun x hx y hy hpx hpy => ?_) fun x hpx => ?_
  · exact h.unique x hx y hy (by simpa using hpx) (by simpa using hpy)
  · exact h.mem x (by simpa using hpx)

theorem SameInputsAt.moduleIndex (h : SameInputsAt inputs inputs' a) :
    moduleIndex inputs a = moduleIndex inputs' a := by
  refine Assoc.find?_eq_find? (fun x hx y hy hpx hpy => ?_) fun x hpx => ?_
  · rw [Bool.and_eq_true, beq_iff_eq] at hpx hpy
    exact h.unique x (List.mem_reverse.mp hx) y (List.mem_reverse.mp hy) hpx.2 hpy.2
  · rw [Bool.and_eq_true, beq_iff_eq] at hpx
    rw [List.mem_reverse, List.mem_reverse]
    exact h.mem x hpx.2

theorem SameInputsAt.resolveModule (h : SameInputsAt inputs inputs' a) :
    resolveModule P inputs a = resolveModule P inputs' a := by
  have hfind : (inputs.find? fun o => decide (o.type = .module) && o.address == a) =
      inputs'.find? fun o => decide (o.type = .module) && o.address == a := by
    refine Assoc.find?_eq_find? (fun x hx y hy hpx hpy => ?_) fun x hpx => ?_
    · rw [Bool.and_eq_true, beq_iff_eq] at hpx hpy
      exact h.unique x hx y hy hpx.2 hpy.2
    · rw [Bool.and_eq_true, beq_iff_eq] at hpx
      exact h.mem x hpx.2
  unfold MeowChain.resolveModule
  rw [hfind]

theorem resolveGasCoinObject_congr {ref : ObjectRef} {sender : Address}
    (h : SameInputsAt inputs inputs' ref.address) :
    resolveGasCoinObject P ref sender inputs = resolveGasCoinObject P ref sender inputs' := by
  unfold resolveGasCoinObject
  rw [h.findInput]

end Lookups

/-! ## Dependencies -/

/-- The search for dependencies takes the same turns on both lists. -/
theorem resolveDepLoop_congr {reached : List Address}
    (hagree : ∀ a ∈ reached, SameInputsAt inputs inputs' a)
    (hclosed : ∀ a ∈ reached, ∀ obj, moduleIndex inputs' a = some obj → importsOf P obj ⊆ reached)
    {turns turns' : ℕ} {queue : List Address} {deps : DepMap} (hqueue : queue ⊆ reached)
    (hturns : queue.length + importsLeft P inputs deps < turns)
    (hturns' : queue.length + importsLeft P inputs' deps < turns') :
    resolveDepLoop P inputs turns queue deps = resolveDepLoop P inputs' turns' queue deps := by
  induction turns generalizing turns' queue deps with
  | zero => omega
  | succ turns ih =>
    obtain ⟨turns', rfl⟩ : ∃ k, turns' = k + 1 := ⟨turns' - 1, by omega⟩
    cases queue with
    | nil => rfl
    | cons a queue =>
      obtain ⟨ha, hqueue⟩ := List.cons_subset.mp hqueue
      rw [List.length_cons] at hturns hturns'
      rw [resolveDepLoop, resolveDepLoop]
      by_cases hknown : deps.contains a = true
      · rw [if_pos hknown, if_pos hknown]
        exact ih hqueue (by omega) (by omega)
      · rw [if_neg hknown, if_neg hknown, (hagree a ha).moduleIndex]
        have hnew : a ∉ deps := fun hmem => hknown (Std.ExtTreeMap.contains_iff_mem.mpr hmem)
        cases hobj : moduleIndex inputs' a with
        | none => rfl
        | some obj =>
          dsimp only
          cases hdecode : P.decodeModule obj.content with
          | error e => rfl
          | ok m =>
            have hobj' : moduleIndex inputs a = some obj := (hagree a ha).moduleIndex.trans hobj
            have hleft := importsLeft_take hnew hobj' hdecode
            have hleft' := importsLeft_take hnew hobj hdecode
            have hfilter := List.length_filter_le (fun b => !deps.contains b) m.imports
            have himports : m.imports ⊆ reached := by
              have hsub := hclosed a ha obj hobj
              unfold importsOf at hsub
              rw [hdecode] at hsub
              exact hsub
            refine ih (List.append_subset.mpr ⟨?_, hqueue⟩) ?_ ?_
            · exact fun b hb => himports (List.mem_filter.mp (List.mem_reverse.mp hb)).1
            · rw [List.length_append, List.length_reverse]
              omega
            · rw [List.length_append, List.length_reverse]
              omega

theorem resolveDepModules_congr {reached imports : List Address}
    (hagree : ∀ a ∈ reached, SameInputsAt inputs inputs' a)
    (hclosed : ∀ a ∈ reached, ∀ obj, moduleIndex inputs' a = some obj → importsOf P obj ⊆ reached)
    (himports : imports ⊆ reached) :
    resolveDepModules P inputs imports = resolveDepModules P inputs' imports := by
  have hstart : ∀ inputs : List (Object B),
      importsLeft P inputs ∅ = (inputs.map (importCount P)).sum := fun inputs => by
    simp [importsLeft]
  refine resolveDepLoop_congr hagree hclosed
    (List.Subset.trans (List.reverse_subset.mpr (List.Subset.refl _)) himports) ?_ ?_
  · rw [List.length_reverse, hstart]
    omega
  · rw [List.length_reverse, hstart]
    omega

/-! ## Arguments -/

theorem resolveArg_congr {input : Input B} {ty : Ty} {sender : Address}
    (hagree : ∀ ref, input = .object ref → SameInputsAt inputs inputs' ref.address) :
    resolveArg P input ty sender inputs = resolveArg P input ty sender inputs' := by
  cases input with
  | raw bytes => rfl
  | object ref =>
    unfold resolveArg resolveObject
    dsimp only
    rw [(hagree ref rfl).findInput]

theorem resolveArgsFrom_congr {sender : Address} {i : ℕ} {arguments : List (Input B)}
    {params : List (String × Ty)}
    (hagree : ∀ ref, .object ref ∈ arguments → SameInputsAt inputs inputs' ref.address) :
    resolveArgsFrom P sender inputs i arguments params =
      resolveArgsFrom P sender inputs' i arguments params := by
  induction arguments generalizing i params with
  | nil => rfl
  | cons input arguments ih =>
    cases params with
    | nil => rfl
    | cons param params =>
      obtain ⟨name, ty⟩ := param
      rw [resolveArgsFrom, resolveArgsFrom,
        resolveArg_congr fun ref href => hagree ref (href ▸ List.mem_cons_self),
        ih fun ref href => hagree ref (List.mem_cons_of_mem _ href)]

theorem resolveArgs_congr {call : Call B} {func : Function} {sender : Address}
    (hagree : ∀ ref, .object ref ∈ call.arguments → SameInputsAt inputs inputs' ref.address) :
    resolveArgs P call func sender inputs = resolveArgs P call func sender inputs' := by
  have hobjects : call.arguments.filterMap (objectArg inputs) =
      call.arguments.filterMap (objectArg inputs') := by
    refine List.filterMap_congr fun input hinput => ?_
    cases input with
    | raw bytes => rfl
    | object ref => exact (hagree ref hinput).findInput
  unfold resolveArgs
  rw [resolveArgsFrom_congr hagree, hobjects]

/-! ## Transactions -/

structure SameInputsFor (P : Platform B) (tx : Transaction B) (inputs inputs' : List (Object B)) :
    Prop where
  gasCoin : SameInputsAt inputs inputs' tx.gasCoin.address
  arguments : ∀ ref ∈ tx.argumentRefs, SameInputsAt inputs inputs' ref.address
  modules : ∃ reached, fetchSeeds P tx ⊆ reached ∧ (∀ a ∈ reached, SameInputsAt inputs inputs' a) ∧
    ∀ a ∈ reached, ∀ obj ∈ inputs', obj.address = a → importsOf P obj ⊆ reached

section Execute

variable {tx : Transaction B}

theorem prepareCall_congr {call : Call B} (htype : tx.type = .meowCall call)
    (h : SameInputsFor P tx inputs inputs') :
    prepareCall P tx.sender call inputs = prepareCall P tx.sender call inputs' := by
  obtain ⟨reached, hseeds, hagree, hclosed⟩ := h.modules
  have harguments : ∀ ref, .object ref ∈ call.arguments →
      SameInputsAt inputs inputs' ref.address := by
    intro ref href
    refine h.arguments ref (Transaction.mem_argumentRefs.mpr ?_)
    rwa [htype]
  have hmodule : call.module ∈ reached := by
    unfold fetchSeeds at hseeds
    rw [htype] at hseeds
    exact hseeds List.mem_cons_self
  have hindex : ∀ a ∈ reached, ∀ obj, moduleIndex inputs' a = some obj →
      importsOf P obj ⊆ reached := by
    intro a ha obj hobj
    obtain ⟨hmem, -, haddress⟩ := moduleIndex_eq_some hobj
    exact hclosed a ha obj hmem haddress
  unfold prepareCall
  rw [(hagree _ hmodule).resolveModule]
  cases hresolved : resolveModule P inputs' call.module with
  | error e => rfl
  | ok m =>
    obtain ⟨obj, hmem, -, haddress, hdecode⟩ := resolveModule_eq_ok hresolved
    have himports : m.imports ⊆ reached := by
      have hsub := hclosed _ hmodule obj hmem haddress
      unfold importsOf at hsub
      rw [hdecode] at hsub
      exact hsub
    have hargs : ∀ func, resolveArgs P call func tx.sender inputs =
        resolveArgs P call func tx.sender inputs' := fun func => resolveArgs_congr harguments
    have hdeps := resolveDepModules_congr hagree hindex himports
    simp only [bind, Except.bind, hdeps, hargs]

theorem verifyModule_congr {bytes : B} (htype : tx.type = .meowModulePublish bytes)
    (h : SameInputsFor P tx inputs inputs') :
    verifyModule P bytes inputs = verifyModule P bytes inputs' := by
  obtain ⟨reached, hseeds, hagree, hclosed⟩ := h.modules
  have hindex : ∀ a ∈ reached, ∀ obj, moduleIndex inputs' a = some obj →
      importsOf P obj ⊆ reached := by
    intro a ha obj hobj
    obtain ⟨hmem, -, haddress⟩ := moduleIndex_eq_some hobj
    exact hclosed a ha obj hmem haddress
  unfold fetchSeeds at hseeds
  rw [htype] at hseeds
  dsimp only at hseeds
  unfold verifyModule
  cases hdecode : P.decodeModule bytes with
  | error e => rfl
  | ok m =>
    rw [hdecode] at hseeds
    have hdeps : resolveDepModules P inputs m.imports = resolveDepModules P inputs' m.imports :=
      resolveDepModules_congr hagree hindex hseeds
    simp only [Except.mapError, bind, Except.bind, hdeps]

theorem execute_congr (h : SameInputsFor P tx inputs inputs') (ext : ExternalContext) :
    execute P tx inputs ext = execute P tx inputs' ext := by
  have htype : ∀ gas config, executeType P tx inputs gas config ext =
      executeType P tx inputs' gas config ext := by
    intro gas config
    unfold executeType
    cases htype : tx.type with
    | meowCall call =>
      dsimp only
      unfold executeMeowCall
      rw [prepareCall_congr htype h]
    | meowModulePublish bytes =>
      dsimp only
      unfold executeMeowModulePublish
      rw [verifyModule_congr htype h]
  unfold execute
  rw [resolveGasCoinObject_congr h.gasCoin]
  simp only [htype]

end Execute

/-! ## Stored objects -/

section Stored

variable {store : Store B} {tx : Transaction B}

theorem Store.collectInputs_within (store : Store B) (tx : Transaction B) :
    collectInputsWithin P (fun a => store[a]?) (store.size + 1) tx =
      some (store.collectInputs P tx) := by
  have hstored : ∀ a obj, store[a]? = some obj → a ∈ store.keys :=
    fun a obj hobj => Std.ExtTreeMap.mem_keys.mpr (mem_of_getElem? hobj)
  have hlength : store.keys.length < store.size + 1 := by
    rw [Std.ExtTreeMap.length_keys]
    exact Nat.lt_succ_self _
  obtain ⟨inputs, hinputs⟩ := exists_collectInputsWithin P tx hstored hlength
  rw [hinputs]
  exact congrArg some (collectInputs_of_within hinputs).symm

theorem gasCoin_mem_collectInputs {getObject : Address → Option (Object B)} {depth : ℕ}
    {obj : Object B} (h : getObject tx.gasCoin.address = some obj) :
    obj ∈ collectInputs P getObject depth tx := by
  unfold collectInputs
  have hcoin : obj ∈ (getObject tx.gasCoin.address).toList := Option.mem_toList.mpr h
  cases tx.type with
  | meowCall call => exact List.mem_append_left _ (List.mem_append_left _ hcoin)
  | meowModulePublish bytes => exact List.mem_append_left _ hcoin

theorem argument_mem_collectInputs {getObject : Address → Option (Object B)} {depth : ℕ}
    {obj : Object B} {ref : ObjectRef} (href : ref ∈ tx.argumentRefs)
    (h : getObject ref.address = some obj) : obj ∈ collectInputs P getObject depth tx := by
  rw [Transaction.mem_argumentRefs] at href
  unfold collectInputs
  cases htype : tx.type with
  | meowModulePublish bytes =>
    rw [htype] at href
    cases href
  | meowCall call =>
    rw [htype] at href
    exact List.mem_append_right _ (List.mem_filterMap.mpr ⟨_, href, h⟩)

/-- A list that has all stored objects of the addresses looked up, and only stored objects, agrees
with any other such list. -/
theorem sameInputsAt_of_stored {a : Address}
    (hstored : ∀ obj ∈ inputs, store[obj.address]? = some obj)
    (hstored' : ∀ obj ∈ inputs', store[obj.address]? = some obj)
    (hhas : ∀ obj, store[a]? = some obj → obj ∈ inputs ∧ obj ∈ inputs') :
    SameInputsAt inputs inputs' a := by
  refine ⟨?_, ?_⟩
  · intro x hx y hy hxa hya
    have hstoredX := hstored' x hx
    have hstoredY := hstored' y hy
    rw [hxa] at hstoredX
    rw [hya] at hstoredY
    exact Option.some.inj (hstoredX.symm.trans hstoredY)
  · rintro x rfl
    exact ⟨fun hx => (hhas x (hstored x hx)).2, fun hx => (hhas x (hstored' x hx)).1⟩

theorem sameInputsFor_of_collected
    (hstored : ∀ obj ∈ inputs, store[obj.address]? = some obj)
    (hcollected : store.collectInputs P tx ⊆ inputs) :
    SameInputsFor P tx (store.collectInputs P tx) inputs := by
  have hstored' : ∀ obj ∈ store.collectInputs P tx, store[obj.address]? = some obj :=
    fun obj hobj => hstored obj (hcollected hobj)
  have hagree : ∀ a, (∀ obj, store[a]? = some obj → obj ∈ store.collectInputs P tx) →
      SameInputsAt (store.collectInputs P tx) inputs a := fun a ha =>
    sameInputsAt_of_stored hstored' hstored fun obj hobj => ⟨ha obj hobj, hcollected (ha obj hobj)⟩
  obtain ⟨reached, hclosed, hseeds, hreached⟩ :=
    reached_of_collectInputsWithin (Store.collectInputs_within (P := P) store tx)
  refine ⟨hagree _ ?_, fun ref href => hagree ref.address ?_, reached, hseeds,
    fun a ha => hagree a (hreached a ha), ?_⟩
  · exact fun obj hobj => gasCoin_mem_collectInputs hobj
  · exact fun obj hobj => argument_mem_collectInputs href hobj
  · rintro a ha obj hobj rfl
    exact hclosed _ ha obj (hstored obj hobj)

end Stored

/-- Execution on the collected inputs is execution on any stored objects that include them, whatever
their order and whatever else is among them. -/
theorem collected_inputs_suffice {store : Store B} {tx : Transaction B}
    (hstored : ∀ obj ∈ inputs, store[obj.address]? = some obj)
    (hcollected : ∀ obj ∈ store.collectInputs P tx, obj ∈ inputs) (ext : ExternalContext) :
    execute P tx (store.collectInputs P tx) ext = execute P tx inputs ext :=
  execute_congr (sameInputsFor_of_collected hstored hcollected) ext

namespace Sample

def spareCoin : Object Blob :=
  ownedObject 9 coinDecl [("balance", .u64 1)]

def spareStore : Store Blob :=
  Store.withObjects (spareCoin :: vaultInputs)

end Sample

open Sample in
/-- All that the store has, backwards and with the spare coin first, does as well. -/
theorem collected_inputs_suffice_raise :
    execute platform raiseTransaction (spareStore.collectInputs platform raiseTransaction) .empty =
      execute platform raiseTransaction (spareCoin :: vaultInputs.reverse) .empty := by
  have hmem : ∀ {obj : Object Blob}, obj ∈ spareCoin :: vaultInputs.reverse ↔
      obj ∈ spareCoin :: vaultInputs := by
    intro obj
    rw [List.mem_cons, List.mem_cons, List.mem_reverse]
  refine collected_inputs_suffice ?_ ?_ .empty
  · have hall : ∀ obj ∈ spareCoin :: vaultInputs, spareStore[obj.address]? = some obj := by
      simp only [vaultInputs, List.forall_mem_cons]
      exact ⟨by rfl, by rfl, by rfl, by rfl, by rfl, nofun⟩
    exact fun obj hobj => hall obj (hmem.mp hobj)
  · intro obj hobj
    obtain ⟨a, ha⟩ := Store.collectInputs_stored platform obj hobj
    exact hmem.mpr (Store.mem_of_withObjects ha)

end MeowChain
