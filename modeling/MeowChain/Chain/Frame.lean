import MeowChain.Chain.Store
import MeowChain.Executor.Effects
import MeowChain.Lib.Maps
import Mathlib.Data.List.Nodup

/-!
# The frame of a transaction

What executing a transaction leaves alone: objects the sender does not own, modules, and everything
the transaction does not refer to.
-/

set_option autoImplicit false

namespace MeowChain

variable {B : Type}

/-! ## Stores -/

def Store.Keyed (store : Store B) : Prop :=
  ∀ (a : Address) (obj : Object B), store[a]? = some obj → obj.address = a

theorem Store.keyed_empty : (∅ : Store B).Keyed := by
  intro a obj h
  simp at h

theorem Store.Keyed.insert {store : Store B} (hstore : store.Keyed) (obj : Object B) :
    Store.Keyed (store.insert obj.address obj) := by
  intro a other h
  obtain ⟨rfl, rfl⟩ | ⟨-, hold⟩ := getElem?_insert_eq_some.mp h
  · rfl
  · exact hstore a other hold

theorem Store.keyed_withObjects (objects : List (Object B)) :
    (Store.withObjects objects).Keyed :=
  List.foldlRecOn objects _ Store.keyed_empty fun _ hstore obj _ => hstore.insert obj

theorem Store.mem_of_withObjects {objects : List (Object B)} {a : Address} {obj : Object B}
    (h : (Store.withObjects objects)[a]? = some obj) : obj ∈ objects := by
  refine List.foldlRecOn (motive := fun store : Store B => ∀ (a : Address) (obj : Object B),
    store[a]? = some obj → obj ∈ objects) objects _ (by simp) ?_ a obj h
  intro store hstore new hnew a obj hobj
  obtain ⟨-, rfl⟩ | ⟨-, hold⟩ := getElem?_insert_eq_some.mp hobj
  · exact hnew
  · exact hstore a obj hold

theorem Store.withObjects_getElem? {objects : List (Object B)} {obj : Object B}
    (hmem : obj ∈ objects) (hunique : ∀ other ∈ objects, other.address = obj.address → other = obj) :
    (Store.withObjects objects)[obj.address]? = some obj := by
  have hfold : ∀ (objects : List (Object B)) (store : Store B),
      (∀ other ∈ objects, other.address = obj.address → other = obj) →
      obj ∈ objects ∨ store[obj.address]? = some obj →
      (objects.foldl (fun store obj => store.insert obj.address obj) store)[obj.address]? =
        some obj := by
    intro objects
    induction objects with
    | nil => exact fun store _ h => h.resolve_left List.not_mem_nil
    | cons first objects ih =>
      intro store hunique h
      refine ih _ (fun other hother => hunique other (List.mem_cons_of_mem _ hother)) ?_
      by_cases haddress : first.address = obj.address
      · have hfirst := hunique first List.mem_cons_self haddress
        exact .inr (getElem?_insert_eq_some.mpr (.inl ⟨haddress, hfirst⟩))
      · rcases h with hobj | hstored
        · rcases List.mem_cons.mp hobj with rfl | hobj
          · exact absurd rfl haddress
          · exact .inl hobj
        · exact .inr (getElem?_insert_eq_some.mpr (.inr ⟨haddress, hstored⟩))
  exact hfold objects ∅ hunique (.inl hmem)

/-! ### Listing -/

section Listing

variable {store : Store B} (hkeyed : store.Keyed)
include hkeyed

theorem Store.map_address_objects : store.objects.map (·.address) = store.keys := by
  rw [← Std.ExtTreeMap.map_fst_toList_eq_keys, Store.objects, List.map_map]
  refine List.map_congr_left ?_
  rintro ⟨a, obj⟩ hmem
  exact hkeyed a obj (Std.ExtTreeMap.mem_toList_iff_getElem?_eq_some.mp hmem)

theorem Store.nodup_address_objects : (store.objects.map (·.address)).Nodup := by
  rw [store.map_address_objects hkeyed]
  exact Std.ExtTreeMap.nodup_keys

theorem Store.mem_objects {obj : Object B} :
    obj ∈ store.objects ↔ store[obj.address]? = some obj := by
  unfold Store.objects
  rw [List.mem_map]
  constructor
  · rintro ⟨⟨a, other⟩, hmem, rfl⟩
    have hget := Std.ExtTreeMap.mem_toList_iff_getElem?_eq_some.mp hmem
    rw [hkeyed a other hget]
    exact hget
  · intro hget
    exact ⟨(obj.address, obj), Std.ExtTreeMap.mem_toList_iff_getElem?_eq_some.mpr hget, rfl⟩

end Listing

section WithObjects

variable {objects : List (Object B)} (hnodup : (objects.map (·.address)).Nodup)
include hnodup

theorem Store.getElem?_withObjects {obj : Object B} :
    (Store.withObjects objects)[obj.address]? = some obj ↔ obj ∈ objects := by
  constructor
  · exact Store.mem_of_withObjects
  · intro hmem
    refine Store.withObjects_getElem? hmem fun other hother haddress => ?_
    exact List.inj_on_of_nodup_map hnodup hother hmem haddress

theorem Store.objects_withObjects : (Store.withObjects objects).objects.Perm objects := by
  have hkeyed := Store.keyed_withObjects objects
  refine (List.perm_ext_iff_of_nodup ?_ (List.Nodup.of_map _ hnodup)).mpr fun obj => ?_
  · exact List.Nodup.of_map _ (Store.nodup_address_objects hkeyed)
  · rw [Store.mem_objects hkeyed, Store.getElem?_withObjects hnodup]

end WithObjects

theorem Store.withObjects_objects {store : Store B} (hkeyed : store.Keyed) :
    Store.withObjects store.objects = store := by
  have hnodup := Store.nodup_address_objects hkeyed
  refine Std.ExtTreeMap.ext_getElem? fun {a} => Option.ext fun obj => ?_
  constructor
  · intro hget
    obtain rfl := Store.keyed_withObjects _ a obj hget
    exact (Store.mem_objects hkeyed).mp ((Store.getElem?_withObjects hnodup).mp hget)
  · intro hget
    obtain rfl := hkeyed a obj hget
    exact (Store.getElem?_withObjects hnodup).mpr ((Store.mem_objects hkeyed).mpr hget)

/-! ## Applying a result -/

section Apply

variable {ε : Type} {store store' : Store B} {objects : List (Object B)}

theorem Store.applyCreated_eq_ok {obj : Object B}
    (h : store.applyCreated (ε := ε) obj = .ok store') :
    store[obj.address]? = none ∧ store' = store.insert obj.address obj := by
  unfold Store.applyCreated at h
  split_ifs at h with hmem
  cases h
  exact ⟨by simpa using hmem, rfl⟩

theorem Store.applyChanged_eq_ok {obj : Object B}
    (h : store.applyChanged (ε := ε) obj = .ok store') :
    store' = store.insert obj.address obj := by
  unfold Store.applyChanged at h
  split_ifs at h
  cases h
  rfl

theorem Store.applyDestroyed_eq_ok {obj : Object B}
    (h : store.applyDestroyed (ε := ε) obj = .ok store') :
    store' = store.erase obj.address := by
  unfold Store.applyDestroyed at h
  split_ifs at h
  cases h
  rfl

/-- After the created objects: a created one where there was none, or what was there before. -/
theorem Store.foldl_applyCreated (h : Outcome.foldl (ε := ε) Store.applyCreated store objects =
    .ok store') (a : Address) :
    (∃ obj ∈ objects, obj.address = a ∧ store[a]? = none ∧ store'[a]? = some obj) ∨
      (∀ obj ∈ objects, obj.address ≠ a) ∧ store'[a]? = store[a]? := by
  induction objects generalizing store with
  | nil =>
    cases h
    exact .inr ⟨by simp, rfl⟩
  | cons obj objects ih =>
    obtain ⟨next, hnext, h⟩ := Outcome.bind_eq_ok.mp h
    obtain ⟨habsent, rfl⟩ := Store.applyCreated_eq_ok hnext
    by_cases ha : obj.address = a
    · subst ha
      have hself : (store.insert obj.address obj)[obj.address]? = some obj := by simp
      obtain ⟨_, -, -, hnone, -⟩ | ⟨-, hkept⟩ := ih h
      · rw [hself] at hnone
        cases hnone
      · exact .inl ⟨obj, List.mem_cons_self, rfl, habsent, hkept.trans hself⟩
    · have hother : (store.insert obj.address obj)[a]? = store[a]? := by
        simp [Std.ExtTreeMap.getElem?_insert, ha]
      rw [← hother]
      obtain ⟨obj', hmem, hrest⟩ | ⟨hnone, hkept⟩ := ih h
      · exact .inl ⟨obj', List.mem_cons_of_mem _ hmem, hrest⟩
      · exact .inr ⟨List.forall_mem_cons.mpr ⟨ha, hnone⟩, hkept⟩

/-- After the changed objects: a changed one, or what was there before. -/
theorem Store.foldl_applyChanged (h : Outcome.foldl (ε := ε) Store.applyChanged store objects =
    .ok store') (a : Address) :
    (∃ obj ∈ objects, obj.address = a ∧ store'[a]? = some obj) ∨
      (∀ obj ∈ objects, obj.address ≠ a) ∧ store'[a]? = store[a]? := by
  induction objects generalizing store with
  | nil =>
    cases h
    exact .inr ⟨by simp, rfl⟩
  | cons obj objects ih =>
    obtain ⟨next, hnext, h⟩ := Outcome.bind_eq_ok.mp h
    obtain rfl := Store.applyChanged_eq_ok hnext
    obtain ⟨obj', hmem, hrest⟩ | ⟨hnone, hkept⟩ := ih h
    · exact .inl ⟨obj', List.mem_cons_of_mem _ hmem, hrest⟩
    · rw [Std.ExtTreeMap.getElem?_insert] at hkept
      by_cases ha : obj.address = a
      · exact .inl ⟨obj, List.mem_cons_self, ha, by simpa [ha] using hkept⟩
      · exact .inr ⟨List.forall_mem_cons.mpr ⟨ha, hnone⟩, by simpa [ha] using hkept⟩

/-- After the destroyed objects: nothing at their addresses, the rest as before. -/
theorem Store.foldl_applyDestroyed (h : Outcome.foldl (ε := ε) Store.applyDestroyed store objects =
    .ok store') (a : Address) :
    (∃ obj ∈ objects, obj.address = a ∧ store'[a]? = none) ∨
      (∀ obj ∈ objects, obj.address ≠ a) ∧ store'[a]? = store[a]? := by
  induction objects generalizing store with
  | nil =>
    cases h
    exact .inr ⟨by simp, rfl⟩
  | cons obj objects ih =>
    obtain ⟨next, hnext, h⟩ := Outcome.bind_eq_ok.mp h
    obtain rfl := Store.applyDestroyed_eq_ok hnext
    obtain ⟨obj', hmem, hrest⟩ | ⟨hnone, hkept⟩ := ih h
    · exact .inl ⟨obj', List.mem_cons_of_mem _ hmem, hrest⟩
    · rw [Std.ExtTreeMap.getElem?_erase] at hkept
      by_cases ha : obj.address = a
      · exact .inl ⟨obj, List.mem_cons_self, ha, by simpa [ha] using hkept⟩
      · exact .inr ⟨List.forall_mem_cons.mpr ⟨ha, hnone⟩, by simpa [ha] using hkept⟩

/-- What a result does at one address; what is destroyed is gone, whatever else happened to it. -/
inductive ExecutionResult.Applied (result : ExecutionResult B) (a : Address) :
    Option (Object B) → Option (Object B) → Prop where
  | destroyed {before : Option (Object B)} {obj : Object B} (hmem : obj ∈ result.destroyedObjects)
      (haddress : obj.address = a) : Applied result a before none
  | changed {before : Option (Object B)} {obj : Object B} (hmem : obj ∈ result.changedObjects)
      (haddress : obj.address = a) : Applied result a before (some obj)
  | created {obj : Object B} (hmem : obj ∈ result.createdObjects) (haddress : obj.address = a)
      (hunchanged : ∀ obj ∈ result.changedObjects, obj.address ≠ a) :
      Applied result a none (some obj)
  | kept {before : Option (Object B)} (hunchanged : ∀ obj ∈ result.changedObjects, obj.address ≠ a)
      (hundestroyed : ∀ obj ∈ result.destroyedObjects, obj.address ≠ a) :
      Applied result a before before

theorem Store.applied_of_applyExecutionResult {result : ExecutionResult B}
    (h : store.applyExecutionResult (ε := ε) result = .ok store') (a : Address) :
    result.Applied a store[a]? store'[a]? := by
  unfold Store.applyExecutionResult at h
  obtain ⟨created, hcreated, h⟩ := Outcome.bind_eq_ok.mp h
  obtain ⟨changed, hchanged, hdestroyed⟩ := Outcome.bind_eq_ok.mp h
  obtain ⟨obj, hmem, ha, hgone⟩ | ⟨hundestroyed, hafter⟩ := Store.foldl_applyDestroyed hdestroyed a
  · rw [hgone]
    exact .destroyed hmem ha
  rw [hafter]
  obtain ⟨obj, hmem, ha, hnew⟩ | ⟨hunchanged, hbefore⟩ := Store.foldl_applyChanged hchanged a
  · rw [hnew]
    exact .changed hmem ha
  rw [hbefore]
  obtain ⟨obj, hmem, ha, habsent, hnew⟩ | ⟨-, hkept⟩ := Store.foldl_applyCreated hcreated a
  · rw [habsent, hnew]
    exact .created hmem ha hunchanged
  · rw [hkept]
    exact .kept hunchanged hundestroyed

theorem Store.Keyed.applyExecutionResult {result : ExecutionResult B} (hstore : store.Keyed)
    (h : store.applyExecutionResult (ε := ε) result = .ok store') : store'.Keyed := by
  intro a obj hobj
  have happlied := Store.applied_of_applyExecutionResult h a
  rw [hobj] at happlied
  generalize hbefore : store[a]? = before at happlied
  cases happlied with
  | changed _ haddress => exact haddress
  | created _ haddress => exact haddress
  | kept => exact hstore a obj hbefore

end Apply

/-! ## Collected inputs -/

section Inputs

variable (P : Platform B)

theorem collectDepModules_stored {getObject : Address → Option (Object B)} (depth : ℕ)
    (root : Object B) {acc : Collected B}
    (hacc : ∀ obj ∈ acc.inputs, ∃ a, getObject a = some obj) :
    ∀ obj ∈ (collectDepModules P getObject depth root acc).inputs, ∃ a, getObject a = some obj := by
  induction depth generalizing root acc with
  | zero => exact hacc
  | succ depth ih =>
    unfold collectDepModules
    split
    · exact hacc
    · refine List.foldlRecOn (motive := fun acc : Collected B =>
        ∀ obj ∈ acc.inputs, ∃ a, getObject a = some obj) _ _ hacc ?_
      intro acc hacc a _
      split_ifs
      · exact hacc
      · dsimp only
        split
        · exact hacc
        · rename_i dep hdep
          have hacc' : ∀ obj ∈ ({ acc with seen := a :: acc.seen } : Collected B).inputs,
              ∃ a, getObject a = some obj := hacc
          intro obj hobj
          rcases List.mem_append.mp hobj with hold | hnew
          · exact ih dep hacc' obj hold
          · rw [List.mem_singleton.mp hnew]
            exact ⟨a, hdep⟩

theorem Store.collectInputs_stored {store : Store B} {tx : Transaction B} :
    ∀ obj ∈ store.collectInputs P tx, ∃ a : Address, store[a]? = some obj := by
  intro obj hobj
  unfold Store.collectInputs MeowChain.collectInputs at hobj
  dsimp only at hobj
  split at hobj
  · rcases List.mem_append.mp hobj with hobj | harg
    · rcases List.mem_append.mp hobj with hcoin | hmodule
      · exact ⟨_, Option.mem_toList.mp hcoin⟩
      · split at hmodule
        · cases hmodule
        · rename_i root hroot
          rcases List.mem_append.mp hmodule with hdep | hself
          · exact collectDepModules_stored P _ _ (by simp) obj hdep
          · rw [List.mem_singleton.mp hself]
            exact ⟨_, hroot⟩
    · obtain ⟨input, -, hinput⟩ := List.mem_filterMap.mp harg
      cases input with
      | raw bytes => cases hinput
      | object ref => exact ⟨_, hinput⟩
  · rcases List.mem_append.mp hobj with hcoin | hdep
    · exact ⟨_, Option.mem_toList.mp hcoin⟩
    · exact collectDepModules_stored P _ _ (by simp) obj hdep

theorem Store.Keyed.getElem?_of_findInput {store : Store B} (hstore : store.Keyed)
    {inputs : List (Object B)}
    (hinputs : ∀ obj ∈ inputs, ∃ a : Address, store[a]? = some obj) {a : Address} {obj : Object B}
    (h : findInput inputs a = some obj) : store[a]? = some obj := by
  obtain ⟨b, hb⟩ := hinputs obj (List.mem_of_find?_eq_some h)
  have ha : obj.address = a := by simpa using List.find?_some h
  rwa [← hstore b obj hb, ha] at hb

end Inputs

/-! ## The frame -/

section Frame

variable {P : Platform B} {tx : Transaction B} {store store' : Store B} {refs : List ObjectRef}
  {result : ExecutionResult B}

/-- What a transaction can do at one address. -/
inductive Transaction.Changes (P : Platform B) (tx : Transaction B) (refs : List ObjectRef)
    (result : ExecutionResult B) (a : Address) : Option (Object B) → Option (Object B) → Prop where
  | kept {before : Option (Object B)} (hunchanged : ∀ obj ∈ result.changedObjects, obj.address ≠ a)
      (hundestroyed : ∀ obj ∈ result.destroyedObjects, obj.address ≠ a) :
      Changes P tx refs result a before before
  | created {obj : Object B} (hmem : obj ∈ result.createdObjects) (haddress : obj.address = a)
      (hversion : obj.version = .one) (hdigest : obj.transaction = P.transactionDigest tx)
      (hderived : ∃ n, a = P.derive (P.transactionDigest tx) 0 n) :
      Changes P tx refs result a none (some obj)
  | changed {ref : ObjectRef} {old obj : Object B} (href : ref ∈ refs) (haddress : ref.address = a)
      (haccepted : AcceptedObject P ref tx.sender old) (hsucceeds : Succeeds old obj)
      (hmem : obj ∈ result.changedObjects) : Changes P tx refs result a (some old) (some obj)
  | destroyed {ref : ObjectRef} {old obj : Object B} (href : ref ∈ tx.argumentRefs)
      (haddress : ref.address = a) (haccepted : AcceptedObject P ref tx.sender old)
      (hmem : obj ∈ result.destroyedObjects) (hobj : obj.address = a) :
      Changes P tx refs result a (some old) none

theorem Spendable.stored {sender : Address} {inputs : List (Object B)} {old : Object B}
    (hstore : store.Keyed) (hinputs : ∀ obj ∈ inputs, ∃ a : Address, store[a]? = some obj)
    (h : Spendable P sender refs inputs old) :
    ∃ ref ∈ refs, ref.address = old.address ∧ store[old.address]? = some old ∧
      AcceptedObject P ref sender old := by
  obtain ⟨ref, href, hfound, haccepted⟩ := h
  have hstored := hstore.getElem?_of_findInput hinputs hfound
  have haddress := hstore _ _ hstored
  exact ⟨ref, href, haddress.symm, haddress ▸ hstored, haccepted⟩

theorem ExecutionResult.Effects.changes {inputs : List (Object B)} {ε : Type}
    (h : result.Effects P tx refs inputs) (hstore : store.Keyed)
    (hinputs : ∀ obj ∈ inputs, ∃ a : Address, store[a]? = some obj)
    (happly : store.applyExecutionResult (ε := ε) result = .ok store') (a : Address) :
    tx.Changes P refs result a store[a]? store'[a]? := by
  have happlied := Store.applied_of_applyExecutionResult happly a
  generalize hbefore : store[a]? = before at happlied ⊢
  generalize store'[a]? = after at happlied ⊢
  cases happlied with
  | @destroyed _ obj hmem haddress =>
    obtain ⟨old, hspendable, hsucceeds⟩ := h.destroyed obj hmem
    obtain ⟨ref, href, hrefAddress, hstored, haccepted⟩ := hspendable.stored hstore hinputs
    have hold : old.address = a := hsucceeds.address.symm.trans haddress
    rw [hold, hbefore] at hstored
    rw [hstored]
    exact .destroyed href (hrefAddress.trans hold) haccepted hmem haddress
  | @changed _ obj hmem haddress =>
    obtain ⟨old, hspendable, hsucceeds⟩ := h.changed obj hmem
    obtain ⟨ref, href, hrefAddress, hstored, haccepted⟩ := hspendable.stored hstore hinputs
    have hold : old.address = a := hsucceeds.address.symm.trans haddress
    rw [hold, hbefore] at hstored
    rw [hstored]
    exact .changed href (hrefAddress.trans hold) haccepted hsucceeds hmem
  | @created obj hmem haddress =>
    obtain ⟨hversion, hdigest, n, hderived⟩ := h.created obj hmem
    exact .created hmem haddress hversion hdigest ⟨n, haddress ▸ hderived⟩
  | kept hunchanged hundestroyed => exact .kept hunchanged hundestroyed

/-- The stored objects that a transaction of its sender cannot touch: those of other owners,
modules, and those it does not refer to. -/
def Transaction.OutOfReach (tx : Transaction B) (obj : Object B) : Prop :=
  obj.owner.address? ≠ some tx.sender ∨ obj.type = .module ∨
    obj.address ∉ tx.objectRefs.map (·.address)

/-- A transaction leaves every object that is out of its reach as it is, and every object that
appears was created by it, at an address derived from its digest. -/
theorem transaction_frame {ext : ExternalContext} {ε : Type} (hstore : store.Keyed)
    (hexec : execute P tx (store.collectInputs P tx) ext = .ok result)
    (happly : store.applyExecutionResult (ε := ε) result = .ok store') :
    (∀ (a : Address) (obj : Object B), store[a]? = some obj → tx.OutOfReach obj →
      store'[a]? = some obj) ∧
    ∀ (a : Address) (obj : Object B), store[a]? = none → store'[a]? = some obj →
      obj ∈ result.createdObjects ∧ obj.address = a ∧
        obj.transaction = P.transactionDigest tx ∧
        ∃ n, a = P.derive (P.transactionDigest tx) 0 n := by
  have hchanges := (execute_paid hexec).effects.changes hstore (Store.collectInputs_stored P) happly
  have hreach : ∀ ref ∈ tx.objectRefs, ∀ old : Object B, AcceptedObject P ref tx.sender old →
      ref.address = old.address → ¬ tx.OutOfReach old := by
    rintro ref href old haccepted haddress (howner | hmodule | hnot)
    · exact howner haccepted.owner
    · exact haccepted.notModule hmodule
    · exact hnot (List.mem_map.mpr ⟨ref, href, haddress⟩)
  constructor
  · intro a obj hobj hout
    have hchange := hchanges a
    have haddress := hstore a obj hobj
    rw [hobj] at hchange
    generalize store'[a]? = after at hchange ⊢
    cases hchange with
    | kept => rfl
    | changed href hrefAddress haccepted =>
      exact absurd hout (hreach _ href obj haccepted (hrefAddress.trans haddress.symm))
    | destroyed href hrefAddress haccepted =>
      exact absurd hout (hreach _ (List.mem_cons_of_mem _ href) obj haccepted
        (hrefAddress.trans haddress.symm))
  · intro a obj habsent hobj
    have hchange := hchanges a
    rw [habsent, hobj] at hchange
    cases hchange with
    | created hmem haddress _ hdigest hderived => exact ⟨hmem, haddress, hdigest, hderived⟩

end Frame

/-! ## Raising a vault -/

namespace Sample

def vaultStore : Store Blob :=
  Store.withObjects vaultInputs

def raiseTransaction : Transaction Blob where
  sender := owner
  gasCoin := objectRef coinObject
  type := .meowCall (raiseCall vaultObject)

end Sample

open Sample in
/-- The call touches the vault and the coin, the module is still there. -/
theorem transaction_frame_raise :
    ∃ store' result,
      execute platform raiseTransaction (vaultStore.collectInputs platform raiseTransaction) .empty
        = .ok result ∧
      vaultStore.applyExecutionResult (ε := Empty) result = .ok store' ∧
      result.changedObjects.map (·.address) = [vaultObject.address, coinObject.address] ∧
      store'[vaultAddr]? = some (.freshModule vaultAddr 0 (.module vaultModule)) := by
  obtain ⟨result, hexec, hresult⟩ := Outcome.exists_of_isOkAnd
    (x := execute platform raiseTransaction (vaultStore.collectInputs platform raiseTransaction)
      .empty)
    (p := fun result : ExecutionResult Blob =>
      decide (result.changedObjects.map (·.address) = [vaultObject.address, coinObject.address]) &&
        (vaultStore.applyExecutionResult (ε := Empty) result).isOkAnd fun _ => true)
    (by decide +kernel)
  rw [Bool.and_eq_true] at hresult
  obtain ⟨store', happly, -⟩ := Outcome.exists_of_isOkAnd hresult.2
  refine ⟨store', result, hexec, happly, of_decide_eq_true hresult.1, ?_⟩
  exact (transaction_frame (Store.keyed_withObjects _) hexec happly).1 vaultAddr _ (by rfl)
    (.inr (.inl rfl))

end MeowChain
