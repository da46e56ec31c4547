import MeowChain.Chain.Genesis
import MeowChain.Executor.Dependencies
import MeowChain.Vm.Loading

/-!
# Stored modules

Modules are stored by publishing and never touched again, and a module is only published on top of
modules that are there. So along every line of blocks the imports of stored modules stay resolved
and without cycles, and what a module was verified against is what its imports reach later on.
-/

set_option autoImplicit false

namespace MeowChain

open Relation

variable {B S K : Type}

/-! ## The module graph -/

section Graph

variable (P : Platform B) (store : Store B)

def Store.moduleAt (a : Address) : Option Module :=
  match store[a]? with
  | none => none
  | some obj => if obj.type = .module then (P.decodeModule obj.content).toOption else none

def Store.Imports (a b : Address) : Prop :=
  ∃ m, store.moduleAt P a = some m ∧ b ∈ m.imports

def Store.HasModule (a : Address) : Prop :=
  ∃ obj, store[a]? = some obj ∧ obj.type = .module

def Store.DepsOf (m : Module) (deps : DepMap) : Prop :=
  ∀ (b : Address) (d : Module), deps[b]? = some d ↔
    (∃ root ∈ m.imports, ReflTransGen (store.Imports P) root b) ∧ store.moduleAt P b = some d

def Store.ImportsResolved : Prop :=
  ∀ (a : Address) (obj : Object B), store[a]? = some obj → obj.type = .module →
    ∃ m, P.decodeModule obj.content = .ok m ∧ ∀ b ∈ m.imports, store.HasModule b

def Store.Verified (m : Module) : Prop :=
  ∃ deps, store.DepsOf P m deps ∧ Verifier.verify m deps adapterNativeSigs compilerConfig = [] ∧
    Adapter.verify m deps adapterNativeSigs = []

end Graph

section Lookup

variable {P : Platform B} {store : Store B} {a : Address} {m : Module}

theorem Store.moduleAt_eq_some :
    store.moduleAt P a = some m ↔
      ∃ obj, store[a]? = some obj ∧ obj.type = .module ∧ P.decodeModule obj.content = .ok m := by
  unfold Store.moduleAt
  cases hobj : store[a]? with
  | none => simp
  | some obj =>
    by_cases hmodule : obj.type = .module
    · cases hdecode : P.decodeModule obj.content <;> simp [hmodule, hdecode, Except.toOption]
    · simp [hmodule]

theorem Store.hasModule_of_moduleAt (h : store.moduleAt P a = some m) : store.HasModule a := by
  obtain ⟨obj, hobj, hmodule, -⟩ := Store.moduleAt_eq_some.mp h
  exact ⟨obj, hobj, hmodule⟩

theorem Store.ImportsResolved.target (h : store.ImportsResolved P) {a b : Address}
    (hab : store.Imports P a b) : store.HasModule b := by
  obtain ⟨m, hm, hb⟩ := hab
  obtain ⟨obj, hobj, hmodule, hdecode⟩ := Store.moduleAt_eq_some.mp hm
  obtain ⟨m', hdecode', himports⟩ := h a obj hobj hmodule
  obtain rfl := Except.ok.inj (hdecode.symm.trans hdecode')
  exact himports b hb

/-- What the search finds among stored inputs is what the imports reach in the store. -/
theorem Store.depsOf_of_resolveDepModules (hkeyed : store.Keyed) {inputs : List (Object B)}
    (hstored : ∀ obj ∈ inputs, ∃ a : Address, store[a]? = some obj) {deps : DepMap}
    (h : resolveDepModules P inputs m.imports = .ok deps) : store.DepsOf P m deps := by
  have hclosure := resolveDepModules_closure h
  have hfound : ∀ (b : Address) (d : Module), deps[b]? = some d → store.moduleAt P b = some d := by
    intro b d hd
    obtain ⟨obj, hobj, hmodule, rfl, hdecode⟩ := (searching_of_resolveDepModules h).found b d hd
    obtain ⟨a, ha⟩ := hstored obj hobj
    have haddress := hkeyed a obj ha
    exact Store.moduleAt_eq_some.mpr ⟨obj, haddress ▸ ha, hmodule, hdecode⟩
  intro b d
  constructor
  · intro hd
    refine ⟨?_, hfound b d hd⟩
    obtain ⟨root, hroot, hpath⟩ := hclosure.reached b (mem_of_getElem? hd)
    refine ⟨root, hroot, ReflTransGen.mono ?_ _ _ hpath⟩
    rintro x y ⟨n, hn, hy⟩
    exact ⟨n, hfound x n hn, hy⟩
  · rintro ⟨⟨root, hroot, hpath⟩, hd⟩
    have hclosed : ∀ x ∈ { x | x ∈ deps }, ∀ y, store.Imports P x y → y ∈ { x | x ∈ deps } := by
      rintro x hx y ⟨n, hn, hy⟩
      obtain ⟨n', hn'⟩ := exists_of_mem hx
      obtain rfl := Option.some.inj ((hfound x n' hn').symm.trans hn)
      exact hclosure.closed x n' hn' y hy
    obtain ⟨d', hd'⟩ := exists_of_mem
      (Graphs.closed_reflTransGen hclosed (hclosure.roots root hroot) hpath)
    rw [hd', ← hfound b d' hd', hd]

end Lookup

/-! ## Modules under transactions -/

section Publish

variable {P : Platform B} {tx : Transaction B} {inputs : List (Object B)} {ext : ExternalContext}
variable {result : ExecutionResult B} {obj : Object B}

theorem verifyModule_eq_ok {bytes : B} {m : Module} (h : verifyModule P bytes inputs = .ok m) :
    P.decodeModule bytes = .ok m ∧ ∃ deps, resolveDepModules P inputs m.imports = .ok deps ∧
      Verifier.verify m deps adapterNativeSigs compilerConfig = [] ∧
      Adapter.verify m deps adapterNativeSigs = [] := by
  unfold verifyModule at h
  dsimp only at h
  split_ifs at h with hsize
  cases hdecode : P.decodeModule bytes with
  | error e =>
    rw [hdecode] at h
    cases h
  | ok module =>
    cases hdeps : resolveDepModules P inputs module.imports with
    | error e =>
      rw [hdecode] at h
      simp [hdeps, Except.mapError, bind, Except.bind] at h
    | ok deps =>
      rw [hdecode] at h
      simp only [hdeps, Except.mapError, bind, Except.bind] at h
      split at h
      · cases h
      · rename_i hverify
        split at h
        · cases h
        · rename_i hadapter
          obtain rfl := Except.ok.inj h
          exact ⟨rfl, deps, hdeps, hverify, hadapter⟩

theorem vmObjectValueToObject_type {v : Value Unit} {owner : ObjectOwner} {txDigest : Digest}
    {version : ObjectVersion} (h : vmObjectValueToObject P v owner txDigest version = .ok obj) :
    obj.type ≠ .module := by
  obtain ⟨_, _, _, _, _, -, -, -, -, rfl⟩ := vmObjectValueToObject_eq_ok_iff.mp h
  exact ObjectType.noConfusion

theorem collectObjectEffects_type {ctx : Context} {objectArgs : List (Object B)}
    {txDigest : Digest} {effects : ObjectEffects B}
    (h : collectObjectEffects P ctx objectArgs txDigest = .ok effects)
    (hobj : obj ∈ effects.created ∨ obj ∈ effects.changed) : obj.type ≠ .module := by
  obtain ⟨_, -, h⟩ := Outcome.bind_eq_ok.mp h
  split at h
  · cases h
  · obtain ⟨transferred, htransferred, h⟩ := Outcome.bind_eq_ok.mp h
    obtain ⟨destroyed, -, h⟩ := Outcome.bind_eq_ok.mp h
    cases h
    obtain ⟨isFresh, hmem⟩ : ∃ isFresh, (isFresh, obj) ∈ transferred := by
      rcases hobj with hobj | hobj
      · obtain ⟨⟨isFresh, obj⟩, hmem, rfl⟩ := List.mem_map.mp hobj
        exact ⟨isFresh, (List.mem_filter.mp hmem).1⟩
      · obtain ⟨⟨isFresh, obj⟩, hmem, rfl⟩ := List.mem_map.mp hobj
        exact ⟨isFresh, (List.mem_filter.mp hmem).1⟩
    obtain ⟨transfer, -, htransfer⟩ := Outcome.mem_forEach htransferred hmem
    obtain ⟨id, -, h⟩ := Outcome.bind_eq_ok.mp htransfer
    obtain ⟨version, -, h⟩ := Outcome.bind_eq_ok.mp h
    split at h
    · rename_i other hconvert
      cases h
      exact vmObjectValueToObject_type hconvert
    · cases h
    · cases h
    · cases h

def Published (P : Platform B) (store : Store B) (obj : Object B) : Prop :=
  ∃ inputs m, (∀ input ∈ inputs, ∃ a : Address, store[a]? = some input) ∧
    verifyModule P obj.content inputs = .ok m

theorem Does.module {config : VmConfig} {gas : GasMeter}
    (h : Does P tx inputs ext config gas result) :
    (∀ obj ∈ result.createdObjects, obj.type = .module →
      tx.type = .meowModulePublish obj.content ∧
        ∃ m, verifyModule P obj.content inputs = .ok m) ∧
    ∀ obj ∈ result.changedObjects, obj.type ≠ .module := by
  cases h with
  | failed message => exact ⟨by simp [ExecutionResult.failure], by simp [ExecutionResult.failure]⟩
  | @published bytes module htype hverified =>
    refine ⟨fun obj hobj _ => ?_, by simp⟩
    obtain rfl := List.mem_singleton.mp hobj
    exact ⟨htype, module, hverified⟩
  | called htype hprepared hok heffects =>
    exact ⟨fun obj hobj hmodule => absurd hmodule (collectObjectEffects_type heffects (.inl hobj)),
      fun obj hobj => collectObjectEffects_type heffects (.inr hobj)⟩

end Publish

section Step

variable {P : ChainPlatform B S K} {e : Executed B} {store store' : Store B}

/-- Modules come from publishing on what is stored, and no change turns an object into one. -/
theorem Executed.Step.module (h : e.Step P store store') :
    (∀ obj ∈ e.result.createdObjects, obj.type = .module →
      e.transaction.type = .meowModulePublish obj.content ∧ Published P.toPlatform store obj) ∧
    ∀ obj ∈ e.result.changedObjects, obj.type ≠ .module := by
  cases e with
  | user context tx result =>
    obtain ⟨hexec, -⟩ := Store.executeTransaction_eq_ok h.2
    obtain ⟨executed, gas, old, coin, hpays, -, hdoes, hresult⟩ := execute_eq_ok hexec
    obtain ⟨hcreated, hchanged⟩ := hdoes.module
    rw [show (Executed.user context tx result).result = result from rfl, hresult]
    constructor
    · intro obj hobj hmodule
      obtain ⟨htype, m, hverified⟩ := hcreated obj hobj hmodule
      exact ⟨htype, _, m, Store.collectInputs_stored P.toPlatform, hverified⟩
    · intro obj hobj
      rcases List.mem_append.mp hobj with hown | hpaid
      · exact hchanged obj hown
      · obtain rfl := List.mem_singleton.mp hpaid
        rw [hpays.coin]
        exact (resolveGasCoinObject_eq_ok hpays.resolved).2.notModule
  | reward miningHash tx result =>
    obtain ⟨-, hexec, -⟩ := h
    obtain ⟨inputs, hinputs, hexec⟩ := Outcome.bind_eq_ok.mp hexec
    unfold executeSystemTransaction at hexec
    split at hexec
    · rename_i call htype
      obtain ⟨hcreated, hchanged⟩ := (does_of_executeType hexec).module
      refine ⟨fun obj hobj hmodule => ?_, hchanged⟩
      obtain ⟨hpublish, -⟩ := hcreated obj hobj hmodule
      rw [htype] at hpublish
      cases hpublish
    · cases hexec

theorem Executed.Step.module_kept (hstore : store.Keyed) (h : e.Step P store store') {a : Address}
    {obj : Object B} (hobj : store[a]? = some obj) (hmodule : obj.type = .module) :
    store'[a]? = some obj := by
  have hchanges := h.changes hstore a
  rw [hobj] at hchanges
  generalize store'[a]? = after at hchanges ⊢
  cases hchanges with
  | kept => rfl
  | changed _ _ haccepted => exact absurd hmodule haccepted.notModule
  | destroyed _ _ haccepted => exact absurd hmodule haccepted.notModule

theorem Executed.Step.module_origin (hstore : store.Keyed) (h : e.Step P store store') {a : Address}
    {obj : Object B} (hobj : store'[a]? = some obj) (hmodule : obj.type = .module) :
    store[a]? = some obj ∨ e.transaction.type = .meowModulePublish obj.content ∧
      Published P.toPlatform store obj := by
  have hchanges := h.changes hstore a
  rw [hobj] at hchanges
  generalize hbefore : store[a]? = before at hchanges ⊢
  cases hchanges with
  | kept => exact .inl rfl
  | created hmem => exact .inr (h.module.1 obj hmem hmodule)
  | changed _ _ _ _ hmem => exact absurd hmodule (h.module.2 obj hmem)

end Step

/-! ## The invariant -/

structure Store.GraphSound (P : Platform B) (store initialStore : Store B) : Prop where
  keyed : store.Keyed
  resolved : store.ImportsResolved P
  acyclic : ∀ a, ¬ TransGen (store.Imports P) a a
  verified : ∀ (a : Address) (m : Module), store.moduleAt P a = some m → initialStore[a]? = none →
    store.Verified P m

section Invariant

variable {P : ChainPlatform B S K} {e : Executed B} {initialStore store store' : Store B}

theorem GenesisStore.moduleAt_eq_some {P : Platform B} (h : GenesisStore P store) {a : Address}
    {m : Module} :
    store.moduleAt P a = some m ↔
      a = meowObjectModuleAddress ∧ m = meowObjectModule ∨
        a = meowCoinModuleAddress ∧ m = meowCoinModule := by
  obtain ⟨objectCode, coinCode, hobject, hcoin, hmodules⟩ := h.modules
  rw [Store.moduleAt_eq_some]
  constructor
  · rintro ⟨obj, hobj, hmodule, hdecode⟩
    obtain ⟨rfl, hmem⟩ := (hmodules a obj).mp ⟨hobj, hmodule⟩
    simp only [frameworkModuleObjects, List.mem_cons, List.not_mem_nil, or_false] at hmem
    rcases hmem with rfl | rfl
    · exact .inl ⟨rfl, Except.ok.inj (hdecode.symm.trans hobject)⟩
    · exact .inr ⟨rfl, Except.ok.inj (hdecode.symm.trans hcoin)⟩
  · rintro (⟨rfl, rfl⟩ | ⟨rfl, rfl⟩)
    · obtain ⟨hobj, hmodule⟩ := (hmodules _ (.freshModule meowObjectModuleAddress 0 objectCode)).mpr
        ⟨rfl, by simp [frameworkModuleObjects]⟩
      exact ⟨_, hobj, hmodule, hobject⟩
    · obtain ⟨hobj, hmodule⟩ := (hmodules _ (.freshModule meowCoinModuleAddress 0 coinCode)).mpr
        ⟨rfl, by simp [frameworkModuleObjects]⟩
      exact ⟨_, hobj, hmodule, hcoin⟩

theorem GenesisStore.imports_iff {P : Platform B} (h : GenesisStore P store) {a b : Address} :
    store.Imports P a b ↔ a = meowCoinModuleAddress ∧ b = meowObjectModuleAddress := by
  constructor
  · rintro ⟨m, hm, hb⟩
    rcases h.moduleAt_eq_some.mp hm with ⟨-, rfl⟩ | ⟨rfl, rfl⟩
    · cases hb
    · exact ⟨rfl, List.mem_singleton.mp hb⟩
  · rintro ⟨rfl, rfl⟩
    exact ⟨meowCoinModule, h.moduleAt_eq_some.mpr (.inr ⟨rfl, rfl⟩), List.mem_singleton_self _⟩

theorem GenesisStore.graphSound {P : Platform B} (h : GenesisStore P store) :
    store.GraphSound P store := by
  refine ⟨?_, ?_, ?_, ?_⟩
  · obtain ⟨_, _, _, _, _, -, -, -, -, rfl⟩ := h.built
    exact Store.keyed_withObjects _
  · intro a obj hobj hmodule
    obtain ⟨objectCode, coinCode, hobject, hcoin, hmodules⟩ := h.modules
    obtain ⟨rfl, hmem⟩ := (hmodules a obj).mp ⟨hobj, hmodule⟩
    simp only [frameworkModuleObjects, List.mem_cons, List.not_mem_nil, or_false] at hmem
    rcases hmem with rfl | rfl
    · exact ⟨_, hobject, fun b hb => by cases hb⟩
    · refine ⟨_, hcoin, fun b hb => ?_⟩
      obtain rfl := List.mem_singleton.mp hb
      exact Store.hasModule_of_moduleAt (h.moduleAt_eq_some.mpr (.inl ⟨rfl, rfl⟩))
  · intro a hcycle
    -- The first edge of a cycle starts at `meow_coin`, the last one ends at `meow_object`.
    obtain ⟨_, hfirst, -⟩ := TransGen.head'_iff.mp hcycle
    obtain ⟨_, -, hlast⟩ := TransGen.tail'_iff.mp hcycle
    have hcoinAddr := (h.imports_iff.mp hfirst).1
    rw [(h.imports_iff.mp hlast).2] at hcoinAddr
    exact absurd hcoinAddr (by decide)
  · intro a m hm hnone
    obtain ⟨obj, hobj, -⟩ := Store.moduleAt_eq_some.mp hm
    rw [hnone] at hobj
    cases hobj

/-- A published module is verified with what its imports reach, and these are stored. -/
theorem Published.verified {P : Platform B} (hkeyed : store.Keyed) {obj : Object B}
    (h : Published P store obj) :
    ∃ m, P.decodeModule obj.content = .ok m ∧ (∀ b ∈ m.imports, store.HasModule b) ∧
      store.Verified P m := by
  obtain ⟨inputs, m, hstored, hverified⟩ := h
  obtain ⟨hdecode, deps, hdeps, hverify, hadapter⟩ := verifyModule_eq_ok hverified
  have hexact := Store.depsOf_of_resolveDepModules hkeyed hstored hdeps
  refine ⟨m, hdecode, fun b hb => ?_, deps, hexact, hverify, hadapter⟩
  obtain ⟨d, hd⟩ := exists_of_mem ((resolveDepModules_closure hdeps).roots b hb)
  exact Store.hasModule_of_moduleAt ((hexact b d).mp hd).2

section Grow

variable (hsound : store.GraphSound P.toPlatform initialStore) (hstep : e.Step P store store')
include hsound hstep

theorem Executed.Step.moduleAt_eq {a : Address} (ha : store.HasModule a) :
    store'.moduleAt P.toPlatform a = store.moduleAt P.toPlatform a := by
  obtain ⟨obj, hobj, hmodule⟩ := ha
  unfold Store.moduleAt
  rw [hobj, hstep.module_kept hsound.keyed hobj hmodule]

theorem Executed.Step.hasModule {a : Address} (ha : store.HasModule a) : store'.HasModule a := by
  obtain ⟨obj, hobj, hmodule⟩ := ha
  exact ⟨obj, hstep.module_kept hsound.keyed hobj hmodule, hmodule⟩

theorem Executed.Step.resolved {a : Address} {obj : Object B} (hobj : store'[a]? = some obj)
    (hmodule : obj.type = .module) :
    ∃ m, P.decodeModule obj.content = .ok m ∧ ∀ b ∈ m.imports, store.HasModule b := by
  rcases hstep.module_origin hsound.keyed hobj hmodule with hold | ⟨-, hnew⟩
  · exact hsound.resolved a obj hold hmodule
  · obtain ⟨m, hdecode, himports, -⟩ := hnew.verified hsound.keyed
    exact ⟨m, hdecode, himports⟩

theorem Executed.Step.grows : Graphs.Grows { a | store.HasModule a }
    (store.Imports P.toPlatform) (store'.Imports P.toPlatform) where
  target := by
    rintro x y ⟨m, hm, hy⟩
    obtain ⟨obj, hobj, hmodule, hdecode⟩ := Store.moduleAt_eq_some.mp hm
    obtain ⟨m', hdecode', himports⟩ := hstep.resolved hsound hobj hmodule
    obtain rfl := Except.ok.inj (hdecode.symm.trans hdecode')
    exact himports y hy
  same := by
    intro x y hx
    unfold Store.Imports
    rw [hstep.moduleAt_eq hsound hx]

/-- What the imports of an old module, or of one that was just published, reach stays the same. -/
theorem Executed.Step.depsOf {m : Module} (himports : ∀ b ∈ m.imports, store.HasModule b)
    {deps : DepMap} (h : store.DepsOf P.toPlatform m deps) : store'.DepsOf P.toPlatform m deps := by
  intro b d
  rw [h b d]
  have hgrows := hstep.grows hsound
  have hreach : ∀ root ∈ m.imports, (ReflTransGen (store'.Imports P.toPlatform) root b ↔
      ReflTransGen (store.Imports P.toPlatform) root b) :=
    fun root hroot => hgrows.reflTransGen_iff hsound.resolved.target (himports root hroot)
  constructor
  · rintro ⟨⟨root, hroot, hpath⟩, hd⟩
    refine ⟨⟨root, hroot, (hreach root hroot).mpr hpath⟩, ?_⟩
    rw [hstep.moduleAt_eq hsound (Store.hasModule_of_moduleAt hd), hd]
  · rintro ⟨⟨root, hroot, hpath⟩, hd⟩
    have hpath := (hreach root hroot).mp hpath
    have hmodule : store.HasModule b :=
      Graphs.closed_reflTransGen (V := { a | store.HasModule a })
        (fun _ _ _ hedge => hsound.resolved.target hedge) (himports root hroot) hpath
    exact ⟨⟨root, hroot, hpath⟩, hstep.moduleAt_eq hsound hmodule ▸ hd⟩

theorem Executed.Step.verified {m : Module} (himports : ∀ b ∈ m.imports, store.HasModule b)
    (h : store.Verified P.toPlatform m) : store'.Verified P.toPlatform m := by
  obtain ⟨deps, hexact, hverify, hadapter⟩ := h
  exact ⟨deps, hstep.depsOf hsound himports hexact, hverify, hadapter⟩

theorem Executed.Step.graphSound : store'.GraphSound P.toPlatform initialStore where
  keyed := by
    obtain ⟨_, _, _, _, happly⟩ := hstep.effects
    exact hsound.keyed.applyExecutionResult happly
  resolved a obj hobj hmodule := by
    obtain ⟨m, hdecode, himports⟩ := hstep.resolved hsound hobj hmodule
    exact ⟨m, hdecode, fun b hb => hstep.hasModule hsound (himports b hb)⟩
  acyclic := (hstep.grows hsound).acyclic hsound.acyclic
  verified a m hm hnone := by
    obtain ⟨obj, hobj, hmodule, hdecode⟩ := Store.moduleAt_eq_some.mp hm
    rcases hstep.module_origin hsound.keyed hobj hmodule with hold | ⟨-, hnew⟩
    · obtain ⟨m', hdecode', himports⟩ := hsound.resolved a obj hold hmodule
      obtain rfl := Except.ok.inj (hdecode.symm.trans hdecode')
      exact hstep.verified hsound himports
        (hsound.verified a m (Store.moduleAt_eq_some.mpr ⟨obj, hold, hmodule, hdecode⟩) hnone)
    · obtain ⟨m', hdecode', himports, hverified⟩ := hnew.verified hsound.keyed
      obtain rfl := Except.ok.inj (hdecode.symm.trans hdecode')
      exact hstep.verified hsound himports hverified

end Grow

variable [DecidableEq B]

theorem Lineage.graphSound (hgenesis : GenesisStore P.toPlatform initialStore)
    {world : Set (Block B S)} {block : Block B S} {path : List (Block B S)}
    (h : Lineage P world initialStore block store path) :
    store.GraphSound P.toPlatform initialStore :=
  h.trace.invariant (I := fun store => store.GraphSound P.toPlatform initialStore)
    (fun _ _ _ hs hstep => Executed.Step.graphSound hs hstep) hgenesis.graphSound

/-- In every store that accepted blocks lead to from a genesis store: the imports of module objects
are module objects, there is no cycle of imports, and every module that was published passes both
verifiers with exactly the modules its imports reach. -/
theorem module_graph_sound (hgenesis : GenesisStore P.toPlatform initialStore)
    {world : Set (Block B S)} {block : Block B S} {path : List (Block B S)}
    (h : Lineage P world initialStore block store path) :
    store.ImportsResolved P.toPlatform ∧
      (∀ a, ¬ TransGen (store.Imports P.toPlatform) a a) ∧
      ∀ (a : Address) (m : Module), store.moduleAt P.toPlatform a = some m →
        initialStore[a]? = none → store.Verified P.toPlatform m := by
  have hsound := h.graphSound hgenesis
  exact ⟨hsound.resolved, hsound.acyclic, hsound.verified⟩

end Invariant

namespace Sample

/-- Byte strings of a chain with small modules that only import others. -/
inductive Shelf where
  | bytes (b : Bytes)
  | shelf (imports : List Address)
  deriving DecidableEq

def shelfModule (imports : List Address) : Module where
  name := "shelf"
  imports
  structs := []
  functions := [{
    name := "open"
    isPublic := true
    params := []
    returnType := none
    localCount := 0
    code := [.ret] }]

def Shelf.code : Shelf → List ℕ
  | .bytes b => [b.code]
  | .shelf imports => imports.map (·.toNat)

def Shelf.decode {α : Type} (f : Bytes → Except String α) : Shelf → Except String α
  | .bytes b => f b
  | .shelf _ => unexpected

def shelfTransactionCode (tx : Transaction Shelf) : List ℕ :=
  [tx.sender.toNat, tx.gasCoin.address.toNat, tx.gasCoin.version.toNat, tx.gasCoin.digest.toNat]
    ++ match tx.type with
      | .meowCall call => [call.module.toNat, call.function.name.length]
      | .meowModulePublish bytes => bytes.code

def shelfObjectCode (obj : Object Shelf) : List ℕ :=
  [obj.address.toNat, (obj.owner.address?.elim 0 (·.toNat + 1)), obj.transaction.toNat,
    obj.version.toNat] ++ obj.content.code

def shelfPlatform : ChainPlatform Shelf (Address × Digest) Address where
  derive d _ n := BitVec.ofNat 256 (d.toNat % 2 ^ 128 * 2 ^ 128 + 2 ^ 127 + n % 2 ^ 127)
  seed d _ := d
  random _ _ := 0
  bcs := bcsLayout
  length
    | .bytes b => chainPlatform.length b
    | .shelf imports => 64 + 32 * imports.length
  decodeModule
    | .bytes b => chainPlatform.decodeModule b
    | .shelf imports => .ok (shelfModule imports)
  decodeFields := Shelf.decode chainPlatform.decodeFields
  encodeFields fields := (chainPlatform.encodeFields fields).map .bytes
  decodeU64 := Shelf.decode chainPlatform.decodeU64
  encodeU64 n := .bytes (.u64 n)
  decodeBool _ := unexpected
  decodeAddress := Shelf.decode chainPlatform.decodeAddress
  encodeAddress a := .bytes (.address a)
  decodeStr _ := unexpected
  objectDigest obj := digestOf (shelfObjectCode obj)
  transactionDigest tx := digestOf (shelfTransactionCode tx)
  displayDigest _ := "digest"
  transactionSize tx := 32 * (shelfTransactionCode tx).length
  signer s := s.1
  verify s d := if s.2 = d then .ok () else .error "invalid signature"
  sign key d := (key, d)
  keyAddress key := key
  headerDigest h := digestOf (headerCode h)
  miningDigest h := digestOf [h.height.toNat, h.parentHash.toNat, h.transactionsRoot.toNat,
    h.timestamp.toNat, h.nonce.toNat]
  stateDigest objects := digestOf (objects.map fun obj => (digestOf (shelfObjectCode obj)).toNat)
  digestsDigest digests := digestOf (digests.map (·.toNat))

def shelfCoin : Object Shelf where
  address := shelfPlatform.derive
    (shelfPlatform.transactionDigest (mintTransaction shelfPlatform.toPlatform 0 (owner, 1000000)))
    0 0
  owner := .address owner
  transaction :=
    shelfPlatform.transactionDigest (mintTransaction shelfPlatform.toPlatform 0 (owner, 1000000))
  version := .one
  type := .object coinDecl
  content := .bytes (.balance 1000000)

def shelfObjects : List (Object Shelf) :=
  frameworkModuleObjects (.bytes .objectModule) (.bytes .coinModule) ++ [shelfCoin]

def shelfStore : Store Shelf := .withObjects shelfObjects

/-- Publishes that are paid with the coin, one after the other. -/
structure Shelves where
  store : Store Shelf
  published : List Address
  batch : List (SignedTransaction Shelf (Address × Digest))

def Shelves.publish (shelves : Shelves) (imports : List Address) : Transaction Shelf where
  sender := owner
  gasCoin := match shelves.store[shelfCoin.address]? with
    | some coin => ⟨coin.address, coin.version, shelfPlatform.objectDigest coin⟩
    | none => ⟨0, .zero, 0⟩
  type := .meowModulePublish (.shelf imports)

def Shelves.add (shelves : Shelves) (imports : List Address) : Shelves :=
  let tx := shelves.publish imports
  match shelves.store.executeTransaction shelfPlatform.toPlatform .empty tx with
  | .ok next => {
      store := next.1
      published := shelves.published ++
        [shelfPlatform.derive (shelfPlatform.transactionDigest tx) 0 0]
      batch := shelves.batch ++ [tx.sign shelfPlatform owner] }
  | _ => shelves

def noShelves : Shelves := ⟨shelfStore, [], []⟩

/-- `count` modules without imports, one that imports them, and one that imports that one. -/
def shelfRow (count : ℕ) : Shelves :=
  let leaves := (List.replicate count []).foldl Shelves.add noShelves
  let all := leaves.add leaves.published
  all.add (all.published.drop count)

def Shelves.work (parentHash : Digest) (parentStore : Store Shelf) (shelves : Shelves) :
    MiningWork Shelf (Address × Digest) Address where
  header := {
    height := 1
    parentHash
    transactionsRoot := computeTransactionsRoot shelfPlatform shelves.batch
    rewardRoot := none
    stateRoot := 0
    timestamp := 5
    nonce := 0 }
  batch := shelves.batch
  parentStore
  difficulty := 0
  minerKeypair := 77
  minerAddress := 77
  rewardAddress := 78

theorem shelfPlatform_lawful : shelfPlatform.Lawful where
  signer_sign _ _ := rfl
  verify_sign _ _ := if_pos rfl
  decodeU64_encodeU64 _ := rfl
  decodeAddress_encodeAddress _ := rfl
  transactionSize_reward_le _ _ _ _ := Nat.le_of_ble_eq_true rfl

def shelfValid (block : Block Shelf (Address × Digest)) : Bool :=
  ChainState.validSignatures shelfPlatform block &&
    okHolds (fun _ => true) (validateBlockStructure shelfPlatform 5 block 0)

theorem Shelves.lineage {parentHash : Digest} {parentStore store : Store Shelf} {shelves : Shelves}
    {block : Block Shelf (Address × Digest)} (hhash : parentHash = Block.hash shelfPlatform .genesis)
    (h : (shelves.work parentHash parentStore).grind shelfPlatform = .ok (some (block, store)))
    (hvalid : shelfValid block = true) :
    Lineage shelfPlatform Set.univ parentStore block store [block] := by
  unfold shelfValid at hvalid
  rw [Bool.and_eq_true] at hvalid
  obtain ⟨u, hstructured, -⟩ := okHolds_exists hvalid.2
  have hmines := MiningWork.mines_of_grind shelfPlatform_lawful rfl h
  exact .child .genesis {
    parentHash := hmines.parentHash.trans hhash
    height := hmines.height
    signatures := ChainState.validSignatures_iff.mp hvalid.1
    replayed := hmines.replayed }
    ((validateBlockStructure_eq_ok _).mp hstructured) (Set.mem_univ _)

theorem shelfStore_genesis : GenesisStore shelfPlatform.toPlatform shelfStore := by
  obtain ⟨objects, hbuild, hobjects⟩ := Outcome.exists_of_isOkAnd
    (x := buildGenesis shelfPlatform.toPlatform (fun n => BitVec.ofNat 256 n)
      (.bytes .objectModule) (.bytes .coinModule) [(owner, 1000000)])
    (p := fun objects : List (Object Shelf) => decide (objects = shelfObjects)) (by decide +kernel)
  obtain rfl := of_decide_eq_true hobjects
  refine ⟨_, .bytes .objectModule, .bytes .coinModule, _, _, rfl, rfl, hbuild, ?_, rfl⟩
  decide +kernel

end Sample

open Sample in
theorem module_graph_sound_shelves :
    ∃ (a : Address) (store : Store Shelf), shelfStore[a]? = none ∧
      (∃ m, store.moduleAt shelfPlatform.toPlatform a = some m ∧
        store.Verified shelfPlatform.toPlatform m) ∧
      store.ImportsResolved shelfPlatform.toPlatform ∧
      ∀ a, ¬ TransGen (store.Imports shelfPlatform.toPlatform) a a := by
  obtain ⟨mined, hgrind, h⟩ := Outcome.exists_of_isOkAnd
    (x := ((shelfRow 1).work (Block.hash shelfPlatform .genesis) shelfStore).grind shelfPlatform)
    (p := fun mined : Option (Block Shelf (Address × Digest) × Store Shelf) =>
      mined.any fun mined => shelfValid mined.1 && (shelfRow 1).published.any fun a =>
        decide (shelfStore[a]? = none) && (mined.2.moduleAt shelfPlatform.toPlatform a).isSome)
    (by decide +kernel)
  obtain ⟨⟨block, store⟩, rfl, hmined⟩ := (Option.any_eq_true _ _).mp h
  rw [Bool.and_eq_true, List.any_eq_true] at hmined
  obtain ⟨hvalid, a, -, hat⟩ := hmined
  rw [Bool.and_eq_true, decide_eq_true_iff, Option.isSome_iff_exists] at hat
  obtain ⟨hnone, m, hm⟩ := hat
  obtain ⟨hresolved, hacyclic, hverified⟩ :=
    module_graph_sound shelfStore_genesis (Shelves.lineage rfl hgrind hvalid)
  exact ⟨a, store, hnone, ⟨m, hm, hverified a m hm hnone⟩, hresolved, hacyclic⟩

/-! ## Loading -/

/-- Every stored module reaches no more modules than a call loads. -/
def Store.Loadable (P : Platform B) (store : Store B) : Prop :=
  ∀ (a : Address) (m : Module), store.moduleAt P a = some m →
    ∃ deps, store.DepsOf P m deps ∧ deps.size ≤ compilerConfig.maxDepModules

/-- The transaction does not publish a module that reaches more modules than a call loads. -/
def Executed.PublishesLoadable (P : Platform B) (e : Executed B) (store : Store B) : Prop :=
  ∀ bytes m deps, e.transaction.type = .meowModulePublish bytes → P.decodeModule bytes = .ok m →
    store.DepsOf P m deps → deps.size ≤ compilerConfig.maxDepModules

section Loadable

variable {store : Store B}

theorem Store.DepsOf.unique {P : Platform B} {m : Module} {deps deps' : DepMap}
    (h : store.DepsOf P m deps) (h' : store.DepsOf P m deps') : deps = deps' := by
  refine Std.ExtTreeMap.ext_getElem? fun {b} => Option.ext fun d => ?_
  rw [h b d, h' b d]

theorem GenesisStore.loadable {P : Platform B} (h : GenesisStore P store) :
    store.Loadable P := by
  intro a m hm
  rcases h.moduleAt_eq_some.mp hm with ⟨-, rfl⟩ | ⟨-, rfl⟩
  · refine ⟨∅, fun b d => ?_, Nat.zero_le _⟩
    simp [show meowObjectModule.imports = [] from rfl]
  · refine ⟨(∅ : DepMap).insert meowObjectModuleAddress meowObjectModule, fun b d => ?_, by decide⟩
    rw [getElem?_insert_eq_some]
    constructor
    · rintro (⟨rfl, rfl⟩ | ⟨-, hd⟩)
      · exact ⟨⟨meowObjectModuleAddress, List.mem_singleton_self _, .refl⟩,
          h.moduleAt_eq_some.mpr (.inl ⟨rfl, rfl⟩)⟩
      · simp at hd
    · rintro ⟨⟨root, hroot, hpath⟩, hd⟩
      obtain rfl : root = meowObjectModuleAddress := List.mem_singleton.mp hroot
      rcases ReflTransGen.cases_head hpath with rfl | ⟨c, hedge, -⟩
      · rcases h.moduleAt_eq_some.mp hd with ⟨-, rfl⟩ | ⟨heq, -⟩
        · exact .inl ⟨rfl, rfl⟩
        · exact absurd heq (by decide)
      · exact absurd (h.imports_iff.mp hedge).1 (by decide)

theorem Executed.Step.loadable {P : ChainPlatform B S K} {e : Executed B}
    {initialStore store' : Store B} (hsound : store.GraphSound P.toPlatform initialStore)
    (hstep : e.Step P store store') (hpublishes : e.PublishesLoadable P.toPlatform store)
    (h : store.Loadable P.toPlatform) : store'.Loadable P.toPlatform := by
  intro a m hm
  obtain ⟨obj, hobj, hmodule, hdecode⟩ := Store.moduleAt_eq_some.mp hm
  obtain ⟨m', hdecode', himports⟩ := hstep.resolved hsound hobj hmodule
  obtain rfl := Except.ok.inj (hdecode.symm.trans hdecode')
  obtain ⟨deps, hdeps, hsize⟩ : ∃ deps, store.DepsOf P.toPlatform m deps ∧
      deps.size ≤ compilerConfig.maxDepModules := by
    rcases hstep.module_origin hsound.keyed hobj hmodule with hold | ⟨htype, hnew⟩
    · exact h a m (Store.moduleAt_eq_some.mpr ⟨obj, hold, hmodule, hdecode⟩)
    · obtain ⟨m', hdecode', -, deps, hdeps, -⟩ := hnew.verified hsound.keyed
      obtain rfl := Except.ok.inj (hdecode.symm.trans hdecode')
      exact ⟨deps, hdeps, hpublishes _ m deps htype hdecode hdeps⟩
  exact ⟨deps, hstep.depsOf hsound himports hdeps, hsize⟩

section Reached

variable {P : Platform B} {a : Address} {obj : Object B} {m : Module} {deps : DepMap}
variable (hobj : store[a]? = some obj) (hdecode : P.decodeModule obj.content = .ok m)
variable (hdeps : store.DepsOf P m deps) (hsize : deps.size ≤ compilerConfig.maxDepModules)
include hobj hdecode hdeps hsize

theorem Store.call_loads (hkeyed : store.Keyed) {tx : Transaction B} {call : Call B}
    {prepared : PreparedCall B} (hcall : call.module = a)
    (hprepared : prepareCall P tx.sender call (store.collectInputs P tx) = .ok prepared)
    (ext : ExternalContext) (gas : GasMeter) (limit : ℕ) :
    (prepared.final P tx ext vmConfig gas call).outcome ≠ .err (.tooManyDepModules limit) := by
  have hfrom := prepareCall_eq_ok hprepared
  obtain ⟨obj', hmem, -, haddress, hdecode'⟩ := resolveModule_eq_ok hfrom.module
  obtain ⟨b, hb⟩ := Store.collectInputs_stored P obj' hmem
  obtain rfl : b = a := by rw [← hcall, ← haddress, hkeyed b obj' hb]
  obtain rfl := Option.some.inj (hobj.symm.trans hb)
  obtain rfl := Except.ok.inj (hdecode.symm.trans hdecode')
  obtain rfl := hdeps.unique (Store.depsOf_of_resolveDepModules hkeyed
    (Store.collectInputs_stored P) hfrom.deps)
  exact Vm.call_loads hsize limit

/-- Collecting what the module imports goes no deeper than a call loads modules. -/
theorem Store.collect_depth (hmodule : obj.type = .module) (hresolved : store.ImportsResolved P)
    {depth : ℕ} (hdepth : compilerConfig.maxDepModules < depth) :
    collectDepModules P (store[·]?) depth obj ⟨[], [a]⟩ =
      collectDepModules P (store[·]?) (compilerConfig.maxDepModules + 1) obj ⟨[], [a]⟩ := by
  have hmem : ∀ b, (∃ root ∈ m.imports, ReflTransGen (store.Imports P) root b) →
      store.HasModule b → b ∈ deps.keys := by
    intro b hreach hb
    obtain ⟨obj', hobj', hmodule'⟩ := hb
    obtain ⟨d, hd, -⟩ := hresolved b obj' hobj' hmodule'
    refine Std.ExtTreeMap.mem_keys.mpr (mem_of_getElem? (b := d) ?_)
    exact (hdeps b d).mpr ⟨hreach, Store.moduleAt_eq_some.mpr ⟨obj', hobj', hmodule', hd⟩⟩
  have hclosed : ∀ b ∈ deps.keys, ∀ obj', store[b]? = some obj' → ∀ m',
      P.decodeModule obj'.content = .ok m' → ∀ c ∈ m'.imports, c ∈ deps.keys := by
    intro b hb obj' hobj' m' hdecode' c hc
    obtain ⟨d, hd⟩ := exists_of_mem (Std.ExtTreeMap.mem_keys.mp hb)
    obtain ⟨⟨root, hroot, hpath⟩, hat⟩ := (hdeps b d).mp hd
    obtain ⟨obj'', hobj'', hmodule'', hdecode''⟩ := Store.moduleAt_eq_some.mp hat
    obtain rfl := Option.some.inj (hobj''.symm.trans hobj')
    obtain rfl := Except.ok.inj (hdecode''.symm.trans hdecode')
    have hedge : store.Imports P b c := ⟨d, hat, hc⟩
    exact hmem c ⟨root, hroot, hpath.tail hedge⟩ (hresolved.target hedge)
  refine collectDepModules_eq hclosed ?_ ?_ hdepth
  · intro m' hdecode' c hc
    obtain rfl := Except.ok.inj (hdecode.symm.trans hdecode')
    have hedge : store.Imports P a c :=
      ⟨m, Store.moduleAt_eq_some.mpr ⟨obj, hobj, hmodule, hdecode⟩, hc⟩
    exact hmem c ⟨c, hc, .refl⟩ (hresolved.target hedge)
  · have hle : unseen deps.keys [a] ≤ deps.keys.length := List.length_filter_le _ _
    rw [Std.ExtTreeMap.length_keys] at hle
    exact Nat.lt_succ_of_le (hle.trans hsize)

end Reached

variable [DecidableEq B] {P : ChainPlatform B S K} {initialStore : Store B}

/-- Along blocks whose transactions publish only modules with few enough dependencies, every stored
module has few enough: calls of it load them all, and collecting them does not go deeper. -/
theorem published_modules_loadable (hgenesis : GenesisStore P.toPlatform initialStore)
    {world : Set (Block B S)} {block : Block B S} {path : List (Block B S)}
    (h : Lineage P world initialStore block store path)
    (hpublishes : ∀ before e after store₁, executedAlong P path = before ++ e :: after →
      Trace (Executed.Step P) initialStore before store₁ →
        e.PublishesLoadable P.toPlatform store₁)
    {a : Address} {obj : Object B} (hobj : store[a]? = some obj) (hmodule : obj.type = .module) :
    ∃ m deps, P.decodeModule obj.content = .ok m ∧ store.DepsOf P.toPlatform m deps ∧
      deps.size ≤ compilerConfig.maxDepModules ∧
      (∀ tx call prepared ext gas limit, call.module = a →
        prepareCall P.toPlatform tx.sender call (store.collectInputs P.toPlatform tx) =
          .ok prepared →
        (prepared.final P.toPlatform tx ext vmConfig gas call).outcome ≠
          .err (.tooManyDepModules limit)) ∧
      ∀ depth, compilerConfig.maxDepModules < depth →
        collectDepModules P.toPlatform (store[·]?) depth obj ⟨[], [a]⟩ =
          collectDepModules P.toPlatform (store[·]?) (compilerConfig.maxDepModules + 1) obj
            ⟨[], [a]⟩ := by
  obtain ⟨hsound, hloadable⟩ := (h.trace.guard hpublishes).invariant
    (I := fun store => store.GraphSound P.toPlatform initialStore ∧ store.Loadable P.toPlatform)
    (fun _ _ _ hs hstep => ⟨Executed.Step.graphSound hs.1 hstep.2,
      Executed.Step.loadable hs.1 hstep.2 hstep.1 hs.2⟩)
    ⟨hgenesis.graphSound, hgenesis.loadable⟩
  obtain ⟨m, hdecode, -⟩ := hsound.resolved a obj hobj hmodule
  obtain ⟨deps, hdeps, hsize⟩ :=
    hloadable a m (Store.moduleAt_eq_some.mpr ⟨obj, hobj, hmodule, hdecode⟩)
  refine ⟨m, deps, hdecode, hdeps, hsize, ?_, ?_⟩
  · intro tx call prepared ext gas limit hcall hprepared
    exact Store.call_loads hobj hdecode hdeps hsize hsound.keyed hcall hprepared ext gas
      limit
  · intro depth hdepth
    exact Store.collect_depth hobj hdecode hdeps hsize hmodule hsound.resolved hdepth

end Loadable

namespace Sample

/-- A call of the only function of a module that was published. -/
def openShelf (a : Address) : Call Shelf where
  module := a
  function := ⟨"open", by decide⟩
  arguments := []

def openTx (a : Address) : Transaction Shelf where
  sender := owner
  gasCoin := ⟨0, .zero, 0⟩
  type := .meowCall (openShelf a)

def tooMany (final : Final Unit Context) : Bool :=
  match final.outcome with
  | .err e => e.isTooManyDepModules
  | _ => false

theorem exists_of_tooMany {final : Final Unit Context} (h : tooMany final = true) :
    ∃ limit, final.outcome = .err (.tooManyDepModules limit) := by
  unfold tooMany at h
  split at h
  · rename_i e he
    cases e <;> first | exact ⟨_, he⟩ | cases h
  · cases h

theorem shelf_loadable {deps : DepMap}
    (h : shelfStore.DepsOf shelfPlatform.toPlatform (shelfModule [meowObjectModuleAddress]) deps) :
    deps.size ≤ compilerConfig.maxDepModules := by
  obtain ⟨deps', hdeps', hsize⟩ := shelfStore_genesis.loadable meowCoinModuleAddress meowCoinModule
    (shelfStore_genesis.moduleAt_eq_some.mpr (.inr ⟨rfl, rfl⟩))
  obtain rfl : deps = deps' := Store.DepsOf.unique (m := meowCoinModule) h hdeps'
  exact hsize

def onlyPublishes (block : Block Shelf (Address × Digest)) : Bool :=
  decide (block.transactions.map (·.transaction.type) =
      [.meowModulePublish (.shelf [meowObjectModuleAddress])]) &&
    block.rewardTransaction.all fun signed => match signed.transaction.type with
      | .meowCall _ => true
      | .meowModulePublish _ => false

theorem onlyPublishes_loadable {block : Block Shelf (Address × Digest)}
    (h : onlyPublishes block = true) {before after : List (Executed Shelf)} {e : Executed Shelf}
    {store : Store Shelf} (hsplit : executedAlong shelfPlatform [block] = before ++ e :: after)
    (htrace : Trace (Executed.Step shelfPlatform) shelfStore before store) :
    e.PublishesLoadable shelfPlatform.toPlatform store := by
  intro bytes m deps htype hdecode hdeps
  unfold onlyPublishes at h
  rw [Bool.and_eq_true, decide_eq_true_iff] at h
  obtain ⟨signed, htransactions, hsigned⟩ := List.map_eq_singleton_iff.mp h.1
  have hreward : ∀ e' ∈ (block.rewardTransaction.toList.zip
      block.rewardTransactionResult.toList).map (fun entry =>
        Executed.reward (block.header.miningHash shelfPlatform) entry.1.transaction entry.2),
      e' ≠ e := by
    rintro e' he' rfl
    obtain ⟨⟨reward, result⟩, hmem, rfl⟩ := List.mem_map.mp he'
    have hsome := Option.mem_toList.mp (List.of_mem_zip hmem).1
    have hcall := (Option.all_eq_true _ _).mp h.2 reward hsome
    rw [show reward.transaction.type = .meowModulePublish bytes from htype] at hcall
    cases hcall
  rw [show executedAlong shelfPlatform [block] = block.executed shelfPlatform by
    simp [executedAlong], Block.executed, htransactions] at hsplit
  cases hresults : block.results with
  | nil =>
    rw [hresults, List.zip_nil_right, List.map_nil, List.nil_append] at hsplit
    exact absurd rfl (hreward e (hsplit ▸ by simp))
  | cons result results =>
    rw [hresults, List.zip_cons_cons, List.zip_nil_left, List.map_singleton,
      List.singleton_append] at hsplit
    cases before with
    | nil =>
      obtain ⟨rfl, -⟩ := List.cons.inj hsplit
      cases htrace
      have hbytes : bytes = .shelf [meowObjectModuleAddress] :=
        (TransactionType.meowModulePublish.inj (hsigned.symm.trans htype)).symm
      subst hbytes
      obtain rfl := Except.ok.inj hdecode
      exact shelf_loadable hdeps
    | cons first before =>
      obtain ⟨-, hrest⟩ := List.cons.inj hsplit
      exact absurd rfl (hreward e (hrest ▸ by simp))

end Sample

open Sample in
theorem published_modules_loadable_shelf :
    ∃ (a : Address) (store : Store Shelf), shelfStore[a]? = none ∧
      ∃ m deps, store.moduleAt shelfPlatform.toPlatform a = some m ∧
        store.DepsOf shelfPlatform.toPlatform m deps ∧
        deps.size ≤ compilerConfig.maxDepModules := by
  obtain ⟨mined, hgrind, h⟩ := Outcome.exists_of_isOkAnd
    (x := ((noShelves.add [meowObjectModuleAddress]).work (Block.hash shelfPlatform .genesis)
      shelfStore).grind shelfPlatform)
    (p := fun mined : Option (Block Shelf (Address × Digest) × Store Shelf) =>
      mined.any fun mined => (shelfValid mined.1 && onlyPublishes mined.1) &&
        (noShelves.add [meowObjectModuleAddress]).published.any fun a =>
          decide (shelfStore[a]? = none) && (mined.2.moduleAt shelfPlatform.toPlatform a).isSome)
    (by decide +kernel)
  obtain ⟨⟨block, store⟩, rfl, hmined⟩ := (Option.any_eq_true _ _).mp h
  rw [Bool.and_eq_true, Bool.and_eq_true, List.any_eq_true] at hmined
  obtain ⟨⟨hvalid, honly⟩, a, -, hat⟩ := hmined
  rw [Bool.and_eq_true, decide_eq_true_iff, Option.isSome_iff_exists] at hat
  obtain ⟨hnone, m, hm⟩ := hat
  obtain ⟨obj, hobj, hmodule, hdecode⟩ := Store.moduleAt_eq_some.mp hm
  obtain ⟨m', deps, hdecode', hdeps, hsize, -⟩ := published_modules_loadable shelfStore_genesis
    (Shelves.lineage rfl hgrind hvalid)
    (fun _ _ _ _ hsplit htrace => onlyPublishes_loadable honly hsplit htrace) hobj hmodule
  obtain rfl := Except.ok.inj (hdecode.symm.trans hdecode')
  exact ⟨a, store, hnone, m, deps, hm, hdeps, hsize⟩

open Sample in
/-- The last of 66 modules in a row reaches all 65 others: none of its functions can be called. -/
theorem published_modules_loadable_fails :
    GenesisStore shelfPlatform.toPlatform shelfStore ∧
    ∃ (block : Block Shelf (Address × Digest)) (store : Store Shelf) (a : Address)
      (m : Module) (deps : DepMap),
      Lineage shelfPlatform Set.univ shelfStore block store [block] ∧
      store.moduleAt shelfPlatform.toPlatform a = some m ∧
      store.DepsOf shelfPlatform.toPlatform m deps ∧ compilerConfig.maxDepModules < deps.size ∧
      ∃ prepared : PreparedCall Shelf,
        prepareCall shelfPlatform.toPlatform (openTx a).sender (openShelf a)
          (store.collectInputs shelfPlatform.toPlatform (openTx a)) = .ok prepared ∧
        ∃ limit, (prepared.final shelfPlatform.toPlatform (openTx a) .empty vmConfig .unlimited
          (openShelf a)).outcome = .err (.tooManyDepModules limit) := by
  refine ⟨shelfStore_genesis, ?_⟩
  obtain ⟨mined, hgrind, h⟩ := Outcome.exists_of_isOkAnd
    (x := ((shelfRow 64).work (Block.hash shelfPlatform .genesis) shelfStore).grind shelfPlatform)
    (p := fun mined : Option (Block Shelf (Address × Digest) × Store Shelf) =>
      mined.any fun mined => shelfValid mined.1 && (shelfRow 64).published.any fun a =>
        okHolds (fun prepared : PreparedCall Shelf =>
          decide (compilerConfig.maxDepModules < prepared.deps.size) &&
            tooMany (prepared.final shelfPlatform.toPlatform (openTx a) .empty vmConfig .unlimited
              (openShelf a)))
        (prepareCall shelfPlatform.toPlatform (openTx a).sender (openShelf a)
          (mined.2.collectInputs shelfPlatform.toPlatform (openTx a))))
    (by decide +kernel)
  obtain ⟨⟨block, store⟩, rfl, hmined⟩ := (Option.any_eq_true _ _).mp h
  rw [Bool.and_eq_true, List.any_eq_true] at hmined
  obtain ⟨hvalid, a, -, hcall⟩ := hmined
  obtain ⟨prepared, hprepared, hmany⟩ := okHolds_exists hcall
  rw [Bool.and_eq_true, decide_eq_true_iff] at hmany
  have hline := Shelves.lineage rfl hgrind hvalid
  have hkeyed := (hline.graphSound shelfStore_genesis).keyed
  have hfrom := prepareCall_eq_ok hprepared
  obtain ⟨obj, hmem, hmodule, haddress, hdecode⟩ := resolveModule_eq_ok hfrom.module
  obtain ⟨b, hb⟩ := Store.collectInputs_stored shelfPlatform.toPlatform obj hmem
  obtain rfl : b = a := (hkeyed b obj hb).symm.trans haddress
  exact ⟨block, store, b, prepared.module, prepared.deps, hline,
    Store.moduleAt_eq_some.mpr ⟨obj, hb, hmodule, hdecode⟩,
    Store.depsOf_of_resolveDepModules hkeyed (Store.collectInputs_stored shelfPlatform.toPlatform)
      hfrom.deps, hmany.1, prepared, hprepared, exists_of_tooMany hmany.2⟩

end MeowChain
