import MeowChain.Chain.Modules
import MeowChain.Soundness.Termination
import MeowChain.Vm.Panics

/-!
# Transactions return

Only a call of the machine could fail to return, and code that the verifier has accepted does not
loop. Modules are stored once the verifier has accepted them.
-/

set_option autoImplicit false

namespace MeowChain

open Verifier

/-! ## Calls -/

theorem Vm.call_ends {τ σ : Type} {vm : Vm σ} {tok : ℕ → τ} (hc : vm.Checked)
    (hnatives : vm.NativesQualified) (fnName : String) (args : List (Value Unit)) (gas : GasMeter)
    (ctx : σ) : (vm.call tok fnName args gas ctx).outcome.Ends := by
  unfold Vm.call Vm.callFor
  cases hstart : vm.start tok fnName args gas ctx with
  | next s =>
    obtain ⟨final, hrun⟩ := run_ends_of_checked hc hstart
    dsimp only
    rw [hrun]
    rcases returned_run hnatives hrun with ⟨v, hv⟩ | ⟨e, he⟩
    · rw [hv]; exact trivial
    · rw [he]; exact trivial
  | done final =>
    unfold Vm.start at hstart
    dsimp only at hstart ⊢
    repeat' split at hstart
    all_goals cases hstart
    all_goals exact trivial

theorem chainNatives_qualified (crypto : NativeCrypto) :
    ∀ entry ∈ chainNatives crypto, ∀ (ctx : Context) (args : List (Value Unit)) (v : Value Unit)
      (ctx' : Context), entry.func ctx args = (.ret (some v), ctx') →
        checkStructQualified v = true := by
  intro entry hentry ctx args v ctx' h
  simp only [chainNatives, buildNatives, List.mem_cons, List.not_mem_nil, or_false] at hentry
  rcases hentry with rfl | rfl | rfl | rfl | rfl | rfl | rfl
  · unfold meowVmAbortEntry at h
    dsimp only at h
    split at h <;> cases h
  · cases h
    have hname : (parseModuleRef meowObjectIdTypeName).isSome = true := by decide +kernel
    simp [meowObjectId, checkStructQualified, checkFieldsQualified, hname]
  · unfold transferEntry at h
    dsimp only at h
    split at h
    · split at h <;> cases h
    · cases h
    · cases h
  · unfold destroyEntry at h
    dsimp only at h
    split at h
    · split at h <;> cases h
    · cases h
  · cases h
    rfl
  · cases h
    rfl
  · cases h
    rfl

section Accepted

variable {B S K : Type}

/-- The verifier has accepted every stored module. -/
def Store.ModulesAccepted (P : Platform B) (store : Store B) : Prop :=
  ∀ (a : Address) (m : Module), store.moduleAt P a = some m →
    ∃ deps, Verifier.verify m deps adapterNativeSigs compilerConfig = []

variable {P : Platform B} {store : Store B} {inputs : List (Object B)}

theorem Store.ModulesAccepted.checkModule (h : store.ModulesAccepted P)
    (hstored : ∀ obj ∈ inputs, ∃ a : Address, store[a]? = some obj) {obj : Object B} {m : Module}
    (hobj : obj ∈ inputs) (hmodule : obj.type = .module)
    (hdecode : P.decodeModule obj.content = .ok m) :
    ∃ deps cfg, Verifier.checkModule m deps cfg = [] := by
  obtain ⟨a, ha⟩ := hstored obj hobj
  obtain ⟨deps, hverify⟩ := h a m (Store.moduleAt_eq_some.mpr ⟨obj, ha, hmodule, hdecode⟩)
  exact ⟨deps, compilerConfig, (verify_eq_nil hverify).1⟩

theorem Store.ModulesAccepted.callVm (h : store.ModulesAccepted P)
    (hstored : ∀ obj ∈ inputs, ∃ a : Address, store[a]? = some obj) {sender : Address}
    {call : Call B} {prepared : PreparedCall B} (config : VmConfig)
    (hprepared : prepareCall P sender call inputs = .ok prepared) :
    (callVm P call.module prepared config).Checked := by
  have hfrom := prepareCall_eq_ok hprepared
  intro m hm
  rcases List.mem_cons.mp hm with rfl | hm
  · obtain ⟨obj, hobj, hmodule, -, hdecode⟩ := resolveModule_eq_ok hfrom.module
    exact h.checkModule hstored hobj hmodule hdecode
  · obtain ⟨⟨a, m⟩, hmem, rfl⟩ := List.mem_map.mp hm
    obtain ⟨obj, hobj, hmodule, -, hdecode⟩ := (searching_of_resolveDepModules hfrom.deps).found a m
      (Std.ExtTreeMap.mem_toList_iff_getElem?_eq_some.mp hmem)
    exact h.checkModule hstored hobj hmodule hdecode

/-! ## Effects -/

theorem bumpVersion_ends {ε : Type} (obj : Object B) :
    (bumpVersion (ε := ε) obj).Ends :=
  Outcome.expect_ends

theorem vmObjectValueToObject_ends (val : Value Unit) (owner : ObjectOwner)
    (txDigest : Digest) (version : ObjectVersion) :
    (vmObjectValueToObject P val owner txDigest version).Ends := by
  unfold vmObjectValueToObject
  repeat' split
  all_goals exact trivial

theorem collectObjectEffects_ends (ctx : Context) (objectArgs : List (Object B))
    (txDigest : Digest) : (collectObjectEffects P ctx objectArgs txDigest).Ends := by
  have hassert : ∀ (holds : Bool) (message : String),
      (Outcome.assert (ε := String) holds message).Ends := by
    intro holds message
    cases holds <;> exact trivial
  refine Outcome.bind_ends (Outcome.forEach_ends (fun obj => ?_) _) fun _ _ => ?_
  · exact Outcome.bind_ends (hassert _ _) fun _ _ =>
      Outcome.bind_ends (hassert _ _) fun _ _ => hassert _ _
  split
  · exact trivial
  refine Outcome.bind_ends (Outcome.forEach_ends (fun transfer => ?_) _) fun _ _ =>
    Outcome.bind_ends (Outcome.forEach_ends (fun id => ?_) _) fun _ _ => trivial
  · refine Outcome.bind_ends Outcome.expect_ends fun id _ =>
      Outcome.bind_ends ?_ fun version _ => ?_
    · split_ifs
      · exact trivial
      · exact Outcome.bind_ends Outcome.expect_ends fun _ _ => bumpVersion_ends _
    · split
      · exact trivial
      · exact trivial
      · exact trivial
      · rename_i hconvert
        exact absurd hconvert (vmObjectValueToObject_ends _ _ _ _).ne_diverge
  · exact Outcome.bind_ends Outcome.expect_ends fun _ _ =>
      Outcome.bind_ends (bumpVersion_ends _) fun _ _ => trivial

theorem Store.applyExecutionResult_ends {ε : Type} (store : Store B)
    (result : ExecutionResult B) : (store.applyExecutionResult (ε := ε) result).Ends := by
  refine Outcome.bind_ends (Outcome.foldl_ends (fun store obj => ?_) _ _) fun _ _ =>
    Outcome.bind_ends (Outcome.foldl_ends (fun store obj => ?_) _ _) fun _ _ =>
      Outcome.foldl_ends (fun store obj => ?_) _ _
  · unfold Store.applyCreated
    split_ifs <;> exact trivial
  · unfold Store.applyChanged
    split_ifs <;> exact trivial
  · unfold Store.applyDestroyed
    split_ifs <;> exact trivial

/-! ## Transactions -/

theorem Store.ModulesAccepted.executeType (h : store.ModulesAccepted P)
    (hstored : ∀ obj ∈ inputs, ∃ a : Address, store[a]? = some obj) (tx : Transaction B)
    (gas : GasMeter) (config : VmConfig) (ext : ExternalContext) :
    (executeType P tx inputs gas config ext).1.Ends := by
  unfold MeowChain.executeType
  dsimp only
  split
  · rename_i call htype
    unfold executeMeowCall
    split
    · exact trivial
    · rename_i prepared hprepared
      dsimp only
      have hcall : ∀ fnName args gas ctx, ((MeowChain.callVm P call.module prepared config).call
          (fun _ => ()) fnName args gas ctx).outcome.Ends :=
        Vm.call_ends (h.callVm hstored config hprepared) (chainNatives_qualified P.toNativeCrypto)
      unfold callResult
      split
      · split
        · exact trivial
        · exact trivial
        · exact trivial
        · rename_i heffects
          exact absurd heffects (collectObjectEffects_ends _ _ _).ne_diverge
      · exact trivial
      · exact trivial
      · exact trivial
      · rename_i hdiverge
        exact absurd hdiverge (hcall _ _ _ _).ne_diverge
  · exact trivial

theorem Store.ModulesAccepted.executeTransaction_ends (h : store.ModulesAccepted P)
    (ext : ExternalContext) (tx : Transaction B) :
    (store.executeTransaction P ext tx).Ends := by
  refine Outcome.bind_ends ?_ fun _ _ =>
    Outcome.bind_ends (Store.applyExecutionResult_ends _ _) fun _ _ => trivial
  refine Outcome.bind_ends ?_ fun coin _ => Outcome.bind_ends Outcome.expect_ends fun budget _ => ?_
  · unfold resolveGasCoinObject
    split
    · exact trivial
    · split_ifs <;> exact trivial
  · have hpays : ∀ result spent, (applyGasSpending P result coin spent
        (P.transactionDigest tx)).Ends := fun _ _ =>
      Outcome.bind_ends Outcome.expect_ends fun _ _ =>
        Outcome.bind_ends (bumpVersion_ends _) fun _ _ => trivial
    dsimp only
    generalize (GasMeter.new budget.toNat).charge baseTransactionGasCost = charged
    obtain ⟨gas, _ | e⟩ := charged
    · exact Outcome.bind_ends (h.executeType (Store.collectInputs_stored P) tx _ _ _) fun _ _ =>
        hpays _ _
    · exact hpays _ _

theorem Store.ModulesAccepted.executeReward {P : ChainPlatform B S K}
    (h : store.ModulesAccepted P.toPlatform) (tx : Transaction B) :
    (executeRewardTransaction P tx store).Ends := by
  refine Outcome.bind_ends (Outcome.forEach_ends (fun _ => Outcome.expect_ends) _)
    fun inputs hinputs => ?_
  unfold executeSystemTransaction
  split
  · refine h.executeType (fun obj hobj => ?_) tx _ _ _
    obtain ⟨a, -, ha⟩ := Outcome.mem_forEach hinputs hobj
    exact ⟨a, Outcome.expect_eq_ok.mp ha⟩
  · exact trivial

theorem Store.ModulesAccepted.mintReward {P : ChainPlatform B S K}
    (h : store.ModulesAccepted P.toPlatform) (work : MiningWork B S K) (header : BlockHeader)
    (total : UInt64) : (mintReward P work header total store).Ends := by
  unfold MeowChain.mintReward
  split_ifs
  · dsimp only
    split
    · exact Outcome.bind_ends (Store.applyExecutionResult_ends _ _) fun _ _ => trivial
    · exact trivial
    · exact trivial
    · rename_i hdiverge
      exact absurd hdiverge (h.executeReward _).ne_diverge
  · exact trivial

/-! ## Stored modules stay accepted -/

/-- A result that brings no other modules than accepted ones. -/
theorem Store.ModulesAccepted.applied (h : store.ModulesAccepted P) {ε : Type}
    {result : ExecutionResult B} {store' : Store B}
    (happly : store.applyExecutionResult (ε := ε) result = .ok store')
    (hcreated : ∀ obj ∈ result.createdObjects, obj.type = .module →
      ∃ inputs m, verifyModule P obj.content inputs = .ok m)
    (hchanged : ∀ obj ∈ result.changedObjects, obj.type ≠ .module) :
    store'.ModulesAccepted P := by
  intro a m hm
  obtain ⟨obj, hobj, hmodule, hdecode⟩ := Store.moduleAt_eq_some.mp hm
  have happlied := Store.applied_of_applyExecutionResult happly a
  rw [hobj] at happlied
  generalize hbefore : store[a]? = before at happlied
  cases happlied with
  | kept => exact h a m (Store.moduleAt_eq_some.mpr ⟨obj, hbefore, hmodule, hdecode⟩)
  | changed hmem => exact absurd hmodule (hchanged obj hmem)
  | created hmem =>
    obtain ⟨inputs, m', hverified⟩ := hcreated obj hmem hmodule
    obtain ⟨hdecode', deps, -, hverify, -⟩ := verifyModule_eq_ok hverified
    obtain rfl := Except.ok.inj (hdecode.symm.trans hdecode')
    exact ⟨deps, hverify⟩

theorem Store.ModulesAccepted.executeTransaction (h : store.ModulesAccepted P)
    {ext : ExternalContext} {tx : Transaction B} {store' : Store B} {result : ExecutionResult B}
    (hexec : store.executeTransaction P ext tx = .ok (store', result)) :
    store'.ModulesAccepted P := by
  obtain ⟨hexec, happly⟩ := Store.executeTransaction_eq_ok hexec
  obtain ⟨executed, gas, old, coin, hpays, -, hdoes, hresult⟩ := execute_eq_ok hexec
  obtain ⟨hcreated, hchanged⟩ := hdoes.module
  rw [hresult] at happly
  refine h.applied happly (fun obj hobj hmodule => ⟨_, (hcreated obj hobj hmodule).2⟩) ?_
  intro obj hobj
  rcases List.mem_append.mp hobj with hown | hpaid
  · exact hchanged obj hown
  · obtain rfl := List.mem_singleton.mp hpaid
    rw [hpays.coin]
    exact (resolveGasCoinObject_eq_ok hpays.resolved).2.notModule

theorem Executed.Step.modulesAccepted {P : ChainPlatform B S K} {e : Executed B} {store' : Store B}
    (h : store.ModulesAccepted P.toPlatform) (hstep : e.Step P store store') :
    store'.ModulesAccepted P.toPlatform := by
  obtain ⟨_, _, _, _, happly⟩ := hstep.effects
  refine h.applied happly (fun obj hobj hmodule => ?_) hstep.module.2
  obtain ⟨-, inputs, m, -, hverified⟩ := hstep.module.1 obj hobj hmodule
  exact ⟨inputs, m, hverified⟩

theorem GenesisStore.modulesAccepted (h : GenesisStore P store) : store.ModulesAccepted P := by
  intro a m hm
  rcases h.moduleAt_eq_some.mp hm with ⟨-, rfl⟩ | ⟨-, rfl⟩
  · exact ⟨∅, by decide +kernel⟩
  · exact ⟨(∅ : DepMap).insert meowObjectModuleAddress meowObjectModule, by decide +kernel⟩

/-- On a chain from a genesis store the verifier has accepted every module. -/
theorem Lineage.modulesAccepted [DecidableEq B] {P : ChainPlatform B S K} {initialStore : Store B}
    (hgenesis : GenesisStore P.toPlatform initialStore) {world : Set (Block B S)}
    {block : Block B S} {path : List (Block B S)}
    (h : Lineage P world initialStore block store path) : store.ModulesAccepted P.toPlatform :=
  h.trace.invariant (fun _ _ _ hs hstep => Executed.Step.modulesAccepted hs hstep)
    hgenesis.modulesAccepted

end Accepted

end MeowChain
