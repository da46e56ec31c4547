import MeowChain.Chain.Ledger

/-!
# The genesis store

The framework modules, and a coin for each allocation, minted by a transaction of its own.
-/

set_option autoImplicit false

namespace MeowChain

variable {B : Type}

/-- `MeowCoinMintFailed` has a text; here it comes with what the text tells. -/
inductive GenesisError where
  | executorError (e : ExecutorError)
  | mintFailed (message : String)
  | createdObjects (amount : ℕ)
  | notMeowCoin (type : ObjectType)

def meowSystemAddress : Address := 0

section Build

variable (P : Platform B)

theorem meowCoinMintFunctionName_valid :
    isValidIdentifier meowCoinMintFunctionName compilerConfig = true := by decide

/-- The gas coin is a placeholder that tells the allocations apart. -/
def mintTransaction (salt : Digest) (allocation : Address × UInt64) : Transaction B where
  sender := meowSystemAddress
  gasCoin := ⟨0, .zero, salt⟩
  type := .meowCall {
    module := meowCoinModuleAddress
    function := ⟨meowCoinMintFunctionName, meowCoinMintFunctionName_valid⟩
    arguments := [.raw (P.encodeU64 allocation.2), .raw (P.encodeAddress allocation.1)] }

def mintMeowCoin (frameworkModules : List (Object B)) (salt : Digest)
    (allocation : Address × UInt64) : Outcome GenesisError (Object B) :=
  ((executeGenesisTransaction P (mintTransaction P salt allocation) frameworkModules).mapErr
    .executorError).bind fun result =>
  match result.status, result.createdObjects with
  | .failure message, _ => .err (.mintFailed message)
  | .success, [coin] => if isMeowCoinObject coin then .ok coin else .err (.notMeowCoin coin.type)
  | .success, created => .err (.createdObjects created.length)

def frameworkModuleObjects (objectCode coinCode : B) : List (Object B) := [
  .freshModule meowObjectModuleAddress 0 objectCode,
  .freshModule meowCoinModuleAddress 0 coinCode]

/-- `Genesis::build`; `salt` is the digest of an index. -/
def buildGenesis (salt : ℕ → Digest) (objectCode coinCode : B)
    (allocations : List (Address × UInt64)) : Outcome GenesisError (List (Object B)) :=
  let frameworkModules := frameworkModuleObjects objectCode coinCode
  (Outcome.forEach (fun entry => mintMeowCoin P frameworkModules (salt entry.2) entry.1)
    allocations.zipIdx).map (frameworkModules ++ ·)

end Build

structure GenesisStore (P : Platform B) (store : Store B) : Prop where
  built : ∃ salt objectCode coinCode allocations objects,
    P.decodeModule objectCode = .ok meowObjectModule ∧
    P.decodeModule coinCode = .ok meowCoinModule ∧
    buildGenesis P salt objectCode coinCode allocations = .ok objects ∧
    (∀ obj ∈ objects, obj.type ≠ .module → obj.address ≠ meowObjectModuleAddress ∧
      obj.address ≠ meowCoinModuleAddress) ∧
    store = Store.withObjects objects

section Genesis

variable {P : Platform B} {store : Store B}

theorem mintMeowCoin_eq_ok {frameworkModules : List (Object B)} {salt : Digest}
    {allocation : Address × UInt64} {coin : Object B}
    (h : mintMeowCoin P frameworkModules salt allocation = .ok coin) :
    isMeowCoinObject coin = true := by
  obtain ⟨result, -, h⟩ := Outcome.bind_eq_ok.mp h
  split at h
  · cases h
  · split_ifs at h with hcoin
    cases h
    exact hcoin
  · cases h

theorem not_module_of_isMeowCoinObject {obj : Object B} (h : isMeowCoinObject obj = true) :
    obj.type ≠ .module := by
  intro hmodule
  unfold isMeowCoinObject at h
  rw [hmodule] at h
  cases h

theorem buildGenesis_eq_ok {salt : ℕ → Digest} {objectCode coinCode : B}
    {allocations : List (Address × UInt64)} {objects : List (Object B)}
    (h : buildGenesis P salt objectCode coinCode allocations = .ok objects) :
    ∃ coins, objects = frameworkModuleObjects objectCode coinCode ++ coins ∧
      ∀ coin ∈ coins, coin.type ≠ .module := by
  obtain ⟨coins, hcoins, rfl⟩ := Outcome.map_eq_ok.mp h
  refine ⟨coins, rfl, fun coin hcoin => ?_⟩
  obtain ⟨entry, -, hentry⟩ := Outcome.mem_forEach hcoins hcoin
  exact not_module_of_isMeowCoinObject (mintMeowCoin_eq_ok hentry)

theorem GenesisStore.modules (h : GenesisStore P store) :
    ∃ objectCode coinCode, P.decodeModule objectCode = .ok meowObjectModule ∧
      P.decodeModule coinCode = .ok meowCoinModule ∧
      ∀ (a : Address) (obj : Object B), store[a]? = some obj ∧ obj.type = .module ↔
        a = obj.address ∧ obj ∈ frameworkModuleObjects objectCode coinCode := by
  obtain ⟨salt, objectCode, coinCode, allocations, objects, hobject, hcoin, hbuild, hapart, rfl⟩ :=
    h.built
  obtain ⟨coins, rfl, hcoins⟩ := buildGenesis_eq_ok hbuild
  refine ⟨objectCode, coinCode, hobject, hcoin, fun a obj => ?_⟩
  constructor
  · rintro ⟨hobj, hmodule⟩
    refine ⟨(Store.keyed_withObjects _ a obj hobj).symm, ?_⟩
    rcases List.mem_append.mp (Store.mem_of_withObjects hobj) with hmem | hmem
    · exact hmem
    · exact absurd hmodule (hcoins obj hmem)
  · rintro ⟨rfl, hmem⟩
    have hmodule : obj.type = .module := by
      simp only [frameworkModuleObjects, List.mem_cons, List.not_mem_nil, or_false] at hmem
      rcases hmem with rfl | rfl <;> rfl
    refine ⟨Store.withObjects_getElem? (List.mem_append_left _ hmem) ?_, hmodule⟩
    intro other hother haddress
    rcases List.mem_append.mp hother with hframework | hcoinMem
    · simp only [frameworkModuleObjects, List.mem_cons, List.not_mem_nil, or_false]
        at hmem hframework
      rcases hmem with rfl | rfl <;> rcases hframework with rfl | rfl
      · rfl
      · exact absurd haddress (show meowCoinModuleAddress ≠ meowObjectModuleAddress by decide)
      · exact absurd haddress (show meowObjectModuleAddress ≠ meowCoinModuleAddress by decide)
      · rfl
    · obtain ⟨hne, hne'⟩ := hapart other hother (hcoins other hcoinMem)
      simp only [frameworkModuleObjects, List.mem_cons, List.not_mem_nil, or_false] at hmem
      rcases hmem with rfl | rfl
      · exact absurd haddress hne
      · exact absurd haddress hne'

end Genesis

end MeowChain
