import MeowChain.Chain.Genesis
import MeowChain.Executor.Coin

/-!
# Minting at genesis

Every allocation is minted by a privileged call of `mint`, whose run is known. The ids of the coins
are derived from the digests of the calls, and the calls differ at least in their salt.
-/

set_option autoImplicit false

namespace MeowChain

open MeowCoin

variable {B : Type} {P : Platform B}

/-! ## One coin -/

/-- The code of the framework, and that BCS reads back what genesis writes. -/
structure GenesisCodec (P : Platform B) (objectCode coinCode : B) : Prop where
  object : P.decodeModule objectCode = .ok meowObjectModule
  coin : P.decodeModule coinCode = .ok meowCoinModule
  u64 (n : UInt64) : P.decodeU64 (P.encodeU64 n) = .ok n
  address (a : Address) : P.decodeAddress (P.encodeAddress a) = .ok a
  balance (n : UInt64) : ∃ content, P.encodeFields [(balanceFieldName, .u64 n)] = some content ∧
    P.decodeFields content = .ok [(balanceFieldName, .u64 n)]

/-- The coin is worth the amount and belongs to the address of an allocation. -/
structure MintedFor (P : Platform B) (allocation : Address × UInt64) (coin : Object B) : Prop where
  isCoin : isMeowCoinObject coin = true
  owner : coin.owner = .address allocation.1
  balance : balanceFromObject P coin = some allocation.2
  version : coin.version = .one

theorem callVm_coin (deps : DepMap) (func : Function) (args : List (Value Unit))
    (objectArgs : List (Object B)) (config : VmConfig) :
    callVm P meowCoinModuleAddress ⟨meowCoinModule, deps, func, args, objectArgs⟩ config =
      coinVm P.toNativeCrypto deps config :=
  rfl

theorem call_mint (crypto : NativeCrypto) (ctx : Context) (owner : Address) (amount : UInt64) :
    (coinVm crypto objectDeps vmConfigPrivileged).call (fun _ => ()) meowCoinMintFunctionName
        [.u64 amount, .address owner] .unlimited ctx =
      ⟨.ok none, GasMeter.unlimited.plus 91,
        (ctx.nextFreshId crypto).2.transfer
          (Coin.value ⟨(ctx.nextFreshId crypto).1, amount⟩) owner⟩ := by
  have hdeps : objectDeps.size ≤ vmConfigPrivileged.maxDepModules := by decide +kernel
  have hdepth : 0 < vmConfigPrivileged.maxCallDepth := by decide
  have hgas : GasMeter.unlimited.Covers 91 := ⟨le_rfl, by decide⟩
  have hcallable : (coinVm crypto objectDeps vmConfigPrivileged).Callable meowCoinMintFunctionName
      mint [.u64 amount, .address owner] :=
    ⟨hdeps, rfl, rfl, .inr rfl, rfl, Nat.le_of_ble_eq_true rfl, hdepth⟩
  exact hcallable.call (mint_returns crypto objectDeps vmConfigPrivileged ctx amount owner).finishes
    (Nat.le_of_ble_eq_true rfl) hgas

def meowCoinDecl : ObjectDeclRef where
  module := meowCoinModuleAddress
  name := ⟨meowCoinObjectName, by decide⟩

/-- The object that a transferred coin becomes. -/
theorem vmObjectValueToObject_coin (coin : Coin) (owner : ObjectOwner) (txDigest : Digest)
    (version : ObjectVersion) {content : B}
    (hcontent : P.encodeFields [(balanceFieldName, .u64 coin.balance)] = some content) :
    vmObjectValueToObject P coin.value owner txDigest version =
      .ok ⟨coin.id, owner, txDigest, version, .object meowCoinDecl, content⟩ := by
  refine vmObjectValueToObject_eq_ok_iff.mpr
    ⟨_, _, meowCoinDecl, coin.id, content, rfl, ?_, objectAddress_coin _ coin, hcontent, rfl⟩
  exact parseModuleRef_qualify _ _

theorem collectObjectEffects_mint {ctx : Context} (coin : Coin) {owner : Address}
    (hfresh : ctx.freshIds = [coin.id]) (htransfers : ctx.transfers = [(coin.value, owner)])
    (hdestroyed : ctx.destroyed = []) (txDigest : Digest) {content : B}
    (hcontent : P.encodeFields [(balanceFieldName, .u64 coin.balance)] = some content) :
    collectObjectEffects P ctx [] txDigest =
      .ok ⟨[⟨coin.id, .address owner, txDigest, .one, .object meowCoinDecl, content⟩], [], []⟩ := by
  have hconsumed : checkConsumed P ctx [] = none := by
    simp [checkConsumed, hfresh, htransfers, objectAddress_coin]
  have htransferred : transferredObject P ctx [] txDigest (coin.value, owner) =
      .ok (true, ⟨coin.id, .address owner, txDigest, .one, .object meowCoinDecl, content⟩) := by
    simp [transferredObject, Outcome.expect, Outcome.bind, objectAddress_coin, hfresh,
      vmObjectValueToObject_coin coin _ _ _ hcontent]
  unfold collectObjectEffects
  simp only [Outcome.forEach, Outcome.bind, hconsumed, htransfers, htransferred, hdestroyed,
    List.filter_nil]
  rfl

section Mint

variable {objectCode coinCode : B} (hcodec : GenesisCodec P objectCode coinCode)
include hcodec

theorem resolveModule_framework :
    resolveModule P (frameworkModuleObjects objectCode coinCode) meowCoinModuleAddress =
      .ok meowCoinModule := by
  have hfind : (frameworkModuleObjects objectCode coinCode).find?
      (fun o => decide (o.type = .module) && o.address == meowCoinModuleAddress) =
      some (.freshModule meowCoinModuleAddress 0 coinCode) := rfl
  unfold resolveModule
  rw [hfind]
  show (P.decodeModule coinCode).mapError _ = _
  rw [hcodec.coin]
  rfl

theorem resolveDepModules_framework :
    resolveDepModules P (frameworkModuleObjects objectCode coinCode) meowCoinModule.imports =
      .ok objectDeps := by
  have hindex : moduleIndex (frameworkModuleObjects objectCode coinCode) meowObjectModuleAddress =
      some (.freshModule meowObjectModuleAddress 0 objectCode) := rfl
  have hcount : ((frameworkModuleObjects objectCode coinCode).map (importCount P)).sum = 1 := by
    simp [frameworkModuleObjects, importCount, Object.freshModule, hcodec.object, hcodec.coin,
      meowObjectModule, meowCoinModule]
  unfold resolveDepModules
  rw [hcount]
  show resolveDepLoop P _ 3 [meowObjectModuleAddress] ∅ = _
  have hdecode : P.decodeModule (Object.freshModule meowObjectModuleAddress 0 objectCode).content =
      .ok meowObjectModule := hcodec.object
  simp only [resolveDepLoop, Std.ExtTreeMap.contains_empty, hindex, hdecode]
  rfl

variable (salt : Digest) (owner : Address) (amount : UInt64)

theorem prepareCall_mint :
    prepareCall P meowSystemAddress
      { module := meowCoinModuleAddress
        function := ⟨meowCoinMintFunctionName, meowCoinMintFunctionName_valid⟩
        arguments := [.raw (P.encodeU64 amount), .raw (P.encodeAddress owner)] }
      (frameworkModuleObjects objectCode coinCode) =
      .ok {
        module := meowCoinModule
        deps := objectDeps
        func := mint
        args := [.u64 amount, .address owner]
        objectArgs := [] } := by
  have hargs : resolveArgs P ⟨meowCoinModuleAddress,
      ⟨meowCoinMintFunctionName, meowCoinMintFunctionName_valid⟩,
      [.raw (P.encodeU64 amount), .raw (P.encodeAddress owner)]⟩ mint meowSystemAddress
      (frameworkModuleObjects objectCode coinCode) = .ok ([.u64 amount, .address owner], []) := by
    simp [resolveArgs, resolveArgsFrom, resolveArg, resolveRaw, objectArg, mint, hcodec.u64,
      hcodec.address, Except.map, Except.mapError]
  unfold prepareCall
  rw [resolveModule_framework hcodec]
  show (resolveDepModules P _ meowCoinModule.imports >>= _) = _
  rw [resolveDepModules_framework hcodec]
  show (resolveArgs P _ mint meowSystemAddress _ >>= _) = _
  rw [hargs]
  rfl

/-- A coin is minted for the allocation, at the address derived from the transaction. -/
theorem mintMeowCoin_ok (salt : Digest) (allocation : Address × UInt64) :
    ∃ coin, mintMeowCoin P (frameworkModuleObjects objectCode coinCode) salt allocation =
        .ok coin ∧ MintedFor P allocation coin ∧
      coin.address = P.derive (P.transactionDigest (mintTransaction P salt allocation)) 0 0 := by
  obtain ⟨owner, amount⟩ := allocation
  obtain ⟨content, hencode, hdecode⟩ := hcodec.balance amount
  let txDigest := P.transactionDigest (mintTransaction P salt (owner, amount))
  let ctx := Context.new P.toNativeCrypto meowSystemAddress txDigest ExternalContext.empty.randSeed
    ExternalContext.empty.timestamp
  let coin : Coin := ⟨(ctx.nextFreshId P.toNativeCrypto).1, amount⟩
  let obj : Object B := ⟨coin.id, .address owner, txDigest, .one, .object meowCoinDecl, content⟩
  have heffects : collectObjectEffects P
      ((ctx.nextFreshId P.toNativeCrypto).2.transfer coin.value owner) [] txDigest =
      .ok ⟨[obj], [], []⟩ :=
    collectObjectEffects_mint coin rfl rfl rfl txDigest hencode
  have hexecute : executeGenesisTransaction P (mintTransaction P salt (owner, amount))
      (frameworkModuleObjects objectCode coinCode) = .ok {
        status := .success
        transactionDigest := txDigest
        createdObjects := [obj]
        changedObjects := []
        destroyedObjects := [] } := by
    unfold executeGenesisTransaction executeType
    show (executeMeowCall P meowSystemAddress txDigest _ _ _ _ _).1 = _
    unfold executeMeowCall
    rw [prepareCall_mint hcodec]
    dsimp only
    rw [callVm_coin, call_mint]
    unfold callResult
    dsimp only
    rw [heffects]
  refine ⟨obj, ?_, ⟨rfl, rfl, ?_, rfl⟩, rfl⟩
  · unfold mintMeowCoin
    rw [hexecute]
    rfl
  · have hcoin : isMeowCoinObject obj = true := rfl
    have hcontent : P.decodeFields obj.content = .ok [(balanceFieldName, .u64 amount)] := hdecode
    unfold balanceFromObject
    rw [if_pos hcoin, hcontent]
    rfl

end Mint

/-! ## All coins -/

def mintTransactions (P : Platform B) (salt : ℕ → Digest) (allocations : List (Address × UInt64)) :
    List (Transaction B) :=
  allocations.zipIdx.map fun entry => mintTransaction P (salt entry.2) entry.1

structure GenesisHashes (P : Platform B) (salt : ℕ → Digest)
    (allocations : List (Address × UInt64)) : Prop where
  salt_inj : ∀ i < allocations.length, ∀ j < allocations.length, salt i = salt j → i = j
  digest_inj : ∀ tx ∈ mintTransactions P salt allocations,
    ∀ tx' ∈ mintTransactions P salt allocations,
      P.transactionDigest tx = P.transactionDigest tx' → tx = tx'
  derive_inj : ∀ tx ∈ mintTransactions P salt allocations,
    ∀ tx' ∈ mintTransactions P salt allocations,
      P.derive (P.transactionDigest tx) 0 0 = P.derive (P.transactionDigest tx') 0 0 →
      P.transactionDigest tx = P.transactionDigest tx'
  derive_ne : ∀ tx ∈ mintTransactions P salt allocations,
    P.derive (P.transactionDigest tx) 0 0 ∉ [meowObjectModuleAddress, meowCoinModuleAddress]

def coinWorth (P : Platform B) (obj : Object B) : ℕ :=
  ((balanceFromObject P obj).map UInt64.toNat).getD 0

def Store.supply (P : Platform B) (store : Store B) : ℕ :=
  (store.objects.map (coinWorth P)).sum

section Genesis

variable {salt : ℕ → Digest} {allocations : List (Address × UInt64)}

def mintAddress (P : Platform B) (salt : ℕ → Digest) (entry : (Address × UInt64) × ℕ) : Address :=
  P.derive (P.transactionDigest (mintTransaction P (salt entry.2) entry.1)) 0 0

theorem nodup_zipIdx {α : Type} (xs : List α) : xs.zipIdx.Nodup := by
  refine List.Nodup.of_map Prod.snd ?_
  rw [List.zipIdx_map_snd]
  exact List.nodup_range'

theorem GenesisHashes.nodup (h : GenesisHashes P salt allocations) :
    (allocations.zipIdx.map (mintAddress P salt)).Nodup := by
  refine List.Nodup.map_on ?_ (nodup_zipIdx allocations)
  rintro ⟨allocation, i⟩ hi ⟨allocation', j⟩ hj haddress
  have htx := List.mem_map_of_mem (f := fun entry => mintTransaction P (salt entry.2) entry.1) hi
  have htx' := List.mem_map_of_mem (f := fun entry => mintTransaction P (salt entry.2) entry.1) hj
  have hequal := h.digest_inj _ htx _ htx' (h.derive_inj _ htx _ htx' haddress)
  have hsalt : salt i = salt j := congrArg (fun tx => tx.gasCoin.digest) hequal
  have hgeti := List.mem_zipIdx_iff_getElem?.mp hi
  have hgetj := List.mem_zipIdx_iff_getElem?.mp hj
  obtain rfl := h.salt_inj i (List.getElem?_eq_some_iff.mp hgeti).1 j
    (List.getElem?_eq_some_iff.mp hgetj).1 hsalt
  exact Prod.ext (Option.some.inj (hgeti.symm.trans hgetj)) rfl

theorem nodup_genesis (h : GenesisHashes P salt allocations) (objectCode coinCode : B)
    {coins : List (Object B)}
    (hcoins : coins.map (·.address) = allocations.zipIdx.map (mintAddress P salt)) :
    ((frameworkModuleObjects objectCode coinCode ++ coins).map (·.address)).Nodup := by
  rw [List.map_append, hcoins]
  refine List.Nodup.append ?_ h.nodup ?_
  · show [meowObjectModuleAddress, meowCoinModuleAddress].Nodup
    decide
  · intro a hframework hcoin
    obtain ⟨entry, hentry, rfl⟩ := List.mem_map.mp hcoin
    exact h.derive_ne _ (List.mem_map_of_mem hentry) hframework

theorem sum_coinWorth {coins : List (Object B)}
    (h : List.Forall₂ (MintedFor P) allocations coins) :
    (coins.map (coinWorth P)).sum = (allocations.map (·.2.toNat)).sum := by
  induction h with
  | nil => rfl
  | cons hcoin _ ih =>
    rw [List.map_cons, List.map_cons, List.sum_cons, List.sum_cons, ih]
    simp [coinWorth, hcoin.balance]

variable {objectCode coinCode : B}

/-- Genesis mints one coin for each allocation, no two objects share an address, and the coins are
worth what was allocated. -/
theorem genesis_mints (hcodec : GenesisCodec P objectCode coinCode)
    (hhashes : GenesisHashes P salt allocations) :
    ∃ coins, buildGenesis P salt objectCode coinCode allocations =
        .ok (frameworkModuleObjects objectCode coinCode ++ coins) ∧
      List.Forall₂ (MintedFor P) allocations coins ∧
      ((frameworkModuleObjects objectCode coinCode ++ coins).map (·.address)).Nodup ∧
      (Store.withObjects (frameworkModuleObjects objectCode coinCode ++ coins)).objects.Perm
        (frameworkModuleObjects objectCode coinCode ++ coins) ∧
      (Store.withObjects (frameworkModuleObjects objectCode coinCode ++ coins)).supply P =
        (allocations.map (·.2.toNat)).sum := by
  have hmint : ∀ entry ∈ allocations.zipIdx, ∃ coin,
      mintMeowCoin P (frameworkModuleObjects objectCode coinCode) (salt entry.2) entry.1 =
        .ok coin ∧ MintedFor P entry.1 coin ∧ coin.address = mintAddress P salt entry :=
    fun entry _ => mintMeowCoin_ok hcodec (salt entry.2) entry.1
  obtain ⟨coins, hbuild, hcoins⟩ := Outcome.exists_forEach hmint
  have hminted : List.Forall₂ (MintedFor P) allocations coins := by
    rw [← List.zipIdx_map_fst 0 allocations, List.forall₂_map_left_iff]
    exact hcoins.imp fun _ _ h => h.1
  have haddresses : coins.map (·.address) = allocations.zipIdx.map (mintAddress P salt) := by
    rw [← List.forall₂_eq_eq_eq, List.forall₂_map_left_iff, List.forall₂_map_right_iff]
    exact (hcoins.imp fun _ _ h => h.2).flip
  have hnodup := nodup_genesis hhashes objectCode coinCode haddresses
  have hperm := Store.objects_withObjects hnodup
  refine ⟨coins, ?_, hminted, hnodup, hperm, ?_⟩
  · exact Outcome.map_eq_ok.mpr ⟨coins, hbuild, rfl⟩
  · unfold Store.supply
    rw [(hperm.map _).sum_nat, List.map_append, List.sum_append, sum_coinWorth hminted]
    simp [frameworkModuleObjects, coinWorth, balanceFromObject, isMeowCoinObject,
      Object.freshModule]

end Genesis

/-! ## Two equal allocations -/

namespace Sample

/-- The digest of a mint transaction is its salt. -/
def mintPlatform : Platform Blob :=
  { platform with transactionDigest := fun tx => tx.gasCoin.digest }

def indexSalt (i : ℕ) : Digest := BitVec.ofNat 256 i

def equalAllocations : List (Address × UInt64) := [(5, 100), (5, 100)]

theorem mintPlatform_codec :
    GenesisCodec mintPlatform (.module meowObjectModule) (.module meowCoinModule) where
  object := rfl
  coin := rfl
  u64 _ := rfl
  address _ := rfl
  balance _ := ⟨_, rfl, rfl⟩

theorem equalAllocations_hashes : GenesisHashes mintPlatform indexSalt equalAllocations where
  salt_inj := by decide
  digest_inj tx htx tx' htx' hdigest := by
    simp only [mintTransactions, equalAllocations, List.zipIdx_cons, List.zipIdx_nil, List.map_cons,
      List.map_nil, List.mem_cons, List.not_mem_nil, or_false] at htx htx'
    rcases htx with rfl | rfl <;> rcases htx' with rfl | rfl
    · rfl
    · exact absurd hdigest (by decide)
    · exact absurd hdigest (by decide)
    · rfl
  derive_inj := by decide
  derive_ne := by decide

end Sample

open Sample in
theorem genesis_mints_twins :
    GenesisCodec mintPlatform (.module meowObjectModule) (.module meowCoinModule) ∧
    GenesisHashes mintPlatform indexSalt equalAllocations ∧
    ∃ coins, buildGenesis mintPlatform indexSalt (.module meowObjectModule)
        (.module meowCoinModule) equalAllocations =
        .ok (frameworkModuleObjects (.module meowObjectModule) (.module meowCoinModule) ++ coins) ∧
      List.Forall₂ (MintedFor mintPlatform) equalAllocations coins := by
  obtain ⟨coins, hbuild, hminted, -⟩ := genesis_mints mintPlatform_codec equalAllocations_hashes
  exact ⟨mintPlatform_codec, equalAllocations_hashes, coins, hbuild, hminted⟩

end MeowChain
