import MeowChain.Chain.Custody
import MeowChain.Chain.Minting
import MeowChain.Chain.Modules

/-!
# What a block mints

The reward of a block is one coin, worth the gas that the transactions of the block used.
-/

set_option autoImplicit false

namespace MeowChain

open MeowCoin

variable {B S K : Type} {P : ChainPlatform B S K} {objectCode coinCode : B} {store store' : Store B}

def Store.HasFramework (objectCode coinCode : B) (store : Store B) : Prop :=
  ∀ obj ∈ frameworkModuleObjects objectCode coinCode, store[obj.address]? = some obj

theorem trace_hasFramework {labels : List (Executed B)}
    (h : Trace (Executed.Step P) store labels store')
    (hs : store.Keyed ∧ store.HasFramework objectCode coinCode) :
    store'.Keyed ∧ store'.HasFramework objectCode coinCode := by
  refine h.invariant (I := fun s => s.Keyed ∧ s.HasFramework objectCode coinCode) ?_ hs
  rintro e s s' ⟨hkeyed, hframework⟩ hstep
  refine ⟨hstep.keyed hkeyed, fun obj hobj => hstep.module_kept hkeyed (hframework obj hobj) ?_⟩
  simp only [frameworkModuleObjects, List.mem_cons, List.not_mem_nil, or_false] at hobj
  rcases hobj with rfl | rfl <;> rfl

theorem prepareCall_mint_raw (hcodec : GenesisCodec P.toPlatform objectCode coinCode)
    {sender owner : Address} {amount : UInt64} {amountBytes ownerBytes : B}
    (hamount : P.decodeU64 amountBytes = .ok amount)
    (howner : P.decodeAddress ownerBytes = .ok owner) {function : Identifier}
    (hfunction : function.name = meowCoinMintFunctionName) :
    prepareCall P.toPlatform sender
      ⟨meowCoinModuleAddress, function, [.raw amountBytes, .raw ownerBytes]⟩
      (frameworkModuleObjects objectCode coinCode) =
      .ok ⟨meowCoinModule, objectDeps, mint, [.u64 amount, .address owner], []⟩ := by
  have hargs : resolveArgs P.toPlatform
      ⟨meowCoinModuleAddress, function, [.raw amountBytes, .raw ownerBytes]⟩ mint sender
      (frameworkModuleObjects objectCode coinCode) = .ok ([.u64 amount, .address owner], []) := by
    simp [resolveArgs, resolveArgsFrom, resolveArg, resolveRaw, objectArg, mint, hamount, howner,
      Except.map, Except.mapError]
  unfold prepareCall
  rw [resolveModule_framework hcodec]
  show (resolveDepModules P.toPlatform _ meowCoinModule.imports >>= _) = _
  rw [resolveDepModules_framework hcodec, hfunction]
  show (resolveArgs P.toPlatform _ mint sender _ >>= _) = _
  rw [hargs]
  rfl

theorem executeRewardTransaction_mints (hcodec : GenesisCodec P.toPlatform objectCode coinCode)
    (hframework : store.HasFramework objectCode coinCode) {tx : Transaction B} {total : UInt64}
    {miningHash : Digest} {result : ExecutionResult B}
    (hvalid : isValidRewardTransaction P tx total miningHash = true)
    (h : executeRewardTransaction P tx store = .ok result) :
    ∃ owner coin, MintedFor P.toPlatform (owner, total) coin ∧ result.createdObjects = [coin] ∧
      result.changedObjects = [] ∧ result.destroyedObjects = [] := by
  obtain ⟨function, amountBytes, ownerBytes, hfunction, hamount, htx⟩ :=
    isValidRewardTransaction_eq_true hvalid
  obtain ⟨content, hencode, hdecode⟩ := hcodec.balance total
  rw [htx] at hvalid h
  obtain ⟨owner, howner⟩ : ∃ owner, P.decodeAddress ownerBytes = .ok owner := by
    cases hdecoded : P.decodeAddress ownerBytes with
    | ok owner => exact ⟨owner, rfl⟩
    | error e => simp [isValidRewardTransaction, hdecoded] at hvalid
  obtain ⟨inputs, hinputs, hexec⟩ := Outcome.bind_eq_ok.mp h
  have hobject : store[meowObjectModuleAddress]? = _ := hframework _ List.mem_cons_self
  have hcoin : store[meowCoinModuleAddress]? = _ :=
    hframework _ (List.mem_cons_of_mem _ List.mem_cons_self)
  simp only [Outcome.forEach, hobject, hcoin, Outcome.expect, Outcome.bind, Outcome.ok.injEq]
    at hinputs
  obtain rfl : frameworkModuleObjects objectCode coinCode = inputs := hinputs
  unfold executeSystemTransaction executeType executeMeowCall at hexec
  dsimp only at hexec
  rw [prepareCall_mint_raw hcodec hamount howner hfunction] at hexec
  dsimp only at hexec
  rw [callVm_coin, hfunction, call_mint] at hexec
  unfold callResult at hexec
  dsimp only at hexec
  rw [collectObjectEffects_mint ⟨_, total⟩ rfl rfl rfl _ hencode] at hexec
  cases hexec
  refine ⟨owner, _, ⟨rfl, rfl, ?_, rfl⟩, rfl, rfl, rfl⟩
  unfold balanceFromObject
  refine (if_pos rfl).trans ?_
  rw [hdecode]
  rfl

variable [DecidableEq B] {world : Set (Block B S)} {initialStore : Store B}

end MeowChain
