import MeowChain.Chain.History

/-!
# What the proof of work commits to

The mining hash leaves out the state root and the reward root. Both follow from what it covers and
from the reward transaction, of which the checks fix the amount and the mining hash, but neither the
sender nor the recipient.
-/

set_option autoImplicit false

namespace MeowChain

variable {B S K : Type}

def Transaction.recipient (tx : Transaction B) : Option (Input B) :=
  tx.type.arguments[1]?

/-- Wherever both blocks have rewards, these have one sender and one recipient. -/
def Block.SameBeneficiary (block block' : Block B S) : Prop :=
  ∀ reward ∈ block.rewardTransaction, ∀ reward' ∈ block'.rewardTransaction,
    reward.transaction.sender = reward'.transaction.sender ∧
      reward.transaction.recipient = reward'.transaction.recipient

section Commitment

variable {P : ChainPlatform B S K} {world : Set (Block B S)}

theorem isValidRewardTransaction_eq_true {tx : Transaction B} {total : UInt64}
    {miningHash : Digest} (h : isValidRewardTransaction P tx total miningHash = true) :
    ∃ function amount owner, function.name = meowCoinMintFunctionName ∧
      P.decodeU64 amount = .ok total ∧ tx = {
        sender := tx.sender
        gasCoin := ⟨0, .zero, miningHash⟩
        type := .meowCall {
          module := meowCoinModuleAddress
          function
          arguments := [.raw amount, .raw owner] } } := by
  obtain ⟨sender, gasCoin, type⟩ := tx
  cases type with
  | meowModulePublish bytes => cases h
  | meowCall call =>
    obtain ⟨module, function, arguments⟩ := call
    simp only [isValidRewardTransaction, Bool.and_eq_true, decide_eq_true_eq] at h
    obtain ⟨⟨⟨⟨⟨haddress, hversion⟩, hdigest⟩, hmodule⟩, hfunction⟩, harguments⟩ := h
    split at harguments
    · rename_i amount owner
      rw [Bool.and_eq_true] at harguments
      obtain ⟨hamount, -⟩ := harguments
      split at hamount
      · rename_i n hn
        obtain rfl : n = total := of_decide_eq_true hamount
        obtain ⟨address, version, digest⟩ := gasCoin
        subst haddress hversion hdigest hmodule
        exact ⟨function, amount, owner, hfunction, hn, rfl⟩
      · cases hamount
    · cases harguments

theorem reward_eq_iff
    (hbcs : ∀ x y n, P.decodeU64 x = .ok n → P.decodeU64 y = .ok n → x = y)
    {tx tx' : Transaction B} {total : UInt64} {miningHash : Digest}
    (h : isValidRewardTransaction P tx total miningHash = true)
    (h' : isValidRewardTransaction P tx' total miningHash = true) :
    tx = tx' ↔ tx.sender = tx'.sender ∧ tx.recipient = tx'.recipient := by
  refine ⟨fun heq => heq ▸ ⟨rfl, rfl⟩, ?_⟩
  rintro ⟨hsender, hrecipient⟩
  obtain ⟨function, amount, owner, hfunction, hamount, htx⟩ := isValidRewardTransaction_eq_true h
  obtain ⟨function', amount', owner', hfunction', hamount', htx'⟩ :=
    isValidRewardTransaction_eq_true h'
  obtain rfl := hbcs amount amount' total hamount hamount'
  obtain rfl : function = function' := by
    obtain ⟨name, valid⟩ := function
    obtain ⟨name', valid'⟩ := function'
    obtain rfl : name = name' := hfunction.trans hfunction'.symm
    rfl
  rw [htx, htx'] at hrecipient
  obtain rfl : owner = owner' := by
    simpa [Transaction.recipient, TransactionType.arguments] using hrecipient
  rw [htx, htx', hsender]

theorem same_execution (hworld : CollisionFree P world) {block block' : Block B S}
    (hmem : block ∈ world) (hmem' : block' ∈ world) {now now' : UInt64} {difficulty difficulty' : ℕ}
    (hstructured : block.WellStructured P now difficulty)
    (hstructured' : block'.WellStructured P now' difficulty')
    (hmining : block.header.mining = block'.header.mining) (store : Store B) :
    ChainState.reexecute P (block.header.context P) store block.transactions =
      ChainState.reexecute P (block'.header.context P) store block'.transactions := by
  have hcontext : block.header.context P = block'.header.context P := by
    unfold BlockHeader.context BlockHeader.miningHash
    rw [hmining]
    exact congrArg (ExternalContext.mk _) (congrArg MiningBlockHeader.timestamp hmining)
  have hdigests := hworld.root block hmem block' hmem' (by
    rw [hstructured.transactions_root, hstructured'.transactions_root]
    exact congrArg MiningBlockHeader.transactionsRoot hmining)
  have htransactions := hworld.transactions_eq hmem hmem'
    (fun t ht => List.mem_append_left _ ht) (fun t ht => List.mem_append_left _ ht) hdigests
  rw [hcontext, reexecute_congr htransactions]

variable [DecidableEq B]

/-- Two blocks that are accepted in one state and share the work are the same block exactly when
their rewards have the same sender and recipient. -/
theorem pow_commits_to_block (hworld : CollisionFree P world)
    (hbcs : ∀ x y n, P.decodeU64 x = .ok n → P.decodeU64 y = .ok n → x = y)
    {chain : ChainState P} {block block' : Block B S} (hmem : block ∈ world)
    (hmem' : block' ∈ world)
    (hcollision : block.header.miningHash P = block'.header.miningHash P →
      block.header.mining = block'.header.mining)
    {now now' : UInt64} {r r' : ChainState P × Bool}
    (happly : chain.applyBlock now block = .ok r) (happly' : chain.applyBlock now' block' = .ok r')
    (hwork : block.header.miningHash P = block'.header.miningHash P) :
    block.hash P = block'.hash P ↔ block.SameBeneficiary block' := by
  obtain ⟨parent, parentStore, store, haccepts, -⟩ := ChainState.applyBlock_eq_ok.mp happly
  obtain ⟨parent', parentStore', store', haccepts', -⟩ := ChainState.applyBlock_eq_ok.mp happly'
  have hmining := hcollision hwork
  obtain rfl : parentStore = parentStore' := by
    have hparent : block.header.parentHash = block'.header.parentHash :=
      congrArg MiningBlockHeader.parentHash hmining
    have hsnapshot := haccepts.parent_snapshot
    rw [hparent, haccepts'.parent_snapshot] at hsnapshot
    exact (Option.some.inj hsnapshot).symm
  obtain ⟨executed, hrun, hreward, hstate⟩ :=
    ChainState.replay_eq_ok.mp haccepts.extends_parent.replayed
  obtain ⟨executed', hrun', hreward', hstate'⟩ :=
    ChainState.replay_eq_ok.mp haccepts'.extends_parent.replayed
  rw [same_execution hworld hmem hmem' haccepts.structured haccepts'.structured hmining] at hrun
  obtain ⟨rfl, hresults⟩ := Prod.mk.inj (Outcome.ok.inj (hrun.symm.trans hrun'))
  rw [hresults] at hreward
  have hhash : block.hash P = block'.hash P ↔ block.header = block'.header :=
    ⟨hworld.header block hmem block' hmem', fun h => congrArg P.headerDigest h⟩
  -- The header is the mining header with the two roots.
  have hheader : block.header = block'.header ↔
      block.header.rewardRoot = block'.header.rewardRoot ∧
        block.header.stateRoot = block'.header.stateRoot := by
    refine ⟨fun h => h ▸ ⟨rfl, rfl⟩, ?_⟩
    rintro ⟨hrewardRoot, hstateRoot⟩
    revert hmining
    cases hb : block.header
    cases hb' : block'.header
    rw [hb, hb'] at hrewardRoot hstateRoot
    simp only [BlockHeader.mining, MiningBlockHeader.mk.injEq, BlockHeader.mk.injEq]
    rintro ⟨rfl, rfl, rfl, rfl, rfl⟩
    exact ⟨rfl, rfl, rfl, hrewardRoot, hstateRoot, rfl, rfl⟩
  rw [hhash, hheader, ← haccepts.structured.reward_root, ← haccepts'.structured.reward_root,
    ← hstate, ← hstate']
  unfold Block.SameBeneficiary
  obtain ⟨hnone, -, htotal, rfl⟩ | ⟨reward, result, hsome, -, htotal, -, hvalid, hexec, hstore⟩ :=
    applyReward_eq_ok.mp hreward
  · obtain ⟨hnone', -, -, rfl⟩ | ⟨_, _, -, -, hne, -⟩ := applyReward_eq_ok.mp hreward'
    · simp [hnone, hnone']
    · exact absurd htotal hne
  · obtain ⟨-, -, hzero, -⟩ | ⟨reward', result', hsome', -, -, -, hvalid', hexec', hstore'⟩ :=
      applyReward_eq_ok.mp hreward'
    · exact absurd hzero htotal
    · rw [← hwork] at hvalid'
      simp only [hsome, hsome', Option.map_some, Option.some.injEq, Option.mem_def,
        forall_eq']
      rw [← reward_eq_iff hbcs hvalid hvalid']
      constructor
      · rintro ⟨hdigest, -⟩
        exact hworld.transaction block hmem block' hmem' reward
          (List.mem_append_right _ (by simp [hsome])) reward'
          (List.mem_append_right _ (by simp [hsome'])) hdigest
      · intro heq
        refine ⟨by simp [SignedTransaction.digest, heq], ?_⟩
        rw [heq, hexec'] at hexec
        obtain rfl := Outcome.ok.inj hexec
        rw [hstore'] at hstore
        rw [Outcome.ok.inj hstore]

end Commitment

/-! ## Two rewards for the same work -/

namespace Sample

/-- The block that a miner with the given key and reward address finds at clock reading 5. -/
def rewardedBlock (keypair rewardAddress : Address) : Option (Block Bytes (Address × Digest)) :=
  match (Node.start genesisChain keypair rewardAddress 1).handle (.submit (failingSigned 8)) with
  | .ok node => (mineAt node 5).map (·.1)
  | _ => none

def rewardedBlocks : List (Block Bytes (Address × Digest)) :=
  .genesis :: ((rewardedBlock 77 78).toList ++ (rewardedBlock 80 81).toList)

theorem rewardedBlocks_collisionFree :
    CollisionFree chainPlatform { block | block ∈ rewardedBlocks } :=
  collisionFree_of_list (by decide +kernel)

theorem decodeU64_injective : ∀ (x y : Bytes) (n : UInt64),
    chainPlatform.decodeU64 x = .ok n → chainPlatform.decodeU64 y = .ok n → x = y := by
  intro x y n hx hy
  cases x <;> cases y <;> simp_all [chainPlatform, unexpected]

/-- Someone else's reward for the same nonce: both blocks are accepted. -/
theorem exists_rewardedBlocks :
    ∃ (block block' : Block Bytes (Address × Digest)) (r r' : ChainState chainPlatform × Bool),
      rewardedBlock 77 78 = some block ∧ rewardedBlock 80 81 = some block' ∧
      genesisChain.applyBlock 5 block = .ok r ∧ genesisChain.applyBlock 5 block' = .ok r' ∧
      block.header.mining = block'.header.mining ∧
      block.hash chainPlatform ≠ block'.hash chainPlatform := by
  obtain ⟨block, hblock, hp⟩ := (Option.any_eq_true
    (fun block => (rewardedBlock 80 81).any fun block' =>
      ((genesisChain.applyBlock 5 block).isOkAnd fun _ => true) &&
      ((genesisChain.applyBlock 5 block').isOkAnd fun _ => true) &&
      decide (block.header.mining = block'.header.mining ∧
        block.hash chainPlatform ≠ block'.hash chainPlatform)) (rewardedBlock 77 78)).mp
    (by decide +kernel)
  obtain ⟨block', hblock', hp⟩ := (Option.any_eq_true _ _).mp hp
  rw [Bool.and_eq_true, Bool.and_eq_true] at hp
  obtain ⟨r, happly, -⟩ := Outcome.exists_of_isOkAnd hp.1.1
  obtain ⟨r', happly', -⟩ := Outcome.exists_of_isOkAnd hp.1.2
  exact ⟨block, block', r, r', hblock, hblock', happly, happly', of_decide_eq_true hp.2⟩

end Sample

open Sample in
theorem pow_commits_to_block_first :
    ∃ block block' : Block Bytes (Address × Digest), rewardedBlock 77 78 = some block ∧
      rewardedBlock 80 81 = some block' ∧ ¬block.SameBeneficiary block' := by
  obtain ⟨block, block', r, r', hblock, hblock', happly, happly', hmining, hhash⟩ :=
    exists_rewardedBlocks
  have hmem : block ∈ rewardedBlocks := List.mem_cons_of_mem _
    (List.mem_append_left _ (Option.mem_toList.mpr hblock))
  have hmem' : block' ∈ rewardedBlocks := List.mem_cons_of_mem _
    (List.mem_append_right _ (Option.mem_toList.mpr hblock'))
  have hwork : block.header.miningHash chainPlatform = block'.header.miningHash chainPlatform := by
    unfold BlockHeader.miningHash
    rw [hmining]
  exact ⟨block, block', hblock, hblock', fun hsame => hhash ((pow_commits_to_block
    rewardedBlocks_collisionFree decodeU64_injective hmem hmem' (fun _ => hmining) happly happly'
    hwork).mpr hsame)⟩

open Sample in
theorem pow_commits_to_block_fails :
    ∃ (block block' : Block Bytes (Address × Digest)) (r r' : ChainState chainPlatform × Bool),
      genesisChain.applyBlock 5 block = .ok r ∧ genesisChain.applyBlock 5 block' = .ok r' ∧
      block.header.mining = block'.header.mining ∧
      block.hash chainPlatform ≠ block'.hash chainPlatform := by
  obtain ⟨block, block', r, r', -, -, hfails⟩ := exists_rewardedBlocks
  exact ⟨block, block', r, r', hfails⟩

end MeowChain
