import MeowChain.Chain.Node
import MeowChain.Executor.Arguments

/-!
# Miners and validators

A mined block is committed by its miner and applied by every other node, exactly if its timestamp
lies after that of its parent and is not too far ahead of the clocks involved.
-/

set_option autoImplicit false

namespace MeowChain

variable {B S K : Type} {P : ChainPlatform B S K}

/-! ## Histories -/

section History

/-- What no event changes: the mempool stays sound, difficulty and batch size stay as they are. -/
structure Node.Configured (difficulty batchSize : ℕ) (node : Node P) : Prop where
  mempool : node.miner.mempool.Sound P
  difficulty : node.miner.chain.difficulty = difficulty
  batchSize : node.miner.batchSize = batchSize

theorem Node.configured_start (chain : ChainState P) (keypair : K) (rewardAddress : Address)
    (batchSize : ℕ) :
    (Node.start chain keypair rewardAddress batchSize).Configured chain.difficulty batchSize :=
  ⟨Mempool.sound_empty P, rfl, rfl⟩

variable [DecidableEq B]

theorem Node.Configured.moves {difficulty batchSize : ℕ} {node node' : Node P}
    {event : NodeEvent B S} (h : node.Configured difficulty batchSize)
    (hmoves : Node.Moves node event node') : node'.Configured difficulty batchSize := by
  cases hmoves with
  | idle => exact h
  | submit hpool => exact ⟨h.mempool.submit P hpool, h.difficulty, h.batchSize⟩
  | prepare hprepare =>
    obtain ⟨-, rfl⟩ := Miner.prepareRound_eq_some hprepare
    exact ⟨h.mempool.drainBatch P _, h.difficulty, h.batchSize⟩
  | discard => exact ⟨h.mempool, h.difficulty, h.batchSize⟩
  | stale => exact ⟨h.mempool, h.difficulty, h.batchSize⟩
  | commit => exact ⟨h.mempool, h.difficulty, h.batchSize⟩
  | store => exact ⟨h.mempool, h.difficulty, h.batchSize⟩
  | adopt => exact ⟨h.mempool.retainValid P _, h.difficulty, h.batchSize⟩
  | replace hchain =>
    obtain ⟨-, -, -, rfl⟩ := ChainState.fromSnapshot_eq_ok.mp hchain
    exact ⟨Mempool.sound_empty P, h.difficulty, h.batchSize⟩

theorem Node.Configured.run {difficulty batchSize : ℕ} {node node' : Node P}
    (hrun : Node.Run (fun _ _ => True) node node') (h : node.Configured difficulty batchSize) :
    node'.Configured difficulty batchSize :=
  Node.Run.invariant (fun hnode _ hmoves => hnode.moves hmoves) hrun h

end History

section Agreement

/-- A block mined on the head is committed, exactly if the clock allows its timestamp. -/
theorem commitMined_iff {miner : Miner P} {now : UInt64} {block : Block B S} {store : Store B}
    (hfresh : block.header.parentHash = miner.chain.head) :
    (∃ miner', miner.commitMined now block store = .ok (miner', true)) ↔
      block.WellStructured P now miner.chain.difficulty := by
  unfold Miner.commitMined
  rw [if_neg (not_not.mpr hfresh)]
  constructor
  · rintro ⟨miner', h⟩
    obtain ⟨chain, hchain, -⟩ := Outcome.map_eq_ok.mp h
    exact (ChainState.commit_eq_ok.mp hchain).1
  · intro h
    exact ⟨_, Outcome.map_eq_ok.mpr ⟨_, ChainState.commit_eq_ok.mpr ⟨h, rfl⟩, rfl⟩⟩

variable [DecidableEq B]

/-- A block mined on the head, at a peer that has the same parent with the same store: what is left
to check are the two clocks. -/
theorem applyBlock_mined_iff {miner : Miner P} {now peerNow : UInt64} {work : MiningWork B S K}
    {block : Block B S} {store : Store B} {peer : ChainState P}
    (hwork : miner.Prepares now work) (hmines : work.Mines P block store)
    (hstructured : ∀ now', now ≤ now' + maxBlockFutureDriftMs →
      block.WellStructured P now' miner.chain.difficulty)
    (hsigned : ∀ signed ∈ block.transactions,
      validateSignedTransaction P.toPlatform P.toSigning signed = .ok ())
    (hparent : peer.blocks[miner.chain.head]? = some miner.chain.headBlock)
    (hstore : peer.snapshots[miner.chain.head]? = some miner.chain.headStore)
    (hunseen : block.hash P ∉ peer.blocks)
    (hdifficulty : peer.difficulty = miner.chain.difficulty) :
    (∃ peer' switched, peer.applyBlock peerNow block = .ok (peer', switched) ∧
        peer'.snapshots[block.hash P]? = some store) ↔
      miner.chain.headBlock.header.timestamp < now ∧ now ≤ peerNow + maxBlockFutureDriftMs := by
  have hhead : block.header.parentHash = miner.chain.head :=
    hmines.parentHash.trans hwork.parentHash
  have htime : block.header.timestamp = now := hmines.timestamp.trans hwork.timestamp
  constructor
  · rintro ⟨peer', switched, happly, -⟩
    obtain ⟨parent, parentStore, store', haccepts, -⟩ := ChainState.applyBlock_eq_ok.mp happly
    have hsame := haccepts.parent_known
    rw [hhead, hparent] at hsame
    obtain rfl := Option.some.inj hsame
    exact ⟨htime ▸ haccepts.timestamp, htime ▸ haccepts.structured.timestamp_le⟩
  · rintro ⟨hlater, hdrift⟩
    have haccepts : peer.Accepts peerNow block miner.chain.headBlock miner.chain.headStore store := {
      unknown := hunseen
      parent_known := hhead ▸ hparent
      parent_snapshot := hhead ▸ hstore
      structured := hdifficulty ▸ hstructured peerNow hdrift
      timestamp := htime ▸ hlater
      extends_parent := {
        parentHash := hhead.trans miner.chain.headBlock_hash.symm
        height := hmines.height.trans hwork.height
        signatures := hsigned
        replayed := hwork.parentStore ▸ hmines.replayed } }
    exact ⟨_, _, ChainState.applyBlock_eq_ok.mpr ⟨_, _, _, haccepts, rfl⟩,
      peer.keep_snapshot block store⟩

/-- A mined block is committed by its miner while the head is unchanged, and applied by a peer that
knows the parent with the same store, to the store the miner computed: exactly if the clock of the
miner is past the timestamp of the head, and the timestamp is not more than the allowed drift ahead
of the clocks of miner and peer. -/
theorem miner_validator_agree (hP : P.Lawful) {chain : ChainState P} {keypair : K}
    {rewardAddress : Address} {batchSize : ℕ} (hsize : batchSize ≤ maxTransactionsPerBlock)
    {node later : Node P} {miner : Miner P} {work : MiningWork B S K} {now : UInt64}
    {block : Block B S} {store : Store B}
    (hhistory : Node.Run (fun _ _ => True)
      (Node.start chain keypair rewardAddress batchSize) node)
    (hprepare : node.miner.prepareRound now = (some work, miner))
    (hgrind : work.grind P = .ok (some (block, store)))
    (hlater : Node.Run (fun _ _ => True) { miner, rounds := node.rounds ++ [work] } later)
    (hhead : later.miner.chain.head = node.miner.chain.head)
    {peer : ChainState P}
    (hparent : peer.blocks[node.miner.chain.head]? = some node.miner.chain.headBlock)
    (hstore : peer.snapshots[node.miner.chain.head]? = some node.miner.chain.headStore)
    (hunseen : block.hash P ∉ peer.blocks)
    (hdifficulty : peer.difficulty = node.miner.chain.difficulty) (commitNow peerNow : UInt64) :
    ((∃ miner', later.miner.commitMined commitNow block store = .ok (miner', true)) ∧
      ∃ peer' switched, peer.applyBlock peerNow block = .ok (peer', switched) ∧
        peer'.snapshots[block.hash P]? = some store) ↔
      node.miner.chain.headBlock.header.timestamp < now ∧
        now ≤ commitNow + maxBlockFutureDriftMs ∧ now ≤ peerNow + maxBlockFutureDriftMs := by
  obtain ⟨hwork, rfl⟩ := Miner.prepareRound_eq_some hprepare
  have hmines := MiningWork.mines_of_grind hP hwork.minerAddress hgrind
  have hnode := Node.Configured.run hhistory (Node.configured_start _ _ _ _)
  have hsame : later.miner.chain.difficulty = node.miner.chain.difficulty :=
    (Node.Configured.run hlater ⟨hnode.mempool.drainBatch P _, rfl, rfl⟩).difficulty
  have hbatch := hnode.mempool.batch P node.miner.batchSize
  rw [← hwork.batch] at hbatch
  have hlength : work.batch.length ≤ maxTransactionsPerBlock := by
    rw [hwork.batch, hnode.batchSize]
    exact (Mempool.drainBatch_length_le _ _).trans hsize
  have hstructured : ∀ now', now ≤ now' + maxBlockFutureDriftMs →
      block.WellStructured P now' node.miner.chain.difficulty := fun now' hnow' =>
    hwork.difficulty ▸ hmines.wellStructured hlength hbatch.1 (hwork.timestamp ▸ hnow')
  have hsigned : ∀ signed ∈ block.transactions,
      validateSignedTransaction P.toPlatform P.toSigning signed = .ok () :=
    fun signed hmem => hbatch.2 signed (hmines.transactions.mem hmem)
  have hfresh : block.header.parentHash = later.miner.chain.head :=
    (hmines.parentHash.trans hwork.parentHash).trans hhead.symm
  have hcommit : block.WellStructured P commitNow later.miner.chain.difficulty ↔
      now ≤ commitNow + maxBlockFutureDriftMs := by
    rw [hsame]
    refine ⟨fun h => ?_, hstructured commitNow⟩
    exact (hmines.timestamp.trans hwork.timestamp) ▸ h.timestamp_le
  rw [commitMined_iff hfresh, hcommit,
    applyBlock_mined_iff hwork hmines hstructured hsigned hparent hstore hunseen hdifficulty]
  exact and_left_comm

end Agreement

/-! ## A small chain -/

namespace Sample

/-- Byte strings of a small chain, by what they encode. -/
inductive Bytes where
  | balance (n : UInt64)
  | objectModule
  | coinModule
  | u64 (n : UInt64)
  | address (a : Address)
  deriving DecidableEq

def digestOf (xs : List ℕ) : Digest :=
  BitVec.ofNat 256 (xs.foldl (fun acc x => acc * (2 ^ 61 - 1) + x + 1) 7)

def Bytes.code : Bytes → ℕ
  | .balance n => 5 * n.toNat
  | .objectModule => 1
  | .coinModule => 2
  | .u64 n => 5 * n.toNat + 3
  | .address a => 5 * a.toNat + 4

def Input.code : Input Bytes → ℕ
  | .object ref => 2 * (digestOf [ref.address.toNat, ref.version.toNat, ref.digest.toNat]).toNat
  | .raw bytes => 2 * bytes.code + 1

def transactionCode (tx : Transaction Bytes) : List ℕ :=
  [tx.sender.toNat, tx.gasCoin.address.toNat, tx.gasCoin.version.toNat, tx.gasCoin.digest.toNat]
    ++ match tx.type with
      | .meowCall call => call.module.toNat :: call.function.name.length
          :: call.arguments.map Input.code
      | .meowModulePublish bytes => [bytes.code]

def objectCode (obj : Object Bytes) : List ℕ :=
  [obj.address.toNat, (obj.owner.address?.elim 0 (·.toNat + 1)), obj.transaction.toNat,
    obj.version.toNat, obj.content.code]

def headerCode (h : BlockHeader) : List ℕ :=
  [h.height.toNat, h.parentHash.toNat, h.transactionsRoot.toNat, h.rewardRoot.elim 0 (·.toNat + 1),
    h.stateRoot.toNat, h.timestamp.toNat, h.nonce.toNat]

def chainPlatform : ChainPlatform Bytes (Address × Digest) Address where
  derive d _ n := BitVec.ofNat 256 (d.toNat % 2 ^ 128 * 2 ^ 128 + n % 2 ^ 128)
  seed d _ := d
  random _ _ := 0
  bcs := bcsLayout
  length
    | .u64 _ => 8
    | .address _ => 32
    | _ => 64
  decodeModule
    | .objectModule => .ok meowObjectModule
    | .coinModule => .ok meowCoinModule
    | _ => unexpected
  decodeFields | .balance n => .ok [(balanceFieldName, .u64 n)] | _ => unexpected
  encodeFields | [(_, .u64 n)] => some (.balance n) | _ => none
  decodeU64 | .u64 n => .ok n | _ => unexpected
  encodeU64 := .u64
  decodeBool _ := unexpected
  decodeAddress | .address a => .ok a | _ => unexpected
  encodeAddress := .address
  decodeStr _ := unexpected
  objectDigest obj := digestOf (objectCode obj)
  transactionDigest tx := digestOf (transactionCode tx)
  displayDigest _ := "digest"
  transactionSize tx := 32 * (transactionCode tx).length
  signer s := s.1
  verify s d := if s.2 = d then .ok () else .error "invalid signature"
  sign key d := (key, d)
  keyAddress key := key
  headerDigest h := digestOf (headerCode h)
  miningDigest h := digestOf [h.height.toNat, h.parentHash.toNat, h.transactionsRoot.toNat,
    h.timestamp.toNat, h.nonce.toNat]
  stateDigest objects := digestOf (objects.map fun obj => (digestOf (objectCode obj)).toNat)
  digestsDigest digests := digestOf (digests.map (·.toNat))

theorem chainPlatform_lawful : chainPlatform.Lawful where
  signer_sign _ _ := rfl
  verify_sign _ _ := if_pos rfl
  decodeU64_encodeU64 _ := rfl
  decodeAddress_encodeAddress _ := rfl
  transactionSize_reward_le _ _ _ _ := Nat.le_of_ble_eq_true rfl

def coinAt (address : Address) : Object Bytes where
  address
  owner := .address owner
  transaction := 0
  version := .one
  type := .object coinDecl
  content := .balance 5000

def genesisStore : Store Bytes := Store.withObjects [
  .freshModule meowObjectModuleAddress 0 .objectModule,
  .freshModule meowCoinModuleAddress 0 .coinModule,
  coinAt 8, coinAt 9]

/-- A call of a module that does not exist, paid with the coin at `coin`: it fails and pays. -/
def failingCall (coin : Address) : Transaction Bytes where
  sender := owner
  gasCoin := ⟨coin, .one, chainPlatform.objectDigest (coinAt coin)⟩
  type := .meowCall { module := 99, function := ⟨"f", by decide⟩, arguments := [] }

def failingSigned (coin : Address) : SignedTransaction Bytes (Address × Digest) :=
  (failingCall coin).sign chainPlatform owner

def genesisChain : ChainState chainPlatform :=
  .new chainPlatform genesisStore 0 10

def startNode : Node chainPlatform :=
  .start genesisChain 77 78 1

def mineAt (node : Node chainPlatform) (now : UInt64) :
    Option (Block Bytes (Address × Digest) × Store Bytes) :=
  match (node.miner.prepareRound now).1 with
  | none => none
  | some work =>
    match work.grind chainPlatform with
    | .ok mined => mined
    | _ => none

theorem mineAt_eq_some {node : Node chainPlatform} {now : UInt64}
    {mined : Block Bytes (Address × Digest) × Store Bytes} (h : mineAt node now = some mined) :
    ∃ work miner, node.miner.prepareRound now = (some work, miner) ∧
      work.grind chainPlatform = .ok (some mined) := by
  unfold mineAt at h
  split at h
  case h_1 => cases h
  case h_2 work hwork =>
    split at h
    case h_1 hgrind => exact ⟨work, _, Prod.ext hwork rfl, h ▸ hgrind⟩
    case h_2 => cases h

def peerBlock (now : UInt64) : Option (Block Bytes (Address × Digest)) :=
  match startNode.handle (.submit (failingSigned 8)) with
  | .ok node => (mineAt node now).map (·.1)
  | _ => none

/-- A block that is 50 seconds ahead arrives, then a transaction. -/
def behindTheHead : Outcome MinerError (Node chainPlatform) :=
  (Outcome.expect "mined" (peerBlock 100000)).bind fun block =>
  startNode.handleAll (fun _ _ => true) [.apply 50000 block, .submit (failingSigned 9)]

end Sample

open Sample in
theorem miner_validator_agree_genesis :
    ∃ (node : Node chainPlatform) (work : MiningWork Bytes (Address × Digest) Address)
      (miner : Miner chainPlatform) (block : Block Bytes (Address × Digest)) (store : Store Bytes),
      node.miner.prepareRound 5 = (some work, miner) ∧
      work.grind chainPlatform = .ok (some (block, store)) ∧
      (∃ miner', miner.commitMined 5 block store = .ok (miner', true)) ∧
      ∃ peer' switched, genesisChain.applyBlock 5 block = .ok (peer', switched) ∧
        peer'.snapshots[block.hash chainPlatform]? = some store := by
  obtain ⟨node, hnode, hp⟩ := Outcome.exists_of_isOkAnd
    (x := startNode.handle (.submit (failingSigned 8)))
    (p := fun node => (mineAt node 5).any fun mined =>
      decide (mined.1.hash chainPlatform ∉ genesisChain.blocks)) (by decide +kernel)
  obtain ⟨⟨block, store⟩, hmined, hp⟩ := (Option.any_eq_true _ _).mp hp
  obtain ⟨work, miner, hprepare, hgrind⟩ := mineAt_eq_some hmined
  have hchain : node.miner.chain = genesisChain := by
    cases Node.moves_of_handle hnode <;> rfl
  have hunseen : block.hash chainPlatform ∉ genesisChain.blocks := of_decide_eq_true hp
  have hhead : miner.chain.head = node.miner.chain.head := by
    rw [(Miner.prepareRound_eq_some hprepare).2]
  refine ⟨node, work, miner, block, store, hprepare, hgrind, ?_⟩
  refine (miner_validator_agree chainPlatform_lawful (by decide)
    (.single ⟨_, trivial, hnode⟩) hprepare hgrind .refl hhead ?_ ?_ hunseen ?_ 5 5).mpr ?_
  · exact hchain ▸ genesisChain.getElem?_head
  · exact hchain ▸ genesisChain.getElem?_head_snapshot
  · exact hchain ▸ rfl
  · rw [hchain]
    decide +kernel

open Sample in
/-- The head is ahead of the clock of the miner: the miner commits a block that a node in the same
state refuses. -/
theorem miner_validator_agree_fails :
    ∃ (node : Node chainPlatform) (work : MiningWork Bytes (Address × Digest) Address)
      (miner : Miner chainPlatform) (block : Block Bytes (Address × Digest)) (store : Store Bytes),
      Node.Run (fun _ _ => True) startNode node ∧
      node.miner.prepareRound 50000 = (some work, miner) ∧
      work.grind chainPlatform = .ok (some (block, store)) ∧
      block.hash chainPlatform ∉ node.miner.chain.blocks ∧
      node.miner.chain.applyBlock 50000 block = .err .timestampNotAdvancing := by
  obtain ⟨node, hnode, hp⟩ := Outcome.exists_of_isOkAnd (x := behindTheHead)
    (p := fun node => (mineAt node 50000).any fun mined =>
      decide (mined.1.hash chainPlatform ∉ node.miner.chain.blocks) &&
      decide ((node.miner.chain.applyBlock 50000 mined.1).error? = some .timestampNotAdvancing))
    (by decide +kernel)
  obtain ⟨⟨block, store⟩, hmined, hp⟩ := (Option.any_eq_true _ _).mp hp
  obtain ⟨work, miner, hprepare, hgrind⟩ := mineAt_eq_some hmined
  obtain ⟨peer, -, hrun⟩ := Outcome.bind_eq_ok.mp hnode
  rw [Bool.and_eq_true] at hp
  exact ⟨node, work, miner, block, store, Node.run_of_handleAll (fun _ _ _ => trivial) hrun, hprepare,
    hgrind, of_decide_eq_true hp.1, Outcome.error?_eq_some.mp (of_decide_eq_true hp.2)⟩

end MeowChain
