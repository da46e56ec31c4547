import MeowChain.Chain.Store

/-!
# Blocks and the chain

`ChainState` keeps every known block with the store it leads to. A block is checked, its
transactions are executed again on the store of its parent, and it is kept only when everything
in it is what the execution gives.
-/

set_option autoImplicit false

namespace MeowChain

def maxTransactionsPerBlock : ℕ := 256

def maxBlockFutureDriftMs : UInt64 := 120000

structure BlockHeader where
  height : UInt64
  parentHash : Digest
  transactionsRoot : Digest
  rewardRoot : Option Digest
  stateRoot : Digest
  timestamp : UInt64
  nonce : UInt64
  deriving DecidableEq

/-- What the proof of work commits to. -/
structure MiningBlockHeader where
  height : UInt64
  parentHash : Digest
  transactionsRoot : Digest
  timestamp : UInt64
  nonce : UInt64
  deriving DecidableEq

structure Block (B S : Type) where
  header : BlockHeader
  transactions : List (SignedTransaction B S)
  results : List (ExecutionResult B)
  rewardTransaction : Option (SignedTransaction B S)
  rewardTransactionResult : Option (ExecutionResult B)
  deriving DecidableEq

/-- What the chain needs on top of the executor: signatures and the digests of what blocks hold. -/
structure ChainPlatform (B S K : Type) extends Platform B, Signing S K where
  headerDigest : BlockHeader → Digest
  miningDigest : MiningBlockHeader → Digest
  stateDigest : List (Object B) → Digest
  digestsDigest : List Digest → Digest

inductive ChainError where
  | alreadyKnown
  | emptyBlock
  | duplicateTransaction
  | executionFailed
  | invalidHeight (expected got : UInt64)
  | inconsistentReward
  | invalidReward
  | invalidSignature
  | powCheckFailed
  | resultsCountMismatch
  | resultsMismatch
  | rewardRootMismatch
  | snapshotNotAdvancing (snapHeight headHeight : UInt64)
  | stateRootMismatch
  | timestampNotAdvancing
  | timestampTooFarInFuture
  | tooManyTransactions (max got : ℕ)
  | transactionsRootMismatch
  | unknownParent
  deriving DecidableEq

/-! ## Headers -/

def byteLeadingZeros (b : UInt8) : ℕ :=
  if b = 0 then 8 else 7 - Nat.log2 b.toNat

def bytesLeadingZeros : List UInt8 → ℕ
  | [] => 0
  | b :: bs =>
    if byteLeadingZeros b < 8 then byteLeadingZeros b else byteLeadingZeros b + bytesLeadingZeros bs

def leadingZeros (digest : Digest) : ℕ :=
  bytesLeadingZeros (Bytes.encode 32 digest.toNat)

def BlockHeader.mining (header : BlockHeader) : MiningBlockHeader where
  height := header.height
  parentHash := header.parentHash
  transactionsRoot := header.transactionsRoot
  timestamp := header.timestamp
  nonce := header.nonce

section Chain

variable {B S K : Type} (P : ChainPlatform B S K)

def BlockHeader.miningHash (header : BlockHeader) : Digest :=
  P.miningDigest header.mining

def BlockHeader.meetsDifficulty (header : BlockHeader) (difficulty : ℕ) : Bool :=
  decide (leadingZeros (header.miningHash P) ≥ difficulty)

def BlockHeader.context (header : BlockHeader) : ExternalContext where
  randSeed := header.miningHash P
  timestamp := header.timestamp

def Block.hash (block : Block B S) : Digest :=
  P.headerDigest block.header

def Block.genesis : Block B S where
  header := {
    height := 0
    parentHash := 0
    transactionsRoot := 0
    rewardRoot := none
    stateRoot := 0
    timestamp := 0
    nonce := 0 }
  transactions := []
  results := []
  rewardTransaction := none
  rewardTransactionResult := none

def SignedTransaction.digest (signed : SignedTransaction B S) : Digest :=
  P.transactionDigest signed.transaction

def computeStateRoot (store : Store B) : Digest :=
  P.stateDigest store.objects

def computeTransactionsRoot (transactions : List (SignedTransaction B S)) : Digest :=
  P.digestsDigest (transactions.map (SignedTransaction.digest P))

/-! ## Rewards -/

def makeRewardTransaction (signer rewardAddress : Address) (amount : UInt64)
    (miningBlockHash : Digest) : Transaction B where
  sender := signer
  gasCoin := ⟨0, .zero, miningBlockHash⟩
  type := .meowCall {
    module := meowCoinModuleAddress
    function := ⟨meowCoinMintFunctionName, by decide⟩
    arguments := [.raw (P.encodeU64 amount), .raw (P.encodeAddress rewardAddress)] }

def isValidRewardTransaction (tx : Transaction B) (expectedAmount : UInt64)
    (miningBlockHash : Digest) : Bool :=
  match tx.type with
  | .meowModulePublish _ => false
  | .meowCall call =>
    tx.gasCoin.address = 0 && tx.gasCoin.version = .zero && tx.gasCoin.digest = miningBlockHash &&
    call.module = meowCoinModuleAddress && call.function.name = meowCoinMintFunctionName &&
    match call.arguments with
    | [.raw amount, .raw owner] =>
      (match P.decodeU64 amount with
        | .ok n => decide (n = expectedAmount)
        | .error _ => false) &&
      match P.decodeAddress owner with
      | .ok _ => true
      | .error _ => false
    | _ => false

def executeRewardTransaction (tx : Transaction B) (store : Store B) :
    Outcome ExecutorError (ExecutionResult B) :=
  (Outcome.forEach
    (fun a => Outcome.expect "framework module must be present in store" store[a]?)
    [meowObjectModuleAddress, meowCoinModuleAddress]).bind fun inputs =>
  executeSystemTransaction P.toPlatform tx inputs

def totalGas (results : List (ExecutionResult B)) : UInt64 :=
  UInt64.ofNat (results.map (·.gasUsed)).sum

def applyBlockRewardTransaction [DecidableEq B] {ε : Type} (reward : SignedTransaction B S)
    (rewardResult : ExecutionResult B) (totalGas : UInt64) (miningBlockHash : Digest)
    (store : Store B) : Outcome ε (Option (Store B)) :=
  match validateSignedTransaction P.toPlatform P.toSigning reward with
  | .error _ => .ok none
  | .ok _ =>
    if isValidRewardTransaction P reward.transaction totalGas miningBlockHash then
      match executeRewardTransaction P reward.transaction store with
      | .ok result =>
        if result = rewardResult then (store.applyExecutionResult result).map some else .ok none
      | .err _ => .ok none
      | .panic m => .panic m
      | .diverge => .diverge
    else .ok none

/-- The store after the reward of a block that used `totalGas`; `none` if the reward is not the
one such a block must carry. -/
def applyReward [DecidableEq B] {ε : Type} (block : Block B S) (totalGas : UInt64)
    (store : Store B) : Outcome ε (Option (Store B)) :=
  match block.rewardTransaction, block.rewardTransactionResult with
  | none, none => if totalGas = 0 then .ok (some store) else .ok none
  | some reward, some result =>
    if totalGas = 0 then .ok none
    else applyBlockRewardTransaction P reward result totalGas (block.header.miningHash P) store
  | _, _ => .ok none

/-! ## Structure -/

/-- `validate_block_structure`, with the clock reading `now`. -/
def validateBlockStructure (now : UInt64) (block : Block B S) (difficulty : ℕ) :
    Except ChainError Unit :=
  if block.transactions.isEmpty then .error .emptyBlock
  else if block.transactions.length > maxTransactionsPerBlock then
    .error (.tooManyTransactions maxTransactionsPerBlock block.transactions.length)
  else if ¬ (block.transactions.map (SignedTransaction.digest P)).Nodup then
    .error .duplicateTransaction
  else if block.header.timestamp > now + maxBlockFutureDriftMs then
    .error .timestampTooFarInFuture
  else if block.results.length ≠ block.transactions.length then .error .resultsCountMismatch
  else if block.rewardTransaction.isSome ≠ block.rewardTransactionResult.isSome then
    .error .inconsistentReward
  else if block.header.height > 0 ∧ ¬ block.header.meetsDifficulty P difficulty then
    .error .powCheckFailed
  else if computeTransactionsRoot P block.transactions ≠ block.header.transactionsRoot then
    .error .transactionsRootMismatch
  else if block.rewardTransaction.map (SignedTransaction.digest P) ≠ block.header.rewardRoot then
    .error .rewardRootMismatch
  else .ok ()

/-- What `validate_block_structure` asks of a block. -/
structure Block.WellStructured (now : UInt64) (block : Block B S) (difficulty : ℕ) : Prop where
  nonempty : block.transactions ≠ []
  length_le : block.transactions.length ≤ maxTransactionsPerBlock
  nodup : (block.transactions.map (SignedTransaction.digest P)).Nodup
  timestamp_le : block.header.timestamp ≤ now + maxBlockFutureDriftMs
  results_length : block.results.length = block.transactions.length
  reward_isSome : block.rewardTransaction.isSome = block.rewardTransactionResult.isSome
  pow : 0 < block.header.height → block.header.meetsDifficulty P difficulty
  transactions_root : computeTransactionsRoot P block.transactions = block.header.transactionsRoot
  reward_root : block.rewardTransaction.map (SignedTransaction.digest P) = block.header.rewardRoot

theorem validateBlockStructure_eq_ok {now : UInt64} {block : Block B S} {difficulty : ℕ} :
    validateBlockStructure P now block difficulty = .ok () ↔
      block.WellStructured P now difficulty := by
  constructor
  · intro h
    unfold validateBlockStructure at h
    split_ifs at h with h₁ h₂ h₃ h₄ h₅ h₆ h₇ h₈ h₉
    exact {
      nonempty := by simpa using h₁
      length_le := Nat.le_of_not_lt h₂
      nodup := h₃
      timestamp_le := UInt64.not_lt.mp h₄
      results_length := not_not.mp h₅
      reward_isSome := not_not.mp h₆
      pow := fun hpos => by simpa [hpos] using h₇
      transactions_root := not_not.mp h₈
      reward_root := not_not.mp h₉ }
  · intro h
    unfold validateBlockStructure
    rw [if_neg (by simpa using h.nonempty), if_neg (Nat.not_lt.mpr h.length_le),
      if_neg (not_not.mpr h.nodup), if_neg (UInt64.not_lt.mpr h.timestamp_le),
      if_neg (not_not.mpr h.results_length), if_neg (not_not.mpr h.reward_isSome),
      if_neg (fun hp => hp.2 (h.pow hp.1)), if_neg (not_not.mpr h.transactions_root),
      if_neg (not_not.mpr h.reward_root)]

end Chain

end MeowChain
