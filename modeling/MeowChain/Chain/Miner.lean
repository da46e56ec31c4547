import MeowChain.Chain.Mempool
import MeowChain.Chain.State

/-!
# The miner

A round takes a batch from the mempool, searches a nonce, executes the batch on the head store and
searches again whenever transactions had to be dropped. The mined block is committed if the head
is still the one the round started from.
-/

set_option autoImplicit false

namespace MeowChain

def nonceCount : ℕ := 2 ^ 64

structure StateSnapshot (B S : Type) where
  head : Block B S
  objects : List (Object B)

inductive MinerError where
  | chainError (error : ChainError)
  | mempoolError (error : MempoolError)
  deriving DecidableEq

structure MiningWork (B S K : Type) where
  header : BlockHeader
  batch : List (SignedTransaction B S)
  parentStore : Store B
  difficulty : ℕ
  minerKeypair : K
  minerAddress : Address
  rewardAddress : Address

/-- `Miner`; the address is the one of the key pair. -/
structure Miner {B S K : Type} (P : ChainPlatform B S K) where
  chain : ChainState P
  mempool : Mempool B S
  keypair : K
  minerAddress : Address
  rewardAddress : Address
  batchSize : ℕ
  minerAddress_eq : minerAddress = P.keyAddress keypair

section Grind

variable {B S K : Type} (P : ChainPlatform B S K)

/-- The header with the first nonce that meets the difficulty, among the next `count` nonces. -/
def findNonce (difficulty : ℕ) (header : BlockHeader) : ℕ → UInt64 → Option BlockHeader
  | 0, _ => none
  | count + 1, nonce =>
    let candidate := { header with nonce }
    if candidate.meetsDifficulty P difficulty then some candidate
    else findNonce difficulty header count (nonce + 1)

structure BatchRun (B S : Type) where
  store : Store B
  executed : List (SignedTransaction B S × ExecutionResult B)

def BatchRun.transactions (run : BatchRun B S) : List (SignedTransaction B S) :=
  run.executed.map (·.1)

def BatchRun.results (run : BatchRun B S) : List (ExecutionResult B) :=
  run.executed.map (·.2)

def executeBatch (ext : ExternalContext) (store : Store B) :
    List (SignedTransaction B S) → Outcome Empty (BatchRun B S)
  | [] => .ok { store, executed := [] }
  | signed :: rest =>
    match store.executeTransaction P.toPlatform ext signed.transaction with
    | .ok next =>
      (executeBatch ext next.1 rest).map fun run =>
      { run with executed := (signed, next.2) :: run.executed }
    | .err _ => executeBatch ext store rest
    | .panic m => .panic m
    | .diverge => .diverge

def Transaction.sign (tx : Transaction B) (key : K) : SignedTransaction B S where
  transaction := tx
  signature := P.sign key (P.transactionDigest tx)

def mintReward (work : MiningWork B S K) (header : BlockHeader) (total : UInt64)
    (store : Store B) :
    Outcome Empty (Option (SignedTransaction B S × ExecutionResult B) × Store B) :=
  if total > 0 then
    let reward := (makeRewardTransaction P work.minerAddress work.rewardAddress total
      (header.miningHash P)).sign P work.minerKeypair
    match executeRewardTransaction P reward.transaction store with
    | .ok result =>
      (store.applyExecutionResult result).map fun store => (some (reward, result), store)
    | .err _ => .panic "block reward mint must not fail"
    | .panic m => .panic m
    | .diverge => .diverge
  else .ok (none, store)

/-- The block of a batch that was executed under `header`, with the store it leads to. -/
def sealBlock (work : MiningWork B S K) (header : BlockHeader) (run : BatchRun B S) :
    Outcome Empty (Block B S × Store B) :=
  (mintReward P work header (totalGas run.results) run.store).map fun minted =>
  let reward := minted.1.map (·.1)
  ({ header := {
       header with
       rewardRoot := reward.map (SignedTransaction.digest P)
       stateRoot := computeStateRoot P minted.2 }
     transactions := run.transactions
     results := run.results
     rewardTransaction := reward
     rewardTransactionResult := minted.1.map (·.2) }, minted.2)

/-- The outer loop of `grind`, for at most `rounds` turns. -/
def grindRounds (work : MiningWork B S K) :
    ℕ → BlockHeader → List (SignedTransaction B S) → Outcome Empty (Option (Block B S × Store B))
  | 0, _, _ => .diverge
  | rounds + 1, header, batch =>
    match findNonce P work.difficulty header nonceCount 0 with
    | none => .ok none
    | some header =>
      (executeBatch P (header.context P) work.parentStore batch).bind fun run =>
      if run.executed.isEmpty then .ok none
      else
        let actualRoot := computeTransactionsRoot P run.transactions
        if actualRoot = header.transactionsRoot then (sealBlock P work header run).map some
        else grindRounds work rounds { header with transactionsRoot := actualRoot } run.transactions

/-- Every turn but the last drops a transaction. -/
def MiningWork.grind (work : MiningWork B S K) : Outcome Empty (Option (Block B S × Store B)) :=
  grindRounds P work (work.batch.length + 1) work.header work.batch

end Grind

namespace Miner

variable {B S K : Type} {P : ChainPlatform B S K}

/-- A miner with an empty mempool; `Miner::with_genesis` and `Miner::empty` start on a new chain. -/
def ofChain (chain : ChainState P) (keypair : K) (rewardAddress : Address) (batchSize : ℕ) :
    Miner P where
  chain
  mempool := .empty
  keypair
  minerAddress := P.keyAddress keypair
  rewardAddress
  batchSize
  minerAddress_eq := rfl

variable (miner : Miner P)

def submitTransaction (signed : SignedTransaction B S) : Except MinerError (Miner P) :=
  match miner.mempool.submit P signed miner.chain.headStore with
  | .ok mempool => .ok { miner with mempool }
  | .error e => .error (.mempoolError e)

def applyBlock [DecidableEq B] (now : UInt64) (block : Block B S) :
    Outcome MinerError (Miner P × Bool) :=
  ((miner.chain.applyBlock now block).mapErr .chainError).map fun applied =>
  let chain := applied.1
  if applied.2 then
    ({ miner with chain, mempool := miner.mempool.retainValid P chain.headStore }, true)
  else ({ miner with chain }, false)

def replaceFromSnapshot (now : UInt64) (snapshot : StateSnapshot B S) :
    Except MinerError (Miner P) :=
  match ChainState.fromSnapshot P now miner.chain.headHeight snapshot.head
    (Store.withObjects snapshot.objects) miner.chain.difficulty miner.chain.snapshotDepth with
  | .ok chain => .ok { miner with chain, mempool := .empty }
  | .error e => .error (.chainError e)

def prepareRound (now : UInt64) : Option (MiningWork B S K) × Miner P :=
  if miner.mempool.pending.length < miner.batchSize then (none, miner)
  else
    let drained := miner.mempool.drainBatch P miner.batchSize
    (some {
      header := {
        height := miner.chain.headHeight + 1
        parentHash := miner.chain.head
        transactionsRoot := computeTransactionsRoot P drained.1
        rewardRoot := none
        stateRoot := 0
        timestamp := now
        nonce := 0 }
      batch := drained.1
      parentStore := miner.chain.headStore
      difficulty := miner.chain.difficulty
      minerKeypair := miner.keypair
      minerAddress := miner.minerAddress
      rewardAddress := miner.rewardAddress }, { miner with mempool := drained.2 })

def commitMined (now : UInt64) (block : Block B S) (store : Store B) :
    Outcome Empty (Miner P × Bool) :=
  if block.header.parentHash ≠ miner.chain.head then .ok (miner, false)
  else (miner.chain.commit now block store).map fun chain => ({ miner with chain }, true)

end Miner

end MeowChain
