import MeowChain.Chain.Miner

/-!
# Accepted blocks

What `apply_block` accepts, split into what depends on the node (what it knows, its clock, its
difficulty) and what depends only on the block and its parent; and that `grind` produces just
such blocks.
-/

set_option autoImplicit false

namespace MeowChain

variable {B S K : Type} {P : ChainPlatform B S K}

/-- What the libraries behind `ChainPlatform` promise: a signature verifies under its key, and BCS
reads back what it wrote and keeps a reward transaction within the limit on transactions. -/
structure ChainPlatform.Lawful (P : ChainPlatform B S K) : Prop where
  signer_sign : ∀ key digest, P.signer (P.sign key digest) = P.keyAddress key
  verify_sign : ∀ key digest, P.verify (P.sign key digest) digest = .ok ()
  decodeU64_encodeU64 : ∀ n, P.decodeU64 (P.encodeU64 n) = .ok n
  decodeAddress_encodeAddress : ∀ a, P.decodeAddress (P.encodeAddress a) = .ok a
  /-- In BCS these are 187 bytes. -/
  transactionSize_reward_le : ∀ signer rewardAddress amount miningBlockHash,
    P.transactionSize (makeRewardTransaction P signer rewardAddress amount miningBlockHash) ≤
      meowCallTransactionBcsBytesMaxSize

/-! ## Blocks on their parents -/

/-- `block` is a child of `parent`: one higher, with valid signatures, and leading from
`parentStore` to `store`. No clock and no difficulty are involved. -/
structure Block.Extends [DecidableEq B] (P : ChainPlatform B S K) (parent : Block B S)
    (parentStore : Store B) (block : Block B S) (store : Store B) : Prop where
  parentHash : block.header.parentHash = parent.hash P
  height : block.header.height = parent.header.height + 1
  signatures : ∀ signed ∈ block.transactions,
    validateSignedTransaction P.toPlatform P.toSigning signed = .ok ()
  replayed : ChainState.replay P parentStore block = .ok store

theorem ChainState.validSignatures_iff {block : Block B S} :
    ChainState.validSignatures P block = true ↔
      ∀ signed ∈ block.transactions,
        validateSignedTransaction P.toPlatform P.toSigning signed = .ok () := by
  unfold ChainState.validSignatures
  rw [List.all_eq_true]
  refine forall₂_congr fun signed _ => ?_
  cases validateSignedTransaction P.toPlatform P.toSigning signed <;> simp

theorem ChainState.replay_eq_ok [DecidableEq B] {parentStore store : Store B}
    {block : Block B S} :
    ChainState.replay P parentStore block = .ok store ↔
      ∃ executed,
        ChainState.reexecute P (block.header.context P) parentStore block.transactions =
          .ok (executed, block.results) ∧
        applyReward (ε := ChainError) P block (totalGas block.results) executed =
          .ok (some store) ∧
        computeStateRoot P store = block.header.stateRoot := by
  unfold ChainState.replay
  simp only [Outcome.bind_eq_ok]
  constructor
  · rintro ⟨⟨executed, results⟩, hrun, h⟩
    split_ifs at h with hresults
    obtain rfl := not_not.mp hresults
    obtain ⟨rewarded, hreward, h⟩ := Outcome.bind_eq_ok.mp h
    cases rewarded with
    | none => cases h
    | some rewardedStore =>
      simp only at h
      split_ifs at h with hroot
      cases h
      exact ⟨executed, hrun, hreward, not_not.mp hroot⟩
  · rintro ⟨executed, hrun, hreward, hroot⟩
    refine ⟨_, hrun, ?_⟩
    rw [if_neg (not_not.mpr rfl)]
    refine Outcome.bind_eq_ok.mpr ⟨_, hreward, ?_⟩
    exact if_neg (not_not.mpr hroot)

/-- The rewards `apply_block` takes: none without gas, else a signed reward transaction of the right
amount for the mining hash of the block, with the result of executing it. -/
theorem applyReward_eq_ok [DecidableEq B] {ε : Type} {block : Block B S} {total : UInt64}
    {store store' : Store B} :
    applyReward (ε := ε) P block total store = .ok (some store') ↔
      block.rewardTransaction = none ∧ block.rewardTransactionResult = none ∧ total = 0 ∧
          store' = store ∨
        ∃ reward result, block.rewardTransaction = some reward ∧
          block.rewardTransactionResult = some result ∧ total ≠ 0 ∧
          validateSignedTransaction P.toPlatform P.toSigning reward = .ok () ∧
          isValidRewardTransaction P reward.transaction total (block.header.miningHash P) = true ∧
          executeRewardTransaction P reward.transaction store = .ok result ∧
          store.applyExecutionResult (ε := ε) result = .ok store' := by
  unfold applyReward
  split
  case h_1 hreward hresult =>
    simp only [hreward, hresult]
    split_ifs with htotal
    · constructor
      · intro h
        cases h
        exact .inl ⟨trivial, trivial, htotal, rfl⟩
      · rintro (⟨-, -, -, rfl⟩ | ⟨_, _, hsome, -⟩)
        · rfl
        · cases hsome
    · simp [htotal]
  case h_2 reward result hreward hresult =>
    simp only [hreward, hresult]
    by_cases htotal : total = 0
    · simp [htotal]
    · unfold applyBlockRewardTransaction
      cases hsigned : validateSignedTransaction P.toPlatform P.toSigning reward with
      | error e => simp [htotal, hsigned]
      | ok _ =>
        by_cases hvalid : isValidRewardTransaction P reward.transaction total
            (block.header.miningHash P) = true
        · cases hexec : executeRewardTransaction P reward.transaction store with
          | ok recomputed =>
            by_cases hsame : recomputed = result
            · subst hsame
              simp [htotal, hsigned, hvalid, hexec, Outcome.map_eq_ok]
            · simp [htotal, hsigned, hvalid, hexec, hsame]
          | err e => simp [htotal, hvalid, hexec]
          | panic m => simp [htotal, hvalid, hexec]
          | diverge => simp [htotal, hvalid, hexec]
        · simp [htotal, hvalid]
  case h_3 hneither hboth =>
    simp only [Outcome.ok.injEq, reduceCtorEq, false_iff, not_or, not_and, not_exists]
    exact ⟨fun hreward hresult => absurd hresult (hneither hreward),
      fun reward result hreward hresult => absurd hresult (hboth reward result hreward)⟩

/-- What `apply_block` asks of a block at clock reading `now`, with the parent, its store and the
store the block leads to. -/
structure ChainState.Accepts [DecidableEq B] (chain : ChainState P) (now : UInt64)
    (block parent : Block B S) (parentStore store : Store B) : Prop where
  unknown : block.hash P ∉ chain.blocks
  parent_known : chain.blocks[block.header.parentHash]? = some parent
  parent_snapshot : chain.snapshots[block.header.parentHash]? = some parentStore
  structured : block.WellStructured P now chain.difficulty
  timestamp : parent.header.timestamp < block.header.timestamp
  extends_parent : Block.Extends P parent parentStore block store

theorem ChainState.applyBlock_eq_ok [DecidableEq B] {chain : ChainState P} {now : UInt64}
    {block : Block B S} {r : ChainState P × Bool} :
    chain.applyBlock now block = .ok r ↔
      ∃ parent parentStore store, chain.Accepts now block parent parentStore store ∧
        r = chain.keep block store := by
  unfold ChainState.applyBlock
  constructor
  · intro h
    split at h
    case isTrue => cases h
    rename_i hknown
    split at h
    case h_2 => cases h
    case h_1 parent parentStore hparent hsnapshot =>
      split at h
      case h_1 => cases h
      case h_2 hstructure =>
        simp only at h
        split_ifs at h with hheight htime hsigs
        obtain ⟨store, hreplay, rfl⟩ := Outcome.map_eq_ok.mp h
        refine ⟨parent, parentStore, store, ?_, rfl⟩
        exact {
          unknown := hknown
          parent_known := hparent
          parent_snapshot := hsnapshot
          structured := (validateBlockStructure_eq_ok P).mp hstructure
          timestamp := UInt64.not_le.mp htime
          extends_parent := {
            parentHash := (chain.hash_eq _ _ hparent).symm
            height := not_not.mp hheight
            signatures := validSignatures_iff.mp hsigs
            replayed := hreplay } }
  · rintro ⟨parent, parentStore, store, h, rfl⟩
    rw [if_neg h.unknown, h.parent_known, h.parent_snapshot,
      (validateBlockStructure_eq_ok P).mpr h.structured]
    simp only
    rw [if_neg (not_not.mpr h.extends_parent.height), if_neg (UInt64.not_le.mpr h.timestamp),
      if_neg (not_not.mpr (validSignatures_iff.mpr h.extends_parent.signatures)),
      h.extends_parent.replayed]
    rfl

theorem ChainState.commit_eq_ok {ε : Type} {chain chain' : ChainState P} {now : UInt64}
    {block : Block B S} {store : Store B} :
    chain.commit (ε := ε) now block store = .ok chain' ↔
      block.WellStructured P now chain.difficulty ∧ chain' = chain.adopt block store := by
  rw [← validateBlockStructure_eq_ok]
  unfold ChainState.commit
  cases validateBlockStructure P now block chain.difficulty <;> simp [eq_comm]

theorem ChainState.fromSnapshot_eq_ok {now height : UInt64} {block : Block B S}
    {store : Store B} {difficulty : ℕ} {depth : UInt64} {chain : ChainState P} :
    ChainState.fromSnapshot P now height block store difficulty depth = .ok chain ↔
      height < block.header.height ∧ block.WellStructured P now difficulty ∧
        computeStateRoot P store = block.header.stateRoot ∧
        chain = .single P block store difficulty depth := by
  rw [← validateBlockStructure_eq_ok]
  unfold ChainState.fromSnapshot
  by_cases hheight : block.header.height ≤ height
  · simp [hheight, UInt64.not_lt.mpr hheight, bind, Except.bind, throw, throwThe,
      MonadExceptOf.throw]
  · cases hstructure : validateBlockStructure P now block difficulty with
    | error e => simp [hheight, bind, Except.bind]
    | ok _ =>
      by_cases hroot : computeStateRoot P store = block.header.stateRoot
      · simp [hheight, hroot, UInt64.not_le.mp hheight, bind, Except.bind, pure, Except.pure,
          eq_comm]
      · simp [hheight, hroot, bind, Except.bind, throw, throwThe, MonadExceptOf.throw]

/-! ## What rounds start with -/

structure Miner.Prepares (miner : Miner P) (now : UInt64) (work : MiningWork B S K) : Prop where
  height : work.header.height = miner.chain.headHeight + 1
  parentHash : work.header.parentHash = miner.chain.head
  timestamp : work.header.timestamp = now
  batch : work.batch = (miner.mempool.drainBatch P miner.batchSize).1
  parentStore : work.parentStore = miner.chain.headStore
  difficulty : work.difficulty = miner.chain.difficulty
  minerAddress : work.minerAddress = P.keyAddress work.minerKeypair

theorem Miner.prepareRound_eq_some {miner miner' : Miner P} {now : UInt64}
    {work : MiningWork B S K} (h : miner.prepareRound now = (some work, miner')) :
    miner.Prepares now work ∧
      miner' = { miner with mempool := (miner.mempool.drainBatch P miner.batchSize).2 } := by
  unfold Miner.prepareRound at h
  split_ifs at h with hlength
  · cases (Prod.mk.inj h).1
  · obtain ⟨hwork, rfl⟩ := Prod.mk.inj h
    obtain rfl := Option.some.inj hwork
    exact ⟨⟨rfl, rfl, rfl, rfl, rfl, rfl, miner.minerAddress_eq⟩, rfl⟩

theorem Mempool.drainBatch_length_le (pool : Mempool B S) (limit : ℕ) :
    (pool.drainBatch P limit).1.length ≤ limit := by
  show (pool.pending.take _).length ≤ limit
  rw [List.length_take]
  omega

/-! ## Mined blocks -/

/-- The header of a round stays that of its work apart from the transactions root and the nonce. -/
structure BlockHeader.SameRound (header other : BlockHeader) : Prop where
  height : header.height = other.height
  parentHash : header.parentHash = other.parentHash
  timestamp : header.timestamp = other.timestamp

theorem BlockHeader.SameRound.trans {h₁ h₂ h₃ : BlockHeader} (h₁₂ : h₁.SameRound h₂)
    (h₂₃ : h₂.SameRound h₃) : h₁.SameRound h₃ where
  height := h₁₂.height.trans h₂₃.height
  parentHash := h₁₂.parentHash.trans h₂₃.parentHash
  timestamp := h₁₂.timestamp.trans h₂₃.timestamp

theorem findNonce_eq_some {difficulty : ℕ} {header found : BlockHeader} {count : ℕ}
    {nonce : UInt64} (h : findNonce P difficulty header count nonce = some found) :
    found.meetsDifficulty P difficulty = true ∧ found.SameRound header := by
  induction count generalizing nonce with
  | zero => cases h
  | succ count ih =>
    unfold findNonce at h
    simp only at h
    split_ifs at h with hmeets
    · cases h
      exact ⟨hmeets, rfl, rfl, rfl⟩
    · exact ih h

/-- The transactions a batch run kept execute again, alone, to the same store and results. -/
theorem executeBatch_eq_ok {ext : ExternalContext} {store : Store B}
    {batch : List (SignedTransaction B S)} {run : BatchRun B S}
    (h : executeBatch P ext store batch = .ok run) :
    run.transactions.Sublist batch ∧
      ChainState.reexecute P ext store run.transactions = .ok (run.store, run.results) := by
  induction batch generalizing store run with
  | nil =>
    cases h
    exact ⟨.slnil, rfl⟩
  | cons signed rest ih =>
    unfold executeBatch at h
    split at h
    case h_1 next hnext =>
      obtain ⟨run', hrun', rfl⟩ := Outcome.map_eq_ok.mp h
      obtain ⟨hsub, hre⟩ := ih hrun'
      refine ⟨hsub.cons_cons signed, ?_⟩
      refine Outcome.bind_eq_ok.mpr ⟨next, Outcome.mapErr_eq_ok.mpr hnext, ?_⟩
      exact Outcome.map_eq_ok.mpr ⟨_, hre, rfl⟩
    case h_2 =>
      obtain ⟨hsub, hre⟩ := ih h
      exact ⟨hsub.cons signed, hre⟩
    case h_3 => cases h
    case h_4 => cases h

section Reward

variable (hP : P.Lawful)
include hP

theorem validateTransaction_reward (signer rewardAddress : Address) (amount : UInt64)
    (miningBlockHash : Digest) :
    validateTransaction P.toPlatform
      (makeRewardTransaction P signer rewardAddress amount miningBlockHash) = .ok () := by
  have hsize := hP.transactionSize_reward_le signer rewardAddress amount miningBlockHash
  unfold validateTransaction
  simp only [makeRewardTransaction] at hsize ⊢
  rw [show validateTransactionSize P.toPlatform _ meowCallTransactionBcsBytesMaxSize = .ok () from
    if_neg (Nat.not_lt_of_le hsize)]
  rfl

theorem validateSignedTransaction_sign {tx : Transaction B} {key : K}
    (htx : validateTransaction P.toPlatform tx = .ok ()) (hsender : tx.sender = P.keyAddress key) :
    validateSignedTransaction P.toPlatform P.toSigning (tx.sign P key) = .ok () := by
  unfold validateSignedTransaction
  simp only [Transaction.sign, htx, bind, Except.bind, hP.signer_sign, hsender, ne_eq,
    not_true_eq_false, if_false, hP.verify_sign, Except.mapError]

theorem isValidRewardTransaction_make (signer rewardAddress : Address) (amount : UInt64)
    (miningBlockHash : Digest) :
    isValidRewardTransaction P (makeRewardTransaction P signer rewardAddress amount miningBlockHash)
      amount miningBlockHash = true := by
  simp [isValidRewardTransaction, makeRewardTransaction, hP.decodeU64_encodeU64,
    hP.decodeAddress_encodeAddress]

/-- The reward a miner mints is one that `apply_block` takes. -/
theorem applyReward_of_mintReward [DecidableEq B] {ε : Type} {work : MiningWork B S K}
    {header : BlockHeader} {total : UInt64} {store store' : Store B}
    {minted : Option (SignedTransaction B S × ExecutionResult B)} {block : Block B S}
    (hkey : work.minerAddress = P.keyAddress work.minerKeypair)
    (hmint : mintReward P work header total store = .ok (minted, store'))
    (hhash : block.header.miningHash P = header.miningHash P)
    (hreward : block.rewardTransaction = minted.map (·.1))
    (hresult : block.rewardTransactionResult = minted.map (·.2)) :
    applyReward (ε := ε) P block total store = .ok (some store') := by
  unfold mintReward at hmint
  split_ifs at hmint with htotal
  · simp only at hmint
    split at hmint
    case h_1 result hexec =>
      obtain ⟨applied, happly, hpair⟩ := Outcome.map_eq_ok.mp hmint
      obtain ⟨rfl, rfl⟩ := Prod.mk.inj hpair
      have hpos : total ≠ 0 := by
        rintro rfl
        exact absurd htotal (by decide)
      refine applyReward_eq_ok.mpr (.inr ⟨_, _, hreward, hresult, hpos, ?_, ?_, hexec,
        Store.applyExecutionResult_eq_ok happly⟩)
      · exact validateSignedTransaction_sign hP (validateTransaction_reward hP _ _ _ _) hkey
      · rw [hhash]
        exact isValidRewardTransaction_make hP _ _ _ _
    case h_2 => cases hmint
    case h_3 => cases hmint
    case h_4 => cases hmint
  · cases hmint
    have hzero : total = 0 := UInt64.le_zero_iff.mp (UInt64.not_lt.mp htotal)
    exact applyReward_eq_ok.mpr (.inl ⟨hreward, hresult, hzero, rfl⟩)

end Reward

structure MiningWork.Mines [DecidableEq B] (P : ChainPlatform B S K) (work : MiningWork B S K)
    (block : Block B S) (store : Store B) : Prop where
  height : block.header.height = work.header.height
  parentHash : block.header.parentHash = work.header.parentHash
  timestamp : block.header.timestamp = work.header.timestamp
  pow : block.header.meetsDifficulty P work.difficulty = true
  nonempty : block.transactions ≠ []
  transactions : block.transactions.Sublist work.batch
  results_length : block.results.length = block.transactions.length
  reward_isSome : block.rewardTransaction.isSome = block.rewardTransactionResult.isSome
  transactions_root : computeTransactionsRoot P block.transactions = block.header.transactionsRoot
  reward_root : block.rewardTransaction.map (SignedTransaction.digest P) = block.header.rewardRoot
  replayed : ChainState.replay P work.parentStore block = .ok store

section Grind

variable [DecidableEq B] (hP : P.Lawful)
include hP

theorem mines_of_sealBlock {work : MiningWork B S K} {header : BlockHeader} {run : BatchRun B S}
    {block : Block B S} {store : Store B}
    (hkey : work.minerAddress = P.keyAddress work.minerKeypair)
    (hround : header.SameRound work.header) (hpow : header.meetsDifficulty P work.difficulty = true)
    (hrun : ChainState.reexecute P (header.context P) work.parentStore run.transactions =
      .ok (run.store, run.results))
    (hsub : run.transactions.Sublist work.batch) (hne : run.executed ≠ [])
    (hroot : computeTransactionsRoot P run.transactions = header.transactionsRoot)
    (hseal : sealBlock P work header run = .ok (block, store)) :
    work.Mines P block store := by
  obtain ⟨⟨minted, store'⟩, hmint, hpair⟩ := Outcome.map_eq_ok.mp hseal
  obtain ⟨rfl, rfl⟩ := Prod.mk.inj hpair
  exact {
    height := hround.height
    parentHash := hround.parentHash
    timestamp := hround.timestamp
    pow := hpow
    nonempty := by simpa [BatchRun.transactions] using hne
    transactions := hsub
    results_length := by simp [BatchRun.results, BatchRun.transactions]
    reward_isSome := by simp
    transactions_root := hroot
    reward_root := rfl
    replayed := ChainState.replay_eq_ok.mpr
      ⟨run.store, hrun, applyReward_of_mintReward hP hkey hmint rfl rfl rfl, rfl⟩ }

theorem mines_of_grindRounds {work : MiningWork B S K} {rounds : ℕ} {header : BlockHeader}
    {batch : List (SignedTransaction B S)} {block : Block B S} {store : Store B}
    (hkey : work.minerAddress = P.keyAddress work.minerKeypair)
    (hround : header.SameRound work.header) (hsub : batch.Sublist work.batch)
    (h : grindRounds P work rounds header batch = .ok (some (block, store))) :
    work.Mines P block store := by
  induction rounds generalizing header batch with
  | zero => cases h
  | succ rounds ih =>
    unfold grindRounds at h
    split at h
    case h_1 => cases h
    case h_2 found hfound =>
      obtain ⟨hpow, hfound⟩ := findNonce_eq_some hfound
      have hround' := hfound.trans hround
      obtain ⟨run, hrun, h⟩ := Outcome.bind_eq_ok.mp h
      obtain ⟨hkept, hre⟩ := executeBatch_eq_ok hrun
      dsimp only at h
      split_ifs at h with hempty hroot
      · cases h
      · obtain ⟨sealed, hseal, hsome⟩ := Outcome.map_eq_ok.mp h
        cases hsome
        exact mines_of_sealBlock hP hkey hround' hpow hre
          (hkept.trans hsub) (by simpa using hempty) hroot hseal
      · refine ih ?_ (hkept.trans hsub) h
        exact ⟨hround'.height, hround'.parentHash, hround'.timestamp⟩

theorem MiningWork.mines_of_grind {work : MiningWork B S K} {block : Block B S} {store : Store B}
    (hkey : work.minerAddress = P.keyAddress work.minerKeypair)
    (h : work.grind P = .ok (some (block, store))) :
    work.Mines P block store :=
  mines_of_grindRounds hP hkey ⟨rfl, rfl, rfl⟩ (List.Sublist.refl _) h

end Grind

theorem MiningWork.Mines.wellStructured [DecidableEq B] {work : MiningWork B S K}
    {block : Block B S} {store : Store B} (h : work.Mines P block store)
    (hlength : work.batch.length ≤ maxTransactionsPerBlock)
    (hnodup : (work.batch.map (SignedTransaction.digest P)).Nodup) {now : UInt64}
    (hclock : work.header.timestamp ≤ now + maxBlockFutureDriftMs) :
    block.WellStructured P now work.difficulty where
  nonempty := h.nonempty
  length_le := h.transactions.length_le.trans hlength
  nodup := hnodup.sublist (h.transactions.map _)
  timestamp_le := h.timestamp ▸ hclock
  results_length := h.results_length
  reward_isSome := h.reward_isSome
  pow _ := h.pow
  transactions_root := h.transactions_root
  reward_root := h.reward_root

end MeowChain
