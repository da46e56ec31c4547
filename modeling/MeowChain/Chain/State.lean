import MeowChain.Chain.Blocks
import MeowChain.Lib.Maps

/-!
# The chain state

Every known block is stored with the store it leads to; the head is the block that was last
committed or that made the chain longest.
-/

set_option autoImplicit false

namespace MeowChain

variable {B S K : Type}

/-- `ChainState`. Blocks are indexed by their hash, the head is a known block and exactly the known
blocks have a snapshot, so the lookups that the code expects to succeed do. -/
structure ChainState (P : ChainPlatform B S K) where
  blocks : Std.ExtTreeMap Digest (Block B S)
  snapshots : Std.ExtTreeMap Digest (Store B)
  head : Digest
  difficulty : ℕ
  snapshotDepth : UInt64
  head_mem : head ∈ blocks
  mem_snapshots : ∀ hash, hash ∈ blocks ↔ hash ∈ snapshots
  hash_eq : ∀ (hash : Digest) (block : Block B S), blocks[hash]? = some block → block.hash P = hash

namespace ChainState

section

variable (P : ChainPlatform B S K)

def single (block : Block B S) (store : Store B) (difficulty : ℕ) (snapshotDepth : UInt64) :
    ChainState P where
  blocks := (∅ : Std.ExtTreeMap Digest (Block B S)).insert (block.hash P) block
  snapshots := (∅ : Std.ExtTreeMap Digest (Store B)).insert (block.hash P) store
  head := block.hash P
  difficulty
  snapshotDepth
  head_mem := Std.ExtTreeMap.mem_insert_self
  mem_snapshots h := by simp [Std.ExtTreeMap.mem_insert]
  hash_eq h other hget := by
    obtain ⟨rfl, rfl⟩ | ⟨-, hempty⟩ := getElem?_insert_eq_some.mp hget
    · rfl
    · simp at hempty

def new (initialStore : Store B) (difficulty : ℕ) (snapshotDepth : UInt64) : ChainState P :=
  single P .genesis initialStore difficulty snapshotDepth

def fromSnapshot (now currentHeadHeight : UInt64) (headBlock : Block B S) (store : Store B)
    (difficulty : ℕ) (snapshotDepth : UInt64) : Except ChainError (ChainState P) := do
  let snapHeight := headBlock.header.height
  if snapHeight ≤ currentHeadHeight then
    throw (.snapshotNotAdvancing snapHeight currentHeadHeight)
  validateBlockStructure P now headBlock difficulty
  if computeStateRoot P store ≠ headBlock.header.stateRoot then throw .stateRootMismatch
  return single P headBlock store difficulty snapshotDepth

end

variable {P : ChainPlatform B S K} (chain : ChainState P)

def headBlock : Block B S :=
  chain.blocks.get chain.head chain.head_mem

def headStore : Store B :=
  chain.snapshots.get chain.head ((chain.mem_snapshots _).mp chain.head_mem)

def headHeight : UInt64 :=
  chain.headBlock.header.height

/-- The first height a sync asks for; a saturating subtraction. -/
def syncFromHeight : UInt64 :=
  if chain.headHeight ≤ chain.snapshotDepth then 0 else chain.headHeight - chain.snapshotDepth

def getBlocksSince (height : UInt64) : List (Block B S) :=
  (chain.blocks.toList.map (·.2)).filter fun block => block.header.height ≥ height

theorem getElem?_head :
    chain.blocks[chain.head]? = some chain.headBlock :=
  Std.ExtTreeMap.getElem?_eq_some_getElem chain.head_mem

theorem getElem?_head_snapshot :
    chain.snapshots[chain.head]? = some chain.headStore :=
  Std.ExtTreeMap.getElem?_eq_some_getElem ((chain.mem_snapshots _).mp chain.head_mem)

theorem block_of_snapshot {hash : Digest} {store : Store B}
    (h : chain.snapshots[hash]? = some store) :
    ∃ block, chain.blocks[hash]? = some block := by
  have hmem := (chain.mem_snapshots hash).mpr (mem_of_getElem? h)
  exact ⟨_, Std.ExtTreeMap.getElem?_eq_some_getElem hmem⟩

theorem headBlock_hash :
    chain.headBlock.hash P = chain.head :=
  chain.hash_eq _ _ chain.getElem?_head

def insertBlock (block : Block B S) (store : Store B) : ChainState P where
  blocks := chain.blocks.insert (block.hash P) block
  snapshots := chain.snapshots.insert (block.hash P) store
  head := chain.head
  difficulty := chain.difficulty
  snapshotDepth := chain.snapshotDepth
  head_mem := Std.ExtTreeMap.mem_insert.mpr (.inr chain.head_mem)
  mem_snapshots h := by
    simp only [Std.ExtTreeMap.mem_insert, chain.mem_snapshots h]
  hash_eq h other hget := by
    obtain ⟨rfl, rfl⟩ | ⟨-, hold⟩ := getElem?_insert_eq_some.mp hget
    · rfl
    · exact chain.hash_eq h other hold

theorem insertBlock_entry {block other : Block B S} {store otherStore : Store B} {hash : Digest}
    (hblock : (chain.insertBlock block store).blocks[hash]? = some other)
    (hstore : (chain.insertBlock block store).snapshots[hash]? = some otherStore) :
    other = block ∧ otherStore = store ∨
      chain.blocks[hash]? = some other ∧ chain.snapshots[hash]? = some otherStore := by
  obtain ⟨hhash, rfl⟩ | ⟨hne, hold⟩ := getElem?_insert_eq_some.mp hblock
  · obtain ⟨-, rfl⟩ | ⟨hne, -⟩ := getElem?_insert_eq_some.mp hstore
    · exact .inl ⟨rfl, rfl⟩
    · exact absurd hhash hne
  · obtain ⟨hhash, -⟩ | ⟨-, holdStore⟩ := getElem?_insert_eq_some.mp hstore
    · exact absurd hhash hne
    · exact .inr ⟨hold, holdStore⟩

variable {chain} in
theorem insertBlock_headBlock {block : Block B S} {store : Store B}
    (hunknown : block.hash P ∉ chain.blocks) :
    (chain.insertBlock block store).headBlock = chain.headBlock := by
  have hget : (chain.insertBlock block store).blocks[chain.head]? =
      some (chain.insertBlock block store).headBlock := getElem?_head _
  obtain ⟨hhash, -⟩ | ⟨-, hold⟩ := getElem?_insert_eq_some.mp hget
  · exact absurd (hhash ▸ chain.head_mem) hunknown
  · rw [getElem?_head] at hold
    exact (Option.some.inj hold).symm

variable {chain} in
theorem insertBlock_headStore {block : Block B S} {store : Store B}
    (hunknown : block.hash P ∉ chain.blocks) :
    (chain.insertBlock block store).headStore = chain.headStore := by
  have hget : (chain.insertBlock block store).snapshots[chain.head]? =
      some (chain.insertBlock block store).headStore := getElem?_head_snapshot _
  obtain ⟨hhash, -⟩ | ⟨-, hold⟩ := getElem?_insert_eq_some.mp hget
  · exact absurd (hhash ▸ chain.head_mem) hunknown
  · rw [getElem?_head_snapshot] at hold
    exact (Option.some.inj hold).symm

def setHead (hash : Digest) (h : hash ∈ chain.blocks) : ChainState P :=
  { chain with head := hash, head_mem := h }

def finalizedBlocks : List Digest :=
  if chain.headHeight ≤ chain.snapshotDepth then []
  else
    (chain.blocks.toList.filter fun entry =>
      entry.2.header.height < chain.headHeight - chain.snapshotDepth).map (·.1)

theorem mem_finalizedBlocks {hash : Digest} :
    hash ∈ chain.finalizedBlocks ↔
      chain.snapshotDepth < chain.headHeight ∧ ∃ block, chain.blocks[hash]? = some block ∧
        block.header.height < chain.headHeight - chain.snapshotDepth := by
  unfold finalizedBlocks
  split_ifs with hdepth
  · simp [UInt64.not_lt.mpr hdepth]
  · simp only [List.mem_map, List.mem_filter, Prod.exists, decide_eq_true_eq,
      Std.ExtTreeMap.mem_toList_iff_getElem?_eq_some, UInt64.not_le.mp hdepth, true_and]
    constructor
    · rintro ⟨_, block, hblock, rfl⟩
      exact ⟨block, hblock⟩
    · rintro ⟨block, hblock⟩
      exact ⟨hash, block, hblock, rfl⟩

theorem head_notMem_finalizedBlocks :
    chain.head ∉ chain.finalizedBlocks := by
  rw [mem_finalizedBlocks]
  rintro ⟨hdepth, block, hget, hlow⟩
  rw [getElem?_head] at hget
  obtain rfl : chain.headBlock = block := Option.some.inj hget
  -- The head itself is at its own height, so it is not below a smaller number.
  have hle : chain.headHeight - chain.snapshotDepth ≤ chain.headHeight :=
    UInt64.sub_le (UInt64.le_of_lt hdepth)
  exact UInt64.not_lt.mpr hle hlow

def pruneFinalizedBlocks : ChainState P :=
  { chain with
    blocks := eraseAll chain.blocks chain.finalizedBlocks
    snapshots := eraseAll chain.snapshots chain.finalizedBlocks
    head_mem := mem_eraseAll.mpr ⟨chain.head_mem, chain.head_notMem_finalizedBlocks⟩
    mem_snapshots := fun hash => by
      rw [mem_eraseAll, mem_eraseAll, chain.mem_snapshots hash]
    hash_eq := fun hash block hget => by
      rw [getElem?_eraseAll_of_notMem (mem_eraseAll.mp (mem_of_getElem? hget)).2] at hget
      exact chain.hash_eq hash block hget }

def adopt (block : Block B S) (store : Store B) : ChainState P :=
  ((chain.insertBlock block store).setHead (block.hash P)
    Std.ExtTreeMap.mem_insert_self).pruneFinalizedBlocks

/-- The blocks that stay when `block` becomes the head: those not too far below it. -/
theorem adopt_blocks {block : Block B S} {store : Store B} {hash : Digest} {other : Block B S} :
    (chain.adopt block store).blocks[hash]? = some other ↔
      (chain.insertBlock block store).blocks[hash]? = some other ∧
        (chain.snapshotDepth < block.header.height →
          block.header.height - chain.snapshotDepth ≤ other.header.height) := by
  set switched := (chain.insertBlock block store).setHead (block.hash P)
    Std.ExtTreeMap.mem_insert_self with hswitched
  have hhead : switched.headHeight = block.header.height := by
    have hget : switched.blocks[block.hash P]? = some switched.headBlock := switched.getElem?_head
    obtain ⟨-, hblock⟩ | ⟨hne, -⟩ := getElem?_insert_eq_some.mp hget
    · exact (congrArg (·.header.height) hblock).symm
    · exact absurd rfl hne
  show (eraseAll switched.blocks switched.finalizedBlocks)[hash]? = some other ↔
    switched.blocks[hash]? = some other ∧ _
  rw [getElem?_eraseAll_eq_some, mem_finalizedBlocks, hhead]
  refine and_congr_right fun hget => ?_
  simp only [hget, Option.some.injEq, exists_eq_left', not_and, UInt64.not_lt]
  exact Iff.rfl

theorem adopt_snapshots {block : Block B S} {store : Store B} {hash : Digest} {other : Store B} :
    (chain.adopt block store).snapshots[hash]? = some other ↔
      (chain.insertBlock block store).snapshots[hash]? = some other ∧
        hash ∈ (chain.adopt block store).blocks := by
  set switched := (chain.insertBlock block store).setHead (block.hash P)
    Std.ExtTreeMap.mem_insert_self
  show (eraseAll switched.snapshots switched.finalizedBlocks)[hash]? = some other ↔
    switched.snapshots[hash]? = some other ∧
      hash ∈ eraseAll switched.blocks switched.finalizedBlocks
  rw [getElem?_eraseAll_eq_some, mem_eraseAll, switched.mem_snapshots]
  refine and_congr_right fun hget => ?_
  exact (and_iff_right (mem_of_getElem? hget)).symm

@[simp] theorem adopt_head (block : Block B S) (store : Store B) :
    (chain.adopt block store).head = block.hash P := rfl

theorem adopt_headBlock (block : Block B S) (store : Store B) :
    (chain.adopt block store).headBlock = block := by
  have hget := (chain.adopt_blocks.mp (chain.adopt block store).getElem?_head).1
  obtain ⟨-, hblock⟩ | ⟨hne, -⟩ := getElem?_insert_eq_some.mp hget
  · exact hblock.symm
  · exact absurd rfl hne

theorem adopt_headStore (block : Block B S) (store : Store B) :
    (chain.adopt block store).headStore = store := by
  have hget := (chain.adopt_snapshots.mp (chain.adopt block store).getElem?_head_snapshot).1
  obtain ⟨-, hstore⟩ | ⟨hne, -⟩ := getElem?_insert_eq_some.mp hget
  · exact hstore.symm
  · exact absurd rfl hne

/-- Keep a checked block; it becomes the head if it is higher. -/
def keep (block : Block B S) (store : Store B) : ChainState P × Bool :=
  if block.header.height > chain.headHeight then (chain.adopt block store, true)
  else (chain.insertBlock block store, false)

theorem keep_snapshot (block : Block B S) (store : Store B) :
    (chain.keep block store).1.snapshots[block.hash P]? = some store := by
  unfold keep
  split_ifs
  · have hget := (chain.adopt block store).getElem?_head_snapshot
    rwa [adopt_headStore] at hget
  · exact getElem?_insert_eq_some.mpr (.inl ⟨rfl, rfl⟩)

def commit {ε : Type} (now : UInt64) (block : Block B S) (store : Store B) :
    Outcome ε (ChainState P) :=
  match validateBlockStructure P now block chain.difficulty with
  | .error _ => .panic "commit called with structurally invalid block"
  | .ok _ => .ok (chain.adopt block store)

section

variable (P)

def reexecute (ext : ExternalContext) (store : Store B) :
    List (SignedTransaction B S) → Outcome ChainError (Store B × List (ExecutionResult B))
  | [] => .ok (store, [])
  | signed :: rest =>
    ((store.executeTransaction P.toPlatform ext signed.transaction).mapErr
      fun _ => .executionFailed).bind fun next =>
    (reexecute ext next.1 rest).map fun last => (last.1, next.2 :: last.2)

def replay [DecidableEq B] (parentStore : Store B) (block : Block B S) :
    Outcome ChainError (Store B) :=
  (reexecute P (block.header.context P) parentStore block.transactions).bind fun run =>
  if run.2 ≠ block.results then .err .resultsMismatch
  else
    (applyReward P block (totalGas run.2) run.1).bind fun rewarded =>
    match rewarded with
    | none => .err .invalidReward
    | some store =>
      if computeStateRoot P store ≠ block.header.stateRoot then .err .stateRootMismatch
      else .ok store

def validSignatures (block : Block B S) : Bool :=
  block.transactions.all fun signed =>
    match validateSignedTransaction P.toPlatform P.toSigning signed with
    | .ok _ => true
    | .error _ => false

end

/-- `apply_block`, with the clock reading `now`; the flag says whether the head changed. -/
def applyBlock [DecidableEq B] (now : UInt64) (block : Block B S) :
    Outcome ChainError (ChainState P × Bool) :=
  if block.hash P ∈ chain.blocks then .err .alreadyKnown
  -- A known parent has a snapshot: the second lookup succeeds with the first.
  else match chain.blocks[block.header.parentHash]?, chain.snapshots[block.header.parentHash]? with
  | some parent, some parentStore =>
    match validateBlockStructure P now block chain.difficulty with
    | .error e => .err e
    | .ok _ =>
      let expected := parent.header.height + 1
      if block.header.height ≠ expected then .err (.invalidHeight expected block.header.height)
      else if block.header.timestamp ≤ parent.header.timestamp then .err .timestampNotAdvancing
      else if ¬ validSignatures P block then .err .invalidSignature
      else (replay P parentStore block).map fun store => chain.keep block store
  | _, _ => .err .unknownParent

/-- The blocks from `hash` back along the parents, as far as they are known; `steps` bounds how
many are followed. -/
def ancestors (steps : ℕ) (hash : Digest) : List (Block B S) :=
  match steps with
  | 0 => []
  | steps + 1 =>
    match chain.blocks[hash]? with
    | none => []
    | some block => block :: ancestors steps block.header.parentHash

end ChainState

end MeowChain
