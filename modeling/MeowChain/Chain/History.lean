import MeowChain.Chain.Agreement
import Mathlib.Data.Set.Basic

/-!
# Ancestries and replays

A block stands at the end of a line of blocks that starts at the genesis block, and the store kept
for it is what executing that line gives: whatever forks, head switches and pruning happened on the
way, and whether the block was applied or mined.
-/

set_option autoImplicit false

namespace MeowChain

variable {B S K : Type}

section Replay

variable (P : ChainPlatform B S K)

/-- Execute the transactions of a block, then its reward; nothing is compared with the block. -/
def executeBlock (store : Store B) (block : Block B S) : Outcome ChainError (Store B) :=
  (ChainState.reexecute P (block.header.context P) store block.transactions).bind fun run =>
  match block.rewardTransaction with
  | none => .ok run.1
  | some reward =>
    ((executeRewardTransaction P reward.transaction run.1).mapErr fun _ => .invalidReward).bind
      fun result => run.1.applyExecutionResult result

/-- Execute a line of blocks, given with the last one first. -/
def executeChain (initialStore : Store B) : List (Block B S) → Outcome ChainError (Store B)
  | [] => .ok initialStore
  | block :: path => (executeChain initialStore path).bind fun store => executeBlock P store block

inductive Ancestry : Block B S → List (Block B S) → Prop where
  | genesis : Ancestry .genesis []
  | child {parent block : Block B S} {path : List (Block B S)} (hparent : Ancestry parent path)
      (hlink : block.header.parentHash = parent.hash P) : Ancestry block (block :: path)

def Block.allTransactions (block : Block B S) : List (SignedTransaction B S) :=
  block.transactions ++ block.rewardTransaction.toList

/-- No two of the values hashed for the blocks in `world` have the same digest, and no block has
the placeholder for its hash. -/
structure CollisionFree (world : Set (Block B S)) : Prop where
  genesis : .genesis ∈ world
  header : ∀ b ∈ world, ∀ b' ∈ world, b.hash P = b'.hash P → b.header = b'.header
  placeholder : ∀ b ∈ world, b.hash P ≠ 0
  root : ∀ b ∈ world, ∀ b' ∈ world,
    computeTransactionsRoot P b.transactions = computeTransactionsRoot P b'.transactions →
      b.transactions.map (SignedTransaction.digest P) =
        b'.transactions.map (SignedTransaction.digest P)
  transaction : ∀ b ∈ world, ∀ b' ∈ world, ∀ t ∈ b.allTransactions, ∀ t' ∈ b'.allTransactions,
    t.digest P = t'.digest P → t.transaction = t'.transaction

/-- `block` ends a line of accepted blocks of `world` that leads from `initialStore` to `store`. -/
inductive Lineage [DecidableEq B] (world : Set (Block B S)) (initialStore : Store B) :
    Block B S → Store B → List (Block B S) → Prop where
  | genesis : Lineage world initialStore .genesis initialStore []
  | child {parent block : Block B S} {parentStore store : Store B} {path : List (Block B S)}
      {now : UInt64} {difficulty : ℕ} (hparent : Lineage world initialStore parent parentStore path)
      (hextends : Block.Extends P parent parentStore block store)
      (hstructured : block.WellStructured P now difficulty) (hmem : block ∈ world) :
      Lineage world initialStore block store (block :: path)

end Replay

variable {P : ChainPlatform B S K}

section Lineage

variable {world : Set (Block B S)} {initialStore : Store B}

/-! ## Blocks with the same hash -/

theorem reexecute_congr {ext : ExternalContext} {store : Store B}
    {ts ts' : List (SignedTransaction B S)}
    (h : ts.map (·.transaction) = ts'.map (·.transaction)) :
    ChainState.reexecute P ext store ts = ChainState.reexecute P ext store ts' := by
  induction ts generalizing ts' store with
  | nil => rw [List.map_eq_nil_iff.mp h.symm]
  | cons t ts ih =>
    cases ts' with
    | nil => cases h
    | cons t' ts' =>
      rw [List.map_cons, List.map_cons, List.cons.injEq] at h
      unfold ChainState.reexecute
      rw [h.1]
      simp only [ih h.2]

theorem CollisionFree.transactions_eq {b b' : Block B S} (hworld : CollisionFree P world)
    (hb : b ∈ world) (hb' : b' ∈ world) {ts ts' : List (SignedTransaction B S)}
    (hts : ∀ t ∈ ts, t ∈ b.allTransactions) (hts' : ∀ t ∈ ts', t ∈ b'.allTransactions)
    (h : ts.map (SignedTransaction.digest P) = ts'.map (SignedTransaction.digest P)) :
    ts.map (·.transaction) = ts'.map (·.transaction) := by
  induction ts generalizing ts' with
  | nil => rw [List.map_eq_nil_iff.mp h.symm]
  | cons t ts ih =>
    cases ts' with
    | nil => cases h
    | cons t' ts' =>
      rw [List.map_cons, List.map_cons, List.cons.injEq] at h
      rw [List.forall_mem_cons] at hts hts'
      rw [List.map_cons, List.map_cons, ih hts.2 hts'.2 h.2,
        hworld.transaction b hb b' hb' t hts.1 t' hts'.1 h.1]

theorem CollisionFree.hash_ne_genesis {parent block : Block B S} (hworld : CollisionFree P world)
    (hblock : block ∈ world) (hparent : parent ∈ world)
    (hlink : block.header.parentHash = parent.hash P) :
    block.hash P ≠ Block.hash P (.genesis : Block B S) := by
  intro heq
  have hheader := hworld.header block hblock _ hworld.genesis heq
  refine hworld.placeholder parent hparent ?_
  rw [← hlink, hheader]
  rfl

theorem CollisionFree.same_transactions {b b' : Block B S} (hworld : CollisionFree P world)
    (hb : b ∈ world) (hb' : b' ∈ world) {now now' : UInt64} {difficulty difficulty' : ℕ}
    (hstructured : b.WellStructured P now difficulty)
    (hstructured' : b'.WellStructured P now' difficulty') (hhash : b.hash P = b'.hash P) :
    b.transactions.map (·.transaction) = b'.transactions.map (·.transaction) ∧
      b.rewardTransaction.toList.map (·.transaction) =
        b'.rewardTransaction.toList.map (·.transaction) := by
  have hheader := hworld.header b hb b' hb' hhash
  constructor
  · refine hworld.transactions_eq hb hb' (fun t ht => List.mem_append_left _ ht)
      (fun t ht => List.mem_append_left _ ht) (hworld.root b hb b' hb' ?_)
    rw [hstructured.transactions_root, hstructured'.transactions_root, hheader]
  · refine hworld.transactions_eq hb hb' (fun t ht => List.mem_append_right _ ht)
      (fun t ht => List.mem_append_right _ ht) ?_
    rw [← Option.toList_map, ← Option.toList_map, hstructured.reward_root,
      hstructured'.reward_root, hheader]

/-- Two blocks with the same hash execute alike. -/
theorem CollisionFree.executeBlock_eq {b b' : Block B S} (hworld : CollisionFree P world)
    (hb : b ∈ world) (hb' : b' ∈ world) {now now' : UInt64} {difficulty difficulty' : ℕ}
    (hstructured : b.WellStructured P now difficulty)
    (hstructured' : b'.WellStructured P now' difficulty') (hhash : b.hash P = b'.hash P)
    (store : Store B) :
    executeBlock P store b = executeBlock P store b' := by
  have hheader := hworld.header b hb b' hb' hhash
  obtain ⟨htransactions, hrewards⟩ :=
    hworld.same_transactions hb hb' hstructured hstructured' hhash
  unfold executeBlock
  rw [hheader, reexecute_congr htransactions]
  cases hreward : b.rewardTransaction with
  | none =>
    cases hreward' : b'.rewardTransaction with
    | none => rfl
    | some reward' => simp [hreward, hreward'] at hrewards
  | some reward =>
    cases hreward' : b'.rewardTransaction with
    | none => simp [hreward, hreward'] at hrewards
    | some reward' =>
      simp only [hreward, hreward', Option.toList_some, List.map_cons, List.map_nil,
        List.cons.injEq, and_true] at hrewards
      simp only [hrewards]

/-! ## Lineages are replays of ancestries -/

variable [DecidableEq B]

theorem executeBlock_of_replay {parentStore store : Store B} {block : Block B S}
    (h : ChainState.replay P parentStore block = .ok store) :
    executeBlock P parentStore block = .ok store := by
  obtain ⟨executed, hrun, hreward, -⟩ := ChainState.replay_eq_ok.mp h
  refine Outcome.bind_eq_ok.mpr ⟨_, hrun, ?_⟩
  obtain ⟨hnone, -, -, rfl⟩ | ⟨reward, result, hsome, -, -, -, -, hexec, happly⟩ :=
    applyReward_eq_ok.mp hreward
  · rw [hnone]
  · rw [hsome]
    exact Outcome.bind_eq_ok.mpr ⟨_, Outcome.mapErr_eq_ok.mpr hexec, happly⟩

theorem Lineage.ancestry {block : Block B S} {store : Store B} {path : List (Block B S)}
    (h : Lineage P world initialStore block store path) :
    Ancestry P block path ∧ executeChain P initialStore path = .ok store := by
  induction h with
  | genesis => exact ⟨.genesis, rfl⟩
  | child _ hextends _ _ ih =>
    exact ⟨.child ih.1 hextends.parentHash,
      Outcome.bind_eq_ok.mpr ⟨_, ih.2, executeBlock_of_replay hextends.replayed⟩⟩

theorem Lineage.mem_world {block : Block B S} {store : Store B} {path : List (Block B S)}
    (hworld : CollisionFree P world) (h : Lineage P world initialStore block store path) :
    block ∈ world := by
  cases h with
  | genesis => exact hworld.genesis
  | child _ _ _ hmem => exact hmem

/-- There is one store for a hash. -/
theorem Lineage.store_unique (hworld : CollisionFree P world) {b b' : Block B S}
    {s s' : Store B} {path path' : List (Block B S)} (h : Lineage P world initialStore b s path)
    (h' : Lineage P world initialStore b' s' path') (hhash : b.hash P = b'.hash P) : s = s' := by
  induction h generalizing b' s' path' with
  | genesis =>
    cases h' with
    | genesis => rfl
    | child hparent' hextends' _ hmem' =>
      exact absurd hhash.symm
        (hworld.hash_ne_genesis hmem' (hparent'.mem_world hworld) hextends'.parentHash)
  | child hparent hextends hstructured hmem ih =>
    cases h' with
    | genesis =>
      exact absurd hhash
        (hworld.hash_ne_genesis hmem (hparent.mem_world hworld) hextends.parentHash)
    | child hparent' hextends' hstructured' hmem' =>
      have hheader := hworld.header _ hmem _ hmem' hhash
      have hparents := ih hparent' (by rw [← hextends.parentHash, ← hextends'.parentHash, hheader])
      subst hparents
      have hexec := executeBlock_of_replay hextends.replayed
      rw [hworld.executeBlock_eq hmem hmem' hstructured hstructured' hhash,
        executeBlock_of_replay hextends'.replayed] at hexec
      exact (Outcome.ok.inj hexec).symm

/-! ## Every node keeps lineages -/

/-- An event of a node that is never reset to a snapshot, with blocks of `world` only. -/
def Node.GrowsIn (world : Set (Block B S)) (node : Node P) : NodeEvent B S → Prop
  | .apply _ block => block ∈ world
  | .finish round _ => ∀ work block store, node.rounds[round]? = some work →
      work.grind P = .ok (some (block, store)) → block ∈ world
  | .replace _ _ => False
  | .submit _ => True
  | .prepare _ => True

structure MiningWork.StartedIn (P : ChainPlatform B S K) (world : Set (Block B S))
    (initialStore : Store B) (work : MiningWork B S K) : Prop where
  minerAddress : work.minerAddress = P.keyAddress work.minerKeypair
  validated : ∀ signed ∈ work.batch,
    validateSignedTransaction P.toPlatform P.toSigning signed = .ok ()
  parent : ∃ parent path, Lineage P world initialStore parent work.parentStore path ∧
    work.header.parentHash = parent.hash P ∧ work.header.height = parent.header.height + 1

structure Node.Historic (world : Set (Block B S)) (initialStore : Store B) (node : Node P) :
    Prop where
  mempool : node.miner.mempool.Sound P
  known : ∀ (hash : Digest) (block : Block B S) (store : Store B),
    node.miner.chain.blocks[hash]? = some block → node.miner.chain.snapshots[hash]? = some store →
      ∃ path, Lineage P world initialStore block store path
  rounds : ∀ work ∈ node.rounds, work.StartedIn P world initialStore

/-- A mined block continues the lineage its round started on. -/
theorem MiningWork.StartedIn.lineage (hP : P.Lawful) {work : MiningWork B S K} {block : Block B S}
    {store : Store B} {now : UInt64} {difficulty : ℕ}
    (hwork : work.StartedIn P world initialStore)
    (hgrind : work.grind P = .ok (some (block, store)))
    (hstructured : block.WellStructured P now difficulty) (hmem : block ∈ world) :
    ∃ path, Lineage P world initialStore block store path := by
  have hmines := MiningWork.mines_of_grind hP hwork.minerAddress hgrind
  obtain ⟨parent, path, hparent, hhash, hheight⟩ := hwork.parent
  have hextends : Block.Extends P parent work.parentStore block store := {
    parentHash := hmines.parentHash.trans hhash
    height := hmines.height.trans hheight
    signatures := fun signed hsigned =>
      hwork.validated signed (hmines.transactions.mem hsigned)
    replayed := hmines.replayed }
  exact ⟨_, .child hparent hextends hstructured hmem⟩

theorem Node.Historic.insertBlock {node : Node P} (h : node.Historic world initialStore)
    {block : Block B S} {store : Store B}
    (hblock : ∃ path, Lineage P world initialStore block store path) {hash : Digest}
    {other : Block B S} {otherStore : Store B}
    (hother : (node.miner.chain.insertBlock block store).blocks[hash]? = some other)
    (hotherStore : (node.miner.chain.insertBlock block store).snapshots[hash]? =
      some otherStore) :
    ∃ path, Lineage P world initialStore other otherStore path := by
  obtain ⟨rfl, rfl⟩ | ⟨hold, holdStore⟩ :=
    node.miner.chain.insertBlock_entry hother hotherStore
  · exact hblock
  · exact h.known hash other otherStore hold holdStore

theorem Node.Historic.adopt {node : Node P} (h : node.Historic world initialStore)
    {block : Block B S} {store : Store B}
    (hblock : ∃ path, Lineage P world initialStore block store path) {hash : Digest}
    {other : Block B S} {otherStore : Store B}
    (hother : (node.miner.chain.adopt block store).blocks[hash]? = some other)
    (hotherStore : (node.miner.chain.adopt block store).snapshots[hash]? = some otherStore) :
    ∃ path, Lineage P world initialStore other otherStore path :=
  h.insertBlock hblock (node.miner.chain.adopt_blocks.mp hother).1
    (node.miner.chain.adopt_snapshots.mp hotherStore).1

theorem Node.Historic.lineage {node : Node P} (h : node.Historic world initialStore) {now : UInt64}
    {block parent : Block B S} {parentStore store : Store B}
    (haccepts : node.miner.chain.Accepts now block parent parentStore store)
    (hmem : block ∈ world) :
    ∃ path, Lineage P world initialStore block store path := by
  obtain ⟨path, hparent⟩ := h.known _ _ _ haccepts.parent_known haccepts.parent_snapshot
  exact ⟨_, .child hparent haccepts.extends_parent haccepts.structured hmem⟩

theorem Node.Historic.moves (hP : P.Lawful) {node node' : Node P} {event : NodeEvent B S}
    (h : node.Historic world initialStore) (hgrows : node.GrowsIn world event)
    (hmoves : Node.Moves node event node') : node'.Historic world initialStore := by
  cases hmoves with
  | idle => exact h
  | submit hpool => exact ⟨h.mempool.submit P hpool, h.known, h.rounds⟩
  | prepare hprepare =>
    obtain ⟨hwork, rfl⟩ := Miner.prepareRound_eq_some hprepare
    refine ⟨h.mempool.drainBatch P _, h.known, ?_⟩
    intro work hmem
    rcases List.mem_append.mp hmem with hold | hnew
    · exact h.rounds work hold
    · obtain rfl := List.mem_singleton.mp hnew
      obtain ⟨path, hpath⟩ := h.known _ _ _ node.miner.chain.getElem?_head
        node.miner.chain.getElem?_head_snapshot
      exact {
        minerAddress := hwork.minerAddress
        validated := hwork.batch ▸ (h.mempool.batch P _).2
        parent := ⟨_, path, hwork.parentStore ▸ hpath,
          hwork.parentHash.trans node.miner.chain.headBlock_hash.symm, hwork.height⟩ }
  | discard =>
    exact ⟨h.mempool, h.known, fun work hmem => h.rounds work (List.mem_of_mem_eraseIdx hmem)⟩
  | stale =>
    exact ⟨h.mempool, h.known, fun work hmem => h.rounds work (List.mem_of_mem_eraseIdx hmem)⟩
  | commit hwork hgrind _ hstructured =>
    have hblock := (h.rounds _ (List.mem_of_getElem? hwork)).lineage hP hgrind hstructured
      (hgrows _ _ _ hwork hgrind)
    exact ⟨h.mempool, fun _ _ _ => h.adopt hblock,
      fun work hmem => h.rounds work (List.mem_of_mem_eraseIdx hmem)⟩
  | store haccepts =>
    exact ⟨h.mempool, fun _ _ _ => h.insertBlock (h.lineage haccepts hgrows), h.rounds⟩
  | adopt haccepts =>
    exact ⟨h.mempool.retainValid P _, fun _ _ _ => h.adopt (h.lineage haccepts hgrows), h.rounds⟩
  | replace => exact hgrows.elim

theorem Node.historic_start (difficulty : ℕ) (snapshotDepth : UInt64) (keypair : K)
    (rewardAddress : Address) (batchSize : ℕ) :
    (Node.start (.new P initialStore difficulty snapshotDepth) keypair rewardAddress
      batchSize).Historic world initialStore where
  mempool := Mempool.sound_empty P
  known hash block store hblock hstore := by
    obtain ⟨-, rfl⟩ | ⟨-, hempty⟩ := getElem?_insert_eq_some.mp hblock
    · obtain ⟨-, rfl⟩ | ⟨-, hempty⟩ := getElem?_insert_eq_some.mp hstore
      · exact ⟨[], .genesis⟩
      · simp at hempty
    · simp at hempty
  rounds := by simp [Node.start]

theorem Node.historic_of_run (hP : P.Lawful) {difficulty : ℕ} {snapshotDepth : UInt64}
    {keypair : K} {rewardAddress : Address} {batchSize : ℕ} {node : Node P}
    (hrun : Node.Run (Node.GrowsIn world) (Node.start (.new P initialStore difficulty snapshotDepth)
      keypair rewardAddress batchSize) node) :
    node.Historic world initialStore :=
  Node.Run.invariant (fun h hgrows hmoves => h.moves hP hgrows hmoves) hrun
    (Node.historic_start _ _ _ _ _)

/-- The snapshot of every known block is the replay of its line of accepted blocks from the initial
store; two nodes that started from the same store have the same store for a hash; and the head store
is the replay of the line of the head. -/
theorem snapshots_are_replays (hP : P.Lawful) (hworld : CollisionFree P world) {difficulty : ℕ}
    {snapshotDepth : UInt64} {keypair : K} {rewardAddress : Address} {batchSize : ℕ}
    {node : Node P}
    (hrun : Node.Run (Node.GrowsIn world) (Node.start (.new P initialStore difficulty snapshotDepth)
      keypair rewardAddress batchSize) node) :
    (∀ (hash : Digest) (block : Block B S) (store : Store B),
      node.miner.chain.blocks[hash]? = some block →
      node.miner.chain.snapshots[hash]? = some store →
        ∃ path, Lineage P world initialStore block store path ∧ Ancestry P block path ∧
          executeChain P initialStore path = .ok store) ∧
    (∀ {difficulty' : ℕ} {snapshotDepth' : UInt64} {keypair' : K} {rewardAddress' : Address}
      {batchSize' : ℕ} {node' : Node P} (hash : Digest) (store store' : Store B),
      Node.Run (Node.GrowsIn world) (Node.start (.new P initialStore difficulty' snapshotDepth')
        keypair' rewardAddress' batchSize') node' →
      node.miner.chain.snapshots[hash]? = some store →
      node'.miner.chain.snapshots[hash]? = some store' → store = store') ∧
    ∃ path,
      Lineage P world initialStore node.miner.chain.headBlock node.miner.chain.headStore path ∧
      Ancestry P node.miner.chain.headBlock path ∧
      executeChain P initialStore path = .ok node.miner.chain.headStore := by
  have hnode := Node.historic_of_run hP hrun
  refine ⟨?_, ?_, ?_⟩
  · intro hash block store hblock hstore
    obtain ⟨path, hpath⟩ := hnode.known hash block store hblock hstore
    exact ⟨path, hpath, hpath.ancestry⟩
  · intro _ _ _ _ _ node' hash store store' hrun' hstore hstore'
    have hnode' := Node.historic_of_run hP hrun'
    obtain ⟨block, hblock⟩ := node.miner.chain.block_of_snapshot hstore
    obtain ⟨block', hblock'⟩ := node'.miner.chain.block_of_snapshot hstore'
    obtain ⟨path, hpath⟩ := hnode.known hash block store hblock hstore
    obtain ⟨path', hpath'⟩ := hnode'.known hash block' store' hblock' hstore'
    refine hpath.store_unique hworld hpath' ?_
    rw [node.miner.chain.hash_eq _ _ hblock, node'.miner.chain.hash_eq _ _ hblock']
  · obtain ⟨path, hpath⟩ := hnode.known _ _ _ node.miner.chain.getElem?_head
      node.miner.chain.getElem?_head_snapshot
    exact ⟨path, hpath, hpath.ancestry⟩

end Lineage

/-! ## A block on the small chain -/

namespace Sample

def growsIn (blocks : List (Block Bytes (Address × Digest))) (node : Node chainPlatform) :
    NodeEvent Bytes (Address × Digest) → Bool
  | .apply _ block => decide (block ∈ blocks)
  | .finish round _ =>
    match node.rounds[round]? with
    | none => true
    | some work =>
      match work.grind chainPlatform with
      | .ok (some mined) => decide (mined.1 ∈ blocks)
      | _ => true
  | .replace _ _ => false
  | .submit _ => true
  | .prepare _ => true

theorem growsIn_sound {blocks : List (Block Bytes (Address × Digest))}
    (node : Node chainPlatform) (event : NodeEvent Bytes (Address × Digest))
    (h : growsIn blocks node event = true) :
    node.GrowsIn { block | block ∈ blocks } event := by
  cases event with
  | apply now block =>
    have hmem : block ∈ blocks := of_decide_eq_true h
    exact hmem
  | finish round now =>
    intro work block store hwork hgrind
    simp only [growsIn, hwork, hgrind] at h
    exact of_decide_eq_true h
  | replace now snapshot => cases h
  | submit signed => trivial
  | prepare now => trivial

/-- The genesis block and the block that is mined on it at clock reading 5. -/
def firstBlocks : List (Block Bytes (Address × Digest)) :=
  .genesis :: (peerBlock 5).toList

theorem collisionFree_of_list {blocks : List (Block Bytes (Address × Digest))}
    (h : .genesis ∈ blocks ∧ ∀ b ∈ blocks, b.hash chainPlatform ≠ 0 ∧ ∀ b' ∈ blocks,
      (b.hash chainPlatform = b'.hash chainPlatform → b.header = b'.header) ∧
      (computeTransactionsRoot chainPlatform b.transactions =
          computeTransactionsRoot chainPlatform b'.transactions →
        b.transactions.map (SignedTransaction.digest chainPlatform) =
          b'.transactions.map (SignedTransaction.digest chainPlatform)) ∧
      ∀ t ∈ b.allTransactions, ∀ t' ∈ b'.allTransactions,
        t.digest chainPlatform = t'.digest chainPlatform → t.transaction = t'.transaction) :
    CollisionFree chainPlatform { block | block ∈ blocks } where
  genesis := h.1
  header b hb b' hb' := ((h.2 b hb).2 b' hb').1
  placeholder b hb := (h.2 b hb).1
  root b hb b' hb' := ((h.2 b hb).2 b' hb').2.1
  transaction b hb b' hb' := ((h.2 b hb).2 b' hb').2.2

theorem firstBlocks_collisionFree :
    CollisionFree chainPlatform { block | block ∈ firstBlocks } :=
  collisionFree_of_list (by decide +kernel)

/-- A store without the function that mints rewards: they fail, and blocks are quick to check. -/
def bareStore : Store Bytes := Store.withObjects [
  .freshModule meowObjectModuleAddress 0 .objectModule,
  .freshModule meowCoinModuleAddress 0 .objectModule,
  coinAt 8, coinAt 9]

def shallowNode : Node chainPlatform :=
  .start (.new chainPlatform bareStore 0 2) 77 78 1

def payingSigned (store : Store Bytes) (coin : Address) :
    SignedTransaction Bytes (Address × Digest) :=
  match store[coin]? with
  | none => failingSigned coin
  | some obj => Transaction.sign chainPlatform { failingCall coin with
      gasCoin := ⟨coin, obj.version, chainPlatform.objectDigest obj⟩ } owner

def mineLine (allowed : Node chainPlatform → NodeEvent Bytes (Address × Digest) → Bool)
    (coin : Address) : Node chainPlatform → List UInt64 → Outcome MinerError (Node chainPlatform) :=
  Outcome.foldl fun node now => node.handleAll allowed
    [.submit (payingSigned node.miner.chain.headStore coin), .prepare now, .finish 0 now]

theorem run_of_mineLine {allowed : Node chainPlatform → NodeEvent Bytes (Address × Digest) → Bool}
    {Allowed : Node chainPlatform → NodeEvent Bytes (Address × Digest) → Prop}
    (hallowed : ∀ node event, allowed node event = true → Allowed node event) {coin : Address}
    {node node' : Node chainPlatform} {times : List UInt64}
    (h : mineLine allowed coin node times = .ok node') : Node.Run Allowed node node' := by
  induction times generalizing node with
  | nil =>
    cases h
    exact .refl
  | cons now times ih =>
    obtain ⟨next, hnext, hrest⟩ := Outcome.bind_eq_ok.mp h
    exact (Node.run_of_handleAll hallowed hnext).trans (ih hrest)

def lineBlocks (coin : Address) (times : List UInt64) : List (Block Bytes (Address × Digest)) :=
  times.inits.filterMap fun times =>
    match mineLine (fun _ _ => true) coin shallowNode times with
    | .ok node => some node.miner.chain.headBlock
    | _ => none

/-- Two blocks on one side of a fork and four on the other. -/
def forkBlocks : List (Block Bytes (Address × Digest)) :=
  lineBlocks 8 [5, 6] ++ lineBlocks 9 [5, 6, 7, 8]

theorem forkBlocks_collisionFree :
    CollisionFree chainPlatform { block | block ∈ forkBlocks } :=
  collisionFree_of_list (by decide +kernel)

end Sample

open Sample in
theorem snapshots_are_replays_mined :
    ∃ (node : Node chainPlatform) (path : List (Block Bytes (Address × Digest))),
      node.miner.chain.headHeight = 1 ∧
      Lineage chainPlatform { block | block ∈ firstBlocks } genesisStore node.miner.chain.headBlock
        node.miner.chain.headStore path ∧
      Ancestry chainPlatform node.miner.chain.headBlock path ∧
      executeChain chainPlatform genesisStore path = .ok node.miner.chain.headStore := by
  obtain ⟨node, hnode, hheight⟩ := Outcome.exists_of_isOkAnd
    (x := startNode.handleAll (growsIn firstBlocks)
      [.submit (failingSigned 8), .prepare 5, .finish 0 5])
    (p := fun node : Node chainPlatform => decide (node.miner.chain.headHeight = 1))
    (by decide +kernel)
  obtain ⟨path, hpath⟩ := (snapshots_are_replays chainPlatform_lawful firstBlocks_collisionFree
    (Node.run_of_handleAll growsIn_sound hnode)).2.2
  exact ⟨node, path, of_decide_eq_true hheight, hpath⟩

end MeowChain
