import MeowChain.Chain.Invariant

/-!
# Catching up with a peer

A node that is behind asks a peer for its blocks and applies them in ascending order. Both have
pruned what is too far below their own head, so the first block of the peer's canonical chain that
arrives need not have a parent the node knows.
-/

set_option autoImplicit false

namespace MeowChain

variable {B S K : Type} {P : ChainPlatform B S K}

structure ValidWorld (P : ChainPlatform B S K) (world : Set (Block B S)) : Prop
    extends CollisionFree P world where
  timestamp : ∀ b ∈ world, ∀ p ∈ world, b.header.parentHash = p.hash P →
    p.header.timestamp < b.header.timestamp

/-- `block` descends from `ancestor` by parents in `world`. -/
def Descends (P : ChainPlatform B S K) (world : Set (Block B S)) (ancestor block : Block B S) :
    Prop :=
  Relation.ReflTransGen
    (fun parent child => parent ∈ world ∧ child ∈ world ∧ child.header.parentHash = parent.hash P)
    ancestor block

def AgreeAt (P : ChainPlatform B S K) (world : Set (Block B S)) (head head' : Block B S)
    (height : ℕ) : Prop :=
  ∃ common common', Descends P world common head ∧ Descends P world common' head' ∧
    common.hash P = common'.hash P ∧ common.level = height

section Time

variable {world : Set (Block B S)} {initialStore : Store B}

open Classical in
/-- The timestamp of the block with a hash, counted from one. -/
noncomputable def timeRank (P : ChainPlatform B S K) (world : Set (Block B S)) (hash : Digest) :
    ℕ :=
  if h : ∃ b ∈ world, b.hash P = hash then h.choose.header.timestamp.toNat + 1 else 0

theorem ValidWorld.timeRank_hash (hworld : ValidWorld P world) {b : Block B S} (hb : b ∈ world) :
    timeRank P world (b.hash P) = b.header.timestamp.toNat + 1 := by
  have hexists : ∃ b' ∈ world, b'.hash P = b.hash P := ⟨b, hb, rfl⟩
  obtain ⟨hmem, hhash⟩ := hexists.choose_spec
  unfold timeRank
  rw [dif_pos hexists, hworld.header _ hmem b hb hhash]

theorem ValidWorld.hashLinks (hworld : ValidWorld P world) :
    HashLinks P world (timeRank P world) where
  header := hworld.header
  link b hb := by
    rw [hworld.timeRank_hash hb]
    by_cases hparent : ∃ p ∈ world, p.hash P = b.header.parentHash
    · obtain ⟨p, hp, hhash⟩ := hparent
      have htime := UInt64.lt_iff_toNat_lt.mp (hworld.timestamp b hb p hp hhash.symm)
      rw [← hhash, hworld.timeRank_hash hp]
      omega
    · unfold timeRank
      rw [dif_neg hparent]
      omega

variable [DecidableEq B]

/-- Heights do not overflow along valid blocks: the timestamps would overflow first. -/
theorem Lineage.level_eq (hworld : ValidWorld P world) {block : Block B S} {store : Store B}
    {path : List (Block B S)} (h : Lineage P world initialStore block store path) :
    block.level = path.length ∧ path.length ≤ block.header.timestamp.toNat := by
  induction h with
  | genesis => exact ⟨rfl, Nat.zero_le _⟩
  | @child parent block _ _ path _ _ hparent hextends _ hmem ih =>
    have htime := UInt64.lt_iff_toNat_lt.mp
      (hworld.timestamp block hmem parent (hparent.mem_world hworld.toCollisionFree)
        hextends.parentHash)
    have hbound := block.header.timestamp.toNat_lt
    have hlevel : block.level = (parent.level + 1) % 2 ^ 64 := by
      unfold Block.level
      rw [hextends.height, UInt64.toNat_add]
      rfl
    rw [List.length_cons]
    refine ⟨?_, by omega⟩
    rw [hlevel, Nat.mod_eq_of_lt] <;> omega

theorem Lineage.block_unique {b b' : Block B S} {s s' : Store B} {path : List (Block B S)}
    (h : Lineage P world initialStore b s path) (h' : Lineage P world initialStore b' s' path) :
    b = b' := by
  cases h with
  | genesis =>
    cases h'
    rfl
  | child =>
    cases h'
    rfl

theorem Lineage.ancestor (hworld : CollisionFree P world) {ancestor block twin : Block B S}
    (hdescends : Descends P world ancestor block) (hheader : twin.header = block.header)
    {store : Store B} {path : List (Block B S)}
    (h : Lineage P world initialStore twin store path) :
    ∃ a s line, Lineage P world initialStore a s line ∧ a.header = ancestor.header ∧
      line <:+ path := by
  induction hdescends generalizing twin store path with
  | refl => exact ⟨twin, store, path, h, hheader, List.suffix_refl _⟩
  | @tail parent block _ hlink ih =>
    obtain ⟨hparent, hblock, hhash⟩ := hlink
    cases h with
    | genesis =>
      -- The parent of the genesis block is the placeholder.
      refine absurd ?_ (hworld.placeholder parent hparent)
      rw [← hhash, ← hheader]
      rfl
    | @child other _ otherStore _ path _ _ hother hextends _ _ =>
      have hsame : other.header = parent.header := by
        refine hworld.header _ (hother.mem_world hworld) _ hparent ?_
        rw [← hextends.parentHash, hheader, hhash]
      obtain ⟨a, s, line, ha, haheader, hline⟩ := ih hsame hother
      exact ⟨a, s, line, ha, haheader, hline.trans (List.suffix_cons _ _)⟩

end Time

/-! ## Nodes that grow on valid blocks -/

section Nodes

variable [DecidableEq B] {world : Set (Block B S)} {initialStore : Store B} {difficulty : ℕ}
  {depth : UInt64}

/-- The settings are the ones the node started with, and every block but the genesis block was
checked against them. -/
structure Node.Checked (difficulty : ℕ) (depth : UInt64) (node : Node P) : Prop where
  difficulty_eq : node.miner.chain.difficulty = difficulty
  depth_eq : node.miner.chain.snapshotDepth = depth
  structured : ∀ (hash : Digest) (block : Block B S), node.miner.chain.blocks[hash]? = some block →
    block = .genesis ∨ ∃ now, block.WellStructured P now difficulty

omit [DecidableEq B] in
theorem Node.Checked.insertBlock {node : Node P} (h : node.Checked difficulty depth)
    {block : Block B S} {store : Store B} {now : UInt64}
    (hblock : block.WellStructured P now node.miner.chain.difficulty) (hash : Digest)
    (b : Block B S) (hb : (node.miner.chain.insertBlock block store).blocks[hash]? = some b) :
    b = .genesis ∨ ∃ now, b.WellStructured P now difficulty := by
  obtain ⟨-, rfl⟩ | ⟨-, hold⟩ := getElem?_insert_eq_some.mp hb
  · exact .inr ⟨now, h.difficulty_eq ▸ hblock⟩
  · exact h.structured hash b hold

omit [DecidableEq B] in
theorem Node.Checked.adopt {node : Node P} (h : node.Checked difficulty depth)
    {block : Block B S} {store : Store B} {now : UInt64}
    (hblock : block.WellStructured P now node.miner.chain.difficulty) (hash : Digest)
    (b : Block B S) (hb : (node.miner.chain.adopt block store).blocks[hash]? = some b) :
    b = .genesis ∨ ∃ now, b.WellStructured P now difficulty :=
  h.insertBlock hblock hash b (node.miner.chain.adopt_blocks.mp hb).1

theorem Node.Checked.moves {node node' : Node P} {event : NodeEvent B S}
    (h : node.Checked difficulty depth) (hgrows : node.GrowsIn world event)
    (hmoves : Node.Moves node event node') : node'.Checked difficulty depth := by
  cases hmoves with
  | idle => exact h
  | submit => exact ⟨h.difficulty_eq, h.depth_eq, h.structured⟩
  | prepare hprepare =>
    obtain ⟨-, rfl⟩ := Miner.prepareRound_eq_some hprepare
    exact ⟨h.difficulty_eq, h.depth_eq, h.structured⟩
  | discard => exact ⟨h.difficulty_eq, h.depth_eq, h.structured⟩
  | stale => exact ⟨h.difficulty_eq, h.depth_eq, h.structured⟩
  | commit _ _ _ hstructured => exact ⟨h.difficulty_eq, h.depth_eq, h.adopt hstructured⟩
  | store haccepts => exact ⟨h.difficulty_eq, h.depth_eq, h.insertBlock haccepts.structured⟩
  | adopt haccepts => exact ⟨h.difficulty_eq, h.depth_eq, h.adopt haccepts.structured⟩
  | replace => exact hgrows.elim

omit [DecidableEq B] in
theorem Node.checked_start (initialStore : Store B) (keypair : K) (rewardAddress : Address)
    (batchSize : ℕ) :
    (Node.start (.new P initialStore difficulty depth) keypair rewardAddress batchSize).Checked
      difficulty depth where
  difficulty_eq := rfl
  depth_eq := rfl
  structured hash block hblock := by
    obtain ⟨-, rfl⟩ | ⟨-, hempty⟩ := getElem?_insert_eq_some.mp hblock
    · exact .inl rfl
    · simp at hempty

/-- What holds of a node that has grown from the genesis block on valid blocks. -/
structure Node.Follows (world : Set (Block B S)) (initialStore : Store B) (difficulty : ℕ)
    (depth : UInt64) (node : Node P) : Prop extends node.Checked difficulty depth where
  historic : node.Historic world initialStore
  grown : node.Grown world (timeRank P world) .genesis

namespace Node.Follows

variable {node : Node P}

theorem lineage (h : node.Follows world initialStore difficulty depth) {hash : Digest}
    {block : Block B S} (hblock : node.miner.chain.blocks[hash]? = some block) :
    ∃ store path, node.miner.chain.snapshots[hash]? = some store ∧
      Lineage P world initialStore block store path := by
  have hmem := (node.miner.chain.mem_snapshots hash).mp (mem_of_getElem? hblock)
  have hstore := Std.ExtTreeMap.getElem?_eq_some_getElem hmem
  obtain ⟨path, hpath⟩ := h.historic.known hash block _ hblock hstore
  exact ⟨_, path, hstore, hpath⟩

theorem stepsUp (h : node.Follows world initialStore difficulty depth) (hworld : ValidWorld P world)
    {event : NodeEvent B S} (hgrows : node.GrowsIn world event) : node.StepsUp event := by
  intro block parent hbrings hparent hheight
  have hmem := hgrows.mem_of_brings hbrings
  obtain ⟨store, path, -, hpath⟩ := h.lineage hparent
  obtain ⟨hlevel, htime⟩ := hpath.level_eq hworld
  have hlater := UInt64.lt_iff_toNat_lt.mp (hworld.timestamp block hmem parent
    (h.grown.chain.mem_world _ _ hparent) (node.miner.chain.hash_eq _ _ hparent).symm)
  have hbound := block.header.timestamp.toNat_lt
  refine level_eq_succ hheight ?_
  intro hzero
  have hsum : (parent.level + 1) % 2 ^ 64 = 0 := by
    have hnat := congrArg UInt64.toNat (hheight.symm.trans hzero)
    rwa [UInt64.toNat_add] at hnat
  rw [Nat.mod_eq_of_lt (by omega)] at hsum
  omega

theorem moves (hP : P.Lawful) (hworld : ValidWorld P world) {node' : Node P}
    {event : NodeEvent B S} (h : node.Follows world initialStore difficulty depth)
    (hgrows : node.GrowsIn world event) (hmoves : Node.Moves node event node') :
    node'.Follows world initialStore difficulty depth := by
  have hup := h.stepsUp hworld hgrows
  have hhistoric := h.historic.moves hP hgrows hmoves
  have hgrown := h.grown.moves hP hworld.hashLinks hgrows hup hmoves
  exact ⟨h.toChecked.moves hgrows hmoves, hhistoric, hgrown⟩

theorem of_run (hP : P.Lawful) (hworld : ValidWorld P world) {keypair : K}
    {rewardAddress : Address} {batchSize : ℕ}
    (hrun : Node.Run (Node.GrowsIn world) (Node.start (.new P initialStore difficulty depth) keypair
      rewardAddress batchSize) node) :
    node.Follows world initialStore difficulty depth := by
  refine Node.Run.invariant (fun h hgrows hmoves => h.moves hP hworld hgrows hmoves) hrun ?_
  refine ⟨Node.checked_start initialStore keypair rewardAddress batchSize,
    Node.historic_start _ _ _ _ _, ChainState.grown_single hworld.genesis, ?_⟩
  simp [Node.start]

theorem known_of_suffix (h : node.Follows world initialStore difficulty depth)
    (hworld : ValidWorld P world) {block a : Block B S} {store s : Store B}
    {path line : List (Block B S)} (hblock : Lineage P world initialStore block store path)
    (hknown : block.hash P ∈ node.miner.chain.blocks) (ha : Lineage P world initialStore a s line)
    (hline : line <:+ path) (hfloor : node.miner.chain.floor .genesis ≤ line.length) :
    a.hash P ∈ node.miner.chain.blocks := by
  induction hblock with
  | genesis =>
    obtain rfl := List.suffix_nil.mp hline
    rw [ha.block_unique .genesis]
    exact hknown
  | @child parent block _ _ path _ _ hparent hextends hstructured hmem ih =>
    obtain rfl | hrest := List.suffix_cons_iff.mp hline
    · rw [ha.block_unique (.child hparent hextends hstructured hmem)]
      exact hknown
    · obtain ⟨known, hget⟩ := exists_of_mem hknown
      have hheader : known.header = block.header :=
        hworld.header _ (h.grown.chain.mem_world _ _ hget) _ hmem
          (node.miner.chain.hash_eq _ _ hget)
      have hlevel : known.level = path.length + 1 := by
        have := ((Lineage.child hparent hextends hstructured hmem).level_eq hworld).1
        exact (congrArg (fun header : BlockHeader => header.height.toNat) hheader).trans this
      have hshorter := hrest.length_le
      have hparentKnown := h.grown.chain.closed _ _ hget (by omega)
      rw [hheader, hextends.parentHash] at hparentKnown
      exact ih hparentKnown hrest

end Node.Follows

end Nodes

/-! ## Applying the blocks of a peer -/

section CatchUp

variable [DecidableEq B]

def Node.applyAll : (ℕ → UInt64) → Node P → List (Block B S) →
    Outcome Empty (Node P × List (Block B S × MinerError))
  | _, node, [] => .ok (node, [])
  | clock, node, block :: rest =>
    match node.handle (.apply (clock 0) block) with
    | .ok next => applyAll (fun i => clock (i + 1)) next rest
    | .err e => (applyAll (fun i => clock (i + 1)) node rest).map fun last =>
        (last.1, (block, e) :: last.2)
    | .panic m => .panic m
    | .diverge => .diverge

variable {world : Set (Block B S)} {initialStore : Store B} {difficulty : ℕ} {depth : UInt64}
  {node next peer : Node P} {now : UInt64} {block : Block B S}

/-- What applying a block does to a node, whether it is accepted or not. -/
structure Node.Advances (world : Set (Block B S)) (initialStore : Store B) (difficulty : ℕ)
    (depth : UInt64) (node : Node P) (block : Block B S) (next : Node P) : Prop where
  follows : next.Follows world initialStore difficulty depth
  head_le : node.miner.chain.headBlock.level ≤ next.miner.chain.headBlock.level
  gained : block.header.parentHash ∈ node.miner.chain.blocks →
    block.hash P ∈ next.miner.chain.blocks
  kept : ∀ (hash : Digest) (b : Block B S), node.miner.chain.blocks[hash]? = some b →
    block.level - depth.toNat ≤ b.level → hash ∈ next.miner.chain.blocks
  origin : ∀ hash ∈ next.miner.chain.blocks, hash ∈ node.miner.chain.blocks ∨
    block.hash P = hash ∧ block.header.parentHash ∈ node.miner.chain.blocks

/-- A block that a peer has kept is accepted by every node that knows its parent. -/
theorem Node.Follows.accepts (hworld : ValidWorld P world)
    (h : node.Follows world initialStore difficulty depth)
    (hpeer : peer.Follows world initialStore difficulty depth)
    (hblock : peer.miner.chain.blocks[block.hash P]? = some block)
    (hunknown : block.hash P ∉ node.miner.chain.blocks) {parent : Block B S}
    (hparent : node.miner.chain.blocks[block.header.parentHash]? = some parent)
    (hnow : block.header.timestamp ≤ now + maxBlockFutureDriftMs) :
    ∃ parentStore store, node.miner.chain.Accepts now block parent parentStore store := by
  obtain ⟨parentStore, path, hparentStore, hpath⟩ := h.lineage hparent
  obtain ⟨store, path', -, hpath'⟩ := hpeer.lineage hblock
  have hhash := node.miner.chain.hash_eq _ _ hparent
  have hmem := h.grown.chain.mem_world _ _ hparent
  cases hpath' with
  | genesis => exact absurd hhash (hworld.placeholder parent hmem)
  | @child other _ otherStore _ _ _ _ hother hextends _ hblockMem =>
    have hsame : other.hash P = parent.hash P := by rw [hhash, hextends.parentHash]
    have hheader := hworld.header _ (hother.mem_world hworld.toCollisionFree) _ hmem hsame
    obtain rfl := hother.store_unique hworld.toCollisionFree hpath hsame
    obtain hgenesis | ⟨now', hstructured⟩ := hpeer.structured _ _ hblock
    · -- The genesis block names no parent.
      rw [hgenesis] at hhash
      exact absurd hhash (hworld.placeholder parent hmem)
    · refine ⟨otherStore, store, hunknown, hparent, hparentStore, ?_, ?_, ?_⟩
      · rw [h.difficulty_eq]
        exact { hstructured with timestamp_le := hnow }
      · exact hworld.timestamp _ hblockMem _ hmem hhash.symm
      · exact { hextends with parentHash := hhash.symm, height := hheader ▸ hextends.height }

omit [DecidableEq B] in
/-- The blocks after keeping one: nothing but the new one is added, and only what is too far below
it can be lost. -/
theorem ChainState.mem_keep_blocks (chain : ChainState P) (block : Block B S) (store : Store B) :
    block.hash P ∈ (chain.keep block store).1.blocks ∧
    (∀ (hash : Digest) (b : Block B S), chain.blocks[hash]? = some b →
      block.level - chain.snapshotDepth.toNat ≤ b.level →
        hash ∈ (chain.keep block store).1.blocks) ∧
    ∀ hash ∈ (chain.keep block store).1.blocks, hash ∈ chain.blocks ∨ block.hash P = hash := by
  unfold ChainState.keep
  split_ifs with hhigh
  · refine ⟨(chain.adopt block store).head_mem, fun hash b => mem_adopt_blocks, ?_⟩
    intro hash hmem
    obtain ⟨b, hb⟩ := exists_of_mem hmem
    exact (mem_insert_iff.mp (mem_of_getElem? (chain.adopt_blocks.mp hb).1)).symm
  · refine ⟨mem_insert_iff.mpr (.inl rfl), ?_, ?_⟩
    · exact fun hash b hb _ => mem_insert_iff.mpr (.inr (mem_of_getElem? hb))
    · exact fun hash hmem => (mem_insert_iff.mp hmem).symm

theorem Node.handle_apply_of_accepts {parent : Block B S} {parentStore store : Store B}
    (haccepts : node.miner.chain.Accepts now block parent parentStore store) :
    ∃ next, node.handle (.apply now block) = .ok next ∧
      next.miner.chain = (node.miner.chain.keep block store).1 := by
  have happly := ChainState.applyBlock_eq_ok.mpr ⟨_, _, _, haccepts, rfl⟩
  simp only [Node.handle, Miner.applyBlock, happly]
  refine ⟨_, rfl, ?_⟩
  dsimp only
  split_ifs <;> rfl

theorem Node.Follows.advances (hP : P.Lawful) (hworld : ValidWorld P world)
    (h : node.Follows world initialStore difficulty depth) (hmem : block ∈ world)
    {parent : Block B S} {parentStore store : Store B}
    (haccepts : node.miner.chain.Accepts now block parent parentStore store)
    (hnext : node.handle (.apply now block) = .ok next)
    (hchain : next.miner.chain = (node.miner.chain.keep block store).1) :
    node.Advances world initialStore difficulty depth block next := by
  have hgrows : node.GrowsIn world (.apply now block) := hmem
  have hmoves := Node.moves_of_handle hnext
  obtain ⟨hself, hkept, horigin⟩ := node.miner.chain.mem_keep_blocks block store
  refine {
    follows := h.moves hP hworld hgrows hmoves
    head_le := h.grown.head_le hP hworld.hashLinks hgrows (h.stepsUp hworld hgrows) hmoves
    gained := fun _ => hchain ▸ hself
    kept := fun hash b hb hlevel => hchain ▸ hkept hash b hb (h.depth_eq ▸ hlevel)
    origin := ?_ }
  intro hash hhash
  rcases horigin hash (hchain ▸ hhash) with hold | hnew
  · exact .inl hold
  · exact .inr ⟨hnew, mem_of_getElem? haccepts.parent_known⟩

/-- Every block of a peer is known, has no known parent, or is accepted. -/
theorem Node.Follows.handle_apply (hP : P.Lawful) (hworld : ValidWorld P world)
    (h : node.Follows world initialStore difficulty depth)
    (hpeer : peer.Follows world initialStore difficulty depth)
    (hblock : peer.miner.chain.blocks[block.hash P]? = some block)
    (hnow : block.header.timestamp ≤ now + maxBlockFutureDriftMs) :
    (∃ next, node.handle (.apply now block) = .ok next ∧
      node.Advances world initialStore difficulty depth block next ∧
      block.hash P ∈ next.miner.chain.blocks) ∨
    (∃ e, node.handle (.apply now block) = .err e ∧
      node.Advances world initialStore difficulty depth block node ∧
      (e = .chainError .unknownParent ↔ block.hash P ∉ node.miner.chain.blocks)) := by
  have hmem := hpeer.grown.chain.mem_world _ _ hblock
  have herr : ∀ e, node.miner.chain.applyBlock now block = .err e →
      node.handle (.apply now block) = .err (.chainError e) := by
    intro e he
    simp [Node.handle, Miner.applyBlock, he, Outcome.map, Outcome.mapErr, Outcome.bind]
  have hstays : (block.header.parentHash ∈ node.miner.chain.blocks →
      block.hash P ∈ node.miner.chain.blocks) →
      node.Advances world initialStore difficulty depth block node := fun hgained =>
    ⟨h, Nat.le_refl _, hgained, fun _ _ hget _ => mem_of_getElem? hget, fun _ => .inl⟩
  by_cases hknown : block.hash P ∈ node.miner.chain.blocks
  · refine .inr ⟨_, herr .alreadyKnown (if_pos hknown), hstays fun _ => hknown, ?_⟩
    simp [hknown]
  cases hparent : node.miner.chain.blocks[block.header.parentHash]? with
  | none =>
    refine .inr ⟨_, herr .unknownParent ?_, hstays fun hmem => ?_, ?_⟩
    · simp [ChainState.applyBlock, hknown, hparent]
    · simp [Std.ExtTreeMap.mem_iff_isSome_getElem?, hparent] at hmem
    · simp [hknown]
  | some parent =>
    obtain ⟨parentStore, store, haccepts⟩ := h.accepts hworld hpeer hblock hknown hparent hnow
    obtain ⟨next, hnext, hchain⟩ := Node.handle_apply_of_accepts haccepts
    have hadvances := h.advances hP hworld hmem haccepts hnext hchain
    exact .inl ⟨next, hnext, hadvances, hadvances.gained (mem_of_getElem? hparent)⟩

theorem Node.Follows.parent_level (hworld : ValidWorld P world)
    (h : node.Follows world initialStore difficulty depth)
    (hpeer : peer.Follows world initialStore difficulty depth)
    (hblock : peer.miner.chain.blocks[block.hash P]? = some block) {parent : Block B S}
    (hparent : node.miner.chain.blocks[block.header.parentHash]? = some parent) :
    block.level = parent.level + 1 := by
  obtain ⟨store, path, -, hpath⟩ := hpeer.lineage hblock
  have hhash := node.miner.chain.hash_eq _ _ hparent
  have hmem := h.grown.chain.mem_world _ _ hparent
  have hlevel := (hpath.level_eq hworld).1
  cases hpath with
  | genesis => exact absurd hhash (hworld.placeholder parent hmem)
  | @child other _ _ _ path _ _ hother hextends _ _ =>
    have hheader : other.header = parent.header := by
      refine hworld.header _ (hother.mem_world hworld.toCollisionFree) _ hmem ?_
      rw [hhash, hextends.parentHash]
    have hlevel' : parent.level = path.length := by
      rw [← (hother.level_eq hworld).1]
      exact congrArg (fun header : BlockHeader => header.height.toNat) hheader.symm
    rw [hlevel, hlevel', List.length_cons]

/-- Every wanted block among `blocks` has a parent that the node knows or that comes with them. -/
def Node.Resolves (node : Node P) (wanted : Block B S → Prop) (blocks : List (Block B S)) : Prop :=
  ∀ b ∈ blocks, wanted b → b.header.parentHash ∈ node.miner.chain.blocks ∨
    ∃ q ∈ blocks, wanted q ∧ q.hash P = b.header.parentHash

section Ascending

variable {wanted : Block B S → Prop} {rest : List (Block B S)}
  (hblocks : ∀ b ∈ block :: rest, peer.miner.chain.blocks[b.hash P]? = some b)
  (hsorted : (block :: rest).Pairwise fun b b' => b.level ≤ b'.level)
include hblocks hsorted

/-- The parent of the lowest block does not come with the blocks. -/
theorem Node.Resolves.head (hworld : ValidWorld P world)
    (hpeer : peer.Follows world initialStore difficulty depth)
    (h : node.Resolves wanted (block :: rest)) (hwanted : wanted block) :
    block.header.parentHash ∈ node.miner.chain.blocks := by
  obtain hknown | ⟨q, hq, -, hhash⟩ := h block List.mem_cons_self hwanted
  · exact hknown
  · have hlevel := hpeer.parent_level hworld hpeer (hblocks block List.mem_cons_self)
      (hhash ▸ hblocks q hq)
    rcases List.mem_cons.mp hq with rfl | hrest
    · omega
    · have hle := (List.pairwise_cons.mp hsorted).1 q hrest
      omega

/-- Applying the lowest block leaves the parents of the others resolved: no block is as high as to
make the node forget a parent that is needed. -/
theorem Node.Resolves.advance (hworld : ValidWorld P world) (hdepth : 0 < depth.toNat)
    (hnode : node.Follows world initialStore difficulty depth)
    (hpeer : peer.Follows world initialStore difficulty depth)
    (h : node.Resolves wanted (block :: rest))
    (hadvances : node.Advances world initialStore difficulty depth block next) :
    next.Resolves wanted rest := by
  intro b hb hwanted
  have hmem : b ∈ block :: rest := List.mem_cons_of_mem _ hb
  obtain hknown | ⟨q, hq, hwantedq, hhash⟩ := h b hmem hwanted
  · obtain ⟨parent, hparent⟩ := exists_of_mem hknown
    have hlevel := hnode.parent_level hworld hpeer (hblocks b hmem) hparent
    have hle := (List.pairwise_cons.mp hsorted).1 b hb
    exact .inl (hadvances.kept _ parent hparent (by omega))
  · rcases List.mem_cons.mp hq with rfl | hrest
    · have hfirst := h.head hblocks hsorted hworld hpeer hwantedq
      exact .inl (hhash ▸ hadvances.gained hfirst)
    · exact .inr ⟨q, hrest, hwantedq, hhash⟩

end Ascending

/-- Blocks of a peer, applied in ascending order at clock readings they are not too far ahead of:
if the parents of the wanted ones are resolved, none of them fails for want of its parent, and the
node gets as high as they are. -/
theorem Node.Resolves.applyAll (hP : P.Lawful) (hworld : ValidWorld P world)
    (hdepth : 0 < depth.toNat) (hpeer : peer.Follows world initialStore difficulty depth)
    {wanted : Block B S → Prop} {blocks : List (Block B S)} {clock : ℕ → UInt64}
    (hnode : node.Follows world initialStore difficulty depth)
    (hblocks : ∀ b ∈ blocks, peer.miner.chain.blocks[b.hash P]? = some b)
    (hsorted : blocks.Pairwise fun b b' => b.level ≤ b'.level)
    (hclock : ∀ i b, blocks[i]? = some b → b.header.timestamp ≤ clock i + maxBlockFutureDriftMs)
    (h : node.Resolves wanted blocks) :
    ∃ final failures, node.applyAll clock blocks = .ok (final, failures) ∧
      node.miner.chain.headBlock.level ≤ final.miner.chain.headBlock.level ∧
      (∀ b, (b, .chainError .unknownParent) ∈ failures → ¬ wanted b) ∧
      ∀ b ∈ blocks, wanted b → b.level ≤ final.miner.chain.headBlock.level := by
  induction blocks generalizing node clock with
  | nil => exact ⟨node, [], rfl, Nat.le_refl _, by simp, by simp⟩
  | cons block rest ih =>
    have hself := hblocks block List.mem_cons_self
    have hrest : ∀ b ∈ rest, peer.miner.chain.blocks[b.hash P]? = some b :=
      fun b hb => hblocks b (List.mem_cons_of_mem _ hb)
    -- What the rest does after any outcome of the first block.
    have hgo : ∀ next, node.Advances world initialStore difficulty depth block next →
        ∃ final failures, next.applyAll (fun i => clock (i + 1)) rest = .ok (final, failures) ∧
          node.miner.chain.headBlock.level ≤ final.miner.chain.headBlock.level ∧
          (∀ b, (b, .chainError .unknownParent) ∈ failures → ¬ wanted b) ∧
          ∀ b ∈ block :: rest, wanted b → b.level ≤ final.miner.chain.headBlock.level := by
      intro next hadvances
      obtain ⟨final, failures, hrun, hhead, hfailures, hreached⟩ := ih hadvances.follows hrest
        hsorted.of_cons (fun i b hb => hclock (i + 1) b hb)
        (h.advance hblocks hsorted hworld hdepth hnode hpeer hadvances)
      refine ⟨final, failures, hrun, hadvances.head_le.trans hhead, hfailures, ?_⟩
      intro b hb hwanted
      rcases List.mem_cons.mp hb with rfl | hb
      · have hparent := h.head hblocks hsorted hworld hpeer hwanted
        obtain ⟨known, hknown⟩ := exists_of_mem (hadvances.gained hparent)
        have hheader := hworld.header _ (hadvances.follows.grown.chain.mem_world _ _ hknown) _
          (hpeer.grown.chain.mem_world _ _ hself) (next.miner.chain.hash_eq _ _ hknown)
        have hlevel : known.level = b.level :=
          congrArg (fun header : BlockHeader => header.height.toNat) hheader
        have hle := hadvances.follows.grown.chain.le_head _ _ hknown
        omega
      · exact hreached b hb hwanted
    rcases hnode.handle_apply hP hworld hpeer hself (hclock 0 block rfl) with
      ⟨next, hnext, hadvances, -⟩ | ⟨e, herr, hadvances, hunknown⟩
    · obtain ⟨final, failures, hrun, hfinal⟩ := hgo next hadvances
      refine ⟨final, failures, ?_, hfinal⟩
      simp only [Node.applyAll, hnext, hrun]
    · obtain ⟨final, failures, hrun, hhead, hfailures, hreached⟩ := hgo node hadvances
      refine ⟨final, (block, e) :: failures, ?_, hhead, ?_, hreached⟩
      · simp only [Node.applyAll, herr, hrun]
        rfl
      · intro b hb hwanted
        rcases List.mem_cons.mp hb with heq | hb
        · obtain ⟨rfl, rfl⟩ := Prod.mk.inj heq
          exact hunknown.mp rfl (hadvances.gained (h.head hblocks hsorted hworld hpeer hwanted))
        · exact hfailures b hb hwanted

/-- A block whose parent neither is known nor comes with the blocks fails for want of it. -/
theorem Node.Follows.unknownParent_mem (hP : P.Lawful) (hworld : ValidWorld P world)
    (hpeer : peer.Follows world initialStore difficulty depth) {blocks : List (Block B S)}
    {clock : ℕ → UInt64} (hnode : node.Follows world initialStore difficulty depth)
    (hblocks : ∀ b ∈ blocks, peer.miner.chain.blocks[b.hash P]? = some b)
    (hclock : ∀ i b, blocks[i]? = some b → b.header.timestamp ≤ clock i + maxBlockFutureDriftMs)
    (hblock : block ∈ blocks) (hunknown : block.hash P ∉ node.miner.chain.blocks)
    (horphan : block.header.parentHash ∉ node.miner.chain.blocks)
    (habsent : ∀ b ∈ blocks, b.hash P ≠ block.header.parentHash) {final : Node P}
    {failures : List (Block B S × MinerError)}
    (hrun : node.applyAll clock blocks = .ok (final, failures)) :
    (block, .chainError .unknownParent) ∈ failures := by
  induction blocks generalizing node clock failures with
  | nil => cases hblock
  | cons first rest ih =>
    have hself := hblocks first List.mem_cons_self
    have hstep := hnode.handle_apply hP hworld hpeer hself (hclock 0 first rfl)
    -- As long as its own parent is missing, the block does not become known.
    have hstays : ∀ next, node.Advances world initialStore difficulty depth first next →
        block.hash P ∉ next.miner.chain.blocks ∧
          block.header.parentHash ∉ next.miner.chain.blocks := by
      intro next hadvances
      constructor
      · intro hmem
        obtain hold | ⟨hhash, hparent⟩ := hadvances.origin _ hmem
        · exact hunknown hold
        · have hheader := hworld.header _ (hpeer.grown.chain.mem_world _ _ hself) _
            (hpeer.grown.chain.mem_world _ _ (hblocks block hblock)) hhash
          exact horphan (hheader ▸ hparent)
      · intro hmem
        obtain hold | ⟨hhash, -⟩ := hadvances.origin _ hmem
        · exact horphan hold
        · exact habsent first List.mem_cons_self hhash
    have hgo : ∀ next failures, node.Advances world initialStore difficulty depth first next →
        next.applyAll (fun i => clock (i + 1)) rest = .ok (final, failures) → block ∈ rest →
        (block, .chainError .unknownParent) ∈ failures := by
      intro next failures hadvances hrest hmem
      obtain ⟨hunknown', horphan'⟩ := hstays next hadvances
      exact ih hadvances.follows (fun b hb => hblocks b (List.mem_cons_of_mem _ hb))
        (fun i b hb => hclock (i + 1) b hb) hmem hunknown' horphan'
        (fun b hb => habsent b (List.mem_cons_of_mem _ hb)) hrest
    rcases hstep with ⟨next, hnext, hadvances, hgained⟩ | ⟨e, herr, hadvances, hiff⟩
    · simp only [Node.applyAll, hnext] at hrun
      rcases List.mem_cons.mp hblock with rfl | hmem
      · exact absurd hgained (hstays next hadvances).1
      · exact hgo next failures hadvances hrun hmem
    · simp only [Node.applyAll, herr] at hrun
      obtain ⟨⟨last, failures'⟩, hrest, heq⟩ := Outcome.map_eq_ok.mp hrun
      obtain ⟨rfl, rfl⟩ := Prod.mk.inj heq
      rcases List.mem_cons.mp hblock with rfl | hmem
      · rw [hiff.mpr hunknown]
        exact List.mem_cons_self
      · exact List.mem_cons_of_mem _ (hgo node failures' hadvances hrest hmem)

/-! ## Forks -/

omit [DecidableEq B] in
theorem mem_getBlocksSince {chain : ChainState P} {height : UInt64} :
    block ∈ chain.getBlocksSince height ↔
      chain.blocks[block.hash P]? = some block ∧ height ≤ block.header.height := by
  unfold ChainState.getBlocksSince
  simp only [List.mem_filter, List.mem_map, Prod.exists, decide_eq_true_eq,
    Std.ExtTreeMap.mem_toList_iff_getElem?_eq_some, ge_iff_le, exists_eq_right]
  refine and_congr_left fun _ => ?_
  constructor
  · rintro ⟨hash, hget⟩
    rwa [chain.hash_eq hash block hget]
  · exact fun hget => ⟨_, hget⟩

omit [DecidableEq B] in
theorem ChainState.syncFromHeight_toNat (chain : ChainState P) :
    chain.syncFromHeight.toNat = chain.headBlock.level - chain.snapshotDepth.toNat := by
  unfold ChainState.syncFromHeight
  have hheight : chain.headHeight.toNat = chain.headBlock.level := rfl
  split_ifs with hdepth
  · have := UInt64.le_iff_toNat_le.mp hdepth
    show 0 = _
    omega
  · rw [UInt64.toNat_sub_of_le _ _ (UInt64.le_of_lt (UInt64.not_le.mp hdepth)), hheight]

/-- The node knows the parent of the lowest block of the peer's canonical chain above `height` that
the peer still has. -/
def Node.Bridges (world : Set (Block B S)) (node peer : Node P) (height : ℕ) : Prop :=
  ∀ (hash : Digest) (b : Block B S), peer.miner.chain.blocks[hash]? = some b →
    Descends P world b peer.miner.chain.headBlock →
    b.level = max (height + 1)
      (peer.miner.chain.headBlock.level - peer.miner.chain.snapshotDepth.toNat) →
    b.header.parentHash ∈ node.miner.chain.blocks

theorem Node.Follows.floor_eq (h : node.Follows world initialStore difficulty depth) :
    node.miner.chain.floor .genesis = node.miner.chain.headBlock.level - depth.toNat := by
  unfold ChainState.floor
  rw [h.depth_eq]
  exact Nat.max_eq_right (Nat.zero_le _)

theorem Node.Follows.headLine (h : node.Follows world initialStore difficulty depth) :
    ∃ path, Lineage P world initialStore node.miner.chain.headBlock node.miner.chain.headStore
      path :=
  h.historic.known _ _ _ node.miner.chain.getElem?_head node.miner.chain.getElem?_head_snapshot

section Fork

variable (hworld : ValidWorld P world) (hnode : node.Follows world initialStore difficulty depth)
  (hpeer : peer.Follows world initialStore difficulty depth) {height : ℕ}
  (hagree : AgreeAt P world node.miner.chain.headBlock peer.miner.chain.headBlock height)
include hworld hnode hpeer hagree

/-- The agreed block stands on both lines, and on the first it is not above the head. -/
theorem AgreeAt.lines :
    ∃ path path' a a' s s' line line',
      Lineage P world initialStore node.miner.chain.headBlock node.miner.chain.headStore path ∧
      Lineage P world initialStore peer.miner.chain.headBlock peer.miner.chain.headStore path' ∧
      Lineage P world initialStore a s line ∧ Lineage P world initialStore a' s' line' ∧
      line <:+ path ∧ line' <:+ path' ∧ a.hash P = a'.hash P ∧ line.length = height ∧
      line'.length = height := by
  obtain ⟨common, common', hcommon, hcommon', hhash, hlevel⟩ := hagree
  obtain ⟨path, hpath⟩ := hnode.headLine
  obtain ⟨path', hpath'⟩ := hpeer.headLine
  obtain ⟨a, s, line, ha, haheader, hline⟩ := hpath.ancestor hworld.toCollisionFree hcommon rfl
  obtain ⟨a', s', line', ha', haheader', hline'⟩ :=
    hpath'.ancestor hworld.toCollisionFree hcommon' rfl
  have hsame : a.hash P = a'.hash P := by
    show P.headerDigest a.header = P.headerDigest a'.header
    rw [haheader, haheader']
    exact hhash
  have hheader := hworld.header _ (ha.mem_world hworld.toCollisionFree) _
    (ha'.mem_world hworld.toCollisionFree) hsame
  have hlength : line.length = height := by
    rw [← (ha.level_eq hworld).1, ← hlevel]
    exact congrArg (fun header : BlockHeader => header.height.toNat) haheader
  have hlength' : line'.length = height := by
    rw [← hlength, ← (ha.level_eq hworld).1, ← (ha'.level_eq hworld).1]
    exact congrArg (fun header : BlockHeader => header.height.toNat) hheader.symm
  exact ⟨path, path', a, a', s, s', line, line', hpath, hpath', ha, ha', hline, hline', hsame,
    hlength, hlength'⟩

theorem AgreeAt.le_level : height ≤ node.miner.chain.headBlock.level := by
  obtain ⟨path, -, _, _, _, _, line, -, hpath, -, -, -, hline, -, -, hlength, -⟩ :=
    AgreeAt.lines hworld hnode hpeer hagree
  rw [(hpath.level_eq hworld).1, ← hlength]
  exact hline.length_le

/-- Right above the agreed block the parent is the agreed block, which the node still has. -/
theorem Node.bridges_of_le
    (hresolvable : node.miner.chain.headBlock.level - depth.toNat ≤ height)
    (hnear : peer.miner.chain.headBlock.level - depth.toNat ≤ height + 1) :
    node.Bridges world peer height := by
  intro hash b hb hcanonical hlevel
  rw [hpeer.depth_eq, Nat.max_eq_left hnear] at hlevel
  obtain ⟨path, path', a, a', s, s', line, line', hpath, hpath', ha, ha', hline, hline', hsame,
    hlength, hlength'⟩ := AgreeAt.lines hworld hnode hpeer hagree
  have hknown : a.hash P ∈ node.miner.chain.blocks := by
    refine hnode.known_of_suffix hworld hpath ?_ ha hline ?_
    · rw [node.miner.chain.headBlock_hash]
      exact node.miner.chain.head_mem
    · rw [hnode.floor_eq, hlength]
      exact hresolvable
  obtain ⟨twin, _, twinLine, htwin, hheader, hsuffix⟩ :=
    hpath'.ancestor hworld.toCollisionFree hcanonical rfl
  have htwinLength : twinLine.length = height + 1 := by
    rw [← (htwin.level_eq hworld).1, ← hlevel]
    exact congrArg (fun header : BlockHeader => header.height.toNat) hheader
  cases htwin with
  | genesis => simp at htwinLength
  | @child parent _ _ _ parentLine _ _ hparent hextends _ _ =>
    -- Two lines below one head are equal if they have the same length.
    have hlines : parentLine = line' := by
      rw [List.length_cons] at htwinLength
      have hparentSuffix := (List.suffix_cons twin parentLine).trans hsuffix
      exact (List.suffix_of_suffix_length_le hparentSuffix hline' (by omega)).eq_of_length
        (by omega)
    subst hlines
    rw [← hheader, hextends.parentHash, hparent.block_unique ha', ← hsame]
    exact hknown

variable (hresolvable : node.miner.chain.headBlock.level - depth.toNat ≤ height)
  {blocks : List (Block B S)}
  (hperm : blocks.Perm (peer.miner.chain.getBlocksSince node.miner.chain.syncFromHeight))
include hresolvable hperm

omit hworld hpeer hagree in
theorem mem_of_height_lt {b : Block B S}
    (hb : peer.miner.chain.blocks[b.hash P]? = some b) (hlt : height < b.level) : b ∈ blocks := by
  refine hperm.mem_iff.mpr (mem_getBlocksSince.mpr ⟨hb, UInt64.le_iff_toNat_le.mpr ?_⟩)
  rw [ChainState.syncFromHeight_toNat, hnode.depth_eq]
  exact hresolvable.trans hlt.le

omit hagree in
theorem Node.Bridges.resolves (hbridges : node.Bridges world peer height) :
    node.Resolves
      (fun b => Descends P world b peer.miner.chain.headBlock ∧ height < b.level) blocks := by
  rintro b hb ⟨hcanonical, hlt⟩
  have hget := (mem_getBlocksSince.mp (hperm.mem_iff.mp hb)).1
  by_cases hlowest : b.level = max (height + 1)
      (peer.miner.chain.headBlock.level - peer.miner.chain.snapshotDepth.toNat)
  · exact .inl (hbridges _ b hget hcanonical hlowest)
  · have hfloor := hpeer.grown.chain.floor_le _ _ hget
    rw [hpeer.depth_eq] at hlowest
    rw [hpeer.floor_eq] at hfloor
    obtain ⟨q, hq⟩ := exists_of_mem (hpeer.grown.chain.closed _ _ hget (by
      rw [hpeer.floor_eq]
      omega))
    have hhash := peer.miner.chain.hash_eq _ _ hq
    have hlevel := hpeer.grown.chain.level_eq hworld.hashLinks hget hq
    have hlink : Descends P world q b := .single ⟨hpeer.grown.chain.mem_world _ _ hq,
      hpeer.grown.chain.mem_world _ _ hget, hhash.symm⟩
    refine .inr ⟨q, ?_, ⟨hlink.trans hcanonical, by omega⟩, hhash⟩
    exact mem_of_height_lt hnode hresolvable hperm (hhash ▸ hq) (by omega)

end Fork

/-- A node that is behind, but by no more than the snapshot depth, asks a peer for its blocks. The
chains agree at a height the node still has. Applying the blocks in ascending order never fails for
want of the parent on a block of the peer's canonical chain above that height, and brings the node
up to the peer, exactly if the node knows the parent of the lowest such block that the peer still
has. -/
theorem catch_up_covers_forks (hP : P.Lawful) (hworld : ValidWorld P world) {keypair keypair' : K}
    {rewardAddress rewardAddress' : Address} {batchSize batchSize' : ℕ}
    (hnode : Node.Run (Node.GrowsIn world) (Node.start (.new P initialStore difficulty depth)
      keypair rewardAddress batchSize) node)
    (hpeer : Node.Run (Node.GrowsIn world) (Node.start (.new P initialStore difficulty depth)
      keypair' rewardAddress' batchSize') peer)
    {height : ℕ}
    (hagree : AgreeAt P world node.miner.chain.headBlock peer.miner.chain.headBlock height)
    (hresolvable : node.miner.chain.headBlock.level - depth.toNat ≤ height)
    (hbehind : node.miner.chain.headBlock.level < peer.miner.chain.headBlock.level)
    (hrange : peer.miner.chain.headBlock.level ≤ node.miner.chain.headBlock.level + depth.toNat)
    {blocks : List (Block B S)}
    (hperm : blocks.Perm (peer.miner.chain.getBlocksSince node.miner.chain.syncFromHeight))
    (hsorted : blocks.Pairwise fun b b' => b.header.height ≤ b'.header.height)
    {clock : ℕ → UInt64}
    (hclock : ∀ i b, blocks[i]? = some b →
      b.header.timestamp ≤ clock i + maxBlockFutureDriftMs) :
    (∃ final failures, node.applyAll clock blocks = .ok (final, failures) ∧
      (∀ b, (b, .chainError .unknownParent) ∈ failures →
        Descends P world b peer.miner.chain.headBlock → b.level ≤ height) ∧
      peer.miner.chain.headHeight ≤ final.miner.chain.headHeight) ↔
    node.Bridges world peer height := by
  have hnode := Node.Follows.of_run hP hworld hnode
  have hpeer := Node.Follows.of_run hP hworld hpeer
  have hblocks : ∀ b ∈ blocks, peer.miner.chain.blocks[b.hash P]? = some b :=
    fun b hb => (mem_getBlocksSince.mp (hperm.mem_iff.mp hb)).1
  constructor
  · rintro ⟨final, failures, hrun, hfailures, -⟩
    by_cases hnear : peer.miner.chain.headBlock.level - depth.toNat ≤ height + 1
    · exact Node.bridges_of_le hworld hnode hpeer hagree hresolvable hnear
    intro hash b hb hcanonical hlevel
    by_contra horphan
    obtain rfl := peer.miner.chain.hash_eq _ _ hb
    rw [hpeer.depth_eq, Nat.max_eq_right (by omega)] at hlevel
    have hmem := mem_of_height_lt hnode hresolvable hperm hb (by omega)
    -- If the node knew the block it would know the parent: both are above its horizon.
    have hunknown : b.hash P ∉ node.miner.chain.blocks := by
      intro hknown
      obtain ⟨k, hk⟩ := exists_of_mem hknown
      have hheader := hworld.header _ (hnode.grown.chain.mem_world _ _ hk) _
        (hpeer.grown.chain.mem_world _ _ hb) (node.miner.chain.hash_eq _ _ hk)
      have hklevel : k.level = b.level :=
        congrArg (fun header : BlockHeader => header.height.toNat) hheader
      refine horphan (hheader ▸ hnode.grown.chain.closed _ _ hk ?_)
      rw [hnode.floor_eq]
      omega
    -- The peer has nothing below its own horizon.
    have habsent : ∀ x ∈ blocks, x.hash P ≠ b.header.parentHash := by
      intro x hx hhash
      have hup := hpeer.parent_level hworld hpeer hb (hhash ▸ hblocks x hx)
      have hfloor := hpeer.grown.chain.floor_le _ _ (hblocks x hx)
      rw [hpeer.floor_eq] at hfloor
      omega
    have hfailed :=
      Node.Follows.unknownParent_mem hP hworld hpeer hnode hblocks hclock hmem hunknown
      horphan habsent hrun
    have := hfailures b hfailed hcanonical
    omega
  · intro hbridges
    obtain ⟨final, failures, hrun, -, hfailures, hreached⟩ :=
      (hbridges.resolves hworld hnode hpeer hresolvable hperm).applyAll hP hworld (by omega) hpeer
        hnode hblocks (hsorted.imp UInt64.le_iff_toNat_le.mp) hclock
    refine ⟨final, failures, hrun, ?_, ?_⟩
    · intro b hfailed hcanonical
      by_contra hlt
      exact hfailures b hfailed ⟨hcanonical, by omega⟩
    · have hheight := AgreeAt.le_level hworld hnode hpeer hagree
      have hhead : peer.miner.chain.blocks[peer.miner.chain.headBlock.hash P]? =
          some peer.miner.chain.headBlock := by
        rw [peer.miner.chain.headBlock_hash]
        exact peer.miner.chain.getElem?_head
      refine UInt64.le_iff_toNat_le.mpr (hreached _ ?_ ⟨.refl, by omega⟩)
      exact mem_of_height_lt hnode hresolvable hperm hhead (by omega)

end CatchUp

/-! ## A fork on a small chain -/

section Genesis

variable [DecidableEq B] {world : Set (Block B S)} {initialStore : Store B}

theorem Lineage.descends (hworld : CollisionFree P world) {block : Block B S} {store : Store B}
    {path : List (Block B S)} (h : Lineage P world initialStore block store path) :
    Descends P world .genesis block := by
  induction h with
  | genesis => exact .refl
  | child hparent hextends _ hmem ih =>
    exact ih.tail ⟨hparent.mem_world hworld, hmem, hextends.parentHash⟩

theorem Node.Follows.agreeAt_zero (hworld : ValidWorld P world) {difficulty : ℕ} {depth : UInt64}
    {node peer : Node P} (hnode : node.Follows world initialStore difficulty depth)
    (hpeer : peer.Follows world initialStore difficulty depth) :
    AgreeAt P world node.miner.chain.headBlock peer.miner.chain.headBlock 0 := by
  obtain ⟨path, hpath⟩ := hnode.headLine
  obtain ⟨path', hpath'⟩ := hpeer.headLine
  exact ⟨.genesis, .genesis, hpath.descends hworld.toCollisionFree,
    hpath'.descends hworld.toCollisionFree, rfl, rfl⟩

omit [DecidableEq B] in
theorem ChainState.Grown.descends {chain : ChainState P} {rank : Digest → ℕ} {root : Block B S}
    (h : chain.Grown world rank root) {steps : ℕ} {hash : Digest} {block b : Block B S}
    (hblock : chain.blocks[hash]? = some block) (hb : b ∈ chain.ancestors steps hash) :
    Descends P world b block := by
  induction steps generalizing hash block with
  | zero => cases hb
  | succ steps ih =>
    simp only [ancestors, hblock] at hb
    rcases List.mem_cons.mp hb with rfl | hrest
    · exact .refl
    · cases hparent : chain.blocks[block.header.parentHash]? with
      | none =>
        cases steps with
        | zero => cases hrest
        | succ steps => simp [ancestors, hparent] at hrest
      | some parent =>
        exact (ih hparent hrest).tail ⟨h.mem_world _ _ hparent, h.mem_world _ _ hblock,
          (chain.hash_eq _ _ hparent).symm⟩

end Genesis

namespace Sample

theorem forkBlocks_valid : ValidWorld chainPlatform { block | block ∈ forkBlocks } where
  toCollisionFree := forkBlocks_collisionFree
  timestamp := show ∀ b ∈ forkBlocks, ∀ p ∈ forkBlocks, _ by decide +kernel

/-- None of the three blocks that the peer has can be applied, and the first of them is the parent
of the second. -/
def orphaned (node peer : Node chainPlatform) : Bool :=
  match peer.miner.chain.ancestors 3 peer.miner.chain.head with
  | [b₄, b₃, b₂] =>
    decide (b₂.level = 2 ∧ b₃.level = 3 ∧
      [b₂, b₃, b₄].Perm (peer.miner.chain.getBlocksSince node.miner.chain.syncFromHeight) ∧
      ([b₂, b₃, b₄].Pairwise fun b b' => b.header.height ≤ b'.header.height) ∧
      b₂.header.parentHash ∉ node.miner.chain.blocks ∧
      b₃.header.parentHash ∉ node.miner.chain.blocks) &&
    (node.applyAll (fun _ => 10) [b₂, b₃, b₄]).isOkAnd
      fun applied : Node chainPlatform × List (Block Bytes (Address × Digest) × MinerError) =>
        decide ((b₂, .chainError .unknownParent) ∈ applied.2 ∧
          applied.1.miner.chain.headBlock.level = 2)
  | _ => false

theorem orphaned_sound {node peer : Node chainPlatform} (h : orphaned node peer = true) :
    ∃ b b' final failures, b ∈ peer.miner.chain.ancestors 3 peer.miner.chain.head ∧
      b' ∈ peer.miner.chain.ancestors 3 peer.miner.chain.head ∧ b.level = 2 ∧ b'.level = 3 ∧
      (peer.miner.chain.ancestors 3 peer.miner.chain.head).reverse.Perm
        (peer.miner.chain.getBlocksSince node.miner.chain.syncFromHeight) ∧
      ((peer.miner.chain.ancestors 3 peer.miner.chain.head).reverse.Pairwise
        fun b b' => b.header.height ≤ b'.header.height) ∧
      b.header.parentHash ∉ node.miner.chain.blocks ∧
      b'.header.parentHash ∉ node.miner.chain.blocks ∧
      node.applyAll (fun _ => 10) (peer.miner.chain.ancestors 3 peer.miner.chain.head).reverse =
        .ok (final, failures) ∧
      (b, .chainError .unknownParent) ∈ failures ∧ final.miner.chain.headBlock.level = 2 := by
  unfold orphaned at h
  split at h
  · rename_i b₄ b₃ b₂ hline
    rw [Bool.and_eq_true] at h
    obtain ⟨h₂, h₃, hperm, hsorted, horphan, hunknown⟩ := of_decide_eq_true h.1
    obtain ⟨⟨final, failures⟩, happlied, hfinal⟩ := Outcome.exists_of_isOkAnd h.2
    obtain ⟨hfailed, hlevel⟩ := of_decide_eq_true hfinal
    rw [hline]
    exact ⟨b₂, b₃, final, failures, by simp, by simp, h₂, h₃, hperm, hsorted, horphan, hunknown,
      happlied, hfailed, hlevel⟩
  · cases h

/-- A node that mined on one side of the fork. -/
theorem follows_of_mineLine {coin : Address} {times : List UInt64} {node : Node chainPlatform}
    (h : mineLine (growsIn forkBlocks) coin shallowNode times = .ok node) :
    Node.Run (Node.GrowsIn { block | block ∈ forkBlocks }) shallowNode node ∧
      node.Follows { block | block ∈ forkBlocks } bareStore 0 2 := by
  have hrun := run_of_mineLine growsIn_sound h
  exact ⟨hrun, .of_run chainPlatform_lawful forkBlocks_valid hrun⟩

end Sample

open Sample in
/-- One block against two: the node changes over to the side of the peer. -/
theorem catch_up_covers_forks_short :
    ∃ (node peer final : Node chainPlatform) (blocks : List (Block Bytes (Address × Digest)))
      (failures : List (Block Bytes (Address × Digest) × MinerError)),
      node.miner.chain.headBlock.level = 1 ∧ peer.miner.chain.headBlock.level = 2 ∧
      node.applyAll (fun _ => 10) blocks = .ok (final, failures) ∧
      peer.miner.chain.headHeight ≤ final.miner.chain.headHeight := by
  obtain ⟨node, hnode, hlevel⟩ := Outcome.exists_of_isOkAnd
    (x := mineLine (growsIn forkBlocks) 8 shallowNode [5])
    (p := fun node : Node chainPlatform => decide (node.miner.chain.headBlock.level = 1))
    (by decide +kernel)
  obtain ⟨peer, hpeer, hlevel'⟩ := Outcome.exists_of_isOkAnd
    (x := mineLine (growsIn forkBlocks) 9 shallowNode [5, 6])
    (p := fun node : Node chainPlatform => decide (node.miner.chain.headBlock.level = 2))
    (by decide +kernel)
  have hlevel := of_decide_eq_true hlevel
  have hlevel' := of_decide_eq_true hlevel'
  obtain ⟨hrun, hfollows⟩ := follows_of_mineLine hnode
  obtain ⟨hrun', hfollows'⟩ := follows_of_mineLine hpeer
  have hagree := hfollows.agreeAt_zero forkBlocks_valid hfollows'
  have hdepth : (2 : UInt64).toNat = 2 := rfl
  have hbridges := Node.bridges_of_le forkBlocks_valid hfollows hfollows' hagree
    (by omega) (by omega)
  set since := peer.miner.chain.getBlocksSince node.miner.chain.syncFromHeight with hsince
  have hperm := List.mergeSort_perm since fun b b' => decide (b.header.height ≤ b'.header.height)
  have hsorted : (since.mergeSort fun b b' => decide (b.header.height ≤ b'.header.height)).Pairwise
      fun b b' => decide (b.header.height ≤ b'.header.height) = true :=
    List.pairwise_mergeSort (by simpa using fun a b c => UInt64.le_trans)
      (by simpa using fun a b => UInt64.le_total _ _) since
  have hclock : ∀ b ∈ forkBlocks, b.header.timestamp ≤ 10 + maxBlockFutureDriftMs := by
    decide +kernel
  have hworld : ∀ b ∈ since, b ∈ forkBlocks := fun b hb =>
    hfollows'.grown.chain.mem_world _ _ (mem_getBlocksSince.mp hb).1
  obtain ⟨final, failures, happlied, -, hheight⟩ := (catch_up_covers_forks
    chainPlatform_lawful forkBlocks_valid hrun hrun' hagree (by omega) (by omega) (by omega) hperm
    (hsorted.imp of_decide_eq_true)
    fun i b hb => hclock b (hworld b (hperm.mem_iff.mp (List.mem_of_getElem? hb)))).mpr hbridges
  exact ⟨node, peer, final, _, failures, hlevel, hlevel', happlied, hheight⟩

open Sample in
/-- Two blocks against four, with a snapshot depth of two: the peer has dropped its first block, so
none of the blocks it sends can be applied. -/
theorem catch_up_covers_forks_fails :
    ∃ (node peer final : Node chainPlatform) (blocks : List (Block Bytes (Address × Digest)))
      (failures : List (Block Bytes (Address × Digest) × MinerError))
      (b : Block Bytes (Address × Digest)),
      Node.Run (Node.GrowsIn { block | block ∈ forkBlocks }) shallowNode node ∧
      Node.Run (Node.GrowsIn { block | block ∈ forkBlocks }) shallowNode peer ∧
      (∀ height, AgreeAt chainPlatform { block | block ∈ forkBlocks } node.miner.chain.headBlock
        peer.miner.chain.headBlock height ↔ height = 0) ∧
      node.miner.chain.headBlock.level = 2 ∧ peer.miner.chain.headBlock.level = 4 ∧
      blocks.Perm (peer.miner.chain.getBlocksSince node.miner.chain.syncFromHeight) ∧
      (blocks.Pairwise fun b b' => b.header.height ≤ b'.header.height) ∧
      node.applyAll (fun _ => 10) blocks = .ok (final, failures) ∧
      Descends chainPlatform { block | block ∈ forkBlocks } b peer.miner.chain.headBlock ∧
      b.level = 2 ∧ (b, .chainError .unknownParent) ∈ failures ∧
      final.miner.chain.headBlock.level = 2 := by
  obtain ⟨node, hnode, hp⟩ := Outcome.exists_of_isOkAnd
    (x := mineLine (growsIn forkBlocks) 8 shallowNode [5, 6])
    (p := fun node : Node chainPlatform =>
      (mineLine (growsIn forkBlocks) 9 shallowNode [5, 6, 7, 8]).isOkAnd
        fun peer : Node chainPlatform => decide (node.miner.chain.headBlock.level = 2 ∧
          peer.miner.chain.headBlock.level = 4) && orphaned node peer) (by decide +kernel)
  obtain ⟨peer, hpeer, hp⟩ := Outcome.exists_of_isOkAnd hp
  rw [Bool.and_eq_true] at hp
  obtain ⟨hlevel, hlevel'⟩ := of_decide_eq_true hp.1
  obtain ⟨hrun, hfollows⟩ := follows_of_mineLine hnode
  obtain ⟨hrun', hfollows'⟩ := follows_of_mineLine hpeer
  obtain ⟨b, b', final, failures, hb, hb', hlevelb, hlevelb', hperm, hsorted, horphan, hunknown,
    happlied, hfailed, hfinal⟩ := orphaned_sound hp.2
  have hdepth : (2 : UInt64).toNat = 2 := rfl
  have hagree := hfollows.agreeAt_zero forkBlocks_valid hfollows'
  have hget : ∀ b ∈ peer.miner.chain.ancestors 3 peer.miner.chain.head,
      peer.miner.chain.blocks[b.hash chainPlatform]? = some b := fun b hb =>
    (mem_getBlocksSince.mp (hperm.mem_iff.mp (List.mem_reverse.mpr hb))).1
  have hcanonical : ∀ b ∈ peer.miner.chain.ancestors 3 peer.miner.chain.head,
      Descends chainPlatform { block | block ∈ forkBlocks } b peer.miner.chain.headBlock :=
    fun b hb => hfollows'.grown.chain.descends peer.miner.chain.getElem?_head hb
  refine ⟨node, peer, final, _, failures, b, hrun, hrun', fun height => ⟨fun h => ?_, ?_⟩, hlevel,
    hlevel', hperm, hsorted, happlied, hcanonical b hb, hlevelb, hfailed, hfinal⟩
  · -- If the chains agreed higher up, the node would know more of the peer's blocks.
    have hheight : height ≤ 2 := hlevel ▸ AgreeAt.le_level forkBlocks_valid hfollows hfollows' h
    have hbridges := Node.bridges_of_le forkBlocks_valid hfollows hfollows' h (by omega)
    obtain rfl | rfl | rfl : height = 0 ∨ height = 1 ∨ height = 2 := by omega
    · rfl
    · refine absurd (hbridges (by omega) _ b (hget b hb) (hcanonical b hb) ?_) horphan
      rw [hfollows'.depth_eq]
      omega
    · refine absurd (hbridges (by omega) _ b' (hget b' hb') (hcanonical b' hb') ?_) hunknown
      rw [hfollows'.depth_eq]
      omega
  · rintro rfl
    exact hagree

end MeowChain
