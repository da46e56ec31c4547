import MeowChain.Chain.Availability

/-!
# Anchoring a chain at a snapshot

A node that is too far behind takes over the head of a peer together with its objects. The chain
anchored there knows one block, the chain of the peer also forks and older blocks; on everything
that descends from the head the two cannot be told apart.
-/

set_option autoImplicit false

namespace MeowChain

variable {B S K : Type} {P : ChainPlatform B S K}

def Above (P : ChainPlatform B S K) (world : Set (Block B S)) (head block : Block B S) : Prop :=
  block ∈ world ∧ ∃ parent ∈ world, Descends P world head parent ∧
    block.header.parentHash = parent.hash P

def hashesFrom (P : ChainPlatform B S K) (world : Set (Block B S)) (head : Block B S) :
    Set Digest :=
  { hash | ∃ block, Descends P world head block ∧ block.hash P = hash }

theorem Above.hashes_mem {world : Set (Block B S)} {head block : Block B S}
    (h : Above P world head block) :
    block.hash P ∈ hashesFrom P world head ∧
      block.header.parentHash ∈ hashesFrom P world head := by
  obtain ⟨hblock, parent, hparent, hdescends, hlink⟩ := h
  exact ⟨⟨block, hdescends.tail ⟨hparent, hblock, hlink⟩, rfl⟩, parent, hdescends, hlink.symm⟩

namespace ChainState

def getBlockSnapshot (chain : ChainState P) (digest : Digest) : Option (StateSnapshot B S) := do
  let block ← chain.blocks[digest]?
  let store ← chain.snapshots[digest]?
  return { head := block, objects := store.objects }

theorem getBlockSnapshot_head (chain : ChainState P) :
    chain.getBlockSnapshot chain.head = some ⟨chain.headBlock, chain.headStore.objects⟩ := by
  unfold getBlockSnapshot
  rw [chain.getElem?_head, chain.getElem?_head_snapshot]
  rfl

section Applying

variable [DecidableEq B]

/-- Apply blocks one after the other, each at its clock reading, and collect what `apply_block`
answers; a rejected block leaves the chain as it is. -/
def applyEach (chain : ChainState P) :
    List (UInt64 × Block B S) → List (Outcome ChainError Bool) × ChainState P
  | [] => ([], chain)
  | (now, block) :: rest =>
    match chain.applyBlock now block with
    | .ok (next, switched) => ((next.applyEach rest).1.cons (.ok switched), (next.applyEach rest).2)
    | .err e => ((chain.applyEach rest).1.cons (.err e), (chain.applyEach rest).2)
    | .panic message => ([.panic message], chain)
    | .diverge => ([.diverge], chain)

section

variable (P)

/-- What `apply_block` finds out about a block from what it looks up: whether the block is known,
and the parent with its store. -/
def verdict (now : UInt64) (difficulty : ℕ) (block : Block B S) (known : Prop) [Decidable known]
    (parent : Option (Block B S)) (parentStore : Option (Store B)) :
    Outcome ChainError (Store B) :=
  if known then .err .alreadyKnown
  else match parent, parentStore with
  | some parent, some parentStore =>
    match validateBlockStructure P now block difficulty with
    | .error e => .err e
    | .ok _ =>
      let expected := parent.header.height + 1
      if block.header.height ≠ expected then .err (.invalidHeight expected block.header.height)
      else if block.header.timestamp ≤ parent.header.timestamp then .err .timestampNotAdvancing
      else if ¬ validSignatures P block then .err .invalidSignature
      else replay P parentStore block
  | _, _ => .err .unknownParent

end

theorem applyBlock_eq_verdict (chain : ChainState P) (now : UInt64) (block : Block B S) :
    chain.applyBlock now block =
      (verdict P now chain.difficulty block (block.hash P ∈ chain.blocks)
        chain.blocks[block.header.parentHash]? chain.snapshots[block.header.parentHash]?).map
          (chain.keep block) := by
  unfold applyBlock verdict
  by_cases hknown : block.hash P ∈ chain.blocks
  · rw [if_pos hknown, if_pos hknown]
    rfl
  rw [if_neg hknown, if_neg hknown]
  cases chain.blocks[block.header.parentHash]? with
  | none => rfl
  | some parent =>
    cases chain.snapshots[block.header.parentHash]? with
    | none => rfl
    | some parentStore =>
      cases validateBlockStructure P now block chain.difficulty with
      | error e => rfl
      | ok _ =>
        simp only
        split_ifs <;> rfl

end Applying

/-! ## Chains that agree on some hashes -/

/-- Two chains with the same head and the same entries for `hashes`. -/
structure AgreeOn (hashes : Set Digest) (chain other : ChainState P) : Prop where
  head : chain.head = other.head
  head_mem : chain.head ∈ hashes
  difficulty : chain.difficulty = other.difficulty
  snapshotDepth : chain.snapshotDepth = other.snapshotDepth
  blocks : ∀ hash ∈ hashes, chain.blocks[hash]? = other.blocks[hash]?
  snapshots : ∀ hash ∈ hashes, chain.snapshots[hash]? = other.snapshots[hash]?

namespace AgreeOn

variable {hashes : Set Digest} {chain other : ChainState P} (h : chain.AgreeOn hashes other)
include h

theorem headHeight_eq : chain.headHeight = other.headHeight := by
  have hblock := h.blocks _ h.head_mem
  rw [getElem?_head, h.head, getElem?_head] at hblock
  exact congrArg (fun block : Block B S => block.header.height) (Option.some.inj hblock)

theorem getBlockSnapshot_eq {hash : Digest} (hhash : hash ∈ hashes) :
    chain.getBlockSnapshot hash = other.getBlockSnapshot hash := by
  unfold getBlockSnapshot
  rw [h.blocks hash hhash, h.snapshots hash hhash]

theorem insertBlock (block : Block B S) (store : Store B) :
    (chain.insertBlock block store).AgreeOn hashes (other.insertBlock block store) where
  head := h.head
  head_mem := h.head_mem
  difficulty := h.difficulty
  snapshotDepth := h.snapshotDepth
  blocks hash hhash := by
    show (chain.blocks.insert _ _)[hash]? = (other.blocks.insert _ _)[hash]?
    rw [Std.ExtTreeMap.getElem?_insert, Std.ExtTreeMap.getElem?_insert, h.blocks hash hhash]
  snapshots hash hhash := by
    show (chain.snapshots.insert _ _)[hash]? = (other.snapshots.insert _ _)[hash]?
    rw [Std.ExtTreeMap.getElem?_insert, Std.ExtTreeMap.getElem?_insert, h.snapshots hash hhash]

theorem adopt {block : Block B S} (hblock : block.hash P ∈ hashes) (store : Store B) :
    (chain.adopt block store).AgreeOn hashes (other.adopt block store) := by
  have hinsert := h.insertBlock block store
  have hblocks : ∀ hash ∈ hashes,
      (chain.adopt block store).blocks[hash]? = (other.adopt block store).blocks[hash]? := by
    intro hash hhash
    refine Option.ext fun b => ?_
    rw [adopt_blocks, adopt_blocks, hinsert.blocks hash hhash, h.snapshotDepth]
  refine ⟨rfl, hblock, h.difficulty, h.snapshotDepth, hblocks, ?_⟩
  intro hash hhash
  refine Option.ext fun s => ?_
  rw [adopt_snapshots, adopt_snapshots, hinsert.snapshots hash hhash,
    Std.ExtTreeMap.mem_iff_isSome_getElem?, Std.ExtTreeMap.mem_iff_isSome_getElem?,
    hblocks hash hhash]

theorem keep {block : Block B S} (hblock : block.hash P ∈ hashes) (store : Store B) :
    (chain.keep block store).2 = (other.keep block store).2 ∧
      (chain.keep block store).1.AgreeOn hashes (other.keep block store).1 := by
  unfold ChainState.keep
  rw [h.headHeight_eq]
  split_ifs
  · exact ⟨rfl, h.adopt hblock store⟩
  · exact ⟨rfl, h.insertBlock block store⟩

variable [DecidableEq B]

theorem applyBlock_eq (now : UInt64) {block : Block B S} (hblock : block.hash P ∈ hashes)
    (hparent : block.header.parentHash ∈ hashes) :
    ∃ verdict : Outcome ChainError (Store B),
      chain.applyBlock now block = verdict.map (chain.keep block) ∧
      other.applyBlock now block = verdict.map (other.keep block) := by
  refine ⟨_, chain.applyBlock_eq_verdict now block, ?_⟩
  have hknown : (block.hash P ∈ chain.blocks) = (block.hash P ∈ other.blocks) := by
    rw [Std.ExtTreeMap.mem_iff_isSome_getElem?, Std.ExtTreeMap.mem_iff_isSome_getElem?,
      h.blocks _ hblock]
  rw [other.applyBlock_eq_verdict, h.difficulty, h.blocks _ hparent, h.snapshots _ hparent]
  simp only [hknown]

/-- Chains that agree on hashes closed under the blocks that come in answer alike and go on to
agree. -/
theorem applyEach {blocks : List (UInt64 × Block B S)}
    (hblocks : ∀ entry ∈ blocks, entry.2.hash P ∈ hashes ∧ entry.2.header.parentHash ∈ hashes) :
    (chain.applyEach blocks).1 = (other.applyEach blocks).1 ∧
      (chain.applyEach blocks).2.AgreeOn hashes (other.applyEach blocks).2 := by
  induction blocks generalizing chain other with
  | nil => exact ⟨rfl, h⟩
  | cons entry rest ih =>
    obtain ⟨now, block⟩ := entry
    obtain ⟨⟨hblock, hparent⟩, hrest⟩ := List.forall_mem_cons.mp hblocks
    obtain ⟨verdict, hchain, hother⟩ := h.applyBlock_eq now hblock hparent
    unfold ChainState.applyEach
    rw [hchain, hother]
    cases verdict with
    | ok store =>
      obtain ⟨hswitched, hkeep⟩ := h.keep hblock store
      obtain ⟨hresults, hfinal⟩ := ih hkeep hrest
      exact ⟨congrArg₂ List.cons (congrArg Outcome.ok hswitched) hresults, hfinal⟩
    | err e =>
      obtain ⟨hresults, hfinal⟩ := ih h hrest
      exact ⟨congrArg (List.cons _) hresults, hfinal⟩
    | panic message => exact ⟨rfl, h⟩
    | diverge => exact ⟨rfl, h⟩

end AgreeOn

end ChainState

/-! ## The head and what is above it -/

section Head

variable [DecidableEq B] {grown world : Set (Block B S)} {initialStore : Store B} {difficulty : ℕ}
  {depth : UInt64} {node : Node P}

theorem Lineage.mono (hsub : grown ⊆ world) {block : Block B S} {store : Store B}
    {path : List (Block B S)} (h : Lineage P grown initialStore block store path) :
    Lineage P world initialStore block store path := by
  induction h with
  | genesis => exact .genesis
  | child _ hextends hstructured hmem ih => exact .child ih hextends hstructured (hsub hmem)

omit [DecidableEq B] in
theorem CollisionFree.mono (hworld : CollisionFree P world) (hsub : grown ⊆ world)
    (hgenesis : .genesis ∈ grown) : CollisionFree P grown where
  genesis := hgenesis
  header b hb b' hb' := hworld.header b (hsub hb) b' (hsub hb')
  placeholder b hb := hworld.placeholder b (hsub hb)
  root b hb b' hb' := hworld.root b (hsub hb) b' (hsub hb')
  transaction b hb b' hb' := hworld.transaction b (hsub hb) b' (hsub hb')

omit [DecidableEq B] in
theorem Node.GrowsIn.mono (hsub : grown ⊆ world) {event : NodeEvent B S}
    (h : node.GrowsIn grown event) : node.GrowsIn world event := by
  cases event with
  | apply now block => exact hsub h
  | finish round now =>
    intro work block store hwork hgrind
    exact hsub (h work block store hwork hgrind)
  | replace now snapshot => exact h
  | submit signed => exact h
  | prepare now => exact h

theorem Lineage.length_lt_of_above (hworld : CollisionFree P world) {head block twin : Block B S}
    {store s : Store B} {path line : List (Block B S)}
    (hhead : Lineage P world initialStore head store path) (habove : Above P world head block)
    (h : Lineage P world initialStore twin s line) (hhash : twin.hash P = block.hash P) :
    path.length < line.length := by
  obtain ⟨hblock, parent, hparent, hdescends, hlink⟩ := habove
  cases h with
  | genesis =>
    exact absurd hhash.symm (hworld.hash_ne_genesis hblock hparent hlink)
  | @child other _ _ _ rest _ _ hother hextends _ hmem =>
    have hheader := hworld.header _ hmem _ hblock hhash
    have hsame : other.header = parent.header := by
      refine hworld.header _ (hother.mem_world hworld) _ hparent ?_
      rw [← hextends.parentHash, hheader, hlink]
    obtain ⟨a, _, below, ha, haheader, hsuffix⟩ := hother.ancestor hworld hdescends hsame
    have hlength : below.length = path.length :=
      (ha.alike hworld hhead (congrArg P.headerDigest haheader)).length_eq
    have hle := hsuffix.length_le
    rw [List.length_cons]
    omega

structure Node.Topped (world : Set (Block B S)) (initialStore : Store B) (difficulty : ℕ)
    (depth : UInt64) (node : Node P) : Prop where
  historic : node.Historic world initialStore
  checked : node.Checked difficulty depth
  le_head : ∀ (hash : Digest) (b : Block B S), node.miner.chain.blocks[hash]? = some b →
    b.level ≤ node.miner.chain.headBlock.level

namespace Node.Topped

theorem headLine (h : node.Topped world initialStore difficulty depth) :
    ∃ path, Lineage P world initialStore node.miner.chain.headBlock node.miner.chain.headStore
      path :=
  h.historic.known _ _ _ node.miner.chain.getElem?_head node.miner.chain.getElem?_head_snapshot

omit [DecidableEq B] in
theorem le_adopt {chain : ChainState P} {block : Block B S} {store : Store B}
    (h : ∀ (hash : Digest) (b : Block B S), chain.blocks[hash]? = some b →
      b.level ≤ chain.headBlock.level)
    (hhigh : chain.headBlock.level ≤ block.level) (hash : Digest) (b : Block B S)
    (hb : (chain.adopt block store).blocks[hash]? = some b) :
    b.level ≤ (chain.adopt block store).headBlock.level := by
  rw [ChainState.adopt_headBlock]
  obtain ⟨-, rfl⟩ | ⟨-, hold⟩ := getElem?_insert_eq_some.mp (chain.adopt_blocks.mp hb).1
  · exact Nat.le_refl _
  · exact (h hash b hold).trans hhigh

theorem moves (hP : P.Lawful) (hworld : CollisionFree P world) (hwrap : NoWrap world)
    {node' : Node P} {event : NodeEvent B S} (h : node.Topped world initialStore difficulty depth)
    (hgrows : node.GrowsIn world event) (hmoves : Node.Moves node event node') :
    node'.Topped world initialStore difficulty depth := by
  refine ⟨h.historic.moves hP hgrows hmoves, h.checked.moves hgrows hmoves, ?_⟩
  cases hmoves with
  | idle => exact h.le_head
  | submit => exact h.le_head
  | prepare hprepare =>
    obtain ⟨-, rfl⟩ := Miner.prepareRound_eq_some hprepare
    exact h.le_head
  | discard => exact h.le_head
  | stale => exact h.le_head
  | commit hwork hgrind hfresh hstructured =>
    have hextends := h.historic.extends_head hP hworld (List.mem_of_getElem? hwork) hgrind hfresh
    obtain ⟨path, hhead⟩ := h.headLine
    have hlength := hhead.level_eq_length hwrap
    have hlength' := (Lineage.child hhead hextends hstructured
      (hgrows _ _ _ hwork hgrind)).level_eq_length hwrap
    rw [List.length_cons] at hlength'
    exact le_adopt h.le_head (by omega)
  | store haccepts hlow =>
    intro hash b hb
    show b.level ≤ (node.miner.chain.insertBlock _ _).headBlock.level
    rw [ChainState.insertBlock_headBlock haccepts.unknown]
    obtain ⟨-, rfl⟩ | ⟨-, hold⟩ := getElem?_insert_eq_some.mp hb
    · exact UInt64.le_iff_toNat_le.mp hlow
    · exact h.le_head hash b hold
  | adopt _ hhigh => exact le_adopt h.le_head (UInt64.lt_iff_toNat_lt.mp hhigh).le
  | replace => exact hgrows.elim

theorem of_run (hP : P.Lawful) (hworld : CollisionFree P world) (hwrap : NoWrap world)
    {keypair : K} {rewardAddress : Address} {batchSize : ℕ}
    (hrun : Node.Run (Node.GrowsIn world) (Node.start (.new P initialStore difficulty depth) keypair
      rewardAddress batchSize) node) :
    node.Topped world initialStore difficulty depth := by
  refine Node.Run.invariant (fun h hgrows hmoves => h.moves hP hworld hwrap hgrows hmoves) hrun
    ⟨Node.historic_start _ _ _ _ _, Node.checked_start _ _ _ _, ?_⟩
  have hsingle : (ChainState.single P .genesis initialStore difficulty depth).Grown world
      (fun _ => 0) .genesis := ChainState.grown_single hworld.genesis
  exact hsingle.le_head

theorem unknown_above (h : node.Topped grown initialStore difficulty depth) (hwrap : NoWrap grown)
    (hsub : grown ⊆ world) (hworld : CollisionFree P world) {block : Block B S}
    (habove : Above P world node.miner.chain.headBlock block) :
    node.miner.chain.blocks[block.hash P]? = none := by
  cases hknown : node.miner.chain.blocks[block.hash P]? with
  | none => rfl
  | some twin =>
    have hmem := (node.miner.chain.mem_snapshots _).mp (mem_of_getElem? hknown)
    obtain ⟨store, hstore⟩ := exists_of_mem hmem
    obtain ⟨line, hline⟩ := h.historic.known _ _ _ hknown hstore
    obtain ⟨path, hhead⟩ := h.headLine
    have hlonger := (hhead.mono hsub).length_lt_of_above hworld habove (hline.mono hsub)
      (node.miner.chain.hash_eq _ _ hknown)
    have hlevel := hhead.level_eq_length hwrap
    have hlevel' := hline.level_eq_length hwrap
    have hle := h.le_head _ _ hknown
    omega

/-- The head passes the checks of a snapshot. -/
theorem fromSnapshot_head (h : node.Topped grown initialStore difficulty depth)
    {height now : UInt64} (hheight : height < node.miner.chain.headHeight)
    (hclock : node.miner.chain.headBlock.header.timestamp ≤ now + maxBlockFutureDriftMs) :
    ChainState.fromSnapshot P now height node.miner.chain.headBlock node.miner.chain.headStore
      difficulty depth = .ok (.single P node.miner.chain.headBlock node.miner.chain.headStore
        difficulty depth) := by
  have hne : node.miner.chain.headBlock ≠ .genesis := by
    intro hgenesis
    have hzero : node.miner.chain.headHeight = 0 :=
      congrArg (fun block : Block B S => block.header.height) hgenesis
    rw [hzero] at hheight
    exact UInt64.not_lt_zero hheight
  refine ChainState.fromSnapshot_eq_ok.mpr ⟨hheight, ?_, ?_, rfl⟩
  · obtain hgenesis | ⟨_, hstructured⟩ :=
      h.checked.structured _ _ node.miner.chain.getElem?_head
    · exact absurd hgenesis hne
    · exact { hstructured with timestamp_le := hclock }
  · obtain ⟨path, hhead⟩ := h.headLine
    generalize node.miner.chain.headBlock = block at hhead hne ⊢
    cases hhead with
    | genesis => exact absurd rfl hne
    | child _ hextends =>
      obtain ⟨_, _, _, hroot⟩ := ChainState.replay_eq_ok.mp hextends.replayed
      exact hroot

/-- The chain and the one anchored at its head agree on the head and all that is above it. -/
theorem agreeOn_single (h : node.Topped grown initialStore difficulty depth)
    (hwrap : NoWrap grown) (hsub : grown ⊆ world) (hworld : CollisionFree P world) :
    (ChainState.single P node.miner.chain.headBlock node.miner.chain.headStore difficulty
      depth).AgreeOn (hashesFrom P world node.miner.chain.headBlock) node.miner.chain := by
  set head := node.miner.chain.headBlock
  have hhash : head.hash P = node.miner.chain.head := node.miner.chain.headBlock_hash
  -- A block above the head is unknown to the chain, so it has another hash than the head.
  have hcases : ∀ hash ∈ hashesFrom P world head, hash = node.miner.chain.head ∨
      hash ≠ node.miner.chain.head ∧ node.miner.chain.blocks[hash]? = none := by
    rintro hash ⟨block, hdescends, rfl⟩
    obtain rfl | ⟨parent, hparent, hparentMem, hblock, hlink⟩ := hdescends.cases_tail
    · exact .inl hhash
    · have hunknown := h.unknown_above hwrap hsub hworld
        ⟨hblock, parent, hparentMem, hparent, hlink⟩
      refine .inr ⟨fun heq => ?_, hunknown⟩
      rw [heq, node.miner.chain.getElem?_head] at hunknown
      cases hunknown
  refine ⟨hhash, ⟨head, .refl, rfl⟩, h.checked.difficulty_eq.symm, h.checked.depth_eq.symm, ?_, ?_⟩
  · intro hash hmem
    show ((∅ : Std.ExtTreeMap Digest (Block B S)).insert (head.hash P) head)[hash]? = _
    rw [hhash]
    obtain rfl | ⟨hne, hunknown⟩ := hcases hash hmem
    · rw [node.miner.chain.getElem?_head, Std.ExtTreeMap.getElem?_insert_self]
    · rw [hunknown, Std.ExtTreeMap.getElem?_insert]
      simp [Ne.symm hne]
  · intro hash hmem
    show ((∅ : Std.ExtTreeMap Digest (Store B)).insert (head.hash P) _)[hash]? = _
    rw [hhash]
    obtain rfl | ⟨hne, hunknown⟩ := hcases hash hmem
    · rw [node.miner.chain.getElem?_head_snapshot, Std.ExtTreeMap.getElem?_insert_self]
    · have hnone : node.miner.chain.snapshots[hash]? = none := by
        refine Option.eq_none_iff_forall_ne_some.mpr fun store hstore => ?_
        obtain ⟨block, hblock⟩ := node.miner.chain.block_of_snapshot hstore
        rw [hunknown] at hblock
        cases hblock
      rw [hnone, Std.ExtTreeMap.getElem?_insert]
      simp [Ne.symm hne]

end Node.Topped

/-- The chain taken over from the head of a node has the head and the head store of the node, and
whatever blocks above the head arrive, in whatever order, both chains give the same answers, end
with the same head and have the same snapshots for these blocks. -/
theorem state_sync_seamless (hP : P.Lawful) (hworld : CollisionFree P world)
    (hsub : grown ⊆ world) (hwrap : NoWrap grown) (hstart : initialStore.Keyed) {keypair : K}
    {rewardAddress : Address} {batchSize : ℕ}
    (hrun : Node.Run (Node.GrowsIn grown) (Node.start (.new P initialStore difficulty depth) keypair
      rewardAddress batchSize) node)
    {height now : UInt64} (hheight : height < node.miner.chain.headHeight)
    (hclock : node.miner.chain.headBlock.header.timestamp ≤ now + maxBlockFutureDriftMs) :
    ∃ snapshot anchored,
      node.miner.chain.getBlockSnapshot node.miner.chain.head = some snapshot ∧
      ChainState.fromSnapshot P now height snapshot.head (Store.withObjects snapshot.objects)
        node.miner.chain.difficulty node.miner.chain.snapshotDepth = .ok anchored ∧
      anchored.head = node.miner.chain.head ∧
      anchored.headStore = node.miner.chain.headStore ∧
      ∀ blocks : List (UInt64 × Block B S),
        (∀ entry ∈ blocks, Above P world node.miner.chain.headBlock entry.2) →
        (anchored.applyEach blocks).1 = (node.miner.chain.applyEach blocks).1 ∧
        (anchored.applyEach blocks).2.head = (node.miner.chain.applyEach blocks).2.head ∧
        ∀ block, Above P world node.miner.chain.headBlock block →
          (anchored.applyEach blocks).2.getBlockSnapshot (block.hash P) =
            (node.miner.chain.applyEach blocks).2.getBlockSnapshot (block.hash P) := by
  have hsub' : insert .genesis grown ⊆ world := Set.insert_subset hworld.genesis hsub
  have hwrap' : NoWrap (insert .genesis grown) := by
    rintro b (rfl | hb) hzero
    · rfl
    · exact hwrap b hb hzero
  have htopped := Node.Topped.of_run hP (hworld.mono hsub' (Set.mem_insert _ _)) hwrap'
    (hrun.mono fun _ _ hgrows => hgrows.mono (Set.subset_insert _ _))
  obtain ⟨path, hhead⟩ := htopped.headLine
  have hagree := htopped.agreeOn_single hwrap' hsub' hworld
  have hstore := Store.withObjects_objects (hhead.keyed hstart)
  refine ⟨_, _, node.miner.chain.getBlockSnapshot_head, ?_, hagree.head, ?_, ?_⟩
  · rw [hstore, htopped.checked.difficulty_eq, htopped.checked.depth_eq]
    exact htopped.fromSnapshot_head hheight hclock
  · have hsnapshot := hagree.snapshots _ hagree.head_mem
    rw [ChainState.getElem?_head_snapshot, hagree.head, ChainState.getElem?_head_snapshot]
      at hsnapshot
    exact Option.some.inj hsnapshot
  · intro blocks hblocks
    obtain ⟨hresults, hfinal⟩ := hagree.applyEach fun entry hentry =>
      (hblocks entry hentry).hashes_mem
    exact ⟨hresults, hfinal.head, fun block hblock =>
      hfinal.getBlockSnapshot_eq hblock.hashes_mem.1⟩

end Head

namespace Sample

/-- A block that is mined on the head of `node` and that the chain of `node` takes over, at the
clock reading 10. -/
def followedBy (node later : Node chainPlatform) : Bool :=
  decide (forkBlocks.contains later.miner.chain.headBlock ∧
    forkBlocks.contains node.miner.chain.headBlock ∧
    later.miner.chain.headBlock.header.parentHash = node.miner.chain.head ∧
    0 < node.miner.chain.headHeight ∧
    node.miner.chain.headBlock.header.timestamp ≤ 10 + maxBlockFutureDriftMs ∧
    (node.miner.chain.applyEach [(10, later.miner.chain.headBlock)]).2.head =
      later.miner.chain.head)

end Sample

open Sample in
/-- A chain anchored at the first block of a line goes on to the second one. -/
theorem state_sync_seamless_next :
    ∃ (node : Node chainPlatform) (anchored : ChainState chainPlatform)
      (next : Block Bytes (Address × Digest)),
      ChainState.fromSnapshot chainPlatform 10 0 node.miner.chain.headBlock
        (Store.withObjects node.miner.chain.headStore.objects) 0 2 = .ok anchored ∧
      anchored.head = node.miner.chain.head ∧
      (anchored.applyEach [(10, next)]).2.head = next.hash chainPlatform := by
  obtain ⟨node, hnode, h⟩ := Outcome.exists_of_isOkAnd
    (x := mineLine (growsIn forkBlocks) 9 shallowNode [5])
    (p := fun node : Node chainPlatform =>
      (mineLine (growsIn forkBlocks) 9 node [6]).isOkAnd (followedBy node)) (by decide +kernel)
  obtain ⟨later, -, hfollowed⟩ := Outcome.exists_of_isOkAnd h
  obtain ⟨hnext, hhead, hlink, hheight, hclock, hmoved⟩ := of_decide_eq_true hfollowed
  obtain ⟨hrun, hfollows⟩ := follows_of_mineLine hnode
  obtain ⟨snapshot, anchored, hsnapshot, hanchored, hsame, -, hrest⟩ :=
    state_sync_seamless chainPlatform_lawful forkBlocks_valid.toCollisionFree (Set.Subset.refl _)
      forkBlocks_noWrap bareStore_genuine.keyed hrun hheight hclock
  rw [ChainState.getBlockSnapshot_head, Option.some.injEq] at hsnapshot
  rw [← hsnapshot, hfollows.difficulty_eq, hfollows.depth_eq] at hanchored
  refine ⟨node, anchored, later.miner.chain.headBlock, hanchored, hsame, ?_⟩
  obtain ⟨-, hheads, -⟩ := hrest [(10, later.miner.chain.headBlock)] (by
    intro entry hentry
    obtain rfl := List.mem_singleton.mp hentry
    exact ⟨List.contains_iff_mem.mp hnext, _, List.contains_iff_mem.mp hhead, .refl,
      hlink.trans node.miner.chain.headBlock_hash.symm⟩)
  rw [hheads, hmoved, later.miner.chain.headBlock_hash]

end MeowChain
