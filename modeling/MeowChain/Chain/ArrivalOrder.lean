import MeowChain.Chain.CatchUp

/-!
# The order of arrival

While nothing is pruned, whether a block is accepted depends on its own line only. So blocks that
arrive in different orders, each after its parent, leave the same blocks and stores, as long as no
two of them have the same hash; and the head is the first of the highest.
-/

set_option autoImplicit false

namespace MeowChain

variable {B S K : Type} {P : ChainPlatform B S K}

/-! ## Feeding blocks -/

/-- Give the blocks to `apply_block` one after the other: the chain at the end, and the blocks that
were accepted. A block that is refused leaves the chain as it is. -/
def ChainState.feed [DecidableEq B] (now : UInt64) (chain : ChainState P) :
    List (Block B S) → ChainState P × List (Block B S)
  | [] => (chain, [])
  | block :: rest =>
    match chain.applyBlock now block with
    | .ok r => ((ChainState.feed now r.1 rest).1, block :: (ChainState.feed now r.1 rest).2)
    | _ => ChainState.feed now chain rest

/-- No block comes before its parent. -/
def ParentsFirst (P : ChainPlatform B S K) (order : List (Block B S)) : Prop :=
  order.Pairwise fun earlier later => later.hash P ≠ earlier.header.parentHash

def FirstHighest (head : Block B S) (blocks : List (Block B S)) : Prop :=
  ∃ before after, blocks = before ++ head :: after ∧
    (∀ b ∈ before, b.header.height < head.header.height) ∧
    ∀ b ∈ after, b.header.height ≤ head.header.height

theorem FirstHighest.le {head b : Block B S} {blocks : List (Block B S)}
    (h : FirstHighest head blocks) (hb : b ∈ blocks) : b.header.height ≤ head.header.height := by
  obtain ⟨before, after, rfl, hbefore, hafter⟩ := h
  rcases List.mem_append.mp hb with hb | hb
  · exact UInt64.le_of_lt (hbefore b hb)
  · rcases List.mem_cons.mp hb with rfl | hb
    · exact UInt64.le_refl _
    · exact hafter b hb

theorem FirstHighest.mem {head : Block B S} {blocks : List (Block B S)}
    (h : FirstHighest head blocks) : head ∈ blocks := by
  obtain ⟨before, after, rfl, -, -⟩ := h
  simp

theorem FirstHighest.append_of_le {head block : Block B S} {blocks : List (Block B S)}
    (h : FirstHighest head blocks) (hle : block.header.height ≤ head.header.height) :
    FirstHighest head (blocks ++ [block]) := by
  obtain ⟨before, after, rfl, hbefore, hafter⟩ := h
  refine ⟨before, after ++ [block], by simp, hbefore, ?_⟩
  intro b hb
  rcases List.mem_append.mp hb with hb | hb
  · exact hafter b hb
  · exact List.mem_singleton.mp hb ▸ hle

theorem FirstHighest.append_of_lt {head block : Block B S} {blocks : List (Block B S)}
    (h : FirstHighest head blocks) (hlt : head.header.height < block.header.height) :
    FirstHighest block (blocks ++ [block]) :=
  ⟨blocks, [], rfl, fun _ hb => UInt64.lt_of_le_of_lt (h.le hb) hlt, by simp⟩

section Head

variable [DecidableEq B] {chain : ChainState P}

omit [DecidableEq B] in
theorem FirstHighest.keep {blocks : List (Block B S)} (h : FirstHighest chain.headBlock blocks)
    {block : Block B S} (hunknown : block.hash P ∉ chain.blocks) (store : Store B) :
    FirstHighest (chain.keep block store).1.headBlock (blocks ++ [block]) := by
  unfold ChainState.keep
  split_ifs with hhigher
  · rw [ChainState.adopt_headBlock]
    exact h.append_of_lt hhigher
  · rw [ChainState.insertBlock_headBlock hunknown]
    exact h.append_of_le (UInt64.not_lt.mp hhigher)

theorem FirstHighest.feed {blocks : List (Block B S)} (h : FirstHighest chain.headBlock blocks)
    (now : UInt64) (order : List (Block B S)) :
    FirstHighest (chain.feed now order).1.headBlock (blocks ++ (chain.feed now order).2) := by
  induction order generalizing chain blocks with
  | nil => simpa [ChainState.feed] using h
  | cons block order ih =>
    unfold ChainState.feed
    split
    · rename_i r happly
      obtain ⟨parent, parentStore, store, haccepts, rfl⟩ := ChainState.applyBlock_eq_ok.mp happly
      have hnext := ih (h.keep haccepts.unknown store)
      rwa [List.append_assoc] at hnext
    · exact ih h

end Head

/-! ## Valid blocks -/

/-- A block of `world` is valid, with a store, on its own line: whatever else a node may know. -/
inductive Block.Valid [DecidableEq B] (P : ChainPlatform B S K) (now : UInt64) (difficulty : ℕ)
    (initialStore : Store B) (world : Set (Block B S)) : Block B S → Store B → Prop
  | genesis : Valid P now difficulty initialStore world .genesis initialStore
  | child {parent block : Block B S} {parentStore store : Store B}
      (hparent : Valid P now difficulty initialStore world parent parentStore)
      (hmem : block ∈ world) (hnew : block.hash P ≠ Block.hash P (.genesis : Block B S))
      (hstructured : block.WellStructured P now difficulty)
      (htime : parent.header.timestamp < block.header.timestamp)
      (hextends : Block.Extends P parent parentStore block store) :
      Valid P now difficulty initialStore world block store

section Valid

variable [DecidableEq B] {now depth : UInt64} {difficulty : ℕ} {initialStore : Store B}
variable {world : Set (Block B S)}

theorem Block.Valid.unique
    (hhash : ∀ b ∈ world, ∀ b' ∈ world, b.hash P = b'.hash P → b = b') {block block' : Block B S}
    {store store' : Store B} (h : block.Valid P now difficulty initialStore world store)
    (h' : block'.Valid P now difficulty initialStore world store')
    (heq : block.hash P = block'.hash P) : block = block' ∧ store = store' := by
  induction h generalizing block' store' with
  | genesis =>
    cases h' with
    | genesis => exact ⟨rfl, rfl⟩
    | child _ _ hnew _ _ _ => exact absurd heq.symm hnew
  | child hparent hmem hnew _ _ hextends ih =>
    cases h' with
    | genesis => exact absurd heq hnew
    | child hparent' hmem' _ _ _ hextends' =>
      obtain rfl := hhash _ hmem _ hmem' heq
      obtain ⟨rfl, rfl⟩ := ih hparent' (hextends.parentHash.symm.trans hextends'.parentHash)
      exact ⟨rfl, Outcome.ok.inj (hextends.replayed.symm.trans hextends'.replayed)⟩

/-- The chain knows the genesis block and the valid blocks among `done`, with their stores. -/
structure ChainState.Knows (now : UInt64) (initialStore : Store B) (world : Set (Block B S))
    (done : List (Block B S)) (chain : ChainState P) : Prop where
  depth : ∀ b ∈ world, b.header.height ≤ chain.snapshotDepth
  known : ∀ (hash : Digest) (block : Block B S) (store : Store B),
    chain.blocks[hash]? = some block ∧ chain.snapshots[hash]? = some store ↔
      block.hash P = hash ∧ block.Valid P now chain.difficulty initialStore world store ∧
        (block = .genesis ∨ block ∈ done)

theorem ChainState.knows_new (hdepth : ∀ b ∈ world, b.header.height ≤ depth) :
    (ChainState.new P initialStore difficulty depth).Knows now initialStore world [] := by
  refine ⟨hdepth, fun hash block store => ?_⟩
  constructor
  · rintro ⟨hblock, hstore⟩
    obtain ⟨rfl, rfl⟩ | ⟨-, hempty⟩ := getElem?_insert_eq_some.mp hblock
    · obtain ⟨-, rfl⟩ | ⟨hne, -⟩ := getElem?_insert_eq_some.mp hstore
      · exact ⟨rfl, .genesis, .inl rfl⟩
      · exact absurd rfl hne
    · simp at hempty
  · rintro ⟨rfl, hvalid, rfl | hdone⟩
    · cases hvalid with
      | genesis =>
        exact ⟨getElem?_insert_eq_some.mpr (.inl ⟨rfl, rfl⟩),
          getElem?_insert_eq_some.mpr (.inl ⟨rfl, rfl⟩)⟩
      | child _ _ hnew _ _ _ => exact absurd rfl hnew
    · cases hdone

omit [DecidableEq B] in
/-- Nothing is pruned while the depth is not reached. -/
theorem ChainState.keep_entry {chain : ChainState P} {block other : Block B S}
    {store otherStore : Store B} (hdepth : block.header.height ≤ chain.snapshotDepth)
    {hash : Digest} :
    (chain.keep block store).1.blocks[hash]? = some other ∧
        (chain.keep block store).1.snapshots[hash]? = some otherStore ↔
      (chain.insertBlock block store).blocks[hash]? = some other ∧
        (chain.insertBlock block store).snapshots[hash]? = some otherStore := by
  unfold ChainState.keep
  split_ifs with hhigher
  · have hblocks : ∀ other : Block B S, (chain.adopt block store).blocks[hash]? = some other ↔
        (chain.insertBlock block store).blocks[hash]? = some other := by
      intro other
      rw [chain.adopt_blocks]
      exact and_iff_left fun hlt => absurd hdepth (UInt64.not_le.mpr hlt)
    rw [hblocks, chain.adopt_snapshots]
    refine and_congr_right fun hget => and_iff_left ?_
    exact mem_of_getElem? ((hblocks other).mpr hget)
  · exact Iff.rfl

omit [DecidableEq B] in
theorem ChainState.keep_config (chain : ChainState P) (block : Block B S) (store : Store B) :
    (chain.keep block store).1.difficulty = chain.difficulty ∧
      (chain.keep block store).1.snapshotDepth = chain.snapshotDepth := by
  unfold ChainState.keep
  split_ifs
  · exact ⟨rfl, rfl⟩
  · exact ⟨rfl, rfl⟩

section Knows

variable {chain : ChainState P} {done : List (Block B S)} {block : Block B S}
variable (hhash : ∀ b ∈ world, ∀ b' ∈ world, b.hash P = b'.hash P → b = b')

theorem ChainState.Knows.valid (h : chain.Knows now initialStore world done) {parent : Block B S}
    {parentStore store : Store B} (hmem : block ∈ world)
    (haccepts : chain.Accepts now block parent parentStore store) :
    block.hash P ≠ Block.hash P (.genesis : Block B S) ∧
      block.Valid P now chain.difficulty initialStore world store := by
  obtain ⟨-, hparent, -⟩ :=
    (h.known _ _ _).mp ⟨haccepts.parent_known, haccepts.parent_snapshot⟩
  have hnew : block.hash P ≠ Block.hash P (.genesis : Block B S) := by
    intro heq
    have hgenesis := (h.known _ _ _).mpr ⟨rfl, Block.Valid.genesis, .inl rfl⟩
    exact haccepts.unknown (heq ▸ mem_of_getElem? hgenesis.1)
  exact ⟨hnew, .child hparent hmem hnew haccepts.structured haccepts.timestamp
    haccepts.extends_parent⟩

include hhash in
theorem ChainState.Knows.keep (h : chain.Knows now initialStore world done) {parent : Block B S}
    {parentStore store : Store B} (hmem : block ∈ world)
    (haccepts : chain.Accepts now block parent parentStore store) :
    (chain.keep block store).1.Knows now initialStore world (done ++ [block]) := by
  obtain ⟨-, hvalid⟩ := h.valid hmem haccepts
  obtain ⟨hdifficulty, hdepth⟩ := chain.keep_config block store
  refine ⟨hdepth ▸ h.depth, fun hash other otherStore => ?_⟩
  rw [ChainState.keep_entry (h.depth block hmem), hdifficulty]
  constructor
  · rintro ⟨hblock, hstore⟩
    obtain ⟨rfl, rfl⟩ | hold := chain.insertBlock_entry hblock hstore
    · exact ⟨(chain.insertBlock other otherStore).hash_eq _ _ hblock, hvalid, .inr (by simp)⟩
    · obtain ⟨hother, hothers, hdone⟩ := (h.known _ _ _).mp hold
      exact ⟨hother, hothers, hdone.imp_right (List.mem_append_left _)⟩
  · rintro ⟨rfl, hothers, hdone⟩
    by_cases heq : block.hash P = other.hash P
    · obtain ⟨rfl, rfl⟩ := hvalid.unique hhash hothers heq
      exact ⟨getElem?_insert_eq_some.mpr (.inl ⟨rfl, rfl⟩),
        getElem?_insert_eq_some.mpr (.inl ⟨rfl, rfl⟩)⟩
    · have hdone : other = .genesis ∨ other ∈ done := by
        rcases hdone with rfl | hdone
        · exact .inl rfl
        · rcases List.mem_append.mp hdone with hdone | hlast
          · exact .inr hdone
          · exact absurd (congrArg (Block.hash P) (List.mem_singleton.mp hlast)).symm heq
      obtain ⟨hblock, hstore⟩ := (h.known _ _ _).mpr ⟨rfl, hothers, hdone⟩
      exact ⟨getElem?_insert_eq_some.mpr (.inr ⟨heq, hblock⟩),
        getElem?_insert_eq_some.mpr (.inr ⟨heq, hstore⟩)⟩

include hhash in
theorem ChainState.Knows.known_of_refused (h : chain.Knows now initialStore world done)
    (hparents : ∀ p ∈ world, p.hash P = block.header.parentHash → p ∈ done ∨ p = block)
    (hrefused : ∀ r, chain.applyBlock now block ≠ .ok r) {store : Store B}
    (hvalid : block.Valid P now chain.difficulty initialStore world store) :
    block = .genesis ∨ block ∈ done := by
  by_cases hknown : block.hash P ∈ chain.blocks
  · obtain ⟨other, hother⟩ := exists_of_mem hknown
    obtain ⟨otherStore, hstore⟩ := exists_of_mem ((chain.mem_snapshots _).mp hknown)
    obtain ⟨heq, hothers, hdone⟩ := (h.known _ _ _).mp ⟨hother, hstore⟩
    exact (hothers.unique hhash hvalid heq).1 ▸ hdone
  · cases hvalid with
    | genesis => exact .inl rfl
    | @child parent _ parentStore _ hparent hmem hnew hstructured htime hextends =>
      have hdone : parent = .genesis ∨ parent ∈ done := by
        cases hparent with
        | genesis => exact .inl rfl
        | child _ hmem' _ _ _ _ =>
          refine (hparents parent hmem' hextends.parentHash.symm).elim .inr fun heq => ?_
          -- No block is its own parent: it would have to be one higher than itself.
          have hheight := hextends.height
          rw [heq] at hheight
          exact absurd hheight (by simp)
      obtain ⟨hblock, hstore⟩ := (h.known _ _ _).mpr ⟨hextends.parentHash.symm, hparent, hdone⟩
      refine absurd (ChainState.applyBlock_eq_ok.mpr ⟨parent, parentStore, store, ?_, rfl⟩)
        (hrefused _)
      exact ⟨hknown, hblock, hstore, hstructured, htime, hextends⟩

include hhash in
theorem ChainState.Knows.skip (h : chain.Knows now initialStore world done)
    (hparents : ∀ p ∈ world, p.hash P = block.header.parentHash → p ∈ done ∨ p = block)
    (hrefused : ∀ r, chain.applyBlock now block ≠ .ok r) :
    chain.Knows now initialStore world (done ++ [block]) := by
  refine ⟨h.depth, fun hash other store => ?_⟩
  rw [h.known]
  refine and_congr_right fun _ => and_congr_right fun hvalid => ?_
  constructor
  · exact Or.imp_right (List.mem_append_left _)
  · rintro (rfl | hdone)
    · exact .inl rfl
    · rcases List.mem_append.mp hdone with hdone | hlast
      · exact .inr hdone
      · obtain rfl := List.mem_singleton.mp hlast
        exact h.known_of_refused hhash hparents hrefused hvalid

include hhash in
/-- After all blocks the chain knows the valid ones, and these were accepted. -/
theorem ChainState.Knows.feed {rest : List (Block B S)}
    (h : chain.Knows now initialStore world done) (horder : ParentsFirst P (done ++ rest))
    (hworld : ∀ b, b ∈ world ↔ b ∈ done ++ rest) (hnodup : (done ++ rest).Nodup) :
    (chain.feed now rest).1.Knows now initialStore world (done ++ rest) ∧
      (chain.feed now rest).1.difficulty = chain.difficulty ∧
      ∀ b, b ∈ (chain.feed now rest).2 ↔ b ∈ rest ∧ b ≠ .genesis ∧
        ∃ store, b.Valid P now chain.difficulty initialStore world store := by
  induction rest generalizing chain done with
  | nil => exact ⟨by simpa [ChainState.feed] using h, rfl, by simp [ChainState.feed]⟩
  | cons block rest ih =>
    have hassoc : done ++ block :: rest = done ++ [block] ++ rest := by simp
    have hmem : block ∈ world := (hworld block).mpr (by simp)
    have hundone : block ∉ done := by
      intro hdone
      exact (List.nodup_append.mp hnodup).2.2 block hdone block List.mem_cons_self rfl
    have hparents : ∀ p ∈ world, p.hash P = block.header.parentHash → p ∈ done ∨ p = block := by
      intro p hp hlink
      rcases List.mem_append.mp ((hworld p).mp hp) with hdone | hlater
      · exact .inl hdone
      · rcases List.mem_cons.mp hlater with heq | hlater
        · exact .inr heq
        · have hrest := (List.pairwise_append.mp horder).2.1
          exact absurd hlink ((List.pairwise_cons.mp hrest).1 p hlater)
    rw [hassoc] at horder hworld hnodup ⊢
    unfold ChainState.feed
    split
    · rename_i r happly
      obtain ⟨parent, parentStore, store, haccepts, rfl⟩ := ChainState.applyBlock_eq_ok.mp happly
      obtain ⟨hnew, hvalid⟩ := h.valid hmem haccepts
      have hconfig := (chain.keep_config block store).1
      obtain ⟨hknows, hdifficulty, haccepted⟩ :=
        ih (h.keep hhash hmem haccepts) horder hworld hnodup
      refine ⟨hknows, hdifficulty.trans hconfig, fun b => ?_⟩
      rw [List.mem_cons, haccepted, List.mem_cons, hconfig]
      constructor
      · rintro (rfl | ⟨hb, hothers⟩)
        · exact ⟨.inl rfl, fun heq => hnew (congrArg (Block.hash P) heq), store, hvalid⟩
        · exact ⟨.inr hb, hothers⟩
      · rintro ⟨rfl | hb, hothers⟩
        · exact .inl rfl
        · exact .inr ⟨hb, hothers⟩
    · rename_i hrefused
      obtain ⟨hknows, hdifficulty, haccepted⟩ :=
        ih (h.skip hhash hparents hrefused) horder hworld hnodup
      refine ⟨hknows, hdifficulty, fun b => ?_⟩
      rw [haccepted, List.mem_cons]
      refine and_congr_left fun hothers => (or_iff_right ?_).symm
      rintro rfl
      obtain ⟨hne, store, hvalid⟩ := hothers
      exact (h.known_of_refused hhash hparents hrefused hvalid).elim hne hundone

omit hhash in
/-- Chains that know the same blocks are equal up to their heads. -/
theorem ChainState.Knows.maps_eq {chain' : ChainState P} {done' : List (Block B S)}
    (h : chain.Knows now initialStore world done) (h' : chain'.Knows now initialStore world done')
    (hdifficulty : chain.difficulty = chain'.difficulty) (hsame : ∀ b, b ∈ done ↔ b ∈ done') :
    chain.blocks = chain'.blocks ∧ chain.snapshots = chain'.snapshots := by
  have hentries : ∀ (hash : Digest) (block : Block B S) (store : Store B),
      chain.blocks[hash]? = some block ∧ chain.snapshots[hash]? = some store ↔
        chain'.blocks[hash]? = some block ∧ chain'.snapshots[hash]? = some store := by
    intro hash block store
    rw [h.known, h'.known, hdifficulty, hsame]
  have hstored : ∀ (c : ChainState P) (hash : Digest) (block : Block B S),
      c.blocks[hash]? = some block → ∃ store, c.snapshots[hash]? = some store :=
    fun c hash block hget => exists_of_mem ((c.mem_snapshots hash).mp (mem_of_getElem? hget))
  constructor
  · refine Std.ExtTreeMap.ext_getElem? fun hash => Option.ext fun block => ?_
    constructor
    · intro hget
      obtain ⟨store, hstore⟩ := hstored chain hash block hget
      exact ((hentries hash block store).mp ⟨hget, hstore⟩).1
    · intro hget
      obtain ⟨store, hstore⟩ := hstored chain' hash block hget
      exact ((hentries hash block store).mpr ⟨hget, hstore⟩).1
  · refine Std.ExtTreeMap.ext_getElem? fun hash => Option.ext fun store => ?_
    constructor
    · intro hget
      obtain ⟨block, hblock⟩ := chain.block_of_snapshot hget
      exact ((hentries hash block store).mp ⟨hblock, hget⟩).2
    · intro hget
      obtain ⟨block, hblock⟩ := chain'.block_of_snapshot hget
      exact ((hentries hash block store).mpr ⟨hblock, hget⟩).2

end Knows

/-! ## Two orders -/

/-- A fresh chain that is fed with blocks, and the blocks it accepted. -/
def arrive (P : ChainPlatform B S K) (initialStore : Store B) (difficulty : ℕ)
    (depth now : UInt64) (order : List (Block B S)) : ChainState P × List (Block B S) :=
  (ChainState.new P initialStore difficulty depth).feed now order

theorem arrive_knows (initialStore : Store B) (difficulty : ℕ) (now : UInt64)
    {order : List (Block B S)} (hworld : ∀ b, b ∈ world ↔ b ∈ order)
    (hhashes : (order.map (Block.hash P)).Nodup) (hdepth : ∀ b ∈ order, b.header.height ≤ depth)
    (horder : ParentsFirst P order) :
    (arrive P initialStore difficulty depth now order).1.Knows now initialStore world order ∧
      (arrive P initialStore difficulty depth now order).1.difficulty = difficulty ∧
      ∀ b, b ∈ (arrive P initialStore difficulty depth now order).2 ↔ b ∈ order ∧ b ≠ .genesis ∧
        ∃ store, b.Valid P now difficulty initialStore world store := by
  have hhash : ∀ b ∈ world, ∀ b' ∈ world, b.hash P = b'.hash P → b = b' := by
    intro b hb b' hb'
    exact List.inj_on_of_nodup_map hhashes ((hworld b).mp hb) ((hworld b').mp hb')
  exact (ChainState.knows_new fun b hb => hdepth b ((hworld b).mp hb)).feed hhash horder hworld
    (List.Nodup.of_map _ hhashes)

/-- Blocks of different hashes that arrive each after its parent leave the same blocks and stores in
whatever order they come, and the head is the first of the highest. -/
theorem arrival_order_irrelevant (initialStore : Store B) (difficulty : ℕ) (depth now : UInt64)
    {order order' : List (Block B S)} (hset : order.Perm order')
    (hhashes : (order.map (Block.hash P)).Nodup) (hdepth : ∀ b ∈ order, b.header.height ≤ depth)
    (horder : ParentsFirst P order) (horder' : ParentsFirst P order') :
    (∀ b, b ∈ (arrive P initialStore difficulty depth now order).2 ↔
      b ∈ (arrive P initialStore difficulty depth now order').2) ∧
    (arrive P initialStore difficulty depth now order).1.blocks =
      (arrive P initialStore difficulty depth now order').1.blocks ∧
    (arrive P initialStore difficulty depth now order).1.snapshots =
      (arrive P initialStore difficulty depth now order').1.snapshots ∧
    (arrive P initialStore difficulty depth now order).1.headHeight =
      (arrive P initialStore difficulty depth now order').1.headHeight ∧
    FirstHighest (arrive P initialStore difficulty depth now order).1.headBlock
      (.genesis :: (arrive P initialStore difficulty depth now order).2) ∧
    FirstHighest (arrive P initialStore difficulty depth now order').1.headBlock
      (.genesis :: (arrive P initialStore difficulty depth now order').2) := by
  have hworld : ∀ b, b ∈ { b | b ∈ order } ↔ b ∈ order := fun _ => Iff.rfl
  have hworld' : ∀ b, b ∈ { b | b ∈ order } ↔ b ∈ order' := fun _ => hset.mem_iff
  obtain ⟨hknows, hdifficulty, haccepted⟩ :=
    arrive_knows initialStore difficulty now hworld hhashes hdepth horder
  obtain ⟨hknows', hdifficulty', haccepted'⟩ :=
    arrive_knows initialStore difficulty now hworld' ((hset.map _).nodup_iff.mp hhashes)
      (fun b hb => hdepth b (hset.mem_iff.mpr hb)) horder'
  have hsame : ∀ b, b ∈ (arrive P initialStore difficulty depth now order).2 ↔
      b ∈ (arrive P initialStore difficulty depth now order').2 := by
    intro b
    rw [haccepted, haccepted', hset.mem_iff]
  have hstart : FirstHighest (ChainState.new P initialStore difficulty depth).headBlock
      [.genesis] := by
    have hhead : (ChainState.new P initialStore difficulty depth).headBlock = .genesis := by
      have hget := (ChainState.new P initialStore difficulty depth).getElem?_head
      obtain ⟨-, hblock⟩ | ⟨hne, -⟩ := getElem?_insert_eq_some.mp hget
      · exact hblock.symm
      · exact absurd rfl hne
    exact ⟨[], [], by rw [hhead]; rfl, by simp, by simp⟩
  have hfirst := hstart.feed now order
  have hfirst' := hstart.feed now order'
  obtain ⟨hblocks, hsnapshots⟩ :=
    hknows.maps_eq hknows' (hdifficulty.trans hdifficulty'.symm) fun _ => hset.mem_iff
  refine ⟨hsame, hblocks, hsnapshots, UInt64.le_antisymm ?_ ?_, hfirst, hfirst'⟩
  · have hmem := List.mem_cons.mp hfirst.mem
    exact hfirst'.le (List.mem_cons.mpr (hmem.imp_right (hsame _).mp))
  · have hmem := List.mem_cons.mp hfirst'.mem
    exact hfirst.le (List.mem_cons.mpr (hmem.imp_right (hsame _).mpr))

end Valid

namespace Sample

def siblings : List (Block Bytes (Address × Digest)) :=
  (lineBlocks 8 [5]).tail ++ (lineBlocks 9 [5]).tail

/-- Signatures with a bit that no check looks at: there are two for every message. -/
def loosePlatform : ChainPlatform Bytes ((Address × Digest) × Bool) Address where
  toPlatform := chainPlatform.toPlatform
  signer s := chainPlatform.signer s.1
  verify s := chainPlatform.verify s.1
  sign key digest := (chainPlatform.sign key digest, false)
  keyAddress := chainPlatform.keyAddress
  headerDigest := chainPlatform.headerDigest
  miningDigest := chainPlatform.miningDigest
  stateDigest := chainPlatform.stateDigest
  digestsDigest := chainPlatform.digestsDigest

/-- The block with `bit` in its signatures. -/
def resign (bit : Bool) (block : Block Bytes (Address × Digest)) :
    Block Bytes ((Address × Digest) × Bool) where
  header := block.header
  transactions := block.transactions.map fun t => ⟨t.transaction, (t.signature, bit)⟩
  results := block.results
  rewardTransaction := block.rewardTransaction.map fun t => ⟨t.transaction, (t.signature, bit)⟩
  rewardTransactionResult := block.rewardTransactionResult

/-- The first block of one side of the fork, signed twice. -/
def twins (bits : List Bool) : List (Block Bytes ((Address × Digest) × Bool)) :=
  bits.flatMap fun bit => (lineBlocks 8 [5]).tail.map (resign bit)

end Sample

open Sample in
/-- Two blocks of the same height: the head depends on the order, the rest does not. -/
theorem arrival_order_irrelevant_siblings :
    (arrive chainPlatform bareStore 0 10 6 siblings).1.head ≠
      (arrive chainPlatform bareStore 0 10 6 siblings.reverse).1.head ∧
    (arrive chainPlatform bareStore 0 10 6 siblings).1.blocks =
      (arrive chainPlatform bareStore 0 10 6 siblings.reverse).1.blocks ∧
    (arrive chainPlatform bareStore 0 10 6 siblings).1.snapshots =
      (arrive chainPlatform bareStore 0 10 6 siblings.reverse).1.snapshots ∧
    (arrive chainPlatform bareStore 0 10 6 siblings).1.headHeight =
      (arrive chainPlatform bareStore 0 10 6 siblings.reverse).1.headHeight := by
  have hsame := arrival_order_irrelevant (P := chainPlatform) bareStore 0 10 6
    (List.reverse_perm siblings).symm (by decide +kernel) (by decide +kernel)
    (by unfold ParentsFirst; decide +kernel) (by unfold ParentsFirst; decide +kernel)
  exact ⟨by decide +kernel, hsame.2.1, hsame.2.2.1, hsame.2.2.2.1⟩

open Sample in
/-- One block with two signatures for its transactions: the one that comes first is kept. -/
theorem arrival_order_irrelevant_fails :
    (twins [false, true]).Perm (twins [true, false]) ∧ (twins [false, true]).Nodup ∧
    (∀ b ∈ twins [false, true], b.header.height ≤ 10) ∧
    ParentsFirst loosePlatform (twins [false, true]) ∧
    ParentsFirst loosePlatform (twins [true, false]) ∧
    ∃ b, b ∈ (arrive loosePlatform bareStore 0 10 6 (twins [false, true])).2 ∧
      b ∉ (arrive loosePlatform bareStore 0 10 6 (twins [true, false])).2 := by
  refine ⟨by decide +kernel, by decide +kernel, by decide +kernel,
    by unfold ParentsFirst; decide +kernel, by unfold ParentsFirst; decide +kernel, ?_⟩
  have hexists : (arrive loosePlatform bareStore 0 10 6 (twins [false, true])).2.any (fun b =>
      decide (b ∉ (arrive loosePlatform bareStore 0 10 6 (twins [true, false])).2)) = true := by
    decide +kernel
  obtain ⟨b, hb, hnot⟩ := List.any_eq_true.mp hexists
  exact ⟨b, hb, of_decide_eq_true hnot⟩

end MeowChain
