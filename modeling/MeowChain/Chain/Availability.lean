import MeowChain.Chain.Retention
import MeowChain.Chain.StateSync

/-!
# Looking up old results

`get_transaction_result` walks back from the head over the blocks that are still stored. Blocks more
than the snapshot depth below the head are not, so a result is found again exactly as long as its
block has not been pruned; while it is stored, forks and head switches do not change the answer.
-/

set_option autoImplicit false

namespace MeowChain

variable {B S K : Type} {P : ChainPlatform B S K}

section Line

variable [DecidableEq B] {world : Set (Block B S)} {initialStore : Store B}

def NoWrap (world : Set (Block B S)) : Prop :=
  ∀ b ∈ world, b.header.height = 0 → b = .genesis

theorem Lineage.level_eq_length (hwrap : NoWrap world)
    {block : Block B S} {store : Store B} {path : List (Block B S)}
    (h : Lineage P world initialStore block store path) : block.level = path.length := by
  induction h with
  | genesis => rfl
  | @child parent block _ _ path _ _ hparent hextends hstructured hmem ih =>
    rw [List.length_cons, ← ih]
    refine level_eq_succ hextends.height fun hzero => ?_
    -- The genesis block has no transactions, so it is no well-structured block.
    rw [hwrap block hmem hzero] at hstructured
    exact hstructured.nonempty rfl

theorem Lineage.results_unique (hworld : CollisionFree P world) {b b' : Block B S}
    {s s' : Store B} {path path' : List (Block B S)} (h : Lineage P world initialStore b s path)
    (h' : Lineage P world initialStore b' s' path') (hhash : b.hash P = b'.hash P) :
    b.results = b'.results := by
  cases h with
  | genesis =>
    cases h' with
    | genesis => rfl
    | child hparent' hextends' _ hmem' =>
      exact absurd hhash.symm
        (hworld.hash_ne_genesis hmem' (hparent'.mem_world hworld) hextends'.parentHash)
  | child hparent hextends hstructured hmem =>
    cases h' with
    | genesis =>
      exact absurd hhash
        (hworld.hash_ne_genesis hmem (hparent.mem_world hworld) hextends.parentHash)
    | child hparent' hextends' hstructured' hmem' =>
      have hheader := hworld.header _ hmem _ hmem' hhash
      have htransactions := (hworld.same_transactions hmem hmem' hstructured hstructured' hhash).1
      obtain rfl := hparent.store_unique hworld hparent'
        (by rw [← hextends.parentHash, ← hextends'.parentHash, hheader])
      obtain ⟨_, hrun, -⟩ := ChainState.replay_eq_ok.mp hextends.replayed
      obtain ⟨_, hrun', -⟩ := ChainState.replay_eq_ok.mp hextends'.replayed
      rw [hheader, reexecute_congr htransactions, hrun'] at hrun
      exact (Prod.mk.inj (Outcome.ok.inj hrun)).2.symm

theorem Lineage.mem_digests (hworld : CollisionFree P world) {b a : Block B S} {s s' : Store B}
    {path line : List (Block B S)} (hb : Lineage P world initialStore b s path)
    (ha : Lineage P world initialStore a s' line) (hhash : b.hash P = a.hash P)
    {signed : SignedTransaction B S} (hsigned : signed ∈ b.transactions) :
    ∃ rest, line = a :: rest ∧ signed.digest P ∈ a.transactions.map (SignedTransaction.digest P) := by
  cases hb with
  | genesis => cases hsigned
  | child hparent hextends hstructured hmem =>
    cases ha with
    | genesis =>
      exact absurd hhash
        (hworld.hash_ne_genesis hmem (hparent.mem_world hworld) hextends.parentHash)
    | child _ _ hstructured' hmem' =>
      refine ⟨_, rfl, ?_⟩
      have htransactions := (hworld.same_transactions hmem hmem' hstructured hstructured' hhash).1
      have hdigests : ∀ block : Block B S, block.transactions.map (SignedTransaction.digest P) =
          (block.transactions.map (·.transaction)).map P.transactionDigest := by
        intro block
        rw [List.map_map]
        rfl
      rw [hdigests, ← htransactions, ← hdigests]
      exact List.mem_map_of_mem hsigned

theorem Lineage.level_unique (hworld : Collisionless P world initialStore) (hwrap : NoWrap world)
    (hstart : initialStore.Genuine) {head b b' : Block B S} {store s s' : Store B}
    {path p p' : List (Block B S)} (hhead : Lineage P world initialStore head store path)
    (hb : Lineage P world initialStore b s p) (hb' : Lineage P world initialStore b' s' p')
    (hdescends : Descends P world b head) (hdescends' : Descends P world b' head)
    {signed signed' : SignedTransaction B S} (hsigned : signed ∈ b.transactions)
    (hsigned' : signed' ∈ b'.transactions) (hdigest : signed.digest P = signed'.digest P) :
    b.level ≤ b'.level := by
  have hfree := hworld.toCollisionFree
  obtain ⟨a, _, line, ha, haheader, hline⟩ := hhead.ancestor hfree hdescends rfl
  obtain ⟨a', _, line', ha', haheader', hline'⟩ := hhead.ancestor hfree hdescends' rfl
  have hlength := ha.level_eq_length hwrap
  have hlength' := ha'.level_eq_length hwrap
  have hlevel : ∀ {x y : Block B S}, x.header = y.header → x.level = y.level := fun h =>
    congrArg (fun header : BlockHeader => header.height.toNat) h
  obtain ⟨rest, rfl, hmem⟩ := hb.mem_digests hfree ha
    (show P.headerDigest b.header = P.headerDigest a.header by rw [haheader]) hsigned
  obtain ⟨rest', rfl, hmem'⟩ := hb'.mem_digests hfree ha'
    (show P.headerDigest b'.header = P.headerDigest a'.header by rw [haheader']) hsigned'
  rw [← hlevel haheader, ← hlevel haheader']
  by_contra hlt
  -- The lower of the two lines is part of the rest of the higher one.
  have hsuffix : a' :: rest' <:+ rest := by
    have hlong := List.suffix_of_suffix_length_le hline' hline (by omega)
    obtain heq | hrest := List.suffix_cons_iff.mp hlong
    · rw [heq] at hlength'
      omega
    · exact hrest
  have hnodup := ha.digestsAlong_nodup hworld hstart
  rw [digestsAlong_cons] at hnodup
  refine List.disjoint_of_nodup_append hnodup hmem ?_
  rw [hdigest]
  exact List.mem_flatMap.mpr ⟨a', hsuffix.subset List.mem_cons_self, hmem'⟩

/-- Walking back from a known block meets its ancestors down to the floor. -/
theorem ChainState.Grown.mem_ancestors {chain : ChainState P} {rank : Digest → ℕ}
    (h : chain.Grown world rank .genesis) (hworld : CollisionFree P world) (hwrap : NoWrap world)
    {block a : Block B S} {store s : Store B} {path line : List (Block B S)}
    (hblock : Lineage P world initialStore block store path)
    (hknown : block.hash P ∈ chain.blocks) (ha : Lineage P world initialStore a s line)
    (hline : line <:+ path) (hfloor : chain.floor .genesis ≤ line.length) {steps : ℕ}
    (hsteps : path.length < steps + line.length) :
    ∃ twin ∈ chain.ancestors steps (block.hash P), twin.hash P = a.hash P := by
  induction hblock generalizing steps with
  | genesis =>
    obtain rfl := List.suffix_nil.mp hline
    obtain ⟨known, hget⟩ := exists_of_mem hknown
    obtain ⟨steps, rfl⟩ : ∃ n, steps = n + 1 := ⟨steps - 1, by simp at hsteps; omega⟩
    refine ⟨known, by simp [ancestors, hget], ?_⟩
    rw [ha.block_unique .genesis, chain.hash_eq _ _ hget]
  | @child parent block _ _ path _ _ hparent hextends hstructured hmem ih =>
    obtain ⟨known, hget⟩ := exists_of_mem hknown
    have hshorter := hline.length_le
    obtain ⟨steps, rfl⟩ : ∃ n, steps = n + 1 := ⟨steps - 1, by omega⟩
    have hunfold : chain.ancestors (steps + 1) (block.hash P) =
        known :: chain.ancestors steps known.header.parentHash := by
      simp only [ancestors, hget]
    rw [hunfold]
    obtain rfl | hrest := List.suffix_cons_iff.mp hline
    · refine ⟨known, List.mem_cons_self, ?_⟩
      rw [ha.block_unique (.child hparent hextends hstructured hmem), chain.hash_eq _ _ hget]
    · have hheader : known.header = block.header :=
        hworld.header _ (h.mem_world _ _ hget) _ hmem (chain.hash_eq _ _ hget)
      have hlevel : known.level = path.length + 1 :=
        (congrArg (fun header : BlockHeader => header.height.toNat) hheader).trans
          ((Lineage.child hparent hextends hstructured hmem).level_eq_length hwrap)
      have hbelow := hrest.length_le
      have hparentKnown := h.closed _ _ hget (by omega)
      rw [hheader, hextends.parentHash] at hparentKnown ⊢
      rw [List.length_cons] at hsteps
      obtain ⟨twin, htwin, hhash⟩ := ih hparentKnown hrest (show _ < steps + _ by omega)
      exact ⟨twin, List.mem_cons_of_mem _ htwin, hhash⟩

end Line

/-! ## Runs -/

section Runs

variable [DecidableEq B] {world : Set (Block B S)} {initialStore : Store B} {rank : Digest → ℕ}

omit [DecidableEq B] in
theorem Node.Grown.stepsUp_of_noWrap (hworld : CollisionFree P world) (hwrap : NoWrap world)
    {node : Node P} {root : Block B S} {event : NodeEvent B S} (h : node.Grown world rank root)
    (hgrows : node.GrowsIn world event) : node.StepsUp event := by
  intro block parent hbrings hparent hheight
  refine level_eq_succ hheight fun hzero => ?_
  obtain rfl := hwrap block (hgrows.mem_of_brings hbrings) hzero
  exact hworld.placeholder parent (h.chain.mem_world _ _ hparent)
    (node.miner.chain.hash_eq _ _ hparent)

abbrev Node.Reached (world : Set (Block B S)) (initialStore : Store B) (node : Node P) : Prop :=
  ∃ difficulty depth keypair rewardAddress batchSize, Node.Run (Node.GrowsIn world)
    (Node.start (.new P initialStore difficulty depth) keypair rewardAddress batchSize) node

theorem Node.Reached.grown (hP : P.Lawful) (hworld : CollisionFree P world) (hwrap : NoWrap world)
    (hlinks : HashLinks P world rank) {node : Node P} (h : node.Reached world initialStore) :
    node.miner.chain.Grown world rank .genesis := by
  obtain ⟨difficulty, depth, keypair, rewardAddress, batchSize, hrun⟩ := h
  refine (Node.Run.invariant (I := fun node => node.Grown world rank .genesis) ?_ hrun
    ⟨ChainState.grown_single hworld.genesis, by simp [Node.start]⟩).chain
  intro node node' event hgrown hgrows hmoves
  exact hgrown.moves hP hlinks hgrows (hgrown.stepsUp_of_noWrap hworld hwrap hgrows) hmoves

theorem Node.Reached.lined (hP : P.Lawful) {node : Node P} (h : node.Reached world initialStore) :
    node.miner.chain.Lined world initialStore := by
  obtain ⟨_, _, _, _, _, hrun⟩ := h
  exact Node.lined hP hrun

/-- A result that was found is found again, on every later chain through its block, exactly until
the block lies more than the snapshot depth below the head. -/
theorem results_available (hP : P.Lawful) (hworld : Collisionless P world initialStore)
    (hwrap : NoWrap world) (hlinks : HashLinks P world rank) (hstart : initialStore.Genuine)
    {node later : Node P} (hnode : node.Reached world initialStore) {steps : ℕ}
    {block : Block B S} (hblock : block ∈ node.miner.chain.ancestors steps node.miner.chain.head)
    {signed : SignedTransaction B S} (hsigned : signed ∈ block.transactions)
    (hlater : Node.Run (Node.GrowsIn world) node later)
    (hancestor : Descends P world block later.miner.chain.headBlock) {steps' : ℕ}
    (hsteps' : later.miner.chain.headBlock.level < steps') :
    ∃ result, node.miner.chain.getTransactionResult steps (signed.digest P) = some result ∧
      (later.miner.chain.getTransactionResult steps' (signed.digest P) = some result ↔
        later.miner.chain.headBlock.level ≤
          block.level + later.miner.chain.snapshotDepth.toNat) := by
  have hfree := hworld.toCollisionFree
  have hreached : later.Reached world initialStore := by
    obtain ⟨difficulty, depth, keypair, rewardAddress, batchSize, hrun⟩ := hnode
    exact ⟨difficulty, depth, keypair, rewardAddress, batchSize, hrun.trans hlater⟩
  have hlined := hreached.lined hP
  have hgrown := hreached.grown hP hfree hwrap hlinks
  obtain ⟨hash, hknown⟩ := ChainState.ancestors_known hblock
  obtain ⟨_, _, hline⟩ := hnode.lined hP hash block hknown
  obtain ⟨_, path, hhead⟩ := hlined _ _ later.miner.chain.getElem?_head
  have hfound := (hnode.lined hP).getTransactionResult_eq hworld hstart hblock hsigned
  obtain ⟨result, hresult⟩ :=
    Option.isSome_iff_exists.mp (find?_results_isSome hline.digests hsigned)
  refine ⟨result, hfound.trans hresult, ?_⟩
  have hfloor : later.miner.chain.floor .genesis =
      later.miner.chain.headBlock.level - later.miner.chain.snapshotDepth.toNat :=
    Nat.max_eq_right (Nat.zero_le _)
  constructor
  · intro hagain
    -- The block the result is found in stands at the height of the block, and above the floor.
    obtain ⟨found, hfound, hin⟩ := List.mem_flatMap.mp (List.mem_of_find?_eq_some hagain)
    have hdigest := List.find?_some hagain
    rw [decide_eq_true_eq] at hdigest
    obtain ⟨_, hfoundKnown⟩ := ChainState.ancestors_known hfound
    obtain ⟨_, _, hfoundLine⟩ := hlined _ _ hfoundKnown
    have hmem := List.mem_map_of_mem (f := (·.transactionDigest)) hin
    rw [hfoundLine.digests, hdigest] at hmem
    obtain ⟨signed', hsigned', hdigest'⟩ := List.mem_map.mp hmem
    have hle := Lineage.level_unique hworld hwrap hstart hhead hfoundLine hline
      (hgrown.descends later.miner.chain.getElem?_head hfound) hancestor hsigned' hsigned hdigest'
    have hlow := hgrown.floor_le _ _ hfoundKnown
    omega
  · intro hkept
    obtain ⟨a, _, line, ha, hheader, hsuffix⟩ := hhead.ancestor hfree hancestor rfl
    have hlength : line.length = block.level :=
      (ha.level_eq_length hwrap).symm.trans
        (congrArg (fun header : BlockHeader => header.height.toNat) hheader)
    have hlevel := hhead.level_eq_length hwrap
    obtain ⟨twin, htwin, hhash⟩ := hgrown.mem_ancestors hfree hwrap hhead
      (later.miner.chain.headBlock_hash ▸ later.miner.chain.head_mem) ha hsuffix (by omega)
      (show _ < steps' + _ by omega)
    rw [later.miner.chain.headBlock_hash] at htwin
    have hsame : block.hash P = twin.hash P := by
      rw [hhash]
      exact congrArg P.headerDigest hheader.symm
    obtain ⟨twinHash, htwinKnown⟩ := ChainState.ancestors_known htwin
    obtain ⟨_, _, htwinLine⟩ := hlined _ _ htwinKnown
    obtain ⟨_, -, hmem⟩ := hline.mem_digests hfree htwinLine hsame hsigned
    obtain ⟨signed', hsigned', hdigest⟩ := List.mem_map.mp hmem
    have hagain := hlined.getTransactionResult_eq hworld hstart htwin hsigned'
    rw [← hdigest, hagain, hdigest, ← hline.results_unique hfree htwinLine hsame, hresult]

end Runs

namespace Sample

theorem forkBlocks_noWrap : NoWrap { block | block ∈ forkBlocks } :=
  show ∀ b ∈ forkBlocks, b.header.height = 0 → b = .genesis by decide +kernel

/-- A later node stands on the head of an earlier one, and finds all the results of that block or
none of them. -/
def standsOn (found : Bool) (node later : Node chainPlatform) : Bool :=
  (node.miner.chain.headBlock.transactions.all fun signed =>
    decide ((node.miner.chain.getTransactionResult 1 (signed.digest chainPlatform)).isSome ∧
      (later.miner.chain.getTransactionResult 5 (signed.digest chainPlatform)).isSome = found)) &&
  ((later.miner.chain.ancestors 5 later.miner.chain.head).any fun b =>
    decide (b.header.parentHash = node.miner.chain.headBlock.hash chainPlatform)) &&
  decide (node.miner.chain.headBlock.transactions ≠ [])

/-- Mine one block, then one at each of `times`. -/
def minedOn (found : Bool) (times : List UInt64) : Bool :=
  (mineLine (growsIn forkBlocks) 9 shallowNode [5]).isOkAnd fun node : Node chainPlatform =>
    (mineLine (growsIn forkBlocks) 9 node times).isOkAnd fun later : Node chainPlatform =>
      standsOn found node later && decide (later.miner.chain.headBlock.level < 5 ∧
        (later.miner.chain.headBlock.level ≤ node.miner.chain.headBlock.level +
          later.miner.chain.snapshotDepth.toNat ↔ found = true))

theorem minedOn_sound {found : Bool} {times : List UInt64} (h : minedOn found times = true) :
    ∃ (node later : Node chainPlatform) (signed : SignedTransaction Bytes (Address × Digest)),
      Node.Run (Node.GrowsIn { block | block ∈ forkBlocks }) shallowNode node ∧
      Node.Run (Node.GrowsIn { block | block ∈ forkBlocks }) node later ∧
      Descends chainPlatform { block | block ∈ forkBlocks } node.miner.chain.headBlock
        later.miner.chain.headBlock ∧
      (later.miner.chain.headBlock.level < 5 ∧
        (later.miner.chain.headBlock.level ≤ node.miner.chain.headBlock.level +
          later.miner.chain.snapshotDepth.toNat ↔ found = true)) ∧
      signed ∈ node.miner.chain.headBlock.transactions ∧
      (node.miner.chain.getTransactionResult 1 (signed.digest chainPlatform)).isSome ∧
      (later.miner.chain.getTransactionResult 5 (signed.digest chainPlatform)).isSome = found := by
  obtain ⟨node, hnode, h⟩ := Outcome.exists_of_isOkAnd h
  obtain ⟨later, hlater, h⟩ := Outcome.exists_of_isOkAnd h
  simp only [standsOn, Bool.and_eq_true, List.all_eq_true, List.any_eq_true,
    decide_eq_true_eq] at h
  obtain ⟨⟨⟨hresults, b, hb, hlink⟩, hne⟩, hlevel⟩ := h
  obtain ⟨signed, hsigned⟩ := List.exists_mem_of_ne_nil _ hne
  have hrun := run_of_mineLine growsIn_sound hnode
  have hrun' := run_of_mineLine growsIn_sound hlater
  have hfollows := Node.Follows.of_run chainPlatform_lawful forkBlocks_valid hrun
  have hfollows' := Node.Follows.of_run chainPlatform_lawful forkBlocks_valid (hrun.trans hrun')
  obtain ⟨hash, hknown⟩ := ChainState.ancestors_known hb
  have hdescends := hfollows'.grown.chain.descends later.miner.chain.getElem?_head hb
  refine ⟨node, later, signed, hrun, hrun', .head ⟨?_, ?_, hlink⟩ hdescends, hlevel, hsigned,
    (hresults signed hsigned).1, (hresults signed hsigned).2⟩
  · exact hfollows.grown.chain.mem_world _ _ node.miner.chain.getElem?_head
  · exact hfollows'.grown.chain.mem_world _ _ hknown

end Sample

open Sample in
/-- With a snapshot depth of two, the result is still found two blocks later. -/
theorem results_available_two :
    ∃ (node later : Node chainPlatform) (signed : SignedTransaction Bytes (Address × Digest))
      (result : ExecutionResult Bytes),
      signed ∈ node.miner.chain.headBlock.transactions ∧
      node.miner.chain.getTransactionResult 1 (signed.digest chainPlatform) = some result ∧
      later.miner.chain.getTransactionResult 5 (signed.digest chainPlatform) = some result := by
  obtain ⟨node, later, signed, hrun, hrun', hancestor, ⟨hlevel, hkept⟩, hsigned, -⟩ :=
    minedOn_sound (show minedOn true [6, 7] = true by decide +kernel)
  have hblock : node.miner.chain.headBlock ∈ node.miner.chain.ancestors 1 node.miner.chain.head := by
    simp [ChainState.ancestors, node.miner.chain.getElem?_head]
  obtain ⟨result, hresult, hagain⟩ := results_available chainPlatform_lawful
    forkBlocks_collisionless forkBlocks_noWrap forkBlocks_valid.hashLinks bareStore_genuine
    ⟨0, 2, 77, 78, 1, hrun⟩ hblock hsigned hrun' hancestor hlevel
  exact ⟨node, later, signed, result, hsigned, hresult, hagain.mpr (hkept.mpr rfl)⟩

open Sample in
/-- Three blocks later it is not, although its block is an ancestor of the head. -/
theorem results_available_fails :
    ∃ (node later : Node chainPlatform) (signed : SignedTransaction Bytes (Address × Digest)),
      Node.Run (Node.GrowsIn { block | block ∈ forkBlocks }) shallowNode node ∧
      Node.Run (Node.GrowsIn { block | block ∈ forkBlocks }) node later ∧
      Descends chainPlatform { block | block ∈ forkBlocks } node.miner.chain.headBlock
        later.miner.chain.headBlock ∧
      signed ∈ node.miner.chain.headBlock.transactions ∧
      (node.miner.chain.getTransactionResult 1 (signed.digest chainPlatform)).isSome ∧
      later.miner.chain.headBlock.level < 5 ∧
      later.miner.chain.getTransactionResult 5 (signed.digest chainPlatform) = none := by
  obtain ⟨node, later, signed, hrun, hrun', hancestor, ⟨hlevel, -⟩, hsigned, hsome, hnone⟩ :=
    minedOn_sound (show minedOn false [6, 7, 8] = true by decide +kernel)
  exact ⟨node, later, signed, hrun, hrun', hancestor, hsigned, hsome, hlevel,
    Option.isSome_eq_false_iff.mp hnone |> Option.isNone_iff_eq_none.mp⟩

end MeowChain
