import MeowChain.Chain.Ledger

/-!
# State sync

A snapshot is accepted by its header, its state root and the roots of its transactions. Nothing in
the header covers the execution results and the signatures, so a snapshot answers queries like the
nodes that executed the block exactly if these are right.
-/

set_option autoImplicit false

namespace MeowChain

variable {B S K : Type} {P : ChainPlatform B S K}

/-! ## Looking up results -/

/-- `get_transaction_result`, following at most `steps` blocks back from the head. -/
def ChainState.getTransactionResult (chain : ChainState P) (steps : ℕ) (digest : Digest) :
    Option (ExecutionResult B) :=
  ((chain.ancestors steps chain.head).flatMap (·.results)).find? (·.transactionDigest = digest)

theorem Does.transactionDigest {P : Platform B} {tx : Transaction B} {inputs : List (Object B)}
    {ext : ExternalContext} {config : VmConfig} {gas : GasMeter} {result : ExecutionResult B}
    (h : Does P tx inputs ext config gas result) :
    result.transactionDigest = P.transactionDigest tx := by
  cases h <;> rfl

theorem execute_transactionDigest {P : Platform B} {tx : Transaction B} {inputs : List (Object B)}
    {ext : ExternalContext} {result : ExecutionResult B} (h : execute P tx inputs ext = .ok result) :
    result.transactionDigest = P.transactionDigest tx := by
  obtain ⟨executed, gas, old, coin, -, -, hdoes, hresult⟩ := execute_eq_ok h
  rw [hresult]
  exact hdoes.transactionDigest

theorem reexecute_digests {ext : ExternalContext} {store store' : Store B}
    {transactions : List (SignedTransaction B S)} {results : List (ExecutionResult B)}
    (h : ChainState.reexecute P ext store transactions = .ok (store', results)) :
    results.map (·.transactionDigest) = transactions.map (SignedTransaction.digest P) := by
  induction transactions generalizing store results with
  | nil =>
    cases h
    rfl
  | cons signed transactions ih =>
    obtain ⟨⟨next, result⟩, hexecute, h⟩ := Outcome.bind_eq_ok.mp h
    obtain ⟨last, hlast, h⟩ := Outcome.map_eq_ok.mp h
    cases h
    have hresult := (Store.executeTransaction_eq_ok (Outcome.mapErr_eq_ok.mp hexecute)).1
    rw [List.map_cons, List.map_cons, ih hlast]
    exact congrArg (· :: _) (execute_transactionDigest hresult)

section Lookup

variable [DecidableEq B] {world : Set (Block B S)} {initialStore : Store B}

theorem Block.Extends.digests {parent block : Block B S} {parentStore store : Store B}
    (h : Block.Extends P parent parentStore block store) :
    block.results.map (·.transactionDigest) = block.transactions.map (SignedTransaction.digest P) := by
  obtain ⟨executed, hrun, -, -⟩ := ChainState.replay_eq_ok.mp h.replayed
  exact reexecute_digests hrun

theorem Lineage.digests {block : Block B S} {store : Store B} {path : List (Block B S)}
    (h : Lineage P world initialStore block store path) :
    block.results.map (·.transactionDigest) = block.transactions.map (SignedTransaction.digest P) := by
  cases h with
  | genesis => rfl
  | child _ hextends _ _ => exact hextends.digests

def digestsAlong (P : ChainPlatform B S K) (path : List (Block B S)) : List Digest :=
  path.flatMap fun block => block.transactions.map (SignedTransaction.digest P)

omit [DecidableEq B] in
theorem digestsAlong_cons (block : Block B S) (path : List (Block B S)) :
    digestsAlong P (block :: path) =
      block.transactions.map (SignedTransaction.digest P) ++ digestsAlong P path :=
  rfl

omit [DecidableEq B] in
theorem digestsAlong_eq {path path' : List (Block B S)}
    (h : List.Forall₂ (fun b b' => b.transactions.map (·.transaction) =
      b'.transactions.map (·.transaction)) path path') :
    digestsAlong P path = digestsAlong P path' := by
  induction h with
  | nil => rfl
  | @cons b b' path path' hb hrest ih =>
    have hdigests : ∀ block : Block B S, block.transactions.map (SignedTransaction.digest P) =
        (block.transactions.map (·.transaction)).map P.transactionDigest := by
      intro block
      rw [List.map_map]
      rfl
    rw [digestsAlong_cons, digestsAlong_cons, ih, hdigests, hdigests, hb]

theorem Lineage.digestsAlong_nodup (hworld : Collisionless P world initialStore)
    (hstart : initialStore.Genuine) {block : Block B S} {store : Store B}
    {path : List (Block B S)} (h : Lineage P world initialStore block store path) :
    (digestsAlong P path).Nodup := by
  have hnodup := (h.digests_nodup hworld hstart).sublist h.sublist_executedAlong
  exact ((List.reverse_perm path).flatMap_right _).nodup_iff.mp hnodup

def ChainState.Lined (world : Set (Block B S)) (initialStore : Store B) (chain : ChainState P) :
    Prop :=
  ∀ (hash : Digest) (block : Block B S), chain.blocks[hash]? = some block →
    ∃ store path, Lineage P world initialStore block store path

/-- Going back along the known blocks meets the transactions of a line. -/
theorem ChainState.Lined.ancestors_prefix (hworld : CollisionFree P world) {chain : ChainState P}
    (hchain : chain.Lined world initialStore) (steps : ℕ) {hash : Digest} {block : Block B S}
    {store : Store B} {path : List (Block B S)} (hblock : chain.blocks[hash]? = some block)
    (h : Lineage P world initialStore block store path) :
    digestsAlong P (chain.ancestors steps hash) <+: digestsAlong P path := by
  induction steps generalizing hash block store path with
  | zero => exact List.nil_prefix
  | succ steps ih =>
    simp only [ChainState.ancestors, hblock]
    cases h with
    | genesis =>
      have hend : chain.ancestors steps (.genesis : Block B S).header.parentHash = [] := by
        cases steps with
        | zero => rfl
        | succ steps =>
          cases hzero : chain.blocks[(.genesis : Block B S).header.parentHash]? with
          | none => simp only [ChainState.ancestors, hzero]
          | some other =>
            obtain ⟨_, _, hother⟩ := hchain _ other hzero
            exact absurd (chain.hash_eq _ _ hzero)
              (hworld.placeholder other (hother.mem_world hworld))
      rw [hend]
      exact List.nil_prefix
    | @child parent _ parentStore _ path _ _ hparent hextends hstructured hmem =>
      rw [digestsAlong_cons, digestsAlong_cons, List.prefix_append_right_inj]
      cases hknown : chain.blocks[block.header.parentHash]? with
      | none =>
        cases steps with
        | zero => exact List.nil_prefix
        | succ steps =>
          simp only [ChainState.ancestors, hknown]
          exact List.nil_prefix
      | some other =>
        obtain ⟨_, path', hother⟩ := hchain _ other hknown
        have hhash : other.hash P = parent.hash P :=
          (chain.hash_eq _ _ hknown).trans hextends.parentHash
        rw [← digestsAlong_eq (hother.alike hworld hparent hhash)]
        exact ih hknown hother

omit [DecidableEq B] in
theorem ChainState.ancestors_known {chain : ChainState P} {steps : ℕ} {hash : Digest}
    {block : Block B S} (h : block ∈ chain.ancestors steps hash) :
    ∃ hash : Digest, chain.blocks[hash]? = some block := by
  induction steps generalizing hash with
  | zero => cases h
  | succ steps ih =>
    cases hknown : chain.blocks[hash]? with
    | none => simp [ChainState.ancestors, hknown] at h
    | some first =>
      simp only [ChainState.ancestors, hknown, List.mem_cons] at h
      rcases h with rfl | hrest
      · exact ⟨hash, hknown⟩
      · exact ih hrest

omit [DecidableEq B] in
theorem find?_results_isSome {block : Block B S} {signed : SignedTransaction B S}
    (hdigests : block.results.map (·.transactionDigest) =
      block.transactions.map (SignedTransaction.digest P))
    (hsigned : signed ∈ block.transactions) :
    (block.results.find? (·.transactionDigest = signed.digest P)).isSome := by
  have hmem : signed.digest P ∈ block.results.map (·.transactionDigest) :=
    hdigests ▸ List.mem_map_of_mem hsigned
  obtain ⟨result, hresult, hdigest⟩ := List.mem_map.mp hmem
  exact List.find?_isSome.mpr ⟨result, hresult, decide_eq_true hdigest⟩

theorem find?_results_eq_none {blocks : List (Block B S)} {digest : Digest}
    (hlines : ∀ b ∈ blocks, ∃ store path, Lineage P world initialStore b store path)
    (h : digest ∉ digestsAlong P blocks) :
    (blocks.flatMap (·.results)).find? (·.transactionDigest = digest) = none := by
  rw [List.find?_eq_none]
  intro result hresult hdigest
  obtain ⟨b, hb, hresult⟩ := List.mem_flatMap.mp hresult
  obtain ⟨_, _, hline⟩ := hlines b hb
  refine h (List.mem_flatMap.mpr ⟨b, hb, ?_⟩)
  rw [← hline.digests]
  exact List.mem_map.mpr ⟨result, hresult, of_decide_eq_true hdigest⟩

/-- A transaction is found with the block of the canonical chain it is in. -/
theorem ChainState.Lined.getTransactionResult_eq (hworld : Collisionless P world initialStore)
    (hstart : initialStore.Genuine) {chain : ChainState P}
    (hchain : chain.Lined world initialStore) {steps : ℕ} {block : Block B S}
    (hblock : block ∈ chain.ancestors steps chain.head)
    {signed : SignedTransaction B S} (hsigned : signed ∈ block.transactions) :
    chain.getTransactionResult steps (signed.digest P) =
      block.results.find? (·.transactionDigest = signed.digest P) := by
  have hlines : ∀ b ∈ chain.ancestors steps chain.head,
      ∃ store path, Lineage P world initialStore b store path := by
    intro b hb
    obtain ⟨hash, hknown⟩ := ChainState.ancestors_known hb
    exact hchain hash b hknown
  obtain ⟨_, path, hline⟩ := hchain _ _ chain.getElem?_head
  have hnodup := (hline.digestsAlong_nodup hworld hstart).sublist
    (hchain.ancestors_prefix hworld.toCollisionFree steps chain.getElem?_head hline).sublist
  have hown : signed.digest P ∈ block.transactions.map (SignedTransaction.digest P) :=
    List.mem_map_of_mem hsigned
  obtain ⟨newer, older, hsplit⟩ := List.append_of_mem hblock
  -- No newer block has the transaction, and the block itself has a result for it.
  have hnewer : signed.digest P ∉ digestsAlong P newer := by
    intro hmem
    rw [hsplit] at hnodup
    unfold digestsAlong at hnodup hmem
    rw [List.flatMap_append] at hnodup
    exact List.disjoint_of_nodup_append hnodup hmem (List.mem_append_left _ hown)
  have hfound : (block.results.find? (·.transactionDigest = signed.digest P)).isSome := by
    obtain ⟨_, _, hline⟩ := hlines block hblock
    exact find?_results_isSome hline.digests hsigned
  have hnone := find?_results_eq_none (fun b hb => hlines b (by simp [hsplit, hb])) hnewer
  unfold ChainState.getTransactionResult
  rw [hsplit, List.flatMap_append, List.find?_append, hnone, Option.none_or, List.flatMap_cons,
    List.find?_append, Option.or_of_isSome hfound]

end Lookup

/-! ## Snapshots -/

/-- What no check of a snapshot covers: executed on the store of the parent, the block gives the
results it carries, and it has the signatures of the block that was accepted. -/
structure Block.Unaltered [DecidableEq B] (P : ChainPlatform B S K) (parentStore : Store B)
    (block snapshot : Block B S) : Prop where
  replayed : ∃ store, ChainState.replay P parentStore snapshot = .ok store
  signatures : snapshot.transactions.map (·.signature) = block.transactions.map (·.signature)
  reward : snapshot.rewardTransaction.map (·.signature) = block.rewardTransaction.map (·.signature)

section Snapshot

variable [DecidableEq B] {world : Set (Block B S)} {initialStore : Store B}

omit [DecidableEq B] in
theorem signed_eq {ts ts' : List (SignedTransaction B S)}
    (htransactions : ts.map (·.transaction) = ts'.map (·.transaction))
    (hsignatures : ts.map (·.signature) = ts'.map (·.signature)) : ts = ts' := by
  induction ts generalizing ts' with
  | nil => exact (List.map_eq_nil_iff.mp htransactions.symm).symm
  | cons t ts ih =>
    cases ts' with
    | nil => cases htransactions
    | cons t' ts' =>
      rw [List.map_cons, List.map_cons, List.cons.injEq] at htransactions hsignatures
      obtain ⟨transaction, signature⟩ := t
      obtain ⟨transaction', signature'⟩ := t'
      obtain ⟨rfl, htransactions⟩ := htransactions
      obtain ⟨rfl, hsignatures⟩ := hsignatures
      rw [ih htransactions hsignatures]

omit [DecidableEq B] in
theorem ChainState.single_getTransactionResult {block : Block B S} {store : Store B}
    {difficulty : ℕ} {depth : UInt64} {digest : Digest}
    (hfound : (block.results.find? (·.transactionDigest = digest)).isSome) (steps : ℕ) :
    (ChainState.single P block store difficulty depth).getTransactionResult (steps + 1) digest =
      block.results.find? (·.transactionDigest = digest) := by
  set chain := ChainState.single P block store difficulty depth
  have hhead : chain.blocks[chain.head]? = some block :=
    getElem?_insert_eq_some.mpr (.inl ⟨rfl, rfl⟩)
  have hancestors : chain.ancestors (steps + 1) chain.head =
      block :: chain.ancestors steps block.header.parentHash := by
    simp only [ChainState.ancestors, hhead]
  unfold ChainState.getTransactionResult
  rw [hancestors, List.flatMap_cons, List.find?_append, Option.or_of_isSome hfound]

theorem Block.Unaltered.eq (hworld : CollisionFree P world) {block snapshot : Block B S}
    (hmem : block ∈ world) (hmem' : snapshot ∈ world) {now now' : UInt64}
    {difficulty difficulty' : ℕ} (hstructured : block.WellStructured P now difficulty)
    (hstructured' : snapshot.WellStructured P now' difficulty')
    (hhash : snapshot.hash P = block.hash P) {parentStore store : Store B}
    (hreplay : ChainState.replay P parentStore block = .ok store)
    (h : block.Unaltered P parentStore snapshot) : snapshot = block := by
  have hheader := hworld.header snapshot hmem' block hmem hhash
  obtain ⟨htransactions, hrewards⟩ :=
    hworld.same_transactions hmem' hmem hstructured' hstructured hhash
  have htransactions := signed_eq htransactions h.signatures
  have hreward : snapshot.rewardTransaction = block.rewardTransaction := by
    have hlists := signed_eq hrewards (by rw [← Option.toList_map, ← Option.toList_map, h.reward])
    simpa using congrArg List.head? hlists
  obtain ⟨store', hreplay'⟩ := h.replayed
  obtain ⟨executed, hrun, happly, -⟩ := ChainState.replay_eq_ok.mp hreplay
  obtain ⟨executed', hrun', happly', -⟩ := ChainState.replay_eq_ok.mp hreplay'
  rw [hheader, htransactions, hrun] at hrun'
  obtain ⟨rfl, hresults⟩ := Prod.mk.inj (Outcome.ok.inj hrun')
  have hresult : snapshot.rewardTransactionResult = block.rewardTransactionResult := by
    obtain ⟨-, hnone, htotal, -⟩ | ⟨reward, result, hsome, hresult, -, -, -, hexec, -⟩ :=
      applyReward_eq_ok.mp happly
    · obtain ⟨-, hnone', -⟩ | ⟨_, _, -, -, hne, -⟩ := applyReward_eq_ok.mp happly'
      · rw [hnone, hnone']
      · exact absurd (hresults ▸ htotal) hne
    · obtain ⟨hnone', -⟩ | ⟨reward', result', hsome', hresult', -, -, -, hexec', -⟩ :=
        applyReward_eq_ok.mp happly'
      · rw [hreward, hsome] at hnone'
        cases hnone'
      · rw [hreward, hsome] at hsome'
        obtain rfl := Option.some.inj hsome'
        rw [hexec] at hexec'
        rw [hresult, hresult', Outcome.ok.inj hexec']
  cases snapshot
  cases block
  simp only [Block.mk.injEq]
  exact ⟨hheader, htransactions, hresults.symm, hreward, hresult⟩

theorem Node.lined (hP : P.Lawful) {difficulty : ℕ} {snapshotDepth : UInt64} {keypair : K}
    {rewardAddress : Address} {batchSize : ℕ} {node : Node P}
    (hrun : Node.Run (Node.GrowsIn world) (Node.start (.new P initialStore difficulty snapshotDepth)
      keypair rewardAddress batchSize) node) : node.miner.chain.Lined world initialStore := by
  intro hash block hblock
  have hsnapshot := (node.miner.chain.mem_snapshots hash).mp (mem_of_getElem? hblock)
  obtain ⟨path, hpath⟩ := (Node.historic_of_run hP hrun).known hash block _ hblock
    (Std.ExtTreeMap.getElem?_eq_some_getElem hsnapshot)
  exact ⟨_, path, hpath⟩

/-- A snapshot with the hash of an accepted block carries what the block carries, and answers for
its transactions like every node that has the block on its canonical chain, exactly if it is
unaltered. -/
theorem snapshot_serves_genuine_results (hP : P.Lawful)
    (hworld : Collisionless P world initialStore) (hstart : initialStore.Genuine)
    {chain : ChainState P} {now : UInt64} {block : Block B S} {r : ChainState P × Bool}
    (hmem : block ∈ world) (happly : chain.applyBlock now block = .ok r) {parentStore : Store B}
    (hparent : chain.snapshots[block.header.parentHash]? = some parentStore)
    {now' height depth' : UInt64} {difficulty' : ℕ} {snapshot : Block B S} {store : Store B}
    {synced : ChainState P} (hmem' : snapshot ∈ world)
    (hsynced : ChainState.fromSnapshot P now' height snapshot store difficulty' depth' = .ok synced)
    (hhash : snapshot.hash P = block.hash P) :
    (snapshot.transactions = block.transactions ∧ snapshot.results = block.results ∧
      snapshot.rewardTransaction = block.rewardTransaction ∧
      snapshot.rewardTransactionResult = block.rewardTransactionResult ∧
      ∀ {difficulty : ℕ} {snapshotDepth : UInt64} {keypair : K} {rewardAddress : Address}
        {batchSize : ℕ} {peer : Node P} (steps steps' : ℕ),
        Node.Run (Node.GrowsIn world) (Node.start (.new P initialStore difficulty snapshotDepth)
          keypair rewardAddress batchSize) peer →
        block ∈ peer.miner.chain.ancestors steps peer.miner.chain.head →
        ∀ signed ∈ block.transactions,
          peer.miner.chain.getTransactionResult steps (signed.digest P) =
            synced.getTransactionResult (steps' + 1) (signed.digest P)) ↔
      block.Unaltered P parentStore snapshot := by
  obtain ⟨parent, parentStore', store', haccepts, -⟩ := ChainState.applyBlock_eq_ok.mp happly
  obtain rfl : parentStore' = parentStore :=
    Option.some.inj (haccepts.parent_snapshot.symm.trans hparent)
  obtain ⟨-, hstructured, -, rfl⟩ := ChainState.fromSnapshot_eq_ok.mp hsynced
  constructor
  · rintro ⟨htransactions, hresults, hreward, hresult, -⟩
    have hheader := hworld.header snapshot hmem' block hmem hhash
    obtain rfl : snapshot = block := by
      cases snapshot
      cases block
      simp only [Block.mk.injEq]
      exact ⟨hheader, htransactions, hresults, hreward, hresult⟩
    exact ⟨⟨store', haccepts.extends_parent.replayed⟩, rfl, rfl⟩
  · intro h
    obtain rfl := h.eq hworld.toCollisionFree hmem hmem' haccepts.structured hstructured hhash
      haccepts.extends_parent.replayed
    refine ⟨rfl, rfl, rfl, rfl, ?_⟩
    intro _ _ _ _ _ peer steps steps' hpeer hcanonical signed hsigned
    rw [(Node.lined hP hpeer).getTransactionResult_eq hworld hstart hcanonical hsigned]
    exact (ChainState.single_getTransactionResult
      (find?_results_isSome haccepts.extends_parent.digests hsigned) steps').symm

end Snapshot

/-! ## A snapshot of the small chain -/

namespace Sample

/-- The same block with results that say every transaction succeeded. -/
def boast (block : Block Bytes (Address × Digest)) : Block Bytes (Address × Digest) :=
  { block with results := block.results.map fun result => { result with status := .success } }

def boastBlocks : List (Block Bytes (Address × Digest)) :=
  firstBlocks ++ (peerBlock 5).toList.map boast

theorem boastBlocks_collisionless :
    Collisionless chainPlatform { block | block ∈ boastBlocks } genesisStore :=
  collisionless_of_list (fun _ _ => lower_of_list (by decide))
    (collisionFree_of_list (by decide +kernel)) (by decide +kernel)

end Sample

open Sample in
/-- A node that applied the first block and a node that was reset to it. -/
theorem snapshot_serves_genuine_results_first :
    ∃ (block : Block Bytes (Address × Digest)) (peer : Node chainPlatform)
      (synced : ChainState chainPlatform),
      ChainState.fromSnapshot chainPlatform 5 0 block peer.miner.chain.headStore 0 10 =
        .ok synced ∧
      block ∈ peer.miner.chain.ancestors 1 peer.miner.chain.head ∧
      ∀ signed ∈ block.transactions,
        peer.miner.chain.getTransactionResult 1 (signed.digest chainPlatform) =
          synced.getTransactionResult 1 (signed.digest chainPlatform) := by
  obtain ⟨block, hblock, hp⟩ := (Option.any_eq_true (fun block =>
    (startNode.handleAll (growsIn firstBlocks) [.apply 5 block]).isOkAnd
      fun peer : Node chainPlatform =>
      decide (block ∈ peer.miner.chain.ancestors 1 peer.miner.chain.head) &&
      (genesisChain.applyBlock 5 block).isOkAnd (fun _ => true) &&
      okHolds (fun _ => true)
        (ChainState.fromSnapshot chainPlatform 5 0 block peer.miner.chain.headStore 0 10))
    (peerBlock 5)).mp (by decide +kernel)
  obtain ⟨peer, hpeer, hp⟩ := Outcome.exists_of_isOkAnd hp
  simp only [Bool.and_eq_true, decide_eq_true_eq] at hp
  obtain ⟨⟨hcanonical, happly⟩, hsynced⟩ := hp
  obtain ⟨r, happly, -⟩ := Outcome.exists_of_isOkAnd happly
  obtain ⟨synced, hsynced, -⟩ := okHolds_exists hsynced
  have hmem : block ∈ firstBlocks := by simp [firstBlocks, hblock]
  obtain ⟨parent, parentStore, store, haccepts, -⟩ := ChainState.applyBlock_eq_ok.mp happly
  have hserves := (snapshot_serves_genuine_results chainPlatform_lawful firstBlocks_collisionless
    genesisStore_genuine hmem happly haccepts.parent_snapshot hmem hsynced rfl).mpr
    ⟨⟨store, haccepts.extends_parent.replayed⟩, rfl, rfl⟩
  exact ⟨block, peer, synced, hsynced, hcanonical, fun signed hsigned =>
    hserves.2.2.2.2 1 0 (Node.run_of_handleAll growsIn_sound hpeer) hcanonical signed hsigned⟩

open Sample in
/-- A node that was reset to the altered block reports a success where the block has a failure. -/
theorem snapshot_serves_genuine_results_fails :
    Collisionless chainPlatform { block | block ∈ boastBlocks } genesisStore ∧
    ∃ (block snapshot : Block Bytes (Address × Digest)) (chain synced : ChainState chainPlatform)
      (signed : SignedTransaction Bytes (Address × Digest)),
      block ∈ boastBlocks ∧ snapshot ∈ boastBlocks ∧
      genesisChain.applyBlock 5 block = .ok (chain, true) ∧
      ChainState.fromSnapshot chainPlatform 5 0 snapshot chain.headStore 0 10 = .ok synced ∧
      snapshot.hash chainPlatform = block.hash chainPlatform ∧ signed ∈ block.transactions ∧
      block ∈ chain.ancestors 1 chain.head ∧
      (chain.getTransactionResult 1 (signed.digest chainPlatform)).map (·.status) ≠
        (synced.getTransactionResult 1 (signed.digest chainPlatform)).map (·.status) := by
  refine ⟨boastBlocks_collisionless, ?_⟩
  obtain ⟨block, hblock, hp⟩ := (Option.any_eq_true (fun block =>
    (genesisChain.applyBlock 5 block).isOkAnd fun r : ChainState chainPlatform × Bool =>
      r.2 && decide (block ∈ r.1.ancestors 1 r.1.head) &&
      okHolds (fun synced : ChainState chainPlatform => block.transactions.any fun signed =>
        decide ((r.1.getTransactionResult 1 (signed.digest chainPlatform)).map (·.status) ≠
          (synced.getTransactionResult 1 (signed.digest chainPlatform)).map (·.status)))
        (ChainState.fromSnapshot chainPlatform 5 0 (boast block) r.1.headStore 0 10))
    (peerBlock 5)).mp (by decide +kernel)
  obtain ⟨⟨chain, switched⟩, happly, hp⟩ := Outcome.exists_of_isOkAnd hp
  simp only [Bool.and_eq_true, decide_eq_true_eq] at hp
  obtain ⟨⟨rfl, hcanonical⟩, hsynced⟩ := hp
  obtain ⟨synced, hsynced, hany⟩ := okHolds_exists hsynced
  obtain ⟨signed, hsigned, hdiffers⟩ := List.any_eq_true.mp hany
  exact ⟨block, boast block, chain, synced, signed, by simp [boastBlocks, firstBlocks, hblock],
    by simp [boastBlocks, hblock], happly, hsynced, rfl, hsigned, hcanonical,
    of_decide_eq_true hdiffers⟩

end MeowChain
