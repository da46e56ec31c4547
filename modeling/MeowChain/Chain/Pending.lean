import MeowChain.Chain.Agreement

/-!
# Pending transactions and the head

Every pending transaction was valid against the head store when it was submitted, and the mempool is
filtered when a peer's block becomes the head. It is not filtered when the node commits a block of
its own.
-/

set_option autoImplicit false

namespace MeowChain

variable {B S K : Type}

def Store.refAt (P : Platform B) (store : Store B) (a : Address) :
    Option (ObjectVersion × Digest) :=
  store[a]?.map fun obj => (obj.version, P.objectDigest obj)

theorem ObjectRef.current_iff {P : Platform B} {ref : ObjectRef} {store : Store B} :
    ref.Current P store ↔ store.refAt P ref.address = some (ref.version, ref.digest) := by
  simp [ObjectRef.Current, Store.refAt, Option.map_eq_some_iff, Prod.ext_iff]

section Follow

variable {P : ChainPlatform B S K} [DecidableEq B]

namespace Node

def PendingValid (node : Node P) : Prop :=
  ∀ signed ∈ node.miner.mempool.pending,
    validateAgainstStore P.toPlatform signed.transaction node.miner.chain.headStore = .ok ()

/-- A block the node is about to commit leaves the objects that pending transactions refer to in
their versions. -/
def LeavesPending (node : Node P) : NodeEvent B S → Prop
  | .finish round _ => ∀ work block store, node.rounds[round]? = some work →
      work.grind P = .ok (some (block, store)) →
      block.header.parentHash = node.miner.chain.head →
      ∀ signed ∈ node.miner.mempool.pending, ∀ ref ∈ signed.transaction.objectRefs,
        store.refAt P.toPlatform ref.address =
          node.miner.chain.headStore.refAt P.toPlatform ref.address
  | _ => True

omit [DecidableEq B] in
/-- Of two stores, a transaction that is valid against one is valid against the other exactly when
its references find the same versions. -/
theorem valid_iff {tx : Transaction B} {store store' : Store B}
    (h : tx.Valid P.toPlatform store) :
    tx.Valid P.toPlatform store' ↔ ∀ ref ∈ tx.objectRefs,
      store'.refAt P.toPlatform ref.address = store.refAt P.toPlatform ref.address := by
  refine forall₂_congr fun ref href => ?_
  rw [ObjectRef.current_iff, ObjectRef.current_iff.mp (h ref href)]

theorem PendingValid.moves {node node' : Node P} {event : NodeEvent B S} (h : node.PendingValid)
    (hleaves : node.LeavesPending event) (hmoves : Moves node event node') :
    node'.PendingValid := by
  cases hmoves with
  | idle => exact h
  | submit hpool =>
    obtain ⟨-, -, -, hvalid, rfl⟩ := Mempool.submit_eq_ok P hpool
    intro signed hsigned
    rcases List.mem_append.mp hsigned with hold | hnew
    · exact h signed hold
    · rw [List.mem_singleton.mp hnew]
      exact (validateAgainstStore_eq_ok _).mpr hvalid
  | prepare hprepare =>
    obtain ⟨-, rfl⟩ := Miner.prepareRound_eq_some hprepare
    exact fun signed hsigned => h signed (List.mem_of_mem_drop hsigned)
  | discard => exact h
  | stale => exact h
  | commit hwork hgrind hfresh =>
    intro signed hsigned
    have hvalid := (validateAgainstStore_eq_ok _).mp (h signed hsigned)
    show validateAgainstStore P.toPlatform _ (node.miner.chain.adopt _ _).headStore = _
    rw [ChainState.adopt_headStore]
    exact (validateAgainstStore_eq_ok _).mpr
      ((valid_iff hvalid).mpr (hleaves _ _ _ hwork hgrind hfresh signed hsigned))
  | store haccepts =>
    intro signed hsigned
    show validateAgainstStore P.toPlatform _ (node.miner.chain.insertBlock _ _).headStore = _
    rw [ChainState.insertBlock_headStore haccepts.unknown]
    exact h signed hsigned
  | adopt =>
    intro signed hsigned
    have hvalid := (Mempool.stillValid_iff P).mp (List.mem_filter.mp hsigned).2
    exact (validateAgainstStore_eq_ok _).mpr hvalid
  | replace =>
    intro signed hsigned
    cases hsigned

/-- A round that ends on the head is committed. -/
theorem finish_commits {node node' : Node P} {round : ℕ} {now : UInt64}
    {work : MiningWork B S K} {block : Block B S} {store : Store B}
    (hstep : node.handle (.finish round now) = .ok node') (hwork : node.rounds[round]? = some work)
    (hgrind : work.grind P = .ok (some (block, store)))
    (hfresh : block.header.parentHash = node.miner.chain.head) :
    node'.miner = { node.miner with chain := node.miner.chain.adopt block store } := by
  simp only [handle, hwork] at hstep
  obtain ⟨mined, hmined, hrest⟩ := Outcome.bind_eq_ok.mp (Outcome.mapErr_eq_ok.mp hstep)
  obtain rfl := Outcome.ok.inj (hgrind.symm.trans hmined)
  obtain ⟨⟨miner, flag⟩, hcommit, rfl⟩ := Outcome.map_eq_ok.mp hrest
  unfold Miner.commitMined at hcommit
  rw [if_neg (not_not.mpr hfresh)] at hcommit
  obtain ⟨chain, hchain, hminer⟩ := Outcome.map_eq_ok.mp hcommit
  cases hminer
  obtain ⟨-, rfl⟩ := ChainState.commit_eq_ok.mp hchain
  rfl

theorem PendingValid.leaves {node node' : Node P} {event : NodeEvent B S} (h : node.PendingValid)
    (hstep : node.handle event = .ok node') (h' : node'.PendingValid) :
    node.LeavesPending event := by
  cases event with
  | finish round now =>
    intro work block store hwork hgrind hfresh signed hsigned
    have hminer := finish_commits hstep hwork hgrind hfresh
    unfold PendingValid at h'
    rw [hminer] at h'
    have hvalid' := h' signed hsigned
    simp only [ChainState.adopt_headStore] at hvalid'
    exact (valid_iff ((validateAgainstStore_eq_ok _).mp (h signed hsigned))).mp
      ((validateAgainstStore_eq_ok _).mp hvalid')
  | submit signed => trivial
  | prepare now => trivial
  | apply now block => trivial
  | replace now snapshot => trivial

end Node

/-- As long as every block the node commits leaves the objects of pending transactions alone, every
pending transaction passes the check against the head store; and the first commit that does not
breaks this. -/
theorem mempool_follows_head {chain : ChainState P} {keypair : K} {rewardAddress : Address}
    {batchSize : ℕ} {node : Node P}
    (hrun : Node.Run Node.LeavesPending (Node.start chain keypair rewardAddress batchSize) node) :
    node.PendingValid ∧ ∀ event later, node.handle event = .ok later →
      (later.PendingValid ↔ node.LeavesPending event) := by
  have hnode : node.PendingValid := by
    refine Node.Run.invariant (I := Node.PendingValid)
      (fun h hleaves hmoves => h.moves hleaves hmoves) hrun ?_
    intro signed hsigned
    cases hsigned
  refine ⟨hnode, ?_⟩
  intro event later hstep
  exact ⟨fun h => hnode.leaves hstep h,
    fun hleaves => hnode.moves hleaves (Node.moves_of_handle hstep)⟩

end Follow

/-! ## Two transactions that pay with one coin -/

namespace Sample

def leavesPending (node : Node chainPlatform) : NodeEvent Bytes (Address × Digest) → Bool
  | .finish round _ =>
    match node.rounds[round]? with
    | none => true
    | some work =>
      match work.grind chainPlatform with
      | .ok (some (_, store)) =>
        node.miner.mempool.pending.all fun signed => signed.transaction.objectRefs.all fun ref =>
          decide (store.refAt chainPlatform.toPlatform ref.address =
            node.miner.chain.headStore.refAt chainPlatform.toPlatform ref.address)
      | _ => true
  | _ => true

theorem leavesPending_sound (node : Node chainPlatform)
    (event : NodeEvent Bytes (Address × Digest)) (h : leavesPending node event = true) :
    node.LeavesPending event := by
  cases event with
  | finish round now =>
    intro work block store hwork hgrind _ signed hsigned ref href
    simp only [leavesPending, hwork, hgrind, List.all_eq_true] at h
    exact of_decide_eq_true (h signed hsigned ref href)
  | submit signed => trivial
  | prepare now => trivial
  | apply now block => trivial
  | replace now snapshot => trivial

def otherSigned (coin : Address) : SignedTransaction Bytes (Address × Digest) :=
  Transaction.sign chainPlatform { failingCall coin with
    type := .meowCall { module := 98, function := ⟨"g", by decide⟩, arguments := [] } } owner

end Sample

open Sample in
theorem mempool_follows_head_mined :
    ∃ node : Node chainPlatform, node.miner.chain.headHeight = 1 ∧
      node.miner.mempool.pending = [failingSigned 9] ∧ node.PendingValid := by
  obtain ⟨node, hnode, hp⟩ := Outcome.exists_of_isOkAnd
    (x := startNode.handleAll leavesPending
      [.submit (failingSigned 8), .submit (failingSigned 9), .prepare 5, .finish 0 5])
    (p := fun node : Node chainPlatform => decide (node.miner.chain.headHeight = 1) &&
      decide (node.miner.mempool.pending = [failingSigned 9])) (by decide +kernel)
  rw [Bool.and_eq_true] at hp
  exact ⟨node, of_decide_eq_true hp.1, of_decide_eq_true hp.2,
    (mempool_follows_head (Node.run_of_handleAll leavesPending_sound hnode)).1⟩

open Sample in
/-- The node mines the first of two transactions that pay with one coin; the second stays. -/
theorem mempool_follows_head_fails :
    ∃ (node : Node chainPlatform) (signed : SignedTransaction Bytes (Address × Digest)),
      Node.Run (fun _ _ => True) startNode node ∧ signed ∈ node.miner.mempool.pending ∧
      validateAgainstStore chainPlatform.toPlatform signed.transaction
        node.miner.chain.headStore ≠ .ok () := by
  obtain ⟨node, hnode, hp⟩ := Outcome.exists_of_isOkAnd
    (x := startNode.handleAll (fun _ _ => true)
      [.submit (failingSigned 8), .submit (otherSigned 8), .prepare 5, .finish 0 5])
    (p := fun node : Node chainPlatform => decide (otherSigned 8 ∈ node.miner.mempool.pending) &&
      !Mempool.stillValid chainPlatform node.miner.chain.headStore (otherSigned 8))
    (by decide +kernel)
  rw [Bool.and_eq_true, Bool.not_eq_true'] at hp
  refine ⟨node, otherSigned 8, Node.run_of_handleAll (fun _ _ _ => trivial) hnode,
    of_decide_eq_true hp.1, ?_⟩
  intro hvalid
  have hstill := (Mempool.stillValid_iff chainPlatform).mpr
    ((validateAgainstStore_eq_ok _).mp hvalid)
  rw [hp.2] at hstill
  cases hstill

end MeowChain
