import MeowChain.Chain.History
import MeowChain.Gossip.Service

/-!
# The gossip service drives a node

Every turn of the gossip loop is a run of node events: blocks are handed to the node as they arrive
or from the buffer once a sync completes.
-/

set_option autoImplicit false

namespace MeowChain

variable {B S K Peer Url : Type} {P : ChainPlatform B S K} {Allowed : Node P → NodeEvent B S → Prop}

def Block.Admitted (Allowed : Node P → NodeEvent B S → Prop) (block : Block B S) : Prop :=
  ∀ node now, Allowed node (.apply now block)

theorem SyncBuffer.admitted_push {buffer : SyncBuffer B S} {block : Block B S}
    (hbuffer : ∀ b ∈ buffer.blocks, b.Admitted Allowed) (hblock : block.Admitted Allowed) :
    ∀ b ∈ (buffer.push P block).blocks, b.Admitted Allowed := by
  intro b hb
  unfold SyncBuffer.push at hb
  split_ifs at hb
  · exact hbuffer b hb
  · exact hbuffer b hb
  · rcases List.mem_append.mp hb with hb | hb
    · exact hbuffer b hb
    · exact List.mem_singleton.mp hb ▸ hblock

variable [DecidableEq B] {node : Node P} {miner miner' : Miner P} {now : UInt64}
  {clock : ℕ → UInt64} {block : Block B S}

theorem Miner.tryApply_run {accepted : Bool} (hblock : block.Admitted Allowed)
    (h : miner.tryApply now block = .ok (miner', accepted)) :
    Node.Run Allowed { node with miner } { node with miner := miner' } := by
  unfold Miner.tryApply at h
  split at h
  case h_1 applied happly =>
    cases h
    exact .single ⟨.apply now block, hblock _ now, Outcome.map_eq_ok.mpr ⟨applied, happly, rfl⟩⟩
  case h_2 =>
    cases h
    exact .refl
  all_goals cases h

theorem Miner.applyUnseen_run {blocks : List (Block B S)} {seen seen' : Std.ExtTreeSet Digest}
    (hblocks : ∀ block ∈ blocks, block.Admitted Allowed)
    (h : Miner.applyUnseen clock miner seen blocks = .ok (miner', seen')) :
    Node.Run Allowed { node with miner } { node with miner := miner' } := by
  induction blocks generalizing clock miner seen with
  | nil =>
    cases h
    exact .refl
  | cons block blocks ih =>
    rw [List.forall_mem_cons] at hblocks
    rw [Miner.applyUnseen] at h
    split_ifs at h with hseen
    · exact ih hblocks.2 h
    · obtain ⟨⟨next, _⟩, htried, hrest⟩ := Outcome.bind_eq_ok.mp h
      exact (Miner.tryApply_run hblocks.1 htried).trans (ih hblocks.2 hrest)

/-! ## One turn -/

variable [Ord Peer] {order : HeightOrder B S} {service service' : GossipService P Peer Url}
  {start : Node P}

namespace GossipService

def Within (Allowed : Node P → NodeEvent B S → Prop) (service : GossipService P Peer Url) :
    GossipEvent B S Peer Url → Prop
  | .task event => Allowed service.node event
  | .block _ _ block => block.Admitted Allowed
  | .peerInfo _ _ => True
  | .blocksFetched _ blocks => ∀ block ∈ blocks, block.Admitted Allowed
  | .snapshotFetched _ _ snapshot => ∀ s ∈ snapshot, ∀ node now, Allowed node (.replace now s)

def buffered (service : GossipService P Peer Url) : List (Block B S) :=
  match service.serviceState with
  | .working => []
  | .syncing buffer | .stateSyncing buffer => buffer.blocks

omit [DecidableEq B] in
theorem mem_buffered {b : Block B S}
    (h : b ∈ service.bufferedForSync order ∨ b ∈ service.bufferedForStateSync order) :
    b ∈ service.buffered := by
  unfold bufferedForSync bufferedForStateSync at h
  unfold buffered
  cases hstate : service.serviceState with
  | working => simp [hstate] at h
  | syncing buffer | stateSyncing buffer =>
    simp only [hstate, List.not_mem_nil, or_false, false_or] at h
    exact (order.perm _).mem_iff.mp h

/-- Node events lead from `start` to the service, and the node may take what it buffers. -/
structure Driven (Allowed : Node P → NodeEvent B S → Prop) (start : Node P)
    (service : GossipService P Peer Url) : Prop where
  run : Node.Run Allowed start service.node
  buffered : ∀ block ∈ service.buffered, block.Admitted Allowed

theorem Driven.completeStateSync {snapshot : Option (StateSnapshot B S)}
    (h : service.Driven Allowed start)
    (hsnapshot : ∀ s ∈ snapshot, ∀ node now, Allowed node (.replace now s))
    (hstep : service.completeStateSync order now clock snapshot = .ok service') :
    service'.Driven Allowed start := by
  unfold GossipService.completeStateSync at hstep
  cases snapshot with
  | none =>
    cases hstep
    exact ⟨h.run, List.forall_mem_nil _⟩
  | some s =>
    dsimp only at hstep
    split at hstep
    case h_1 =>
      cases hstep
      exact ⟨h.run, List.forall_mem_nil _⟩
    case h_2 miner hreplaced =>
      obtain ⟨⟨_, _⟩, happly, rfl⟩ := Outcome.map_eq_ok.mp hstep
      have hreplace : service.node.handle (.replace now s) = .ok { service.node with miner } := by
        simp only [Node.handle, hreplaced]
      refine ⟨(h.run.tail ⟨_, hsnapshot s rfl _ now, hreplace⟩).trans
        (Miner.applyUnseen_run (fun b hb => ?_) happly), List.forall_mem_nil _⟩
      exact h.buffered b (mem_buffered (.inr hb))

variable [Std.TransOrd Peer] {values : Std.ExtTreeMap Peer Url → List Url}

theorem Driven.receiveBlock {source : Option Peer} (h : service.Driven Allowed start)
    (hblock : block.Admitted Allowed)
    (hstep : service.receiveBlock values source now block = .ok service') :
    service'.Driven Allowed start := by
  obtain ⟨hrun, hbuffer⟩ := h
  have hsingle : ∀ b ∈ (SyncBuffer.single P block).blocks, b.Admitted Allowed :=
    fun b hb => List.mem_singleton.mp hb ▸ hblock
  unfold GossipService.receiveBlock at hstep
  cases hstate : service.serviceState with
  | syncing buffer | stateSyncing buffer =>
    rw [hstate] at hstep
    unfold GossipService.buffered at hbuffer
    rw [hstate] at hbuffer
    cases hstep
    exact ⟨hrun, SyncBuffer.admitted_push hbuffer hblock⟩
  | working =>
    rw [hstate] at hstep
    dsimp only at hstep
    split_ifs at hstep
    · cases hstep
      exact ⟨hrun, hsingle⟩
    · obtain ⟨⟨miner, needSync⟩, happly, rfl⟩ := Outcome.map_eq_ok.mp hstep
      have hmoved : Node.Run Allowed service.node { service.node with miner } := by
        unfold applyOrSync at happly
        dsimp only at happly
        split_ifs at happly
        · cases happly
          exact .refl
        all_goals
          obtain ⟨⟨_, _⟩, htried, heq⟩ := Outcome.map_eq_ok.mp happly
          cases heq
          exact Miner.tryApply_run hblock htried
      cases needSync with
      | true =>
        exact ⟨hrun.trans hmoved, hsingle⟩
      | false => exact ⟨hrun.trans hmoved, List.forall_mem_nil _⟩

theorem Driven.handle {event : GossipEvent B S Peer Url}
    (h : service.Driven Allowed start) (hevent : service.Within Allowed event)
    (hstep : service.handle order values event = .ok service') :
    service'.Driven Allowed start := by
  unfold GossipService.handle at hstep
  cases event with
  | task event =>
    dsimp only at hstep
    split at hstep
    case h_1 node hnode =>
      cases hstep
      exact ⟨h.run.tail ⟨event, hevent, hnode⟩, h.buffered⟩
    case h_2 =>
      cases hstep
      exact h
    all_goals cases hstep
  | block source now block => exact h.receiveBlock hevent hstep
  | peerInfo source url =>
    cases hstep
    cases source <;> exact ⟨h.run, h.buffered⟩
  | blocksFetched clock blocks =>
    dsimp only at hstep
    split at hstep
    · cases hstep
      exact h
    · obtain ⟨⟨miner, _⟩, happly, rfl⟩ := Outcome.map_eq_ok.mp hstep
      refine ⟨h.run.trans (Miner.applyUnseen_run (fun b hb => ?_) happly), List.forall_mem_nil _⟩
      rcases List.mem_append.mp hb with hpulled | hwaiting
      · exact hevent b ((order.perm _).mem_iff.mp hpulled)
      · exact h.buffered b (mem_buffered (.inl hwaiting))
  | snapshotFetched now clock snapshot =>
    dsimp only at hstep
    split at hstep
    · cases hstep
      exact h
    · exact h.completeStateSync hevent hstep

/-- A service that starts on a node only does to it what node events do. -/
theorem Run.driven (hrun : Run order values (Within Allowed) (.new start) service) :
    service.Driven Allowed start :=
  EventRun.invariant (I := Driven Allowed start) (fun h hevent hstep => h.handle hevent hstep) hrun
    ⟨.refl, List.forall_mem_nil _⟩

end GossipService

/-! ## Services agree -/

variable [Std.TransOrd Peer] {order' : HeightOrder B S}
  {values values' : Std.ExtTreeMap Peer Url → List Url}
  {world : Set (Block B S)} {initialStore : Store B} {depth depth' : UInt64} {keypair keypair' : K}
  {reward reward' : Address} {difficulty difficulty' batchSize batchSize' : ℕ}

/-- Under any gossip of blocks, with any buffering: the store of a known block is the replay of its
line of accepted blocks, and two services on one genesis have the same store for a block they both
know, as long as neither takes a snapshot. -/
theorem services_agree (hP : P.Lawful) (hworld : CollisionFree P world)
    (hrun : GossipService.Run order values (GossipService.Within (Node.GrowsIn world))
      (.new (.start (.new P initialStore difficulty depth) keypair reward batchSize)) service)
    (hrun' : GossipService.Run order' values' (GossipService.Within (Node.GrowsIn world))
      (.new (.start (.new P initialStore difficulty' depth') keypair' reward' batchSize')) service')
    {hash : Digest} {store store' : Store B}
    (hstore : service.node.miner.chain.snapshots[hash]? = some store)
    (hstore' : service'.node.miner.chain.snapshots[hash]? = some store') :
    store = store' ∧ ∃ block path, service.node.miner.chain.blocks[hash]? = some block ∧
      Lineage P world initialStore block store path ∧ Ancestry P block path ∧
      executeChain P initialStore path = .ok store := by
  have hnode := Node.historic_of_run hP hrun.driven.run
  have hnode' := Node.historic_of_run hP hrun'.driven.run
  obtain ⟨block, hblock⟩ := service.node.miner.chain.block_of_snapshot hstore
  obtain ⟨block', hblock'⟩ := service'.node.miner.chain.block_of_snapshot hstore'
  obtain ⟨path, hpath⟩ := hnode.known hash block store hblock hstore
  obtain ⟨path', hpath'⟩ := hnode'.known hash block' store' hblock' hstore'
  refine ⟨hpath.store_unique hworld hpath' ?_, block, path, hblock, hpath,
    hpath.ancestry⟩
  rw [service.node.miner.chain.hash_eq _ _ hblock, service'.node.miner.chain.hash_eq _ _ hblock']

namespace Sample

/-- Tasks of the node and blocks from peers, all of the first blocks. -/
def withinFirst (service : SmallService) : GossipEvent Bytes (Address × Digest) ℕ ℕ → Bool
  | .task event => growsIn firstBlocks service.node event
  | .block _ now block => growsIn firstBlocks service.node (.apply now block)
  | _ => false

theorem withinFirst_sound (service : SmallService) (event) (h : withinFirst service event = true) :
    service.Within (Node.GrowsIn { block | block ∈ firstBlocks }) event := by
  cases event with
  | task event => exact growsIn_sound _ event h
  | block source now block => exact fun _ _ => growsIn_sound service.node (.apply now block) h
  | peerInfo | blocksFetched | snapshotFetched => cases h

end Sample

open Sample in
/-- A service that mines the first block and one that receives it have the same store for it. -/
theorem services_agree_first :
    ∃ (service service' : SmallService), service.node.miner.chain.headHeight = 1 ∧
      service'.node.miner.chain.head = service.node.miner.chain.head ∧
      service'.node.miner.chain.headStore = service.node.miner.chain.headStore := by
  obtain ⟨service, hmined, hsame⟩ := Outcome.exists_of_isOkAnd
    (x := EventRun.runAll withinFirst (GossipService.handle stableOrder urls) (.new startNode)
      [.task (.submit (failingSigned 8)), .task (.prepare 5), .task (.finish 0 5)])
    (p := fun service : SmallService => decide (service.node.miner.chain.headHeight = 1) &&
      (EventRun.runAll withinFirst (GossipService.handle stableOrder urls) (.new startNode)
        [.block none 9 service.node.miner.chain.headBlock]).isOkAnd fun service' =>
          decide (service'.node.miner.chain.head = service.node.miner.chain.head))
    (by decide +kernel)
  rw [Bool.and_eq_true] at hsame
  obtain ⟨service', hreceived, hhead⟩ := Outcome.exists_of_isOkAnd hsame.2
  have hheads := of_decide_eq_true hhead
  refine ⟨service, service', of_decide_eq_true hsame.1, hheads, ?_⟩
  refine (services_agree chainPlatform_lawful firstBlocks_collisionFree
    (EventRun.of_runAll withinFirst_sound hreceived) (EventRun.of_runAll withinFirst_sound hmined)
    service'.node.miner.chain.getElem?_head_snapshot ?_).1
  rw [hheads]
  exact service.node.miner.chain.getElem?_head_snapshot

end MeowChain
