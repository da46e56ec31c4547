import MeowChain.Chain.Agreement

/-!
# The gossip service

The loop of `GossipService::run`: blocks are applied as they arrive, and a gap starts a sync, during
which blocks are buffered until the fetch from a peer completes. The state of the service and its
two fetches are variables of their own.
-/

set_option autoImplicit false

namespace MeowChain

variable {B S K Peer Url : Type}

def maxBufferedSyncBlocks : ℕ := 100000

structure SyncBuffer (B S : Type) where
  blocks : List (Block B S)
  hashes : Std.ExtTreeSet Digest

inductive GossipServiceState (B S : Type) where
  | working
  | syncing (buffer : SyncBuffer B S)
  | stateSyncing (buffer : SyncBuffer B S)

/-- The service, with the node it shares the miner with. A fetch in flight is what it was started
with; `none` stands for the future that never completes. -/
structure GossipService (P : ChainPlatform B S K) (Peer Url : Type) [Ord Peer] where
  node : Node P
  knownPeerUrls : Std.ExtTreeMap Peer Url
  serviceState : GossipServiceState B S
  syncFut : Option (Url × UInt64)
  stateSyncFut : Option Url

/-- What the loop reacts to, and what other tasks do to the miner in between. -/
inductive GossipEvent (B S Peer Url : Type) where
  | task (event : NodeEvent B S)
  | block (source : Option Peer) (now : UInt64) (block : Block B S)
  | peerInfo (source : Option Peer) (url : Url)
  | blocksFetched (clock : ℕ → UInt64) (blocks : List (Block B S))
  | snapshotFetched (now : UInt64) (clock : ℕ → UInt64) (snapshot : Option (StateSnapshot B S))

namespace SyncBuffer

variable (P : ChainPlatform B S K)

def single (block : Block B S) : SyncBuffer B S where
  blocks := [block]
  hashes := (∅ : Std.ExtTreeSet Digest).insert (block.hash P)

def push (buffer : SyncBuffer B S) (block : Block B S) : SyncBuffer B S :=
  if buffer.blocks.length ≥ maxBufferedSyncBlocks then buffer
  else if buffer.hashes.contains (block.hash P) then buffer
  else {
    blocks := buffer.blocks ++ [block]
    hashes := buffer.hashes.insert (block.hash P) }

end SyncBuffer

/-- What `sort_unstable_by_key` makes of blocks: blocks of one height come in any order. -/
structure HeightOrder (B S : Type) where
  sort : List (Block B S) → List (Block B S)
  perm : ∀ blocks, (sort blocks).Perm blocks
  sorted : ∀ blocks, (sort blocks).Pairwise fun b b' => b.header.height ≤ b'.header.height

def GossipService.new {P : ChainPlatform B S K} [Ord Peer] (node : Node P) :
    GossipService P Peer Url where
  node
  knownPeerUrls := ∅
  serviceState := .working
  syncFut := none
  stateSyncFut := none

section Loop

variable {P : ChainPlatform B S K} [DecidableEq B]

/-- Apply a block and go on whatever comes of it; the flag says whether it was accepted. -/
def Miner.tryApply (miner : Miner P) (now : UInt64) (block : Block B S) :
    Outcome Empty (Miner P × Bool) :=
  match miner.applyBlock now block with
  | .ok applied => .ok (applied.1, true)
  | .err _ => .ok (miner, false)
  | .panic m => .panic m
  | .diverge => .diverge

def Miner.applyUnseen : (ℕ → UInt64) → Miner P → Std.ExtTreeSet Digest → List (Block B S) →
    Outcome Empty (Miner P × Std.ExtTreeSet Digest)
  | _, miner, seen, [] => .ok (miner, seen)
  | clock, miner, seen, block :: rest =>
    if seen.contains (block.hash P) then applyUnseen clock miner seen rest
    else (miner.tryApply (clock 0) block).bind fun tried =>
      applyUnseen (fun i => clock (i + 1)) tried.1 (seen.insert (block.hash P)) rest

namespace GossipService

variable [Ord Peer] [Std.TransOrd Peer] (order : HeightOrder B S)
  -- The values of the hash map, in the order it visits them in.
  (values : Std.ExtTreeMap Peer Url → List Url) (service : GossipService P Peer Url)

/-- The sender of a block, if its URL is known, else any known peer. -/
def peerUrl (source : Option Peer) : Option Url :=
  (source.bind fun peer => service.knownPeerUrls[peer]?).or (values service.knownPeerUrls).head?

/-- A block that is not too far ahead: apply it, or find that a block sync is needed. -/
def applyOrSync (now : UInt64) (block : Block B S) : Outcome Empty (Miner P × Bool) :=
  let localHeight := service.node.miner.chain.headHeight
  if block.header.height > localHeight + 1 then .ok (service.node.miner, true)
  else if block.header.height > localHeight then
    (service.node.miner.tryApply now block).map fun tried => (tried.1, !tried.2)
  else (service.node.miner.tryApply now block).map fun tried => (tried.1, false)

def receiveBlock (source : Option Peer) (now : UInt64) (block : Block B S) :
    Outcome Empty (GossipService P Peer Url) :=
  match service.serviceState with
  | .syncing buffer => .ok { service with serviceState := .syncing (buffer.push P block) }
  | .stateSyncing buffer => .ok { service with serviceState := .stateSyncing (buffer.push P block) }
  | .working =>
    let chain := service.node.miner.chain
    let peerUrl := service.peerUrl values source
    if block.header.height > chain.headHeight + chain.snapshotDepth then
      .ok { service with
        serviceState := .stateSyncing (.single P block)
        stateSyncFut := peerUrl.or service.stateSyncFut }
    else
      (service.applyOrSync now block).map fun applied =>
      let node := { service.node with miner := applied.1 }
      if applied.2 then
        { service with
          node
          serviceState := .syncing (.single P block)
          syncFut := (peerUrl.map (·, chain.syncFromHeight)).or service.syncFut }
      else { service with node }

def receivePeerInfo (source : Option Peer) (url : Url) : GossipService P Peer Url :=
  match source with
  | none => service
  | some peer => { service with knownPeerUrls := service.knownPeerUrls.insertIfNew peer url }

def bufferedForSync : List (Block B S) :=
  match service.serviceState with
  | .syncing buffer => order.sort buffer.blocks
  | _ => []

def bufferedForStateSync : List (Block B S) :=
  match service.serviceState with
  | .stateSyncing buffer => order.sort buffer.blocks
  | _ => []

/-- The block fetch completes: the pulled blocks are applied, then the buffered ones. -/
def completeSync (clock : ℕ → UInt64) (pulled : List (Block B S)) :
    Outcome Empty (GossipService P Peer Url) :=
  (Miner.applyUnseen clock service.node.miner ∅
    (order.sort pulled ++ service.bufferedForSync order)).map fun applied =>
  { service with
    node := { service.node with miner := applied.1 }
    serviceState := .working
    syncFut := none }

def completeStateSync (now : UInt64) (clock : ℕ → UInt64)
    (snapshot : Option (StateSnapshot B S)) : Outcome Empty (GossipService P Peer Url) :=
  let done (miner : Miner P) : GossipService P Peer Url :=
    { service with
      node := { service.node with miner }
      serviceState := .working
      stateSyncFut := none }
  match snapshot with
  | none => .ok (done service.node.miner)
  | some snapshot =>
    match service.node.miner.replaceFromSnapshot now snapshot with
    | .error _ => .ok (done service.node.miner)
    | .ok miner =>
      (Miner.applyUnseen clock miner ∅ (service.bufferedForStateSync order)).map fun applied =>
        done applied.1

/-- One turn of the loop. A fetch completes only while it is in flight. -/
def handle : GossipEvent B S Peer Url → Outcome Empty (GossipService P Peer Url)
  | .task event =>
    match service.node.handle event with
    | .ok node => .ok { service with node }
    | .err _ => .ok service
    | .panic m => .panic m
    | .diverge => .diverge
  | .block source now block => service.receiveBlock values source now block
  | .peerInfo source url => .ok (service.receivePeerInfo source url)
  | .blocksFetched clock blocks =>
    match service.syncFut with
    | none => .ok service
    | some _ => service.completeSync order clock blocks
  | .snapshotFetched now clock snapshot =>
    match service.stateSyncFut with
    | none => .ok service
    | some _ => service.completeStateSync order now clock snapshot

abbrev Run (Allowed : GossipService P Peer Url → GossipEvent B S Peer Url → Prop) :
    GossipService P Peer Url → GossipService P Peer Url → Prop :=
  EventRun Allowed fun service event service' => service.handle order values event = .ok service'

end GossipService

end Loop

/-! ## Waiting for a fetch -/

section Waiting

variable {P : ChainPlatform B S K}

namespace GossipService

/-- A sync has its fetch in flight; no other fetch is. -/
def FetchInFlight [Ord Peer] (service : GossipService P Peer Url) : Prop :=
  match service.serviceState with
  | .working => service.syncFut = none ∧ service.stateSyncFut = none
  | .syncing _ => service.syncFut ≠ none ∧ service.stateSyncFut = none
  | .stateSyncing _ => service.syncFut = none ∧ service.stateSyncFut ≠ none

/-- The service buffers blocks, and no fetch is in flight that could end this. -/
def Stuck [Ord Peer] (service : GossipService P Peer Url) : Prop :=
  (match service.serviceState with
    | .working => False
    | _ => True) ∧ service.syncFut = none ∧ service.stateSyncFut = none

variable [DecidableEq B] [Ord Peer] [Std.TransOrd Peer]

/-- A block that makes a working service start a sync: too far ahead, or next and rejected. -/
def StartsSync (service : GossipService P Peer Url) (now : UInt64) (block : Block B S) : Prop :=
  let chain := service.node.miner.chain
  block.header.height > chain.headHeight + chain.snapshotDepth ∨
    block.header.height > chain.headHeight + 1 ∨
    block.header.height > chain.headHeight ∧
      ∃ e, service.node.miner.applyBlock now block = .err e

/-- When a sync starts, some peer can be asked. -/
def PeerKnown (service : GossipService P Peer Url) : GossipEvent B S Peer Url → Prop
  | .block _ now block => (match service.serviceState with
      | .working => service.StartsSync now block
      | _ => False) → service.knownPeerUrls ≠ ∅
  | _ => True

omit [Std.TransOrd Peer] in
theorem tryApply_eq_ok {miner miner' : Miner P} {now : UInt64} {block : Block B S}
    {accepted : Bool} (h : miner.tryApply now block = .ok (miner', accepted)) :
    accepted = false ↔ ∃ e, miner.applyBlock now block = .err e := by
  unfold Miner.tryApply at h
  split at h
  · rename_i happly
    cases h
    simp [happly]
  · rename_i e happly
    cases h
    simp [happly]
  · cases h
  · cases h

omit [Std.TransOrd Peer] in
theorem applyOrSync_eq_ok {service : GossipService P Peer Url} {now : UInt64} {block : Block B S}
    {miner : Miner P} {needSync : Bool}
    (h : service.applyOrSync now block = .ok (miner, needSync)) :
    needSync = true ↔ block.header.height > service.node.miner.chain.headHeight + 1 ∨
      block.header.height > service.node.miner.chain.headHeight ∧
        ∃ e, service.node.miner.applyBlock now block = .err e := by
  unfold applyOrSync at h
  dsimp only at h
  split_ifs at h with hgap hnext
  · cases h
    simp [hgap]
  · obtain ⟨⟨miner', accepted⟩, htried, h⟩ := Outcome.map_eq_ok.mp h
    cases h
    rw [Bool.not_eq_true', tryApply_eq_ok htried]
    simp [hgap, hnext]
  · obtain ⟨_, -, h⟩ := Outcome.map_eq_ok.mp h
    cases h
    simp [hgap, hnext]

section Steps

variable {order : HeightOrder B S} {values : Std.ExtTreeMap Peer Url → List Url}
  (hvalues : ∀ known, values known = [] ↔ known = ∅) {service service' : GossipService P Peer Url}
include hvalues

omit [DecidableEq B] in
theorem peerUrl_ne_none (source : Option Peer) :
    service.peerUrl values source ≠ none ↔ service.knownPeerUrls ≠ ∅ := by
  rw [not_iff_not]
  unfold peerUrl
  rw [Option.or_eq_none_iff, List.head?_eq_none_iff, hvalues]
  refine ⟨And.right, fun hempty => ⟨?_, hempty⟩⟩
  rw [hempty]
  cases source <;> simp

/-- A block keeps the fetches in order exactly when a peer is known for the sync it starts. -/
theorem fetchInFlight_receiveBlock {source : Option Peer} {now : UInt64} {block : Block B S}
    (h : service.FetchInFlight)
    (hstep : service.receiveBlock values source now block = .ok service') :
    service'.FetchInFlight ↔ service.PeerKnown (.block source now block) := by
  unfold receiveBlock at hstep
  unfold FetchInFlight at h
  unfold PeerKnown
  cases hstate : service.serviceState with
  | syncing buffer =>
    simp only [hstate] at h hstep
    cases hstep
    simpa [FetchInFlight] using h
  | stateSyncing buffer =>
    simp only [hstate] at h hstep
    cases hstep
    simpa [FetchInFlight] using h
  | working =>
    simp only [hstate] at h hstep
    dsimp only
    obtain ⟨hsync, hstateSync⟩ := h
    split_ifs at hstep with hfar
    · cases hstep
      have hstarts : service.StartsSync now block := .inl hfar
      simp only [FetchInFlight, hsync, hstateSync, Option.or_none, true_and, hstarts, true_imp_iff]
      exact peerUrl_ne_none hvalues source
    · obtain ⟨⟨miner, needSync⟩, happlied, rfl⟩ := Outcome.map_eq_ok.mp hstep
      have hneeds := applyOrSync_eq_ok happlied
      have hstarts : service.StartsSync now block ↔ needSync = true := by
        unfold StartsSync
        rw [hneeds]
        simp only [hfar, false_or]
      rw [hstarts]
      cases needSync with
      | false => simp [FetchInFlight, hsync, hstateSync]
      | true =>
        simp only [FetchInFlight, if_true, hsync, hstateSync, Option.or_none, and_true,
          true_imp_iff]
        rw [← peerUrl_ne_none hvalues source]
        simp

/-- From a state with its fetches in order, a step keeps them so exactly when a peer is known for
the sync it starts. -/
theorem fetchInFlight_handle {event : GossipEvent B S Peer Url} (h : service.FetchInFlight)
    (hstep : service.handle order values event = .ok service') :
    service'.FetchInFlight ↔ service.PeerKnown event := by
  cases event with
  | task event =>
    simp only [handle] at hstep
    split at hstep
    · cases hstep
      exact iff_of_true h trivial
    · cases hstep
      exact iff_of_true h trivial
    · cases hstep
    · cases hstep
  | block source now block => exact fetchInFlight_receiveBlock hvalues h hstep
  | peerInfo source url =>
    cases hstep
    refine iff_of_true ?_ trivial
    cases source <;> exact h
  | blocksFetched clock blocks =>
    refine iff_of_true ?_ trivial
    simp only [handle] at hstep
    split at hstep
    · cases hstep
      exact h
    · rename_i fetch hfetch
      obtain ⟨_, -, rfl⟩ := Outcome.map_eq_ok.mp hstep
      refine ⟨rfl, ?_⟩
      unfold FetchInFlight at h
      cases hstate : service.serviceState <;> simp_all
  | snapshotFetched now clock snapshot =>
    refine iff_of_true ?_ trivial
    simp only [handle] at hstep
    split at hstep
    · cases hstep
      exact h
    · rename_i fetch hfetch
      have hsync : service.syncFut = none := by
        unfold FetchInFlight at h
        cases hstate : service.serviceState <;> simp_all
      unfold completeStateSync at hstep
      dsimp only at hstep
      split at hstep
      · cases hstep
        exact ⟨hsync, rfl⟩
      · split at hstep
        · cases hstep
          exact ⟨hsync, rfl⟩
        · obtain ⟨_, -, rfl⟩ := Outcome.map_eq_ok.mp hstep
          exact ⟨hsync, rfl⟩

end Steps

/-- A stuck service never gets out of it, whatever happens. -/
theorem Stuck.handle {order : HeightOrder B S} {values : Std.ExtTreeMap Peer Url → List Url}
    {service service' : GossipService P Peer Url} {event : GossipEvent B S Peer Url}
    (h : service.Stuck) (hstep : service.handle order values event = .ok service') :
    service'.Stuck := by
  obtain ⟨hbuffering, hsync, hstateSync⟩ := h
  cases event with
  | task event =>
    simp only [GossipService.handle] at hstep
    split at hstep
    · cases hstep
      exact ⟨hbuffering, hsync, hstateSync⟩
    · cases hstep
      exact ⟨hbuffering, hsync, hstateSync⟩
    · cases hstep
    · cases hstep
  | block source now block =>
    simp only [GossipService.handle, receiveBlock] at hstep
    cases hstate : service.serviceState with
    | working =>
      rw [hstate] at hbuffering
      exact hbuffering.elim
    | syncing buffer =>
      simp only [hstate] at hstep
      cases hstep
      exact ⟨trivial, hsync, hstateSync⟩
    | stateSyncing buffer =>
      simp only [hstate] at hstep
      cases hstep
      exact ⟨trivial, hsync, hstateSync⟩
  | peerInfo source url =>
    cases hstep
    cases source <;> exact ⟨hbuffering, hsync, hstateSync⟩
  | blocksFetched clock blocks =>
    simp only [GossipService.handle, hsync] at hstep
    cases hstep
    exact ⟨hbuffering, hsync, hstateSync⟩
  | snapshotFetched now clock snapshot =>
    simp only [GossipService.handle, hstateSync] at hstep
    cases hstep
    exact ⟨hbuffering, hsync, hstateSync⟩

end GossipService

/-- As long as a peer is known whenever a sync starts, the service is syncing only while a block
fetch is in flight and state syncing only while a snapshot fetch is; the first sync that starts
without a known peer breaks this. -/
theorem gossip_waits_for_a_fetch [DecidableEq B] [Ord Peer] [Std.TransOrd Peer]
    {order : HeightOrder B S} {values : Std.ExtTreeMap Peer Url → List Url}
    (hvalues : ∀ known, values known = [] ↔ known = ∅) {node : Node P}
    {service : GossipService P Peer Url}
    (hrun : GossipService.Run order values GossipService.PeerKnown (.new node) service) :
    (∀ buffer, service.serviceState = .syncing buffer → service.syncFut ≠ none) ∧
    (∀ buffer, service.serviceState = .stateSyncing buffer → service.stateSyncFut ≠ none) ∧
    ∀ event later, service.handle order values event = .ok later →
      (later.FetchInFlight ↔ service.PeerKnown event) := by
  have hservice : service.FetchInFlight := by
    refine EventRun.invariant (I := GossipService.FetchInFlight) ?_ hrun ⟨rfl, rfl⟩
    intro s t event hs hknown hstep
    exact (GossipService.fetchInFlight_handle hvalues hs hstep).mpr hknown
  refine ⟨?_, ?_, fun event later => GossipService.fetchInFlight_handle hvalues hservice⟩
  · intro buffer hstate
    unfold GossipService.FetchInFlight at hservice
    rw [hstate] at hservice
    exact hservice.1
  · intro buffer hstate
    unfold GossipService.FetchInFlight at hservice
    rw [hstate] at hservice
    exact hservice.2

end Waiting

/-! ## A gap before the first peer is known -/

namespace Sample

abbrev SmallService := GossipService chainPlatform ℕ ℕ

def stableOrder : HeightOrder Bytes (Address × Digest) where
  sort blocks := blocks.mergeSort fun b b' => b.header.height ≤ b'.header.height
  perm blocks := blocks.mergeSort_perm _
  sorted blocks := by
    refine (List.pairwise_mergeSort ?_ ?_ blocks).imp of_decide_eq_true
    · intro a b c hab hbc
      exact decide_eq_true (UInt64.le_trans (of_decide_eq_true hab) (of_decide_eq_true hbc))
    · intro a b
      rw [Bool.or_eq_true, decide_eq_true_eq, decide_eq_true_eq]
      exact UInt64.le_total _ _

def urls (known : Std.ExtTreeMap ℕ ℕ) : List ℕ :=
  known.toList.map (·.2)

theorem urls_eq_nil (known : Std.ExtTreeMap ℕ ℕ) : urls known = [] ↔ known = ∅ := by
  rw [urls, List.map_eq_nil_iff, ← List.isEmpty_iff, Std.ExtTreeMap.isEmpty_toList,
    Std.ExtTreeMap.isEmpty_iff]

def farBlock (height : UInt64) : Block Bytes (Address × Digest) :=
  let genesis : Block Bytes (Address × Digest) := .genesis
  { genesis with header := { genesis.header with height } }

def isSyncing (service : SmallService) : Bool :=
  match service.serviceState with
  | .syncing _ => true
  | _ => false

theorem exists_of_isSyncing {service : SmallService} (h : isSyncing service = true) :
    ∃ buffer, service.serviceState = .syncing buffer := by
  unfold isSyncing at h
  split at h
  · exact ⟨_, by assumption⟩
  · cases h

def peerKnown (service : SmallService) : GossipEvent Bytes (Address × Digest) ℕ ℕ → Bool
  | .block _ _ _ => !service.knownPeerUrls.isEmpty
  | _ => true

theorem peerKnown_sound (service : SmallService)
    (event : GossipEvent Bytes (Address × Digest) ℕ ℕ) (h : peerKnown service event = true) :
    service.PeerKnown event := by
  cases event with
  | block source now block =>
    intro _ hempty
    simp [peerKnown, hempty] at h
  | task event => trivial
  | peerInfo source url => trivial
  | blocksFetched clock blocks => trivial
  | snapshotFetched now clock snapshot => trivial

end Sample

open Sample in
/-- A peer is known when a block shows a gap: the service waits for the fetch from it. -/
theorem gossip_waits_for_a_fetch_peer :
    ∃ service : SmallService, (∃ buffer, service.serviceState = .syncing buffer) ∧
      service.syncFut ≠ none := by
  obtain ⟨service, hservice, hsyncing⟩ := Outcome.exists_of_isOkAnd
    (x := EventRun.runAll peerKnown (GossipService.handle stableOrder urls) (.new startNode)
      [.peerInfo (some 1) 80, .block (some 1) 0 (farBlock 5)])
    (p := isSyncing) (by decide +kernel)
  obtain ⟨buffer, hbuffer⟩ := exists_of_isSyncing hsyncing
  exact ⟨service, ⟨buffer, hbuffer⟩, (gossip_waits_for_a_fetch urls_eq_nil
    (EventRun.of_runAll peerKnown_sound hservice)).1 buffer hbuffer⟩

open Sample in
/-- The gap is seen before a peer is known: the service waits forever, also once it knows one. -/
theorem gossip_waits_for_a_fetch_fails :
    ∃ service : SmallService,
      GossipService.Run stableOrder urls (fun _ _ => True) (.new startNode) service ∧
      service.knownPeerUrls ≠ ∅ ∧ (∃ buffer, service.serviceState = .syncing buffer) ∧
      ∀ later, GossipService.Run stableOrder urls (fun _ _ => True) service later →
        later.serviceState ≠ .working ∧ later.syncFut = none ∧ later.stateSyncFut = none := by
  obtain ⟨service, hservice, hp⟩ := Outcome.exists_of_isOkAnd
    (x := EventRun.runAll (fun _ _ => true) (GossipService.handle stableOrder urls) (.new startNode)
      [.block (some 1) 0 (farBlock 5), .peerInfo (some 1) 80])
    (p := fun service : SmallService => isSyncing service && !service.knownPeerUrls.isEmpty &&
      (service.syncFut.isNone && service.stateSyncFut.isNone)) (by decide +kernel)
  simp only [Bool.and_eq_true, Option.isNone_iff_eq_none] at hp
  obtain ⟨⟨hsyncing, hknown⟩, hsync, hstateSync⟩ := hp
  obtain ⟨buffer, hbuffer⟩ := exists_of_isSyncing hsyncing
  refine ⟨service, EventRun.of_runAll (fun _ _ _ => trivial) hservice, ?_, ⟨buffer, hbuffer⟩, ?_⟩
  · intro hempty
    simp [hempty] at hknown
  · intro later hlater
    have hstuck : service.Stuck := ⟨by rw [hbuffer]; trivial, hsync, hstateSync⟩
    obtain ⟨hbuffering, hnone⟩ := EventRun.invariant (I := GossipService.Stuck)
      (fun h _ hstep => h.handle hstep) hlater hstuck
    refine ⟨?_, hnone⟩
    intro hworking
    rw [hworking] at hbuffering
    exact hbuffering

end MeowChain
