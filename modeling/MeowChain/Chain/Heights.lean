import MeowChain.Chain.Agreement

/-!
# Block heights

Heights are 64-bit numbers that grow by one with every block. Only a snapshot sets the height of a
chain to a number that a peer chose; the checks of a snapshot bound it from below but not from above.
-/

set_option autoImplicit false

namespace MeowChain

variable {B S K : Type} {P : ChainPlatform B S K}

/-! ## The additions -/

/-- The height additions a chain can be asked for: `parent_height + 1` in `apply_block` for every
known block, `head_height() + 1` in `prepare_round` and in the gossip service, and
`local_height + snapshot_depth` in the gossip service. -/
def ChainState.heightSums (chain : ChainState P) : List (UInt64 × UInt64) :=
  (chain.headHeight, 1) :: (chain.headHeight, chain.snapshotDepth) ::
    chain.blocks.toList.map fun entry => (entry.2.header.height, 1)

def ChainState.HeightsFit (chain : ChainState P) : Prop :=
  ∀ sum ∈ chain.heightSums, sum.1.toNat + sum.2.toNat < 2 ^ 64

instance (chain : ChainState P) : Decidable chain.HeightsFit :=
  inferInstanceAs (Decidable (∀ sum ∈ chain.heightSums, _))

/-- A head of this height leaves room for the next block and for the gap of a state sync. -/
def RoomAbove (depth height : UInt64) : Prop :=
  height.toNat + max 1 depth.toNat < 2 ^ 64

theorem ChainState.heightsFit_iff {chain : ChainState P} :
    chain.HeightsFit ↔ RoomAbove chain.snapshotDepth chain.headHeight ∧
      ∀ (hash : Digest) (block : Block B S), chain.blocks[hash]? = some block →
        block.header.height.toNat + 1 < 2 ^ 64 := by
  unfold HeightsFit heightSums RoomAbove
  simp only [List.forall_mem_cons, List.forall_mem_map, UInt64.toNat_one, Prod.forall,
    Std.ExtTreeMap.mem_toList_iff_getElem?_eq_some]
  constructor
  · rintro ⟨hnext, hgap, hknown⟩
    exact ⟨by omega, hknown⟩
  · rintro ⟨hroom, hknown⟩
    exact ⟨by omega, by omega, hknown⟩

/-! ## Steps -/

theorem ChainState.heightsFit_single {block : Block B S} {store : Store B} {difficulty : ℕ}
    {depth : UInt64} :
    (ChainState.single P block store difficulty depth).HeightsFit ↔
      RoomAbove depth block.header.height := by
  set chain := ChainState.single P block store difficulty depth
  have honly : ∀ (hash : Digest) (other : Block B S), chain.blocks[hash]? = some other →
      other = block := by
    intro hash other hother
    obtain ⟨-, rfl⟩ | ⟨-, hempty⟩ := getElem?_insert_eq_some.mp hother
    · rfl
    · simp at hempty
  have hhead : chain.headHeight = block.header.height :=
    congrArg (·.header.height) (honly _ _ chain.getElem?_head)
  rw [heightsFit_iff, hhead]
  refine and_iff_left_of_imp fun hroom hash other hother => ?_
  rw [honly hash other hother]
  unfold RoomAbove at hroom
  omega

theorem ChainState.HeightsFit.adopt {chain : ChainState P} (h : chain.HeightsFit)
    {block : Block B S} {store : Store B} :
    (chain.adopt block store).HeightsFit ↔
      RoomAbove chain.snapshotDepth block.header.height := by
  have hhead : (chain.adopt block store).headHeight = block.header.height :=
    congrArg (·.header.height) (chain.adopt_headBlock block store)
  rw [heightsFit_iff, hhead]
  refine and_iff_left_of_imp fun hroom hash other hother => ?_
  obtain ⟨-, rfl⟩ | ⟨-, hold⟩ := getElem?_insert_eq_some.mp (chain.adopt_blocks.mp hother).1
  · change RoomAbove chain.snapshotDepth block.header.height at hroom
    unfold RoomAbove at hroom
    omega
  · exact (heightsFit_iff.mp h).2 hash other hold

theorem ChainState.HeightsFit.insertBlock {chain : ChainState P} (h : chain.HeightsFit)
    {block : Block B S} {store : Store B} (hunknown : block.hash P ∉ chain.blocks)
    (hlow : block.header.height ≤ chain.headHeight) :
    (chain.insertBlock block store).HeightsFit := by
  obtain ⟨hroom, hknown⟩ := heightsFit_iff.mp h
  refine heightsFit_iff.mpr ⟨?_, fun hash other hother => ?_⟩
  · show RoomAbove chain.snapshotDepth (chain.insertBlock block store).headBlock.header.height
    rwa [insertBlock_headBlock hunknown]
  · obtain ⟨-, rfl⟩ | ⟨-, hold⟩ := getElem?_insert_eq_some.mp hother
    · have hle := UInt64.le_iff_toNat_le.mp hlow
      unfold RoomAbove at hroom
      omega
    · exact hknown hash other hold

theorem heightsFit_new (initialStore : Store B) (difficulty : ℕ) (depth : UInt64) :
    (ChainState.new P initialStore difficulty depth).HeightsFit := by
  refine ChainState.heightsFit_single.mpr ?_
  have hdepth := depth.toNat_lt
  show 0 + max 1 depth.toNat < 2 ^ 64
  omega

/-! ## Runs -/

/-- What raises the head leaves room above it: the block given to `apply_block`, the block given to
`commit_mined` and the block of a snapshot are not too close to 2^64. -/
def Node.RoomAbove (node : Node P) : NodeEvent B S → Prop
  | .apply _ block => node.miner.chain.headHeight < block.header.height →
      MeowChain.RoomAbove node.miner.chain.snapshotDepth block.header.height
  | .finish round _ => ∀ work block store, node.rounds[round]? = some work →
      work.grind P = .ok (some (block, store)) →
      block.header.parentHash = node.miner.chain.head →
      MeowChain.RoomAbove node.miner.chain.snapshotDepth block.header.height
  | .replace _ snapshot =>
      MeowChain.RoomAbove node.miner.chain.snapshotDepth snapshot.head.header.height
  | _ => True

theorem Node.heightsFit_finishRound {node node' : Node P} {round : ℕ} {now : UInt64}
    {work : MiningWork B S K} (hfit : node.miner.chain.HeightsFit)
    (hwork : node.rounds[round]? = some work)
    (h : node.finishRound work (node.rounds.eraseIdx round) now = .ok node') :
    node'.miner.chain.HeightsFit ↔ node.RoomAbove (.finish round now) := by
  obtain ⟨mined, hgrind, h⟩ := Outcome.bind_eq_ok.mp h
  cases mined with
  | none =>
    cases h
    refine iff_of_true hfit fun other block store hother hmined _ => ?_
    obtain rfl := Option.some.inj (hwork.symm.trans hother)
    cases hgrind.symm.trans hmined
  | some mined =>
    obtain ⟨block, store⟩ := mined
    obtain ⟨⟨miner, flag⟩, hcommit, rfl⟩ := Outcome.map_eq_ok.mp h
    have honly : node.RoomAbove (.finish round now) ↔
        (block.header.parentHash = node.miner.chain.head →
          MeowChain.RoomAbove node.miner.chain.snapshotDepth block.header.height) := by
      constructor
      · exact fun hroom => hroom work block store hwork hgrind
      · intro hroom other _ _ hother hmined
        obtain rfl := Option.some.inj (hwork.symm.trans hother)
        cases hgrind.symm.trans hmined
        exact hroom
    rw [honly]
    unfold Miner.commitMined at hcommit
    split_ifs at hcommit with hhead
    · cases hcommit
      exact iff_of_true hfit fun hfresh => absurd hfresh hhead
    · obtain ⟨chain, hchain, hminer⟩ := Outcome.map_eq_ok.mp hcommit
      cases hminer
      obtain ⟨-, rfl⟩ := ChainState.commit_eq_ok.mp hchain
      exact hfit.adopt.trans (imp_iff_right (not_not.mp hhead)).symm

variable [DecidableEq B]

/-- A step from a state without overflows leads to one exactly if it leaves room above the head. -/
theorem Node.heightsFit_handle {node node' : Node P} {event : NodeEvent B S}
    (hfit : node.miner.chain.HeightsFit) (h : node.handle event = .ok node') :
    node'.miner.chain.HeightsFit ↔ node.RoomAbove event := by
  cases event with
  | submit signed =>
    refine iff_of_true ?_ trivial
    cases moves_of_handle h <;> exact hfit
  | prepare now =>
    refine iff_of_true ?_ trivial
    cases moves_of_handle h with
    | idle => exact hfit
    | prepare hprepare =>
      obtain ⟨-, rfl⟩ := Miner.prepareRound_eq_some hprepare
      exact hfit
  | finish round now =>
    simp only [handle] at h
    cases hwork : node.rounds[round]? with
    | none =>
      rw [hwork] at h
      cases h
      refine iff_of_true hfit fun work _ _ hsome => ?_
      cases hwork.symm.trans hsome
    | some work =>
      rw [hwork] at h
      exact heightsFit_finishRound hfit hwork (Outcome.mapErr_eq_ok.mp h)
  | apply now block =>
    obtain ⟨⟨miner, flag⟩, happly, rfl⟩ := Outcome.map_eq_ok.mp h
    obtain ⟨⟨chain, switched⟩, hchain, hminer⟩ := Outcome.map_eq_ok.mp happly
    obtain ⟨parent, parentStore, store, haccepts, hkeep⟩ :=
      ChainState.applyBlock_eq_ok.mp (Outcome.mapErr_eq_ok.mp hchain)
    unfold ChainState.keep at hkeep
    split_ifs at hkeep with hhigh
    · cases hkeep
      cases hminer
      exact hfit.adopt.trans (imp_iff_right hhigh).symm
    · cases hkeep
      cases hminer
      exact iff_of_true (hfit.insertBlock haccepts.unknown (UInt64.not_lt.mp hhigh))
        fun habove => absurd habove hhigh
  | replace now snapshot =>
    unfold handle Miner.replaceFromSnapshot at h
    cases hchain : ChainState.fromSnapshot P now node.miner.chain.headHeight snapshot.head
        (Store.withObjects snapshot.objects) node.miner.chain.difficulty
        node.miner.chain.snapshotDepth with
    | error e => simp [hchain] at h
    | ok chain =>
      simp only [hchain, Outcome.ok.injEq] at h
      obtain ⟨-, -, -, rfl⟩ := ChainState.fromSnapshot_eq_ok.mp hchain
      exact h ▸ ChainState.heightsFit_single

/-- As long as what raises the head leaves room above it no addition on heights overflows, and the
first step that leaves none leads to an overflow. -/
theorem heights_fit {initialStore : Store B} {difficulty : ℕ} {depth : UInt64} {keypair : K}
    {rewardAddress : Address} {batchSize : ℕ} {node : Node P}
    (hrun : Node.Run Node.RoomAbove
      (.start (.new P initialStore difficulty depth) keypair rewardAddress batchSize) node) :
    node.miner.chain.HeightsFit ∧
      ∀ event node', node.handle event = .ok node' →
        (node'.miner.chain.HeightsFit ↔ node.RoomAbove event) := by
  have hfit : node.miner.chain.HeightsFit := by
    refine EventRun.invariant (I := fun node : Node P => node.miner.chain.HeightsFit) ?_ hrun
      (heightsFit_new initialStore difficulty depth)
    intro node node' event hfit hroom h
    exact (Node.heightsFit_handle hfit h).mpr hroom
  exact ⟨hfit, fun event node' => Node.heightsFit_handle hfit⟩

open Sample in
theorem heights_fit_first :
    ∃ node : Node chainPlatform, node.miner.chain.headHeight = 1 ∧
      node.miner.chain.HeightsFit := by
  obtain ⟨block, -, hp⟩ := (Option.any_eq_true (fun block : Block Bytes (Address × Digest) =>
    decide (block.header.height = 1) &&
      (startNode.handle (.apply 5 block)).isOkAnd fun node : Node chainPlatform =>
        decide (node.miner.chain.headHeight = 1)) (peerBlock 5)).mp (by decide +kernel)
  rw [Bool.and_eq_true, decide_eq_true_eq] at hp
  obtain ⟨node, hnode, hheight⟩ := Outcome.exists_of_isOkAnd hp.2
  refine ⟨node, of_decide_eq_true hheight, (heights_fit (.single ⟨.apply 5 block, ?_, hnode⟩)).1⟩
  intro _
  rw [hp.1]
  show (1 : ℕ) + max 1 10 < 2 ^ 64
  decide

namespace Sample

/-- A peer's snapshot of the small chain, with the largest height there is. -/
def tallSnapshot : Option (StateSnapshot Bytes (Address × Digest)) :=
  (peerBlock 5).map fun block => {
    head := { block with header := {
      block.header with
      height := UInt64.ofNat (2 ^ 64 - 1)
      stateRoot := computeStateRoot chainPlatform genesisStore } }
    objects := genesisStore.objects }

end Sample

open Sample in
/-- A node that has just started takes over the snapshot: `head_height() + 1` overflows. -/
theorem heights_fit_fails :
    ∃ node : Node chainPlatform, Node.Run (fun _ _ => True) startNode node ∧
      node.miner.chain.headHeight.toNat + 1 = 2 ^ 64 ∧ ¬ node.miner.chain.HeightsFit := by
  obtain ⟨snapshot, -, hp⟩ := (Option.any_eq_true (fun snapshot =>
    (startNode.handle (.replace 5 snapshot)).isOkAnd fun node : Node chainPlatform =>
      decide (node.miner.chain.headHeight.toNat + 1 = 2 ^ 64)) tallSnapshot).mp (by decide +kernel)
  obtain ⟨node, hnode, hheight⟩ := Outcome.exists_of_isOkAnd hp
  have htop := of_decide_eq_true hheight
  refine ⟨node, .single ⟨_, trivial, hnode⟩, htop, fun hfit => ?_⟩
  have hnext : node.miner.chain.headHeight.toNat + 1 < 2 ^ 64 := hfit _ List.mem_cons_self
  omega

end MeowChain
