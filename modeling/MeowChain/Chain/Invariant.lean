import Mathlib.Data.List.Nodup
import MeowChain.Chain.History

/-!
# The invariant of the chain state

Known blocks lie between the head and the pruning horizon, parents one below their children, and
from the head down to the horizon (or to the root, the genesis block or the snapshot the chain was
anchored at) no parent is missing.
-/

set_option autoImplicit false

namespace MeowChain

variable {B S K : Type} {P : ChainPlatform B S K}

def Block.level (block : Block B S) : ℕ :=
  block.header.height.toNat

/-- Hashes tell the headers of `world` apart, and no chain of parents comes back to where it
started: `rank` grows from parent to child. -/
structure HashLinks (P : ChainPlatform B S K) (world : Set (Block B S)) (rank : Digest → ℕ) :
    Prop where
  header : ∀ b ∈ world, ∀ b' ∈ world, b.hash P = b'.hash P → b.header = b'.header
  link : ∀ b ∈ world, rank b.header.parentHash < rank (b.hash P)

namespace ChainState

variable {chain : ChainState P} {world : Set (Block B S)} {rank : Digest → ℕ} {root : Block B S}

def floor (chain : ChainState P) (root : Block B S) : ℕ :=
  max root.level (chain.headBlock.level - chain.snapshotDepth.toNat)

/-- What holds of a chain that grew from `root`. -/
structure Grown (world : Set (Block B S)) (rank : Digest → ℕ) (root : Block B S)
    (chain : ChainState P) : Prop where
  mem_world : ∀ (hash : Digest) (b : Block B S), chain.blocks[hash]? = some b → b ∈ world
  le_head : ∀ (hash : Digest) (b : Block B S), chain.blocks[hash]? = some b →
    b.level ≤ chain.headBlock.level
  floor_le : ∀ (hash : Digest) (b : Block B S), chain.blocks[hash]? = some b →
    chain.floor root ≤ b.level
  rank_le : ∀ (hash : Digest) (b : Block B S), chain.blocks[hash]? = some b →
    rank (root.hash P) ≤ rank hash
  parent : ∀ (hash : Digest) (b : Block B S), chain.blocks[hash]? = some b →
    b = root ∨ ∃ p ∈ world, p.hash P = b.header.parentHash ∧ b.level = p.level + 1
  closed : ∀ (hash : Digest) (b : Block B S), chain.blocks[hash]? = some b →
    chain.floor root < b.level → b.header.parentHash ∈ chain.blocks

theorem grown_single {store : Store B} {difficulty : ℕ} {depth : UInt64} (hroot : root ∈ world) :
    (single P root store difficulty depth).Grown world rank root := by
  have hentry : ∀ (hash : Digest) (b : Block B S),
      (single P root store difficulty depth).blocks[hash]? = some b →
        root.hash P = hash ∧ root = b := by
    intro hash b hb
    obtain hself | ⟨-, hempty⟩ := getElem?_insert_eq_some.mp hb
    · exact hself
    · simp at hempty
  have hhead : (single P root store difficulty depth).headBlock = root :=
    (hentry _ _ (getElem?_head _)).2.symm
  have hfloor : (single P root store difficulty depth).floor root = root.level := by
    unfold floor
    rw [hhead]
    omega
  refine ⟨?_, ?_, ?_, ?_, ?_, ?_⟩
  all_goals
    intro hash b hb
    obtain ⟨rfl, rfl⟩ := hentry hash b hb
  · exact hroot
  · rw [hhead]
  · rw [hfloor]
  · exact Nat.le_refl _
  · exact .inl rfl
  · rw [hfloor]
    exact fun hlt => absurd hlt (Nat.lt_irrefl _)

theorem Grown.level_eq (h : chain.Grown world rank root) (hlinks : HashLinks P world rank)
    {hash : Digest} {b q : Block B S} (hb : chain.blocks[hash]? = some b)
    (hq : chain.blocks[b.header.parentHash]? = some q) : b.level = q.level + 1 := by
  obtain rfl | ⟨p, hp, hhash, hlevel⟩ := h.parent hash b hb
  · -- Every known hash ranks at least as high as the root, its parent hash ranks lower.
    have hup := h.rank_le _ _ hq
    have hdown := hlinks.link b (h.mem_world hash b hb)
    omega
  · have hheader : p.header = q.header := by
      refine hlinks.header p hp q (h.mem_world _ _ hq) ?_
      rw [hhash, chain.hash_eq _ _ hq]
    rw [hlevel]
    exact congrArg (fun header : BlockHeader => header.height.toNat + 1) hheader

/-! ## Keeping blocks -/

theorem insertBlock_floor {block : Block B S} {store : Store B}
    (hunknown : block.hash P ∉ chain.blocks) :
    (chain.insertBlock block store).floor root = chain.floor root := by
  unfold floor
  rw [insertBlock_headBlock hunknown]
  rfl

theorem Grown.insertBlock (h : chain.Grown world rank root) (hlinks : HashLinks P world rank)
    {block parent : Block B S} {store : Store B} (hmem : block ∈ world)
    (hunknown : block.hash P ∉ chain.blocks)
    (hparent : chain.blocks[block.header.parentHash]? = some parent)
    (hlevel : block.level = parent.level + 1) (hlow : block.level ≤ chain.headBlock.level) :
    (chain.insertBlock block store).Grown world rank root := by
  have hhash : parent.hash P = block.header.parentHash := chain.hash_eq _ _ hparent
  refine ⟨?_, ?_, ?_, ?_, ?_, ?_⟩
  all_goals
    intro hash b hb
    obtain ⟨rfl, rfl⟩ | ⟨-, hold⟩ := getElem?_insert_eq_some.mp hb
  · exact hmem
  · exact h.mem_world hash b hold
  · rw [insertBlock_headBlock hunknown]
    exact hlow
  · rw [insertBlock_headBlock hunknown]
    exact h.le_head hash b hold
  · rw [insertBlock_floor hunknown]
    have := h.floor_le _ _ hparent
    omega
  · rw [insertBlock_floor hunknown]
    exact h.floor_le hash b hold
  · have hup := h.rank_le _ _ hparent
    have hlink := hlinks.link block hmem
    omega
  · exact h.rank_le hash b hold
  · exact .inr ⟨parent, h.mem_world _ _ hparent, hhash, hlevel⟩
  · exact h.parent hash b hold
  · exact fun _ => mem_insert_iff.mpr (.inr (mem_of_getElem? hparent))
  · rw [insertBlock_floor hunknown]
    exact fun hlt => mem_insert_iff.mpr (.inr (h.closed hash b hold hlt))

theorem horizon_iff {depth height other : UInt64} :
    (depth < height → height - depth ≤ other) ↔ height.toNat - depth.toNat ≤ other.toNat := by
  rw [UInt64.lt_iff_toNat_lt, UInt64.le_iff_toNat_le]
  by_cases hdepth : depth.toNat < height.toNat
  · rw [UInt64.toNat_sub_of_le _ _ (UInt64.le_iff_toNat_le.mpr hdepth.le)]
    exact ⟨fun h => h hdepth, fun h _ => h⟩
  · exact ⟨fun _ => by omega, fun _ h => absurd h hdepth⟩

theorem adopt_blocks_level {block other : Block B S} {store : Store B} {hash : Digest} :
    (chain.adopt block store).blocks[hash]? = some other ↔
      (chain.insertBlock block store).blocks[hash]? = some other ∧
        block.level - chain.snapshotDepth.toNat ≤ other.level := by
  rw [adopt_blocks, horizon_iff]
  rfl

theorem adopt_floor (block : Block B S) (store : Store B) :
    (chain.adopt block store).floor root =
      max root.level (block.level - chain.snapshotDepth.toNat) := by
  unfold floor
  rw [adopt_headBlock]
  rfl

theorem mem_adopt_blocks {block q : Block B S} {store : Store B} {hash : Digest}
    (hq : chain.blocks[hash]? = some q)
    (hhigh : block.level - chain.snapshotDepth.toNat ≤ q.level) :
    hash ∈ (chain.adopt block store).blocks := by
  by_cases hself : block.hash P = hash
  · refine mem_of_getElem? (adopt_blocks_level.mpr ⟨?_, Nat.sub_le _ _⟩)
    exact getElem?_insert_eq_some.mpr (.inl ⟨hself, rfl⟩)
  · refine mem_of_getElem? (adopt_blocks_level.mpr ⟨?_, hhigh⟩)
    exact getElem?_insert_eq_some.mpr (.inr ⟨hself, hq⟩)

theorem Grown.adopt (h : chain.Grown world rank root) (hlinks : HashLinks P world rank)
    {block parent : Block B S} {store : Store B} (hmem : block ∈ world)
    (hparent : chain.blocks[block.header.parentHash]? = some parent)
    (hlevel : block.level = parent.level + 1) (hhigh : chain.headBlock.level < block.level) :
    (chain.adopt block store).Grown world rank root := by
  have hhash : parent.hash P = block.header.parentHash := chain.hash_eq _ _ hparent
  have hparentFloor := h.floor_le _ _ hparent
  have hfloor : chain.floor root ≤ (chain.adopt block store).floor root := by
    rw [adopt_floor]
    unfold floor
    omega
  have hroot : root.level ≤ chain.floor root := Nat.le_max_left _ _
  -- A kept block is the new one or an old one, and above the new horizon.
  have hentry : ∀ (hash : Digest) (b : Block B S),
      (chain.adopt block store).blocks[hash]? = some b →
        (block.hash P = hash ∧ block = b ∨ chain.blocks[hash]? = some b) ∧
          block.level - chain.snapshotDepth.toNat ≤ b.level := by
    intro hash b hb
    obtain ⟨hinsert, hhorizon⟩ := adopt_blocks_level.mp hb
    refine ⟨?_, hhorizon⟩
    obtain hself | ⟨-, hold⟩ := getElem?_insert_eq_some.mp hinsert
    · exact .inl hself
    · exact .inr hold
  refine ⟨?_, ?_, ?_, ?_, ?_, ?_⟩
  all_goals
    intro hash b hb
    obtain ⟨⟨rfl, rfl⟩ | hold, hhorizon⟩ := hentry hash b hb
  · exact hmem
  · exact h.mem_world hash b hold
  · rw [adopt_headBlock]
  · rw [adopt_headBlock]
    have := h.le_head hash b hold
    omega
  · rw [adopt_floor]
    omega
  · rw [adopt_floor]
    have := h.floor_le hash b hold
    omega
  · have hup := h.rank_le _ _ hparent
    have hlink := hlinks.link block hmem
    omega
  · exact h.rank_le hash b hold
  · exact .inr ⟨parent, h.mem_world _ _ hparent, hhash, hlevel⟩
  · exact h.parent hash b hold
  · rw [adopt_floor]
    exact fun hlt => mem_adopt_blocks hparent (by omega)
  · intro hlt
    have hknown := h.closed hash b hold (by omega)
    obtain ⟨q, hq⟩ := exists_of_mem hknown
    have hq' := h.level_eq hlinks hold hq
    rw [adopt_floor] at hlt
    exact mem_adopt_blocks hq (by omega)

/-! ## The canonical chain -/

def heightsDown (low : ℕ) : ℕ → List ℕ
  | 0 => [low]
  | d + 1 => (low + d + 1) :: heightsDown low d

theorem le_of_mem_heightsDown {low d n : ℕ} (h : n ∈ heightsDown low d) : n ≤ low + d := by
  induction d with
  | zero => exact (List.mem_singleton.mp h).le
  | succ d ih =>
    rcases List.mem_cons.mp h with rfl | hrest
    · omega
    · have := ih hrest
      omega

theorem heightsDown_nodup (low d : ℕ) : (heightsDown low d).Nodup := by
  induction d with
  | zero => simp [heightsDown]
  | succ d ih =>
    refine List.nodup_cons.mpr ⟨fun hmem => ?_, ih⟩
    have := le_of_mem_heightsDown hmem
    omega

/-- From a known block the parents are known down to the floor, and no further. -/
theorem Grown.ancestors_level (h : chain.Grown world rank root) (hlinks : HashLinks P world rank)
    {hash : Digest} {b : Block B S} (hb : chain.blocks[hash]? = some b) {steps : ℕ}
    (hsteps : b.level - chain.floor root < steps) :
    (chain.ancestors steps hash).map Block.level =
      heightsDown (chain.floor root) (b.level - chain.floor root) := by
  have hfloor := h.floor_le hash b hb
  obtain ⟨steps, rfl⟩ : ∃ n, steps = n + 1 := ⟨steps - 1, by omega⟩
  have hunfold : chain.ancestors (steps + 1) hash =
      b :: chain.ancestors steps b.header.parentHash := by
    simp only [ancestors, hb]
  rw [hunfold, List.map_cons]
  induction hdist : b.level - chain.floor root generalizing b hash steps with
  | zero =>
    -- At the floor the parent is unknown: it would lie below the floor.
    have hunknown : chain.blocks[b.header.parentHash]? = none := by
      cases hq : chain.blocks[b.header.parentHash]? with
      | none => rfl
      | some q =>
        have hlevel := h.level_eq hlinks hb hq
        have hlow := h.floor_le _ _ hq
        omega
    have hend : chain.ancestors steps b.header.parentHash = [] := by
      cases steps with
      | zero => rfl
      | succ steps => simp only [ancestors, hunknown]
    rw [hend]
    exact congrArg (fun n => [n]) (by omega : b.level = chain.floor root)
  | succ d ih =>
    have hknown := h.closed hash b hb (by omega)
    obtain ⟨q, hq⟩ := exists_of_mem hknown
    have hlevel := h.level_eq hlinks hb hq
    obtain ⟨steps, rfl⟩ : ∃ n, steps = n + 1 := ⟨steps - 1, by omega⟩
    have hunfold' : chain.ancestors (steps + 1) b.header.parentHash =
        q :: chain.ancestors steps q.header.parentHash := by
      simp only [ancestors, hq]
    rw [hunfold', List.map_cons, ih hq (h.floor_le _ _ hq) steps (by omega) hunfold' (by omega)]
    exact congrArg (· :: heightsDown (chain.floor root) d) (by omega)

end ChainState

/-! ## Runs -/

section Runs

theorem level_eq_succ {block parent : Block B S}
    (h : block.header.height = parent.header.height + 1) (hne : block.header.height ≠ 0) :
    block.level = parent.level + 1 := by
  unfold Block.level
  rw [h, UInt64.toNat_add]
  have hlt := parent.header.height.toNat_lt
  have hne' : (parent.header.height + 1).toNat ≠ 0 := by
    rw [← h]
    exact fun hzero => hne (UInt64.toNat_inj.mp hzero)
  rw [UInt64.toNat_add] at hne'
  simp only [UInt64.reduceToNat] at hne' ⊢
  omega

variable {world : Set (Block B S)} {rank : Digest → ℕ} {root : Block B S}

def ChainState.IsStart (chain : ChainState P) : Prop :=
  (∃ store difficulty depth, chain = .new P store difficulty depth) ∨
    ∃ now height block store difficulty depth,
      ChainState.fromSnapshot P now height block store difficulty depth = .ok chain

theorem ChainState.IsStart.grown {chain : ChainState P} (h : chain.IsStart)
    (hroot : chain.headBlock ∈ world) : chain.Grown world rank chain.headBlock := by
  have hsingle : ∃ block store difficulty depth,
      chain = .single P block store difficulty depth := by
    obtain ⟨store, difficulty, depth, rfl⟩ | ⟨_, _, block, store, difficulty, depth, hchain⟩ := h
    · exact ⟨_, _, _, _, rfl⟩
    · obtain ⟨-, -, -, rfl⟩ := ChainState.fromSnapshot_eq_ok.mp hchain
      exact ⟨_, _, _, _, rfl⟩
  obtain ⟨block, store, difficulty, depth, rfl⟩ := hsingle
  have hhead : (ChainState.single P block store difficulty depth).headBlock = block := by
    obtain ⟨-, hblock⟩ | ⟨hne, -⟩ := getElem?_insert_eq_some.mp
      (ChainState.single P block store difficulty depth).getElem?_head
    · exact hblock.symm
    · exact absurd rfl hne
  rw [hhead] at hroot ⊢
  exact ChainState.grown_single hroot

variable [DecidableEq B]

/-- No block of height 0 is applied or committed: the height after the highest would be 0 again. -/
def Node.Climbs (node : Node P) : NodeEvent B S → Prop
  | .apply _ block => block.header.height ≠ 0
  | .finish round _ => ∀ work, node.rounds[round]? = some work → work.header.height ≠ 0
  | _ => True

/-- The chain of a node has grown from `root`, and every round started on a block of `world`. -/
structure Node.Grown (world : Set (Block B S)) (rank : Digest → ℕ) (root : Block B S)
    (node : Node P) : Prop where
  chain : node.miner.chain.Grown world rank root
  rounds : ∀ work ∈ node.rounds, work.minerAddress = P.keyAddress work.minerKeypair ∧
    ∃ parent ∈ world, work.header.parentHash = parent.hash P ∧
      work.header.height = parent.header.height + 1

def Node.Brings (node : Node P) (block : Block B S) : NodeEvent B S → Prop
  | .apply _ other => other = block
  | .finish round _ => ∃ work store, node.rounds[round]? = some work ∧
      work.grind P = .ok (some (block, store))
  | _ => False

omit [DecidableEq B] in
theorem Node.GrowsIn.mem_of_brings {node : Node P} {event : NodeEvent B S} {block : Block B S}
    (hgrows : node.GrowsIn world event) (hbrings : node.Brings block event) : block ∈ world := by
  cases event with
  | apply now other => exact hbrings ▸ hgrows
  | finish round now =>
    obtain ⟨work, store, hwork, hgrind⟩ := hbrings
    exact hgrows work block store hwork hgrind
  | submit signed => exact hbrings.elim
  | prepare now => exact hbrings.elim
  | replace now snapshot => exact hbrings.elim

/-- A child that an event may add to the chain is one level above its parent. -/
def Node.StepsUp (node : Node P) (event : NodeEvent B S) : Prop :=
  ∀ block parent, node.Brings block event →
    node.miner.chain.blocks[block.header.parentHash]? = some parent →
    block.header.height = parent.header.height + 1 → block.level = parent.level + 1

theorem Node.Grown.stepsUp (hP : P.Lawful) {node : Node P} {event : NodeEvent B S}
    (h : node.Grown world rank root) (hclimbs : node.Climbs event) : node.StepsUp event := by
  intro block parent hbrings _ hheight
  refine level_eq_succ hheight ?_
  cases event with
  | apply now other => exact hbrings ▸ hclimbs
  | finish round now =>
    obtain ⟨work, store, hwork, hgrind⟩ := hbrings
    have hmines := MiningWork.mines_of_grind hP (h.rounds work (List.mem_of_getElem? hwork)).1 hgrind
    rw [hmines.height]
    exact hclimbs work hwork
  | submit signed => exact hbrings.elim
  | prepare now => exact hbrings.elim
  | replace now snapshot => exact hbrings.elim

theorem Node.Grown.level_mined (hP : P.Lawful) (hlinks : HashLinks P world rank) {node : Node P}
    (h : node.Grown world rank root) {round : ℕ} {now : UInt64} {work : MiningWork B S K}
    {block : Block B S} {store : Store B} (hwork : node.rounds[round]? = some work)
    (hgrind : work.grind P = .ok (some (block, store)))
    (hfresh : block.header.parentHash = node.miner.chain.head)
    (hup : node.StepsUp (.finish round now)) :
    block.level = node.miner.chain.headBlock.level + 1 := by
  obtain ⟨hkey, parent, hparent, hhash, hheight⟩ := h.rounds work (List.mem_of_getElem? hwork)
  have hmines := MiningWork.mines_of_grind hP hkey hgrind
  have hheader : parent.header = node.miner.chain.headBlock.header := by
    refine hlinks.header parent hparent _ (h.chain.mem_world _ _ node.miner.chain.getElem?_head) ?_
    rw [← hhash, ← hmines.parentHash, hfresh, node.miner.chain.headBlock_hash]
  refine hup block _ ⟨work, store, hwork, hgrind⟩ (hfresh ▸ node.miner.chain.getElem?_head) ?_
  rw [hmines.height, hheight, hheader]

theorem Node.Grown.moves (hP : P.Lawful) (hlinks : HashLinks P world rank) {node node' : Node P}
    {event : NodeEvent B S} (h : node.Grown world rank root) (hgrows : node.GrowsIn world event)
    (hup : node.StepsUp event) (hmoves : Node.Moves node event node') :
    node'.Grown world rank root := by
  cases hmoves with
  | idle => exact h
  | submit => exact ⟨h.chain, h.rounds⟩
  | prepare hprepare =>
    obtain ⟨hwork, rfl⟩ := Miner.prepareRound_eq_some hprepare
    refine ⟨h.chain, ?_⟩
    intro work hmem
    rcases List.mem_append.mp hmem with hold | hnew
    · exact h.rounds work hold
    · obtain rfl := List.mem_singleton.mp hnew
      exact ⟨hwork.minerAddress, _, h.chain.mem_world _ _ node.miner.chain.getElem?_head,
        hwork.parentHash.trans node.miner.chain.headBlock_hash.symm, hwork.height⟩
  | discard => exact ⟨h.chain, fun work hmem => h.rounds work (List.mem_of_mem_eraseIdx hmem)⟩
  | stale => exact ⟨h.chain, fun work hmem => h.rounds work (List.mem_of_mem_eraseIdx hmem)⟩
  | commit hwork hgrind hfresh hstructured =>
    refine ⟨?_, fun work hmem => h.rounds work (List.mem_of_mem_eraseIdx hmem)⟩
    have hlevel := h.level_mined hP hlinks hwork hgrind hfresh hup
    exact h.chain.adopt hlinks (hgrows _ _ _ hwork hgrind)
      (hfresh ▸ node.miner.chain.getElem?_head) hlevel (by omega)
  | store haccepts hlow =>
    refine ⟨?_, h.rounds⟩
    exact h.chain.insertBlock hlinks hgrows haccepts.unknown haccepts.parent_known
      (hup _ _ rfl haccepts.parent_known haccepts.extends_parent.height)
      (UInt64.le_iff_toNat_le.mp hlow)
  | adopt haccepts hhigh =>
    refine ⟨?_, h.rounds⟩
    exact h.chain.adopt hlinks hgrows haccepts.parent_known
      (hup _ _ rfl haccepts.parent_known haccepts.extends_parent.height)
      (UInt64.lt_iff_toNat_lt.mp hhigh)
  | replace => exact hgrows.elim

theorem Node.Grown.head_le (hP : P.Lawful) (hlinks : HashLinks P world rank)
    {node node' : Node P} {event : NodeEvent B S} (h : node.Grown world rank root)
    (hgrows : node.GrowsIn world event) (hup : node.StepsUp event)
    (hmoves : Node.Moves node event node') :
    node.miner.chain.headBlock.level ≤ node'.miner.chain.headBlock.level := by
  cases hmoves with
  | idle => exact Nat.le_refl _
  | submit => exact Nat.le_refl _
  | prepare hprepare =>
    obtain ⟨-, rfl⟩ := Miner.prepareRound_eq_some hprepare
    exact Nat.le_refl _
  | discard => exact Nat.le_refl _
  | stale => exact Nat.le_refl _
  | commit hwork hgrind hfresh =>
    have hlevel := h.level_mined hP hlinks hwork hgrind hfresh hup
    show _ ≤ (node.miner.chain.adopt _ _).headBlock.level
    rw [ChainState.adopt_headBlock]
    omega
  | store haccepts =>
    show _ ≤ (node.miner.chain.insertBlock _ _).headBlock.level
    rw [ChainState.insertBlock_headBlock haccepts.unknown]
  | adopt haccepts hhigh =>
    show _ ≤ (node.miner.chain.adopt _ _).headBlock.level
    rw [ChainState.adopt_headBlock]
    exact (UInt64.lt_iff_toNat_lt.mp hhigh).le
  | replace => exact hgrows.elim

/-- A run without snapshots on blocks of `world`, in which no height overflows. -/
abbrev Node.Grows (world : Set (Block B S)) : Node P → Node P → Prop :=
  Node.Run fun node event => node.GrowsIn world event ∧ node.Climbs event

theorem Node.Grown.run (hP : P.Lawful) (hlinks : HashLinks P world rank) {node node' : Node P}
    (hrun : Node.Grows world node node') (h : node.Grown world rank root) :
    node'.Grown world rank root ∧
      node.miner.chain.headBlock.level ≤ node'.miner.chain.headBlock.level := by
  refine Node.Run.invariant (I := fun node' => node'.Grown world rank root ∧
    node.miner.chain.headBlock.level ≤ node'.miner.chain.headBlock.level) ?_ hrun
    ⟨h, Nat.le_refl _⟩
  intro _ _ _ hnode hallowed hmoves
  have hup := hnode.1.stepsUp hP hallowed.2
  exact ⟨hnode.1.moves hP hlinks hallowed.1 hup hmoves,
    hnode.2.trans (hnode.1.head_le hP hlinks hallowed.1 hup hmoves)⟩

/-- In every reached state: blocks and snapshots have the same keys, each the hash of its block; no
block is higher than the head or further below it than the snapshot depth; a child is one above its
parent; the canonical chain goes down to the floor without a gap, ends there and has no block
twice; and the head never gets lower. -/
theorem chain_invariant (hP : P.Lawful) (hlinks : HashLinks P world rank) {chain : ChainState P}
    (hstart : chain.IsStart) (hroot : chain.headBlock ∈ world) {keypair : K}
    {rewardAddress : Address} {batchSize : ℕ} {node : Node P}
    (hrun : Node.Grows world (Node.start chain keypair rewardAddress batchSize) node) :
    (∀ hash, hash ∈ node.miner.chain.blocks ↔ hash ∈ node.miner.chain.snapshots) ∧
    (∀ (hash : Digest) (block : Block B S), node.miner.chain.blocks[hash]? = some block →
      block.hash P = hash ∧ block.level ≤ node.miner.chain.headBlock.level ∧
        node.miner.chain.headBlock.level - node.miner.chain.snapshotDepth.toNat ≤ block.level ∧
        ∀ parent, node.miner.chain.blocks[block.header.parentHash]? = some parent →
          block.level = parent.level + 1) ∧
    node.miner.chain.head ∈ node.miner.chain.blocks ∧
    (∀ steps, node.miner.chain.headBlock.level < steps →
      (node.miner.chain.ancestors steps node.miner.chain.head).map Block.level =
        ChainState.heightsDown (node.miner.chain.floor chain.headBlock)
          (node.miner.chain.headBlock.level - node.miner.chain.floor chain.headBlock) ∧
      (node.miner.chain.ancestors steps node.miner.chain.head).Nodup) ∧
    ∀ later, Node.Grows world node later →
      node.miner.chain.headBlock.level ≤ later.miner.chain.headBlock.level := by
  have hgrown : (Node.start chain keypair rewardAddress batchSize).Grown world rank
      chain.headBlock := ⟨hstart.grown hroot, by simp [Node.start]⟩
  have hnode := (hgrown.run hP hlinks hrun).1
  refine ⟨node.miner.chain.mem_snapshots, ?_, node.miner.chain.head_mem, ?_, ?_⟩
  · intro hash block hblock
    have hfloor := hnode.chain.floor_le hash block hblock
    exact ⟨node.miner.chain.hash_eq _ _ hblock, hnode.chain.le_head _ _ hblock,
      (Nat.le_max_right _ _).trans hfloor, fun parent => hnode.chain.level_eq hlinks hblock⟩
  · intro steps hsteps
    have hlevels := hnode.chain.ancestors_level hlinks node.miner.chain.getElem?_head
      (show _ < steps by omega)
    refine ⟨hlevels, List.Nodup.of_map Block.level ?_⟩
    rw [hlevels]
    exact ChainState.heightsDown_nodup _ _
  · exact fun later hlater => (hnode.run hP hlinks hlater).2

end Runs

/-! ## The small chain, and one at the highest height -/

namespace Sample

def firstRank (hash : Digest) : ℕ :=
  if hash = 0 then 0
  else if hash = Block.hash chainPlatform (.genesis : Block Bytes (Address × Digest)) then 1
  else 2

theorem firstBlocks_hashLinks :
    HashLinks chainPlatform { block | block ∈ firstBlocks } firstRank where
  header := firstBlocks_collisionFree.header
  link := show ∀ b ∈ firstBlocks, _ by decide +kernel

def climbs (node : Node chainPlatform) : NodeEvent Bytes (Address × Digest) → Bool
  | .apply _ block => decide (block.header.height ≠ 0)
  | .finish round _ => node.rounds[round]?.all fun work => decide (work.header.height ≠ 0)
  | _ => true

theorem climbs_sound (node : Node chainPlatform) (event : NodeEvent Bytes (Address × Digest))
    (h : climbs node event = true) : node.Climbs event := by
  cases event with
  | apply now block => exact of_decide_eq_true (p := block.header.height ≠ 0) h
  | finish round now =>
    intro work hwork
    simp only [climbs, hwork, Option.all_some] at h
    exact of_decide_eq_true h
  | replace now snapshot => trivial
  | submit signed => trivial
  | prepare now => trivial

/-- A block of the highest height with the state of the genesis store. -/
def topBlock : Block Bytes (Address × Digest) where
  header := {
    height := UInt64.ofNat u64Max
    parentHash := 5
    transactionsRoot := computeTransactionsRoot chainPlatform [failingSigned 8]
    rewardRoot := none
    stateRoot := computeStateRoot chainPlatform genesisStore
    timestamp := 0
    nonce := 0 }
  transactions := [failingSigned 8]
  results := [.failure "spent" 0]
  rewardTransaction := none
  rewardTransactionResult := none

end Sample

open Sample in
theorem chain_invariant_mined :
    ∃ node : Node chainPlatform, node.miner.chain.headBlock.level = 1 ∧
      (node.miner.chain.ancestors 2 node.miner.chain.head).map Block.level =
        ChainState.heightsDown (node.miner.chain.floor genesisChain.headBlock)
          (1 - node.miner.chain.floor genesisChain.headBlock) := by
  obtain ⟨node, hnode, hlevel⟩ := Outcome.exists_of_isOkAnd
    (x := startNode.handleAll (fun node event => growsIn firstBlocks node event && climbs node event)
      [.submit (failingSigned 8), .prepare 5, .finish 0 5])
    (p := fun node : Node chainPlatform => decide (node.miner.chain.headBlock.level = 1))
    (by decide +kernel)
  have hlevel := of_decide_eq_true hlevel
  have hrun : Node.Grows { block | block ∈ firstBlocks } startNode node :=
    Node.run_of_handleAll (fun node event h => by
      rw [Bool.and_eq_true] at h
      exact ⟨growsIn_sound node event h.1, climbs_sound node event h.2⟩) hnode
  have hancestors := (chain_invariant chainPlatform_lawful firstBlocks_hashLinks
    (.inl ⟨genesisStore, 0, 10, rfl⟩) (by decide +kernel) hrun).2.2.2.1 2 (by omega)
  rw [hlevel] at hancestors
  exact ⟨node, hlevel, hancestors.1⟩

open Sample in
/-- Above a snapshot at the highest height a block of height 0 is mined and becomes the head. -/
theorem chain_invariant_fails :
    ∃ (chain : ChainState chainPlatform) (node : Node chainPlatform),
      ChainState.fromSnapshot chainPlatform 0 0 topBlock genesisStore 0 10 = .ok chain ∧
      Node.Run (fun _ _ => True) (Node.start chain 77 78 1) node ∧
      node.miner.chain.headBlock.level < chain.headBlock.level := by
  obtain ⟨chain, hchain, hp⟩ := okHolds_exists
    (x := ChainState.fromSnapshot chainPlatform 0 0 topBlock genesisStore 0 10)
    (p := fun chain => ((Node.start chain 77 78 1).handleAll (fun _ _ => true)
      [.submit (failingSigned 9), .prepare 5, .finish 0 5]).isOkAnd fun node : Node chainPlatform =>
        decide (node.miner.chain.headBlock.level < chain.headBlock.level)) (by decide +kernel)
  obtain ⟨node, hnode, hlower⟩ := Outcome.exists_of_isOkAnd hp
  exact ⟨chain, node, hchain, Node.run_of_handleAll (fun _ _ _ => trivial) hnode,
    of_decide_eq_true hlower⟩

end MeowChain
