import MeowChain.Chain.Acceptance
import MeowChain.Lib.Run

/-!
# A node

The tasks of a node share one miner: transactions and blocks arrive, rounds of mining start and
end, a snapshot replaces the chain. Every call of the miner is one step; a round in progress holds
its batch outside of the miner.
-/

set_option autoImplicit false

namespace MeowChain

variable {B S K : Type}

structure Node (P : ChainPlatform B S K) where
  miner : Miner P
  rounds : List (MiningWork B S K)

/-- What happens to a node, with the clock readings it takes. -/
inductive NodeEvent (B S : Type) where
  | submit (signed : SignedTransaction B S)
  | prepare (now : UInt64)
  | finish (round : ℕ) (now : UInt64)
  | apply (now : UInt64) (block : Block B S)
  | replace (now : UInt64) (snapshot : StateSnapshot B S)

namespace Node

variable {P : ChainPlatform B S K} [DecidableEq B]

/-- `MinerService::run` after `grind`: a mined block is committed. -/
def finishRound (node : Node P) (work : MiningWork B S K) (rounds : List (MiningWork B S K))
    (now : UInt64) : Outcome Empty (Node P) :=
  (work.grind P).bind fun mined =>
  match mined with
  | none => .ok { node with rounds }
  | some (block, store) =>
    (node.miner.commitMined now block store).map fun committed => { miner := committed.1, rounds }

def handle (node : Node P) : NodeEvent B S → Outcome MinerError (Node P)
  | .submit signed =>
    match node.miner.submitTransaction signed with
    | .ok miner => .ok { node with miner }
    | .error e => .err e
  | .prepare now =>
    match node.miner.prepareRound now with
    | (none, _) => .ok node
    | (some work, miner) => .ok { miner, rounds := node.rounds ++ [work] }
  | .finish round now =>
    match node.rounds[round]? with
    | none => .ok node
    | some work => (node.finishRound work (node.rounds.eraseIdx round) now).mapErr Empty.elim
  | .apply now block =>
    (node.miner.applyBlock now block).map fun applied => { node with miner := applied.1 }
  | .replace now snapshot =>
    match node.miner.replaceFromSnapshot now snapshot with
    | .ok miner => .ok { node with miner }
    | .error e => .err e

/-- All that an event can do to a node; one that is refused leaves it as it is. -/
inductive Moves : Node P → NodeEvent B S → Node P → Prop where
  | idle (node : Node P) (event : NodeEvent B S) : Moves node event node
  | submit {node : Node P} {signed : SignedTransaction B S} {pool : Mempool B S}
      (hpool : node.miner.mempool.submit P signed node.miner.chain.headStore = .ok pool) :
      Moves node (.submit signed) { node with miner := { node.miner with mempool := pool } }
  | prepare {node : Node P} {now : UInt64} {work : MiningWork B S K} {miner : Miner P}
      (hprepare : node.miner.prepareRound now = (some work, miner)) :
      Moves node (.prepare now) { miner, rounds := node.rounds ++ [work] }
  | discard {node : Node P} {round : ℕ} {now : UInt64} {work : MiningWork B S K}
      (hwork : node.rounds[round]? = some work) (hgrind : work.grind P = .ok none) :
      Moves node (.finish round now) { node with rounds := node.rounds.eraseIdx round }
  | stale {node : Node P} {round : ℕ} {now : UInt64} {work : MiningWork B S K} {block : Block B S}
      {store : Store B} (hwork : node.rounds[round]? = some work)
      (hgrind : work.grind P = .ok (some (block, store)))
      (hstale : block.header.parentHash ≠ node.miner.chain.head) :
      Moves node (.finish round now) { node with rounds := node.rounds.eraseIdx round }
  | commit {node : Node P} {round : ℕ} {now : UInt64} {work : MiningWork B S K} {block : Block B S}
      {store : Store B} (hwork : node.rounds[round]? = some work)
      (hgrind : work.grind P = .ok (some (block, store)))
      (hfresh : block.header.parentHash = node.miner.chain.head)
      (hstructured : block.WellStructured P now node.miner.chain.difficulty) :
      Moves node (.finish round now) {
        miner := { node.miner with chain := node.miner.chain.adopt block store }
        rounds := node.rounds.eraseIdx round }
  | store {node : Node P} {now : UInt64} {block parent : Block B S} {parentStore store : Store B}
      (haccepts : node.miner.chain.Accepts now block parent parentStore store)
      (hlow : block.header.height ≤ node.miner.chain.headHeight) :
      Moves node (.apply now block) { node with
        miner := { node.miner with chain := node.miner.chain.insertBlock block store } }
  | adopt {node : Node P} {now : UInt64} {block parent : Block B S} {parentStore store : Store B}
      (haccepts : node.miner.chain.Accepts now block parent parentStore store)
      (hhigh : node.miner.chain.headHeight < block.header.height) :
      Moves node (.apply now block) { node with
        miner := { node.miner with
          chain := node.miner.chain.adopt block store
          mempool := node.miner.mempool.retainValid P
            (node.miner.chain.adopt block store).headStore } }
  | replace {node : Node P} {now : UInt64} {snapshot : StateSnapshot B S} {chain : ChainState P}
      (hchain : ChainState.fromSnapshot P now node.miner.chain.headHeight snapshot.head
        (Store.withObjects snapshot.objects) node.miner.chain.difficulty
        node.miner.chain.snapshotDepth = .ok chain) :
      Moves node (.replace now snapshot) { node with
        miner := { node.miner with chain, mempool := .empty } }

theorem moves_of_finishRound {node node' : Node P} {round : ℕ} {now : UInt64}
    {work : MiningWork B S K} (hwork : node.rounds[round]? = some work)
    (h : node.finishRound work (node.rounds.eraseIdx round) now = .ok node') :
    Moves node (.finish round now) node' := by
  obtain ⟨mined, hgrind, h⟩ := Outcome.bind_eq_ok.mp h
  cases mined with
  | none =>
    cases h
    exact .discard hwork hgrind
  | some mined =>
    obtain ⟨block, store⟩ := mined
    obtain ⟨⟨miner, flag⟩, hcommit, rfl⟩ := Outcome.map_eq_ok.mp h
    unfold Miner.commitMined at hcommit
    split_ifs at hcommit with hhead
    · cases hcommit
      exact .stale hwork hgrind hhead
    · obtain ⟨chain, hchain, hminer⟩ := Outcome.map_eq_ok.mp hcommit
      cases hminer
      obtain ⟨hstructured, rfl⟩ := ChainState.commit_eq_ok.mp hchain
      exact .commit hwork hgrind (not_not.mp hhead) hstructured

theorem moves_of_applyBlock {node : Node P} {now : UInt64} {block : Block B S} {miner : Miner P}
    {flag : Bool} (h : node.miner.applyBlock now block = .ok (miner, flag)) :
    Moves node (.apply now block) { node with miner } := by
  obtain ⟨⟨chain, switched⟩, hchain, hminer⟩ := Outcome.map_eq_ok.mp h
  obtain ⟨parent, parentStore, store, haccepts, hkeep⟩ :=
    ChainState.applyBlock_eq_ok.mp (Outcome.mapErr_eq_ok.mp hchain)
  unfold ChainState.keep at hkeep
  split_ifs at hkeep with hhigh
  · cases hkeep
    cases hminer
    exact .adopt haccepts hhigh
  · cases hkeep
    cases hminer
    exact .store haccepts (UInt64.not_lt.mp hhigh)

theorem moves_of_handle {node node' : Node P} {event : NodeEvent B S}
    (h : node.handle event = .ok node') :
    Moves node event node' := by
  cases event with
  | submit signed =>
    unfold handle Miner.submitTransaction at h
    cases hpool : node.miner.mempool.submit P signed node.miner.chain.headStore with
    | error e => simp [hpool] at h
    | ok pool =>
      simp only [hpool, Outcome.ok.injEq] at h
      exact h ▸ .submit hpool
  | prepare now =>
    simp only [handle] at h
    split at h
    case h_1 => cases h; exact .idle _ _
    case h_2 work miner hprepare => cases h; exact .prepare hprepare
  | finish round now =>
    simp only [handle] at h
    split at h
    case h_1 => cases h; exact .idle _ _
    case h_2 work hwork => exact moves_of_finishRound hwork (Outcome.mapErr_eq_ok.mp h)
  | apply now block =>
    obtain ⟨⟨miner, flag⟩, happly, rfl⟩ := Outcome.map_eq_ok.mp h
    exact moves_of_applyBlock happly
  | replace now snapshot =>
    unfold handle Miner.replaceFromSnapshot at h
    cases hchain : ChainState.fromSnapshot P now node.miner.chain.headHeight snapshot.head
        (Store.withObjects snapshot.objects) node.miner.chain.difficulty
        node.miner.chain.snapshotDepth with
    | error e => simp [hchain] at h
    | ok chain =>
      simp only [hchain, Outcome.ok.injEq] at h
      exact h ▸ .replace hchain

abbrev Run (Allowed : Node P → NodeEvent B S → Prop) : Node P → Node P → Prop :=
  EventRun Allowed fun node event node' => node.handle event = .ok node'

theorem Run.invariant {Allowed : Node P → NodeEvent B S → Prop} {I : Node P → Prop}
    (hmoves : ∀ {node node' event}, I node → Allowed node event → Moves node event node' → I node')
    {node node' : Node P} (hrun : Run Allowed node node') (h : I node) : I node' := by
  refine EventRun.invariant (I := I) ?_ hrun h
  intro s t event hs hallowed hstep
  exact hmoves hs hallowed (moves_of_handle hstep)

def handleAll (allowed : Node P → NodeEvent B S → Bool) (node : Node P)
    (events : List (NodeEvent B S)) : Outcome MinerError (Node P) :=
  Outcome.foldl
    (fun node event => if allowed node event then node.handle event else .panic "not allowed")
    node events

theorem run_of_handleAll {allowed : Node P → NodeEvent B S → Bool}
    {Allowed : Node P → NodeEvent B S → Prop}
    (hallowed : ∀ node event, allowed node event = true → Allowed node event)
    {node node' : Node P} {events : List (NodeEvent B S)}
    (h : node.handleAll allowed events = .ok node') :
    Run Allowed node node' :=
  EventRun.of_runAll hallowed h

def start (chain : ChainState P) (keypair : K) (rewardAddress : Address) (batchSize : ℕ) :
    Node P where
  miner := .ofChain chain keypair rewardAddress batchSize
  rounds := []

end Node

end MeowChain
