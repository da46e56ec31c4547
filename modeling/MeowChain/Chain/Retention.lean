import MeowChain.Chain.Batch
import MeowChain.Chain.CatchUp

/-!
# Accepted transactions

A transaction that was accepted stays in the mempool or in the batch of a round until the head store
has moved past it, as long as no round drops it and no head switch brings it back to life.
-/

set_option autoImplicit false

namespace MeowChain

variable {B S K : Type} {P : ChainPlatform B S K}

def Transaction.Overtaken (tx : Transaction B) (store : Store B) : Prop :=
  ∃ ref ∈ tx.objectRefs, ∃ obj, store[ref.address]? = some obj ∧
    ref.version.toNat < obj.version.toNat

theorem Transaction.Overtaken.not_valid {Q : Platform B} {tx : Transaction B} {store : Store B}
    (h : tx.Overtaken store) : ¬ tx.Valid Q store := by
  intro hvalid
  obtain ⟨ref, href, obj, hobj, hlt⟩ := h
  obtain ⟨other, hother, hversion, -⟩ := hvalid ref href
  obtain rfl := Option.some.inj (hobj.symm.trans hother)
  rw [hversion] at hlt
  exact Nat.lt_irrefl _ hlt

section Line

variable [DecidableEq B] {world : Set (Block B S)} {initialStore : Store B}

/-- The line of blocks that leads to `store` went through `point`. -/
def Leads (P : ChainPlatform B S K) (world : Set (Block B S)) (initialStore : Store B)
    (block : Block B S) (store point : Store B) : Prop :=
  ∃ path before after, Lineage P world initialStore block store path ∧
    executedAlong P path = before ++ after ∧
    Trace (Executed.Step P) initialStore before point ∧ Trace (Executed.Step P) point after store

theorem Lineage.leads {block : Block B S} {store : Store B} {path : List (Block B S)}
    (h : Lineage P world initialStore block store path) :
    Leads P world initialStore block store store :=
  ⟨path, _, [], h, (List.append_nil _).symm, h.trace, .nil⟩

section Child

variable {parent block : Block B S} {parentStore store point : Store B} {now : UInt64}
  {difficulty : ℕ} (hparent : Leads P world initialStore parent parentStore point)
  (hextends : Block.Extends P parent parentStore block store)
  (hstructured : block.WellStructured P now difficulty) (hmem : block ∈ world)
include hparent hextends hstructured hmem

theorem Leads.child : Leads P world initialStore block store point := by
  obtain ⟨path, before, after, hpath, hsplit, hbefore, hafter⟩ := hparent
  refine ⟨_, before, after ++ block.executed P, .child hpath hextends hstructured hmem, ?_, hbefore,
    hafter.trans hextends.trace.2⟩
  rw [executedAlong_cons, hsplit, List.append_assoc]

/-- A transaction that was valid or overtaken at some point of a line does not become valid with a
new block. -/
theorem Leads.valid_back (hworld : Collisionless P world initialStore)
    (hstart : initialStore.Genuine) {tx : Transaction B}
    (hpoint : tx.Valid P.toPlatform point ∨ tx.Overtaken point)
    (hvalid : tx.Valid P.toPlatform store) : tx.Valid P.toPlatform parentStore := by
  obtain ⟨path, before, after, hpath, hsplit, hbefore, hafter⟩ := hparent
  have hblock := Lineage.child hpath hextends hstructured hmem
  have hthree : executedAlong P (block :: path) = before ++ after ++ block.executed P := by
    rw [executedAlong_cons, hsplit]
  have htwo : executedAlong P (block :: path) = before ++ after ++ block.executed P ++ [] := by
    rw [hthree, List.append_nil]
  have hone : executedAlong P (block :: path) = before ++ (after ++ block.executed P) ++ [] := by
    rw [htwo, List.append_assoc before]
  have hlater := hextends.trace.2
  rcases hpoint with hpoint | ⟨ref, href, first, hfirst, hlt⟩
  · intro ref href
    obtain ⟨first, hfirst, hfirstVersion, hdigest⟩ := hpoint ref href
    obtain ⟨last, hlast, hlastVersion, -⟩ := hvalid ref href
    have hversions : first.version.toNat = last.version.toNat := by
      rw [hfirstVersion, hlastVersion]
    cases hmiddle : parentStore[ref.address]? with
    | none =>
      -- What is gone on a line does not come back.
      have hgone := hblock.removed hworld hstart hone hbefore hafter hlater
        (hfirst ▸ Option.some_ne_none first) hmiddle
      rw [hgone] at hlast
      cases hlast
    | some middle =>
      -- Versions only grow, and the last is the first again.
      have hup := hblock.ascends hworld hstart hthree hbefore hafter hfirst hmiddle
      have hup' := hblock.ascends hworld hstart htwo (hbefore.trans hafter) hlater hmiddle hlast
      rcases hup with rfl | hlt
      · exact ⟨first, hmiddle, hfirstVersion, hdigest⟩
      · rcases hup' with rfl | hlt'
        · omega
        · omega
  · obtain ⟨last, hlast, hlastVersion, -⟩ := hvalid ref href
    rw [← hlastVersion] at hlt
    rcases hblock.ascends hworld hstart hone hbefore (hafter.trans hlater) hfirst hlast with
      rfl | hlt'
    · omega
    · omega

end Child

theorem Lineage.spent (hworld : Collisionless P world initialStore) (hstart : initialStore.Genuine)
    {parent block : Block B S} {parentStore store : Store B} {path : List (Block B S)}
    {now : UInt64} {difficulty : ℕ} (hparent : Lineage P world initialStore parent parentStore path)
    (hextends : Block.Extends P parent parentStore block store)
    (hstructured : block.WellStructured P now difficulty) (hmem : block ∈ world)
    {signed : SignedTransaction B S} (hsigned : signed ∈ block.transactions) {coin : Object B}
    (hcoin : store[signed.transaction.gasCoin.address]? = some coin) :
    signed.transaction.gasCoin.version.toNat < coin.version.toNat := by
  have hblock := Lineage.child hparent hextends hstructured hmem
  obtain ⟨hlength, htrace⟩ := hextends.trace
  -- The step of the block that executes the transaction.
  have hexecuted : ∃ result, Executed.user (block.header.context P) signed.transaction result ∈
      block.executed P := by
    obtain ⟨i, hi, rfl⟩ := List.getElem_of_mem hsigned
    refine ⟨block.results[i], List.mem_append_left _ (List.mem_map.mpr ⟨(_, _), ?_, rfl⟩)⟩
    refine List.mem_of_getElem? (i := i) (List.getElem?_zip_eq_some.mpr ⟨?_, ?_⟩)
    · exact List.getElem?_eq_getElem hi
    · exact List.getElem?_eq_getElem (hlength ▸ hi)
  obtain ⟨result, hexecuted⟩ := hexecuted
  obtain ⟨before, after, hsplit⟩ := List.append_of_mem hexecuted
  rw [hsplit] at htrace
  obtain ⟨s, hbefore, hrest⟩ := Trace.cut htrace
  cases hrest with
  | @cons _ t _ _ _ hstep hafter =>
    have hgenuine := (hparent.trace.trans hbefore).invariant
      (fun _ _ _ hs hstep => Executed.Step.genuine hs hstep) hstart
    obtain ⟨spent, hspent, hlt⟩ := (Executed.Step.gasCoin hgenuine.keyed hstep).2
    have hline : executedAlong P (block :: path) =
        executedAlong P path ++ (before ++ [Executed.user (block.header.context P)
          signed.transaction result]) ++ after ++ [] := by
      rw [executedAlong_cons, hsplit]
      simp
    have hup := hblock.ascends hworld hstart hline
      (hparent.trace.trans (hbefore.trans (.single hstep))) hafter hspent hcoin
    rcases hup with rfl | hlt'
    · exact hlt
    · omega

end Line

/-! ## Nodes -/

section Nodes

variable [DecidableEq B] {world : Set (Block B S)} {initialStore : Store B}

/-- An event that does not lose the transaction. The head moves to a child, or to a block at whose
store the transaction is overtaken, or valid as it was before. A round that has a valid transaction
in its batch ends on the head it started from, and secures it. -/
def Node.Keeps (node : Node P) (signed : SignedTransaction B S) : NodeEvent B S → Prop
  | .apply _ block => node.miner.chain.headHeight < block.header.height →
      block.header.parentHash = node.miner.chain.head ∨
      ∀ parentStore store, node.miner.chain.snapshots[block.header.parentHash]? = some parentStore →
        ChainState.replay P parentStore block = .ok store →
          signed.transaction.Overtaken store ∨
          signed.transaction.Valid P.toPlatform store ∧
            signed.transaction.Valid P.toPlatform node.miner.chain.headStore
  | .finish round _ => ∀ work, node.rounds[round]? = some work → signed ∈ work.batch →
      signed.transaction.Valid P.toPlatform node.miner.chain.headStore →
        work.header.parentHash = node.miner.chain.head ∧ work.Secures P signed
  | _ => True

/-- What holds of a node after it has accepted the transaction. -/
structure Node.Retains (world : Set (Block B S)) (initialStore : Store B)
    (signed : SignedTransaction B S) (node : Node P) : Prop where
  historic : node.Historic world initialStore
  -- The store has come from one where the transaction was valid or too late.
  leads : ∃ point, Leads P world initialStore node.miner.chain.headBlock node.miner.chain.headStore
    point ∧ (signed.transaction.Valid P.toPlatform point ∨ signed.transaction.Overtaken point)
  kept : signed.transaction.Valid P.toPlatform node.miner.chain.headStore →
    signed ∈ node.miner.mempool.pending ∨ ∃ work ∈ node.rounds, signed ∈ work.batch

variable {node node' : Node P} {signed : SignedTransaction B S}

theorem Node.Historic.extends_head (hP : P.Lawful) (hworld : CollisionFree P world)
    (h : node.Historic world initialStore) {work : MiningWork B S K} {block : Block B S}
    {store : Store B} (hwork : work ∈ node.rounds)
    (hgrind : work.grind P = .ok (some (block, store)))
    (hfresh : block.header.parentHash = node.miner.chain.head) :
    Block.Extends P node.miner.chain.headBlock node.miner.chain.headStore block store := by
  have hstarted := h.rounds work hwork
  have hmines := MiningWork.mines_of_grind hP hstarted.minerAddress hgrind
  obtain ⟨parent, path, hparent, hhash, hheight⟩ := hstarted.parent
  obtain ⟨headPath, hhead⟩ := h.known _ _ _ node.miner.chain.getElem?_head
    node.miner.chain.getElem?_head_snapshot
  have hsame : parent.hash P = node.miner.chain.headBlock.hash P := by
    rw [← hhash, ← hmines.parentHash, hfresh, node.miner.chain.headBlock_hash]
  have hstore := hparent.store_unique hworld hhead hsame
  have hheader := hworld.header _ (hparent.mem_world hworld) _ (hhead.mem_world hworld) hsame
  exact {
    parentHash := hfresh.trans node.miner.chain.headBlock_hash.symm
    height := by rw [hmines.height, hheight, hheader]
    signatures := fun other hother => hstarted.validated other (hmines.transactions.mem hother)
    replayed := hstore ▸ hmines.replayed }

theorem MiningWork.StartedIn.keyed (hstart : initialStore.Genuine) {work : MiningWork B S K}
    (h : work.StartedIn P world initialStore) : work.parentStore.Keyed := by
  obtain ⟨parent, path, hparent, -⟩ := h.parent
  exact hparent.keyed hstart.keyed

omit [DecidableEq B] in
theorem mem_eraseIdx_of_mem {α : Type} {l : List α} {i : ℕ} {x y : α} (hx : x ∈ l)
    (hy : l[i]? = some y) : x = y ∨ x ∈ l.eraseIdx i := by
  obtain ⟨j, hj⟩ := List.mem_iff_getElem?.mp hx
  by_cases hij : j = i
  · subst hij
    exact .inl (Option.some.inj (hj.symm.trans hy))
  · exact .inr (List.mem_eraseIdx_iff_getElem?.mpr ⟨j, hij, hj⟩)

namespace Node.Retains

variable (hworld : Collisionless P world initialStore) (hstart : initialStore.Genuine)
  (h : node.Retains world initialStore signed)
include hworld hstart h

/-- What a child of the head does: the transaction does not become valid. -/
theorem child {block : Block B S} {store : Store B} {now : UInt64} {difficulty : ℕ}
    (hextends : Block.Extends P node.miner.chain.headBlock node.miner.chain.headStore block store)
    (hstructured : block.WellStructured P now difficulty) (hmem : block ∈ world) :
    (∃ point, Leads P world initialStore block store point ∧
      (signed.transaction.Valid P.toPlatform point ∨ signed.transaction.Overtaken point)) ∧
    (signed.transaction.Valid P.toPlatform store →
      signed.transaction.Valid P.toPlatform node.miner.chain.headStore) := by
  obtain ⟨point, hleads, hpoint⟩ := h.leads
  exact ⟨⟨point, hleads.child hextends hstructured hmem, hpoint⟩,
    hleads.valid_back hextends hstructured hmem hworld hstart hpoint⟩

/-- A secured transaction is not valid any more when its round has ended with a block. -/
theorem not_valid_of_secures (hP : P.Lawful) {work : MiningWork B S K} {block : Block B S}
    {store : Store B} {now : UInt64} {difficulty : ℕ} (hwork : work ∈ node.rounds)
    (hgrind : work.grind P = .ok (some (block, store)))
    (hfresh : block.header.parentHash = node.miner.chain.head)
    (hstructured : block.WellStructured P now difficulty) (hmem : block ∈ world)
    (hsecures : work.Secures P signed) : ¬ signed.transaction.Valid P.toPlatform store := by
  intro hvalid
  have hextends := h.historic.extends_head hP hworld.toCollisionFree hwork hgrind hfresh
  obtain ⟨path, hpath⟩ := h.historic.known _ _ _ node.miner.chain.getElem?_head
    node.miner.chain.getElem?_head_snapshot
  have hkeyed := (h.historic.rounds work hwork).keyed hstart
  obtain ⟨_, _, hmined, before, payer, after, hsplit, hpayer, -⟩ := hsecures.grind hkeyed hgrind
  obtain ⟨rfl, rfl⟩ := Prod.mk.inj (Option.some.inj hmined)
  -- The payer and the transaction name the same version of the coin, and the payer has used it up.
  obtain ⟨coin, hcoin, haccepted⟩ := hpayer.canPay.coin hkeyed
  obtain ⟨coin', hcoin', haccepted'⟩ := hsecures.canPay.coin hkeyed
  rw [hpayer.address, hcoin'] at hcoin
  obtain rfl := Option.some.inj hcoin
  obtain ⟨last, hlast, hversion, -⟩ := hvalid _ List.mem_cons_self
  have hmemPayer : payer ∈ block.transactions := by
    rw [hsplit]
    exact List.mem_append_right _ List.mem_cons_self
  have hlt := hpath.spent hworld hstart hextends hstructured hmem hmemPayer
    (hpayer.address.symm ▸ hlast)
  rw [hversion, ← haccepted.version, haccepted'.version] at hlt
  exact Nat.lt_irrefl _ hlt

omit hworld hstart in
/-- The rounds that are left when one of them ends. -/
theorem kept_of_finish {round : ℕ} {work : MiningWork B S K}
    (hwork : node.rounds[round]? = some work)
    (hvalid : signed.transaction.Valid P.toPlatform node.miner.chain.headStore)
    (hbatch : signed ∉ work.batch) :
    signed ∈ node.miner.mempool.pending ∨
      ∃ other ∈ node.rounds.eraseIdx round, signed ∈ other.batch := by
  rcases h.kept hvalid with hpending | ⟨other, hother, hsigned⟩
  · exact .inl hpending
  · rcases mem_eraseIdx_of_mem hother hwork with rfl | hleft
    · exact absurd hsigned hbatch
    · exact .inr ⟨other, hleft, hsigned⟩

theorem moves (hP : P.Lawful) {event : NodeEvent B S} (hgrows : node.GrowsIn world event)
    (hkeeps : node.Keeps signed event) (hmoves : Node.Moves node event node') :
    node'.Retains world initialStore signed := by
  have hhistoric := h.historic.moves hP hgrows hmoves
  cases hmoves with
  | idle => exact h
  | submit hpool =>
    obtain ⟨-, -, -, -, rfl⟩ := Mempool.submit_eq_ok P hpool
    refine ⟨hhistoric, h.leads, fun hvalid => ?_⟩
    rcases h.kept hvalid with hpending | hbatch
    · exact .inl (List.mem_append_left _ hpending)
    · exact .inr hbatch
  | prepare hprepare =>
    obtain ⟨hwork, rfl⟩ := Miner.prepareRound_eq_some hprepare
    refine ⟨hhistoric, h.leads, fun hvalid => ?_⟩
    rcases h.kept hvalid with hpending | ⟨other, hother, hsigned⟩
    · -- The pending transactions are split between the batch and what stays.
      rw [← List.take_append_drop (min node.miner.batchSize node.miner.mempool.pending.length)
        node.miner.mempool.pending] at hpending
      rcases List.mem_append.mp hpending with htaken | hleft
      · refine .inr ⟨_, List.mem_append_right _ (List.mem_singleton.mpr rfl), ?_⟩
        rw [hwork.batch]
        exact htaken
      · exact .inl hleft
    · exact .inr ⟨other, List.mem_append_left _ hother, hsigned⟩
  | @discard round now work hwork hgrind =>
    refine ⟨hhistoric, h.leads, fun hvalid => ?_⟩
    refine h.kept_of_finish hwork hvalid fun hbatch => ?_
    obtain ⟨-, hsecures⟩ := hkeeps _ hwork hbatch hvalid
    have hkeyed := (h.historic.rounds work (List.mem_of_getElem? hwork)).keyed hstart
    obtain ⟨_, _, hmined, -⟩ := hsecures.grind hkeyed hgrind
    cases hmined
  | stale hwork hgrind hstale =>
    refine ⟨hhistoric, h.leads, fun hvalid => ?_⟩
    refine h.kept_of_finish hwork hvalid fun hbatch => ?_
    obtain ⟨hfresh, -⟩ := hkeeps _ hwork hbatch hvalid
    have hmines := MiningWork.mines_of_grind hP
      (h.historic.rounds _ (List.mem_of_getElem? hwork)).minerAddress hgrind
    exact hstale (hmines.parentHash.trans hfresh)
  | @commit round now work block store hwork hgrind hfresh hstructured =>
    have hmem := hgrows _ _ _ hwork hgrind
    have hround := List.mem_of_getElem? hwork
    have hextends := h.historic.extends_head hP hworld.toCollisionFree hround hgrind hfresh
    obtain ⟨hleads, hback⟩ := h.child hworld hstart hextends hstructured hmem
    refine ⟨hhistoric, ?_, ?_⟩
    · dsimp only
      rwa [ChainState.adopt_headBlock, ChainState.adopt_headStore]
    · dsimp only
      rw [ChainState.adopt_headStore]
      intro hvalid
      refine h.kept_of_finish hwork (hback hvalid) fun hbatch => ?_
      exact h.not_valid_of_secures hworld hstart hP hround hgrind hfresh hstructured hmem
        (hkeeps _ hwork hbatch (hback hvalid)).2 hvalid
  | store haccepts =>
    refine ⟨hhistoric, ?_, ?_⟩
    · dsimp only
      rw [ChainState.insertBlock_headBlock haccepts.unknown,
        ChainState.insertBlock_headStore haccepts.unknown]
      exact h.leads
    · dsimp only
      rw [ChainState.insertBlock_headStore haccepts.unknown]
      exact h.kept
  | @adopt now block parent parentStore store haccepts hhigh =>
    -- In both cases the new head store has a past, and the transaction is no news to it.
    have hnew : (∃ point, Leads P world initialStore block store point ∧
          (signed.transaction.Valid P.toPlatform point ∨ signed.transaction.Overtaken point)) ∧
        (signed.transaction.Valid P.toPlatform store →
          signed.transaction.Valid P.toPlatform node.miner.chain.headStore) := by
      rcases hkeeps hhigh with hchild | hreorg
      · have hparent := haccepts.parent_known
        have hparentStore := haccepts.parent_snapshot
        rw [hchild, ChainState.getElem?_head] at hparent
        rw [hchild, ChainState.getElem?_head_snapshot] at hparentStore
        obtain rfl := Option.some.inj hparent
        obtain rfl := Option.some.inj hparentStore
        exact h.child hworld hstart haccepts.extends_parent haccepts.structured hgrows
      · obtain ⟨path, hpath⟩ := h.historic.lineage haccepts hgrows
        rcases hreorg parentStore store haccepts.parent_snapshot haccepts.extends_parent.replayed with
          hovertaken | ⟨hvalid, hold⟩
        · exact ⟨⟨store, hpath.leads, .inr hovertaken⟩,
            fun hvalid => absurd hvalid hovertaken.not_valid⟩
        · exact ⟨⟨store, hpath.leads, .inl hvalid⟩, fun _ => hold⟩
    obtain ⟨hleads, hback⟩ := hnew
    refine ⟨hhistoric, ?_, ?_⟩
    · dsimp only
      rwa [ChainState.adopt_headBlock, ChainState.adopt_headStore]
    · dsimp only
      rw [ChainState.adopt_headStore]
      intro hvalid
      rcases h.kept (hback hvalid) with hpending | hbatch
      · exact .inl (List.mem_filter.mpr ⟨hpending, (Mempool.stillValid_iff P).mpr hvalid⟩)
      · exact .inr hbatch
  | replace => exact hgrows.elim

end Node.Retains

/-- A transaction that was accepted is, at every later point at which it still validates against
the head store, in the mempool or in the batch of a round in progress: one in a block of the
canonical chain does not validate any more. -/
theorem accepted_not_lost (hP : P.Lawful) (hworld : Collisionless P world initialStore)
    (hstart : initialStore.Genuine) {difficulty : ℕ} {depth : UInt64} {keypair : K}
    {rewardAddress : Address} {batchSize : ℕ} {later : Node P}
    (hrun : Node.Run (Node.GrowsIn world) (Node.start (.new P initialStore difficulty depth) keypair
      rewardAddress batchSize) node)
    (hsubmit : node.handle (.submit signed) = .ok node')
    (hlater : Node.Run (fun node event => node.GrowsIn world event ∧ node.Keeps signed event) node'
      later)
    (hvalid : validateAgainstStore P.toPlatform signed.transaction later.miner.chain.headStore =
      .ok ()) :
    signed ∈ later.miner.mempool.pending ∨ ∃ work ∈ later.rounds, signed ∈ work.batch := by
  have hhistoric := Node.historic_of_run hP hrun
  have haccepted : node'.Retains world initialStore signed := by
    unfold Node.handle Miner.submitTransaction at hsubmit
    cases hpool : node.miner.mempool.submit P signed node.miner.chain.headStore with
    | error e => simp [hpool] at hsubmit
    | ok pool =>
      simp only [hpool, Outcome.ok.injEq] at hsubmit
      subst hsubmit
      have hgrows : node.GrowsIn world (.submit signed) := trivial
      have hhistoric' := hhistoric.moves hP hgrows (.submit hpool)
      obtain ⟨-, -, -, hvalid, rfl⟩ := Mempool.submit_eq_ok P hpool
      obtain ⟨path, hpath⟩ := hhistoric.known _ _ _ node.miner.chain.getElem?_head
        node.miner.chain.getElem?_head_snapshot
      refine ⟨hhistoric', ⟨_, hpath.leads, .inl hvalid⟩, fun _ => .inl ?_⟩
      exact List.mem_append_right _ (List.mem_singleton.mpr rfl)
  have hretains := Node.Run.invariant (I := Node.Retains world initialStore signed)
    (fun h hallowed hmoves => h.moves hworld hstart hP hallowed.1 hallowed.2 hmoves) hlater haccepted
  exact hretains.kept ((validateAgainstStore_eq_ok _).mp hvalid)

end Nodes

/-! ## A transaction on the small chain -/

namespace Sample

def sideBlock : Outcome MinerError (Block Bytes (Address × Digest)) :=
  Outcome.expect "mined" (lineBlocks 8 [5]).getLast?

def keeps (node : Node chainPlatform) : NodeEvent Bytes (Address × Digest) → Bool
  | .apply _ block => decide (block.header.parentHash = node.miner.chain.head)
  | .finish _ _ => false
  | _ => true

theorem keeps_sound {signed : SignedTransaction Bytes (Address × Digest)}
    (node : Node chainPlatform) (event : NodeEvent Bytes (Address × Digest))
    (h : keeps node event = true) : node.Keeps signed event := by
  cases event with
  | apply now block =>
    intro _
    exact .inl (of_decide_eq_true (p := block.header.parentHash = node.miner.chain.head) h)
  | finish round now => cases h
  | submit signed => trivial
  | prepare now => trivial
  | replace now snapshot => trivial

end Sample

open Sample in
/-- A block of a peer becomes the head, then a round takes the transaction. -/
theorem accepted_not_lost_peer :
    ∃ later : Node chainPlatform, later.miner.chain.headBlock.level = 1 ∧
      ∃ work ∈ later.rounds, payingSigned bareStore 9 ∈ work.batch := by
  obtain ⟨node, hnode, hp⟩ := Outcome.exists_of_isOkAnd
    (x := shallowNode.handle (.submit (payingSigned bareStore 9)))
    (p := fun node : Node chainPlatform => (sideBlock.bind fun block => node.handleAll
      (fun node event => growsIn forkBlocks node event && keeps node event)
      [.apply 6 block, .prepare 6]).isOkAnd fun later : Node chainPlatform =>
        decide (later.miner.chain.headBlock.level = 1 ∧ later.miner.mempool.pending = []) &&
        Mempool.stillValid chainPlatform later.miner.chain.headStore (payingSigned bareStore 9))
    (by decide +kernel)
  obtain ⟨later, hlater, hp⟩ := Outcome.exists_of_isOkAnd hp
  obtain ⟨block, -, hlater⟩ := Outcome.bind_eq_ok.mp hlater
  rw [Bool.and_eq_true] at hp
  obtain ⟨hlevel, hpending⟩ := of_decide_eq_true hp.1
  have hvalid := (Mempool.stillValid_iff chainPlatform).mp hp.2
  have hkept := accepted_not_lost chainPlatform_lawful forkBlocks_collisionless bareStore_genuine
    (show Node.Run _ shallowNode shallowNode from .refl) hnode
    (Node.run_of_handleAll (fun node event h => by
      rw [Bool.and_eq_true] at h
      exact ⟨growsIn_sound node event h.1, keeps_sound node event h.2⟩) hlater)
    ((validateAgainstStore_eq_ok _).mpr hvalid)
  rw [hpending] at hkept
  exact ⟨later, hlevel, hkept.resolve_left List.not_mem_nil⟩

open Sample in
/-- A round takes the transaction, and before it ends a block of a peer becomes the head: the round
is stale, and the transaction is nowhere any more. -/
theorem accepted_not_lost_fails :
    ∃ node later : Node chainPlatform,
      shallowNode.handle (.submit (payingSigned bareStore 9)) = .ok node ∧
      Node.Run (Node.GrowsIn { block | block ∈ forkBlocks }) node later ∧
      validateAgainstStore chainPlatform.toPlatform (payingSigned bareStore 9).transaction
        later.miner.chain.headStore = .ok () ∧
      later.miner.mempool.pending = [] ∧ later.rounds = [] ∧
      ∀ block ∈ later.miner.chain.getBlocksSince 0,
        payingSigned bareStore 9 ∉ block.transactions := by
  obtain ⟨node, hnode, hp⟩ := Outcome.exists_of_isOkAnd
    (x := shallowNode.handle (.submit (payingSigned bareStore 9)))
    (p := fun node : Node chainPlatform => (sideBlock.bind fun block => node.handleAll
      (growsIn forkBlocks) [.prepare 5, .apply 6 block, .finish 0 7]).isOkAnd
        fun later : Node chainPlatform =>
          decide (later.miner.mempool.pending = [] ∧ later.rounds.length = 0 ∧
            ∀ block ∈ later.miner.chain.getBlocksSince 0,
              payingSigned bareStore 9 ∉ block.transactions) &&
          Mempool.stillValid chainPlatform later.miner.chain.headStore (payingSigned bareStore 9))
    (by decide +kernel)
  obtain ⟨later, hlater, hp⟩ := Outcome.exists_of_isOkAnd hp
  obtain ⟨block, -, hlater⟩ := Outcome.bind_eq_ok.mp hlater
  rw [Bool.and_eq_true] at hp
  obtain ⟨hpending, hrounds, hblocks⟩ := of_decide_eq_true hp.1
  exact ⟨node, later, hnode, Node.run_of_handleAll growsIn_sound hlater,
    (validateAgainstStore_eq_ok _).mpr ((Mempool.stillValid_iff chainPlatform).mp hp.2),
    hpending, List.length_eq_zero_iff.mp hrounds, hblocks⟩

end MeowChain
