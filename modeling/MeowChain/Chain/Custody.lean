import MeowChain.Chain.Commitment
import MeowChain.Chain.Ledger

/-!
# Who can touch an object

An object stays as it is until its owner signs a transaction that refers to it.
-/

set_option autoImplicit false

namespace MeowChain

variable {B S K : Type} {P : ChainPlatform B S K}

def Transaction.Spends (P : Platform B) (tx : Transaction B) (a : Address) (obj : Object B) :
    Prop :=
  ∃ ref ∈ tx.objectRefs, ref.address = a ∧ AcceptedObject P ref tx.sender obj

def SignedTransaction.Authentic (P : ChainPlatform B S K) (signed : SignedTransaction B S) : Prop :=
  P.signer signed.signature = signed.transaction.sender ∧
    P.verify signed.signature (signed.digest P) = .ok ()

theorem authentic_of_validate {signed : SignedTransaction B S}
    (h : validateSignedTransaction P.toPlatform P.toSigning signed = .ok ()) :
    signed.Authentic P := by
  unfold validateSignedTransaction at h
  obtain ⟨_, -, hsigner⟩ := ok_of_bind h
  dsimp only at hsigner
  split_ifs at hsigner with hne
  refine ⟨not_not.mp hne, ?_⟩
  unfold SignedTransaction.digest
  cases hverify : P.verify signed.signature (P.transactionDigest signed.transaction) with
  | ok _ => rfl
  | error e =>
    rw [hverify] at hsigner
    cases hsigner

variable {e : Executed B} {store store' : Store B} {a : Address} {obj : Object B}

/-- An executed transaction leaves an object alone, or it is a user's who spends the object. -/
theorem Executed.Step.spends (hstore : store.Keyed) (h : e.Step P store store')
    (hobj : store[a]? = some obj) :
    store'[a]? = some obj ∨ e.isReward = false ∧ e.transaction.Spends P.toPlatform a obj := by
  have hchanges := h.changes hstore a
  rw [hobj] at hchanges
  generalize store'[a]? = after at hchanges ⊢
  cases e with
  | user context tx result =>
    cases hchanges with
    | kept => exact .inl rfl
    | changed href haddress haccepted => exact .inr ⟨rfl, _, href, haddress, haccepted⟩
    | destroyed href haddress haccepted =>
      exact .inr ⟨rfl, _, List.mem_cons_of_mem _ href, haddress, haccepted⟩
  | reward miningHash tx result =>
    -- A reward refers to no object.
    obtain ⟨⟨amount, hvalid⟩, -⟩ := h
    obtain ⟨function, _, _, -, -, htx⟩ := isValidRewardTransaction_eq_true hvalid
    have hnone : ∀ ref, ref ∉ tx.argumentRefs := by
      rw [htx]
      exact fun _ => List.not_mem_nil
    cases hchanges with
    | kept => exact .inl rfl
    | changed href | destroyed href => exact absurd href (hnone _)

theorem trace_spends {labels : List (Executed B)} (hstore : store.Keyed)
    (h : Trace (Executed.Step P) store labels store') (hobj : store[a]? = some obj) :
    store'[a]? = some obj ∨
      ∃ e ∈ labels, e.isReward = false ∧ e.transaction.Spends P.toPlatform a obj := by
  induction h with
  | nil => exact .inl hobj
  | cons hstep _ ih =>
    rcases hstep.spends hstore hobj with hkept | hspends
    · refine (ih (hstep.keyed hstore) hkept).imp_right ?_
      rintro ⟨e, he, hspends⟩
      exact ⟨e, List.mem_cons_of_mem _ he, hspends⟩
    · exact .inr ⟨_, List.mem_cons_self, hspends⟩

variable [DecidableEq B] {world : Set (Block B S)} {initialStore : Store B}

theorem Block.Extends.spends {parent block : Block B S} (hstore : store.Keyed)
    (h : Block.Extends P parent store block store') (hobj : store[a]? = some obj) :
    store'[a]? = some obj ∨ ∃ signed ∈ block.transactions, signed.Authentic P ∧
      signed.transaction.Spends P.toPlatform a obj := by
  refine (trace_spends hstore h.trace.2 hobj).imp_right ?_
  rintro ⟨e, he, huser, hspends⟩
  rcases List.mem_append.mp he with he | he
  · obtain ⟨⟨signed, _⟩, hentry, rfl⟩ := List.mem_map.mp he
    have hsigned := (List.of_mem_zip hentry).1
    exact ⟨signed, hsigned, authentic_of_validate (h.signatures signed hsigned), hspends⟩
  · obtain ⟨_, -, rfl⟩ := List.mem_map.mp he
    cases huser

theorem Lineage.spends (hstart : initialStore.Keyed) {block : Block B S}
    {later earlier : List (Block B S)}
    (h : Lineage P world initialStore block store (later ++ earlier)) :
    ∃ middle middleStore, Lineage P world initialStore middle middleStore earlier ∧
      ∀ (a : Address) (obj : Object B), middleStore[a]? = some obj →
        store[a]? = some obj ∨ ∃ b ∈ later, ∃ signed ∈ b.transactions, signed.Authentic P ∧
          signed.transaction.Spends P.toPlatform a obj := by
  induction later generalizing block store with
  | nil => exact ⟨block, store, h, fun _ _ hobj => .inl hobj⟩
  | cons b later ih =>
    cases h with
    | child hparent hextends hstructured hmem =>
      obtain ⟨middle, middleStore, hmiddle, hsince⟩ := ih hparent
      refine ⟨middle, middleStore, hmiddle, fun a obj hobj => ?_⟩
      rcases hsince a obj hobj with hkept | ⟨b', hb', hspent⟩
      · rcases hextends.spends (hparent.keyed hstart) hkept with hkept | hspent
        · exact .inl hkept
        · exact .inr ⟨_, List.mem_cons_self, hspent⟩
      · exact .inr ⟨b', List.mem_cons_of_mem _ hb', hspent⟩

/-- Whatever a chain held at some block: it is still there at a later block as it was, or a block in
between has a transaction, signed by the owner, that refers to it in its version and with its
digest. No reward of the chain touches what is there. -/
theorem spent_by_owner_only (hstart : initialStore.Keyed) {block : Block B S}
    {later earlier : List (Block B S)}
    (h : Lineage P world initialStore block store (later ++ earlier)) :
    (∃ middle middleStore, Lineage P world initialStore middle middleStore earlier ∧
      ∀ (a : Address) (obj : Object B), middleStore[a]? = some obj →
        store[a]? = some obj ∨ ∃ b ∈ later, ∃ signed ∈ b.transactions, signed.Authentic P ∧
          signed.transaction.Spends P.toPlatform a obj) ∧
    Trace (Executed.Step P) initialStore (executedAlong P (later ++ earlier)) store ∧
    ∀ (before : List (Executed B)) (e : Executed B) (after : List (Executed B)),
      executedAlong P (later ++ earlier) = before ++ e :: after → e.isReward = true →
      ∀ store₁ store₂ : Store B, Trace (Executed.Step P) initialStore before store₁ →
        e.Step P store₁ store₂ → ∀ (a : Address) (obj : Object B), store₁[a]? = some obj →
          store₂[a]? = some obj := by
  refine ⟨h.spends hstart, h.trace, ?_⟩
  intro before e after _ hreward store₁ store₂ h₁ hstep a obj hobj
  have hkeyed : store₁.Keyed :=
    h₁.invariant (fun _ _ _ hs hstep => Executed.Step.keyed hs hstep) hstart
  refine (hstep.spends hkeyed hobj).resolve_right ?_
  rintro ⟨huser, -⟩
  rw [hreward] at huser
  cases huser

namespace Sample

theorem firstLineage :
    ∃ block store path,
      Lineage chainPlatform { b | b ∈ firstBlocks } genesisStore block store (block :: path) ∧
      totalGas block.results ≠ 0 ∧ store[(8 : Address)]? ≠ some (coinAt 8) := by
  obtain ⟨node, hnode, hmined⟩ := Outcome.exists_of_isOkAnd
    (x := startNode.handleAll (growsIn firstBlocks)
      [.submit (failingSigned 8), .prepare 5, .finish 0 5])
    (p := fun node : Node chainPlatform =>
      decide (totalGas node.miner.chain.headBlock.results ≠ 0 ∧
        node.miner.chain.headStore[(8 : Address)]? ≠ some (coinAt 8))) (by decide +kernel)
  obtain ⟨hgas, hchanged⟩ := of_decide_eq_true hmined
  obtain ⟨path, hpath⟩ := (Node.historic_of_run chainPlatform_lawful
    (Node.run_of_handleAll growsIn_sound hnode)).known _ _ _ node.miner.chain.getElem?_head
      node.miner.chain.getElem?_head_snapshot
  generalize node.miner.chain.headBlock = block at hpath hgas
  generalize node.miner.chain.headStore = store at hpath hchanged
  cases hpath with
  | genesis => exact absurd rfl hgas
  | child hparent hextends hstructured hmem =>
    exact ⟨block, _, _, .child hparent hextends hstructured hmem, hgas, hchanged⟩

end Sample

open Sample in
/-- The coin that pays for a call has been spent by a signed transaction. -/
theorem spent_by_owner_only_coin :
    ∃ (path : List (Block Bytes (Address × Digest))), ∃ b ∈ path, ∃ signed ∈ b.transactions,
      signed.Authentic chainPlatform ∧
      signed.transaction.Spends chainPlatform.toPlatform 8 (coinAt 8) := by
  obtain ⟨block, store, path, hpath, -, hchanged⟩ := firstLineage
  rw [← (block :: path).append_nil] at hpath
  obtain ⟨⟨middle, middleStore, hmiddle, hsince⟩, -⟩ :=
    spent_by_owner_only genesisStore_genuine.keyed hpath
  cases hmiddle
  exact ⟨block :: path, (hsince 8 (coinAt 8) (by rfl)).resolve_left hchanged⟩

end MeowChain
