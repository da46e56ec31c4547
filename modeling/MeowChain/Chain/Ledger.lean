import MeowChain.Chain.Frame
import MeowChain.Chain.History
import MeowChain.Lib.Versions

/-!
# The ledger along a line of blocks

Every transaction uses up the version of its gas coin, and addresses are derived from the digests of
the transactions that create objects. So along a line of blocks no transaction is executed twice,
versions only grow, and a destroyed object never comes back.
-/

set_option autoImplicit false

namespace MeowChain

variable {B S K : Type}

/-! ## Executed transactions -/

/-- A transaction that a block executes, with its result: a user transaction in the context of the
block, or the reward for the work on it. -/
inductive Executed (B : Type) where
  | user (context : ExternalContext) (tx : Transaction B) (result : ExecutionResult B)
  | reward (miningHash : Digest) (tx : Transaction B) (result : ExecutionResult B)

namespace Executed

def transaction : Executed B → Transaction B
  | .user _ tx _ => tx
  | .reward _ tx _ => tx

def result : Executed B → ExecutionResult B
  | .user _ _ result => result
  | .reward _ _ result => result

def isReward : Executed B → Bool
  | .user _ _ _ => false
  | .reward _ _ _ => true

/-- The references a transaction spends objects through; a reward is not paid for. -/
def refs : Executed B → List ObjectRef
  | .user _ tx _ => tx.objectRefs
  | .reward _ tx _ => tx.argumentRefs

variable (P : ChainPlatform B S K)

def digest (e : Executed B) : Digest :=
  P.transactionDigest e.transaction

/-- The addresses of the objects a transaction can create. -/
def Derives (e : Executed B) (a : Address) : Prop :=
  ∃ n, a = P.derive (e.digest P) 0 n

def Step : Executed B → Store B → Store B → Prop
  | .user context tx result, store, store' =>
    validateTransaction P.toPlatform tx = .ok () ∧
      store.executeTransaction P.toPlatform context tx = .ok (store', result)
  | .reward miningHash tx result, store, store' =>
    (∃ amount, isValidRewardTransaction P tx amount miningHash = true) ∧
      executeRewardTransaction P tx store = .ok result ∧
      store.applyExecutionResult (ε := ChainError) result = .ok store'

def Touches (e : Executed B) (a : Address) : Prop :=
  ∃ obj ∈ e.result.changedObjects ++ e.result.destroyedObjects, obj.address = a

end Executed

def Block.executed (P : ChainPlatform B S K) (block : Block B S) : List (Executed B) :=
  (block.transactions.zip block.results).map
      (fun entry => .user (block.header.context P) entry.1.transaction entry.2) ++
    (block.rewardTransaction.toList.zip block.rewardTransactionResult.toList).map
      (fun entry => .reward (block.header.miningHash P) entry.1.transaction entry.2)

/-- What a line of blocks executes, in order; the line is given with the last block first. -/
def executedAlong (P : ChainPlatform B S K) (path : List (Block B S)) : List (Executed B) :=
  path.reverse.flatMap (Block.executed P)

theorem executedAlong_cons (P : ChainPlatform B S K) (block : Block B S)
    (path : List (Block B S)) :
    executedAlong P (block :: path) = executedAlong P path ++ block.executed P := by
  simp [executedAlong]

/-! ## One transaction -/

structure Store.Genuine (store : Store B) : Prop where
  keyed : store.Keyed
  positive : ∀ (a : Address) (obj : Object B), store[a]? = some obj → obj.version ≠ .zero

theorem ObjectVersion.next_eq_some {v w : ObjectVersion} (h : v.next = some w) :
    w.toNat = v.toNat + 1 := by
  unfold ObjectVersion.next at h
  split_ifs at h with hmax
  obtain rfl := Option.some.inj h
  have hlt : v.toNat < u64Max := by
    have hne : v.toNat ≠ u64Max := fun heq =>
      hmax (UInt64.toNat_inj.mp (by rw [heq]; rfl))
    have hle := v.toNat_lt
    unfold u64Max at hne ⊢
    omega
  unfold u64Max at hlt
  rw [UInt64.toNat_add]
  have hone : (1 : UInt64).toNat = 1 := rfl
  omega

theorem ObjectVersion.lt_of_next {v w : ObjectVersion} (h : v.next = some w) :
    v.toNat < w.toNat := by
  rw [ObjectVersion.next_eq_some h]
  exact Nat.lt_succ_self _

theorem Store.executeTransaction_eq_ok {P : Platform B} {store store' : Store B}
    {ext : ExternalContext} {tx : Transaction B} {result : ExecutionResult B}
    (h : store.executeTransaction P ext tx = .ok (store', result)) :
    execute P tx (store.collectInputs P tx) ext = .ok result ∧
      store.applyExecutionResult (ε := ExecutorError) result = .ok store' := by
  obtain ⟨executed, hexec, h⟩ := Outcome.bind_eq_ok.mp h
  obtain ⟨next, happly, h⟩ := Outcome.bind_eq_ok.mp h
  cases h
  exact ⟨hexec, happly⟩

theorem validateTransaction_gasCoin {P : Platform B} {tx : Transaction B}
    (h : validateTransaction P tx = .ok ()) :
    ∀ ref ∈ tx.argumentRefs, ref.address ≠ tx.gasCoin.address := by
  intro ref href
  rw [Transaction.mem_argumentRefs] at href
  unfold validateTransaction at h
  split at h
  · rename_i call htype
    rw [htype] at href
    intro heq
    have hmem : tx.gasCoin.address ∈ call.objectAddresses :=
      List.mem_map.mpr ⟨ref, mem_objectArguments.mpr href, heq⟩
    have hnot : validateGasCoinNotInArgs call tx.gasCoin.address =
        .error (.gasCoinUsedAsCallArgument tx.gasCoin.address) :=
      if_pos (List.contains_iff_mem.mpr hmem)
    rw [hnot] at h
    cases hsize : validateTransactionSize P tx meowCallTransactionBcsBytesMaxSize with
    | error e => simp [hsize, bind, Except.bind] at h
    | ok _ =>
      cases hcount : validateCallArgsCount call with
      | error e => simp [hsize, hcount, bind, Except.bind] at h
      | ok _ => simp [hsize, hcount, bind, Except.bind] at h
  · rename_i bytes htype
    rw [htype] at href
    cases href

theorem isValidRewardTransaction_gasCoin {P : ChainPlatform B S K} {tx : Transaction B}
    {amount : UInt64} {miningHash : Digest}
    (h : isValidRewardTransaction P tx amount miningHash = true) :
    tx.gasCoin.version = .zero ∧ tx.gasCoin.digest = miningHash := by
  unfold isValidRewardTransaction at h
  split at h
  · cases h
  · simp only [Bool.and_eq_true, decide_eq_true_eq] at h
    exact ⟨h.1.1.1.1.2, h.1.1.1.2⟩

namespace Executed

variable {P : ChainPlatform B S K} {e : Executed B} {store store' : Store B}

/-- Whatever is executed has effects on stored inputs only, and its result is applied. -/
theorem Step.effects (h : e.Step P store store') :
    ∃ inputs, (∀ obj ∈ inputs, ∃ a : Address, store[a]? = some obj) ∧
      e.result.Effects P.toPlatform e.transaction e.refs inputs ∧
      ∃ ε : Type, store.applyExecutionResult (ε := ε) e.result = .ok store' := by
  cases e with
  | user context tx result =>
    obtain ⟨hexec, happly⟩ := Store.executeTransaction_eq_ok h.2
    exact ⟨_, Store.collectInputs_stored _, (execute_paid hexec).effects, _, happly⟩
  | reward miningHash tx result =>
    obtain ⟨-, hexec, happly⟩ := h
    obtain ⟨inputs, hinputs, hexec⟩ := Outcome.bind_eq_ok.mp hexec
    have hstored : ∀ obj ∈ inputs, ∃ a : Address, store[a]? = some obj := by
      intro obj hobj
      obtain ⟨a, -, ha⟩ := Outcome.mem_forEach hinputs hobj
      exact ⟨a, Outcome.expect_eq_ok.mp ha⟩
    unfold executeSystemTransaction at hexec
    split at hexec
    · exact ⟨inputs, hstored, executeType_effects hexec, _, happly⟩
    · cases hexec

theorem Step.changes (hstore : store.Keyed) (h : e.Step P store store') (a : Address) :
    e.transaction.Changes P.toPlatform e.refs e.result a store[a]? store'[a]? := by
  obtain ⟨inputs, hstored, heffects, _, happly⟩ := h.effects
  exact heffects.changes hstore hstored happly a

theorem Step.touched (hstore : store.Keyed) (h : e.Step P store store') {a : Address}
    (ha : e.Touches a) : ∃ old, store[a]? = some old := by
  obtain ⟨inputs, hstored, heffects, -⟩ := h.effects
  obtain ⟨obj, hobj, rfl⟩ := ha
  rcases List.mem_append.mp hobj with hchanged | hdestroyed
  · obtain ⟨old, hspendable, hsucceeds⟩ := heffects.changed obj hchanged
    obtain ⟨-, -, -, hold, -⟩ := hspendable.stored hstore hstored
    exact ⟨old, hsucceeds.address ▸ hold⟩
  · obtain ⟨old, hspendable, hsucceeds⟩ := heffects.destroyed obj hdestroyed
    obtain ⟨-, -, -, hold, -⟩ := hspendable.stored hstore hstored
    exact ⟨old, hsucceeds.address ▸ hold⟩

/-- A touched object is gone or has a higher version. -/
theorem Step.version_lt (hstore : store.Keyed) (h : e.Step P store store') {a : Address}
    (ha : e.Touches a) {old new : Object B} (hold : store[a]? = some old)
    (hnew : store'[a]? = some new) : old.version < new.version := by
  have hchanges := h.changes hstore a
  rw [hold, hnew] at hchanges
  cases hchanges with
  | kept hunchanged hundestroyed =>
    obtain ⟨obj, hobj, haddress⟩ := ha
    rcases List.mem_append.mp hobj with hmem | hmem
    · exact absurd haddress (hunchanged obj hmem)
    · exact absurd haddress (hundestroyed obj hmem)
  | changed _ _ _ hsucceeds =>
    exact UInt64.lt_iff_toNat_lt.mpr (ObjectVersion.lt_of_next hsucceeds.version)

theorem Step.untouched (hstore : store.Keyed) (h : e.Step P store store') {a : Address}
    (ha : ¬ e.Touches a) {obj : Object B} (hobj : store[a]? = some obj) :
    store'[a]? = some obj := by
  have hchanges := h.changes hstore a
  rw [hobj] at hchanges
  generalize store'[a]? = after at hchanges ⊢
  cases hchanges with
  | kept => rfl
  | changed _ _ _ hsucceeds hmem =>
    exact absurd ⟨_, List.mem_append_left _ hmem, hsucceeds.address.trans (hstore a obj hobj)⟩ ha
  | destroyed _ _ _ hmem haddress =>
    exact absurd ⟨_, List.mem_append_right _ hmem, haddress⟩ ha

theorem Step.keyed (hstore : store.Keyed) (h : e.Step P store store') : store'.Keyed := by
  cases e with
  | user context tx result =>
    exact hstore.applyExecutionResult (Store.executeTransaction_eq_ok h.2).2
  | reward miningHash tx result => exact hstore.applyExecutionResult h.2.2

theorem Step.genuine (hstore : store.Genuine) (h : e.Step P store store') : store'.Genuine where
  keyed := h.keyed hstore.keyed
  positive a obj hobj := by
    have hchanges := h.changes hstore.keyed a
    rw [hobj] at hchanges
    generalize hbefore : store[a]? = before at hchanges
    cases hchanges with
    | kept => exact hstore.positive a obj hbefore
    | created _ _ hversion =>
      rw [hversion]
      decide
    | changed _ _ _ hsucceeds =>
      have hlt := ObjectVersion.lt_of_next hsucceeds.version
      intro hzero
      rw [hzero] at hlt
      exact absurd hlt (Nat.not_lt_zero _)

theorem trace_genuine {labels : List (Executed B)} (hstore : store.Genuine)
    (h : Trace (Step P) store labels store') :
    Trace (fun e s t => s.Genuine ∧ Step P e s t) store labels store' :=
  h.strengthen (fun _ _ _ hs hstep => Step.genuine hs hstep) hstore

/-- In terms of versioned objects: creations at derived addresses, new versions and removals. -/
theorem Step.change (hstore : store.Keyed) (h : e.Step P store store') (a : Address) :
    Versions.Change (fun obj : Object B => obj.version.toNat) (e.Derives P a) store[a]?
      store'[a]? := by
  have hchanges := h.changes hstore a
  generalize store[a]? = before at hchanges ⊢
  generalize store'[a]? = after at hchanges ⊢
  cases hchanges with
  | kept => exact .keep _
  | created _ _ _ _ hderived => exact .create hderived
  | changed _ _ _ hsucceeds => exact .replace (ObjectVersion.lt_of_next hsucceeds.version)
  | destroyed => exact .remove _

theorem genuine_change (e : Executed B) (store store' : Store B)
    (h : store.Genuine ∧ e.Step P store store') (a : Address) :
    Versions.Change (fun obj : Object B => obj.version.toNat) (e.Derives P a) store[a]?
      store'[a]? :=
  Step.change h.1.keyed h.2 a

/-- A user transaction finds its gas coin in the version it names, and leaves it in a later one. -/
theorem Step.gasCoin {context : ExternalContext} {tx : Transaction B} {result : ExecutionResult B}
    (hstore : store.Keyed) (h : (Executed.user context tx result).Step P store store') :
    (∃ coin, store[tx.gasCoin.address]? = some coin ∧ coin.version = tx.gasCoin.version) ∧
    ∃ coin, store'[tx.gasCoin.address]? = some coin ∧
      tx.gasCoin.version.toNat < coin.version.toNat := by
  obtain ⟨hexec, -⟩ := Store.executeTransaction_eq_ok h.2
  obtain ⟨coin, hfound, haccepted, obj, hobj, hsucceeds⟩ := (execute_paid hexec).gasCoin
  have hcoin := hstore.getElem?_of_findInput (Store.collectInputs_stored _) hfound
  refine ⟨⟨coin, hcoin, haccepted.version⟩, ?_⟩
  have hchanges := h.changes hstore tx.gasCoin.address
  have haddress : obj.address = tx.gasCoin.address :=
    hsucceeds.address.trans (hstore _ _ hcoin)
  rw [hcoin] at hchanges
  generalize store'[tx.gasCoin.address]? = after at hchanges ⊢
  cases hchanges with
  | kept hunchanged => exact absurd haddress (hunchanged obj hobj)
  | @changed _ _ new _ _ _ hnew =>
    exact ⟨new, rfl, haccepted.version ▸ ObjectVersion.lt_of_next hnew.version⟩
  | destroyed href hrefAddress =>
    exact absurd hrefAddress (validateTransaction_gasCoin h.1 _ href)

end Executed

/-! ## Lines of blocks -/

section Line

variable {P : ChainPlatform B S K} {world : Set (Block B S)} {initialStore : Store B}

theorem validateTransaction_of_signed {signed : SignedTransaction B S}
    (h : validateSignedTransaction P.toPlatform P.toSigning signed = .ok ()) :
    validateTransaction P.toPlatform signed.transaction = .ok () := by
  unfold validateSignedTransaction at h
  cases hvalid : validateTransaction P.toPlatform signed.transaction with
  | error e => simp [hvalid, bind, Except.bind] at h
  | ok _ => rfl

theorem trace_of_reexecute {ext : ExternalContext} {store store' : Store B}
    {transactions : List (SignedTransaction B S)} {results : List (ExecutionResult B)}
    (hsigned : ∀ signed ∈ transactions,
      validateSignedTransaction P.toPlatform P.toSigning signed = .ok ())
    (h : ChainState.reexecute P ext store transactions = .ok (store', results)) :
    transactions.length = results.length ∧
    Trace (Executed.Step P) store
      ((transactions.zip results).map fun entry => .user ext entry.1.transaction entry.2)
      store' := by
  induction transactions generalizing store results with
  | nil =>
    cases h
    exact ⟨rfl, .nil⟩
  | cons signed rest ih =>
    obtain ⟨⟨next, result⟩, hnext, h⟩ := Outcome.bind_eq_ok.mp h
    obtain ⟨⟨last, results⟩, hrest, h⟩ := Outcome.map_eq_ok.mp h
    cases h
    rw [List.forall_mem_cons] at hsigned
    obtain ⟨hlength, htrace⟩ := ih hsigned.2 hrest
    refine ⟨congrArg (· + 1) hlength, .cons ?_ htrace⟩
    exact ⟨validateTransaction_of_signed hsigned.1, Outcome.mapErr_eq_ok.mp hnext⟩

variable [DecidableEq B]

theorem Block.Extends.trace {parent block : Block B S} {parentStore store : Store B}
    (h : Block.Extends P parent parentStore block store) :
    block.transactions.length = block.results.length ∧
    Trace (Executed.Step P) parentStore (block.executed P) store := by
  obtain ⟨executed, hrun, hreward, -⟩ := ChainState.replay_eq_ok.mp h.replayed
  obtain ⟨hlength, htrace⟩ := trace_of_reexecute h.signatures hrun
  refine ⟨hlength, htrace.trans ?_⟩
  obtain ⟨hnone, -, -, rfl⟩ | ⟨reward, result, hsome, hresult, -, -, hvalid, hexec, happly⟩ :=
    applyReward_eq_ok.mp hreward
  · rw [hnone]
    exact .nil
  · rw [hsome, hresult]
    exact .single ⟨⟨_, hvalid⟩, hexec, happly⟩

theorem Lineage.trace {block : Block B S} {store : Store B} {path : List (Block B S)}
    (h : Lineage P world initialStore block store path) :
    Trace (Executed.Step P) initialStore (executedAlong P path) store := by
  induction h with
  | genesis => exact .nil
  | child _ hextends _ _ ih =>
    rw [executedAlong_cons]
    exact ih.trans hextends.trace.2

theorem Lineage.keyed (hstart : initialStore.Keyed) {block : Block B S} {store : Store B}
    {path : List (Block B S)} (h : Lineage P world initialStore block store path) : store.Keyed :=
  h.trace.invariant (fun _ _ _ hs hstep => Executed.Step.keyed hs hstep) hstart

theorem Lineage.path_mem_world {block : Block B S} {store : Store B} {path : List (Block B S)}
    (h : Lineage P world initialStore block store path) : ∀ b ∈ path, b ∈ world := by
  induction h with
  | genesis => simp
  | child _ _ _ hmem ih => exact List.forall_mem_cons.mpr ⟨hmem, ih⟩

/-- Lines that end in the same hash run through the same transactions. -/
theorem Lineage.alike (hworld : CollisionFree P world) {b b' : Block B S}
    {s s' : Store B} {path path' : List (Block B S)} (h : Lineage P world initialStore b s path)
    (h' : Lineage P world initialStore b' s' path') (hhash : b.hash P = b'.hash P) :
    List.Forall₂ (fun b b' => b.transactions.map (·.transaction) =
      b'.transactions.map (·.transaction)) path path' := by
  induction h generalizing b' s' path' with
  | genesis =>
    cases h' with
    | genesis => exact .nil
    | child hparent' hextends' _ hmem' =>
      exact absurd hhash.symm
        (hworld.hash_ne_genesis hmem' (hparent'.mem_world hworld) hextends'.parentHash)
  | child hparent hextends hstructured hmem ih =>
    cases h' with
    | genesis =>
      exact absurd hhash
        (hworld.hash_ne_genesis hmem (hparent.mem_world hworld) hextends.parentHash)
    | child hparent' hextends' hstructured' hmem' =>
      have hheader := hworld.header _ hmem _ hmem' hhash
      exact .cons (hworld.same_transactions hmem hmem' hstructured hstructured' hhash).1
        (ih hparent' (by rw [← hextends.parentHash, ← hextends'.parentHash, hheader]))

theorem Lineage.exists_parent {block b : Block B S} {store : Store B} {path : List (Block B S)}
    (h : Lineage P world initialStore block store path) (hb : b ∈ path) :
    ∃ parent parentStore rest, Lineage P world initialStore parent parentStore rest ∧
      b.header.parentHash = parent.hash P ∧ rest.length < path.length := by
  induction h with
  | genesis => cases hb
  | child hparent hextends _ _ ih =>
    rcases List.mem_cons.mp hb with rfl | hb
    · exact ⟨_, _, _, hparent, hextends.parentHash, Nat.lt_succ_self _⟩
    · obtain ⟨parent, parentStore, rest, hrest, hlink, hlt⟩ := ih hb
      exact ⟨parent, parentStore, rest, hrest, hlink, Nat.lt_succ_of_lt hlt⟩

/-- Besides block hashes and digests of transactions, no two mining headers of blocks in `world`
collide, no address is derived from the digests of two of their transactions, and none of the
addresses that are taken at the start is derived from one. -/
structure Collisionless (P : ChainPlatform B S K) (world : Set (Block B S))
    (initialStore : Store B) : Prop extends CollisionFree P world where
  mining : ∀ b ∈ world, ∀ b' ∈ world, b.header.miningHash P = b'.header.miningHash P →
    b.header.mining = b'.header.mining
  derive : ∀ b ∈ world, ∀ b' ∈ world, ∀ t ∈ b.allTransactions, ∀ t' ∈ b'.allTransactions,
    ∀ n n', P.derive (t.digest P) 0 n = P.derive (t'.digest P) 0 n' → t.digest P = t'.digest P
  initial : ∀ b ∈ world, ∀ t ∈ b.allTransactions, ∀ n,
    initialStore[P.derive (t.digest P) 0 n]? = none

omit [DecidableEq B] in
theorem Block.mem_executed {block : Block B S} {e : Executed B} (he : e ∈ block.executed P) :
    ∃ t ∈ block.allTransactions, e.transaction = t.transaction ∧
      ∀ miningHash tx result, e = .reward miningHash tx result →
        miningHash = block.header.miningHash P := by
  rcases List.mem_append.mp he with huser | hreward
  · obtain ⟨⟨signed, result⟩, hentry, rfl⟩ := List.mem_map.mp huser
    exact ⟨signed, List.mem_append_left _ (List.of_mem_zip hentry).1, rfl,
      fun _ _ _ heq => by cases heq⟩
  · obtain ⟨⟨signed, result⟩, hentry, rfl⟩ := List.mem_map.mp hreward
    exact ⟨signed, List.mem_append_right _ (List.of_mem_zip hentry).1, rfl,
      fun _ _ _ heq => by cases heq; rfl⟩

omit [DecidableEq B] in
theorem mem_executedAlong {path : List (Block B S)} {e : Executed B}
    (he : e ∈ executedAlong P path) : ∃ b ∈ path, e ∈ b.executed P := by
  obtain ⟨b, hb, he⟩ := List.mem_flatMap.mp he
  exact ⟨b, List.mem_reverse.mp hb, he⟩

section Collisionless

variable (hworld : Collisionless P world initialStore) {path : List (Block B S)}
  (hpath : ∀ b ∈ path, b ∈ world)
include hworld hpath

omit [DecidableEq B] in
theorem Collisionless.transaction_eq {e e' : Executed B} (he : e ∈ executedAlong P path)
    (he' : e' ∈ executedAlong P path) (hdigest : e.digest P = e'.digest P) :
    e.transaction = e'.transaction := by
  obtain ⟨b, hb, he⟩ := mem_executedAlong he
  obtain ⟨b', hb', he'⟩ := mem_executedAlong he'
  obtain ⟨t, ht, htx, -⟩ := Block.mem_executed he
  obtain ⟨t', ht', htx', -⟩ := Block.mem_executed he'
  unfold Executed.digest at hdigest
  rw [htx, htx'] at hdigest ⊢
  exact hworld.transaction b (hpath b hb) b' (hpath b' hb') t ht t' ht' hdigest

omit [DecidableEq B] in
theorem Collisionless.fresh :
    Versions.Fresh (Executed.digest P) (Executed.Derives P)
      (fun a : Address => initialStore[a]?) (executedAlong P path) where
  apart e he e' he' a := by
    rintro ⟨n, hn⟩ ⟨n', hn'⟩
    obtain ⟨b, hb, he⟩ := mem_executedAlong he
    obtain ⟨b', hb', he'⟩ := mem_executedAlong he'
    obtain ⟨t, ht, htx, -⟩ := Block.mem_executed he
    obtain ⟨t', ht', htx', -⟩ := Block.mem_executed he'
    unfold Executed.digest at hn hn' ⊢
    rw [htx] at hn ⊢
    rw [htx'] at hn' ⊢
    exact hworld.derive b (hpath b hb) b' (hpath b' hb') t ht t' ht' n n' (hn.symm.trans hn')
  start a ha e he := by
    rintro ⟨n, rfl⟩
    obtain ⟨b, hb, he⟩ := mem_executedAlong he
    obtain ⟨t, ht, htx, -⟩ := Block.mem_executed he
    unfold Executed.digest at ha
    rw [htx] at ha
    exact ha (hworld.initial b (hpath b hb) t ht n)

end Collisionless

/-! ## No transaction is executed twice -/

omit [DecidableEq B] in
/-- Rewards are told from user transactions by the version of the gas coin. -/
theorem Executed.isReward_iff {labels : List (Executed B)} {store : Store B} {e : Executed B}
    (hstart : initialStore.Genuine) (h : Trace (Executed.Step P) initialStore labels store)
    (he : e ∈ labels) : e.isReward = true ↔ e.transaction.gasCoin.version = .zero := by
  obtain ⟨s, s', hs, hstep⟩ :=
    (trace_genuine hstart h).exists_step he
  cases e with
  | user context tx result =>
    obtain ⟨⟨coin, hcoin, hversion⟩, -⟩ := Step.gasCoin hs.keyed hstep
    have hpositive := hs.positive _ _ hcoin
    rw [hversion] at hpositive
    simpa [isReward, transaction] using hpositive
  | reward miningHash tx result =>
    obtain ⟨⟨amount, hvalid⟩, -⟩ := hstep
    simpa [isReward, transaction] using (isValidRewardTransaction_gasCoin hvalid).1

omit [DecidableEq B] in
theorem Executed.digests_nodup {labels : List (Executed B)} {store : Store B}
    (hstart : initialStore.Genuine) (h : Trace (Executed.Step P) initialStore labels store)
    (hsame : ∀ e ∈ labels, ∀ e' ∈ labels, e.digest P = e'.digest P →
      e.transaction = e'.transaction)
    (hfresh : Versions.Fresh (Executed.digest P) (Executed.Derives P)
      (fun a : Address => initialStore[a]?) labels)
    (hrewards : ((labels.filter Executed.isReward).map (Executed.digest P)).Nodup) :
    (labels.map (Executed.digest P)).Nodup := by
  induction labels using List.reverseRecOn generalizing store with
  | nil => exact List.nodup_nil
  | append_singleton rest e ih =>
    obtain ⟨t, hrest, hlast⟩ := Trace.cut h
    have hstep : e.Step P t store := by
      cases hlast with
      | cons hstep hnil =>
        cases hnil
        exact hstep
    have hmem : ∀ e' ∈ rest, e' ∈ rest ++ [e] := fun e' => List.mem_append_left _
    have hself : e ∈ rest ++ [e] := List.mem_append_right _ (List.mem_singleton.mpr rfl)
    rw [List.filter_append, List.map_append, List.nodup_append] at hrewards
    have hnodup := ih hrest (fun e₁ h₁ e₂ h₂ => hsame e₁ (hmem e₁ h₁) e₂ (hmem e₂ h₂))
      (hfresh.mono hmem) hrewards.1
    -- A label with the digest of `e` is a reward exactly when `e` is.
    have hkind : ∀ e' ∈ rest, e'.digest P = e.digest P →
        e'.transaction = e.transaction ∧ e'.isReward = e.isReward := by
      intro e' he' hdigest
      have htx := hsame e' (hmem e' he') e hself hdigest
      refine ⟨htx, Bool.eq_iff_iff.mpr ?_⟩
      rw [isReward_iff hstart h (hmem e' he'), isReward_iff hstart h hself, htx]
    have hnew : e.digest P ∉ rest.map (Executed.digest P) := by
      have htgenuine : t.Genuine := hrest.invariant (fun _ _ _ hs => Step.genuine hs) hstart
      cases e with
      | user context tx result =>
        obtain ⟨⟨coin, hcoin, hversion⟩, -⟩ := Step.gasCoin htgenuine.keyed hstep
        refine Versions.key_notMem genuine_change
          (trace_genuine hstart hrest) (hfresh.mono hmem) hnodup ?_ hcoin
          (congrArg UInt64.toNat hversion)
        intro e' he' hdigest s s' hstep'
        obtain ⟨htx, hreward⟩ := hkind e' he' hdigest
        cases e' with
        | reward => cases hreward
        | user context' tx' result' =>
          obtain rfl : tx' = tx := htx
          exact (Step.gasCoin hstep'.1.keyed hstep'.2).2
      | reward miningHash tx result =>
        intro hold
        obtain ⟨e', he', hdigest⟩ := List.mem_map.mp hold
        refine hrewards.2.2 _ (List.mem_map_of_mem (List.mem_filter.mpr
          ⟨he', (hkind e' he' hdigest).2⟩)) _ ?_ hdigest
        simp [isReward]
    rw [List.map_append, List.nodup_append]
    refine ⟨hnodup, by simp, ?_⟩
    rintro digest hdigest _ hlast rfl
    rw [List.map_singleton, List.mem_singleton] at hlast
    exact hnew (hlast ▸ hdigest)

omit [DecidableEq B] in
theorem Block.nodup_rewards (block : Block B S) :
    (((block.executed P).filter Executed.isReward).map (Executed.digest P)).Nodup := by
  have husers : ((block.transactions.zip block.results).map fun entry =>
      Executed.user (block.header.context P) entry.1.transaction entry.2).filter
        Executed.isReward = [] := by
    rw [List.filter_eq_nil_iff]
    intro e he
    obtain ⟨_, -, rfl⟩ := List.mem_map.mp he
    simp [Executed.isReward]
  unfold Block.executed
  rw [List.filter_append, husers, List.nil_append]
  refine List.Nodup.sublist (List.filter_sublist.map _) ?_
  cases block.rewardTransaction <;> cases block.rewardTransactionResult <;> simp

/-- Rewards along a line are for different work: the mining hash covers the parent. -/
theorem Lineage.nodup_rewards (hworld : Collisionless P world initialStore) {block : Block B S}
    {store : Store B} {path : List (Block B S)}
    (h : Lineage P world initialStore block store path) :
    (((executedAlong P path).filter Executed.isReward).map (Executed.digest P)).Nodup := by
  induction h with
  | genesis => exact List.nodup_nil
  | @child parent block parentStore store path now difficulty hparent hextends hstructured hmem ih =>
    have hline := Lineage.child hparent hextends hstructured hmem
    rw [executedAlong_cons, List.filter_append, List.map_append, List.nodup_append]
    refine ⟨ih, block.nodup_rewards, ?_⟩
    intro digest hold _ hnew rfl
    obtain ⟨e, he, hdigest⟩ := List.mem_map.mp hold
    obtain ⟨e', he', hdigest'⟩ := List.mem_map.mp hnew
    obtain ⟨he, hreward⟩ := List.mem_filter.mp he
    obtain ⟨he', hreward'⟩ := List.mem_filter.mp he'
    have hall : e ∈ executedAlong P (block :: path) ∧ e' ∈ executedAlong P (block :: path) := by
      rw [executedAlong_cons]
      exact ⟨List.mem_append_left _ he, List.mem_append_right _ he'⟩
    have htx := hworld.transaction_eq hline.path_mem_world hall.1 hall.2
      (hdigest.trans hdigest'.symm)
    obtain ⟨b, hb, heb⟩ := mem_executedAlong he
    obtain ⟨-, -, -, hhash⟩ := Block.mem_executed heb
    obtain ⟨-, -, -, hhash'⟩ := Block.mem_executed he'
    have hmining : b.header.miningHash P = block.header.miningHash P := by
      obtain ⟨_, _, hstep⟩ := hline.trace.exists_step hall.1
      obtain ⟨_, _, hstep'⟩ := hline.trace.exists_step hall.2
      cases e with
      | user => cases hreward
      | reward miningHash tx result =>
        cases e' with
        | user => cases hreward'
        | reward miningHash' tx' result' =>
          obtain ⟨⟨_, hvalid⟩, -⟩ := hstep
          obtain ⟨⟨_, hvalid'⟩, -⟩ := hstep'
          obtain rfl : tx = tx' := htx
          rw [← hhash _ _ _ rfl, ← hhash' _ _ _ rfl,
            ← (isValidRewardTransaction_gasCoin hvalid).2,
            ← (isValidRewardTransaction_gasCoin hvalid').2]
    have hheader := hworld.mining b (hparent.path_mem_world b hb) block hmem hmining
    obtain ⟨parent', parentStore', rest, hrest, hlink, hlt⟩ := hparent.exists_parent hb
    have hparents : parent.hash P = parent'.hash P := by
      rw [← hextends.parentHash, ← hlink]
      exact (congrArg MiningBlockHeader.parentHash hheader).symm
    have hlength := (hparent.alike hworld.toCollisionFree hrest hparents).length_eq
    omega

/-- No digest is executed twice along a line. -/
theorem Lineage.digests_nodup (hworld : Collisionless P world initialStore)
    (hstart : initialStore.Genuine) {block : Block B S} {store : Store B}
    {path : List (Block B S)} (h : Lineage P world initialStore block store path) :
    ((executedAlong P path).map (Executed.digest P)).Nodup :=
  Executed.digests_nodup hstart h.trace
    (fun _ he _ he' => hworld.transaction_eq h.path_mem_world he he')
    (hworld.fresh h.path_mem_world) (h.nodup_rewards hworld)

/-- Between two points of a line, an object is the same or has got a higher version. -/
theorem Lineage.ascends (hworld : Collisionless P world initialStore)
    (hstart : initialStore.Genuine) {block : Block B S} {store : Store B}
    {path : List (Block B S)} (h : Lineage P world initialStore block store path)
    {before between after : List (Executed B)}
    (hsplit : executedAlong P path = before ++ between ++ after) {store₁ store₂ : Store B}
    (h₁ : Trace (Executed.Step P) initialStore before store₁)
    (h₂ : Trace (Executed.Step P) store₁ between store₂) {a : Address} {obj obj' : Object B}
    (hobj : store₁[a]? = some obj) (hobj' : store₂[a]? = some obj') :
    obj = obj' ∨ obj.version.toNat < obj'.version.toNat := by
  have hgenuine : store₁.Genuine := h₁.invariant (fun _ _ _ hs hstep => hstep.genuine hs) hstart
  have hnodup := h.digests_nodup hworld hstart
  rw [hsplit, List.map_append] at hnodup
  refine Versions.ascends Executed.genuine_change
    (Executed.trace_genuine hstart h₁) (Executed.trace_genuine hgenuine h₂)
    ((hworld.fresh h.path_mem_world).mono ?_) (List.nodup_append.mp hnodup).1 hobj hobj'
  intro e he
  rw [hsplit]
  exact List.mem_append_left _ he

/-- An object that is gone at some point of a line stays away. -/
theorem Lineage.removed (hworld : Collisionless P world initialStore)
    (hstart : initialStore.Genuine) {block : Block B S} {store : Store B}
    {path : List (Block B S)} (h : Lineage P world initialStore block store path)
    {before between next after : List (Executed B)}
    (hsplit : executedAlong P path = before ++ (between ++ next) ++ after)
    {store₁ store₂ store₃ : Store B} (h₁ : Trace (Executed.Step P) initialStore before store₁)
    (h₂ : Trace (Executed.Step P) store₁ between store₂)
    (h₃ : Trace (Executed.Step P) store₂ next store₃) {a : Address} (ha : store₁[a]? ≠ none)
    (hgone : store₂[a]? = none) : store₃[a]? = none := by
  have hgenuine : store₂.Genuine :=
    (h₁.trans h₂).invariant (fun _ _ _ hs hstep => hstep.genuine hs) hstart
  have hnodup := h.digests_nodup hworld hstart
  rw [hsplit, List.map_append] at hnodup
  refine Versions.removed Executed.genuine_change
    (Executed.trace_genuine hstart h₁) (Executed.trace_genuine hgenuine h₃)
    ((hworld.fresh h.path_mem_world).mono ?_) (List.nodup_append.mp hnodup).1 ha hgone
  intro e he
  rw [hsplit]
  exact List.mem_append_left _ he

theorem Lineage.sublist_executedAlong {block : Block B S} {store : Store B}
    {path : List (Block B S)} (h : Lineage P world initialStore block store path) :
    (path.reverse.flatMap fun b => b.transactions.map (SignedTransaction.digest P)).Sublist
      ((executedAlong P path).map (Executed.digest P)) := by
  induction h with
  | genesis => exact .slnil
  | @child parent block parentStore store path now difficulty hparent hextends hstructured hmem ih =>
    rw [executedAlong_cons, List.map_append, List.reverse_cons, List.flatMap_append]
    refine ih.append ?_
    have husers : ((block.transactions.zip block.results).map fun entry =>
        Executed.user (block.header.context P) entry.1.transaction entry.2).map
          (Executed.digest P) = block.transactions.map (SignedTransaction.digest P) := by
      rw [List.map_map]
      show (block.transactions.zip block.results).map (SignedTransaction.digest P ∘ Prod.fst) = _
      rw [← List.map_map, List.map_fst_zip (hextends.trace.1.le)]
    simp only [List.flatMap_singleton, Block.executed, List.map_append, husers]
    exact List.sublist_append_left _ _

/-- Along every line of accepted blocks: no user transaction is executed twice; a transaction that
touches an object leaves it in a higher version or not at all, and leaves the others alone; and
where an object was destroyed there is never one again. -/
theorem replay_protection (hworld : Collisionless P world initialStore)
    (hstart : initialStore.Genuine) {block : Block B S} {store : Store B}
    {path : List (Block B S)} (h : Lineage P world initialStore block store path) :
    (path.reverse.flatMap fun b => b.transactions.map (SignedTransaction.digest P)).Nodup ∧
    Trace (Executed.Step P) initialStore (executedAlong P path) store ∧
    ∀ (before : List (Executed B)) (e : Executed B) (after : List (Executed B)),
      executedAlong P path = before ++ e :: after → ∀ store₁ store₂ : Store B,
      Trace (Executed.Step P) initialStore before store₁ → e.Step P store₁ store₂ →
      ∀ a : Address,
        (e.Touches a → ∃ old, store₁[a]? = some old ∧
          ∀ new, store₂[a]? = some new → old.version < new.version) ∧
        (¬ e.Touches a → ∀ obj, store₁[a]? = some obj → store₂[a]? = some obj) ∧
        (store₁[a]? ≠ none → store₂[a]? = none → ∀ next rest store₃, after = next ++ rest →
          Trace (Executed.Step P) store₂ next store₃ → store₃[a]? = none) := by
  refine ⟨(h.digests_nodup hworld hstart).sublist h.sublist_executedAlong, h.trace, ?_⟩
  intro before e after hsplit store₁ store₂ h₁ hstep a
  have hkeyed : store₁.Keyed :=
    (h₁.invariant (fun _ _ _ hs hstep => Executed.Step.genuine hs hstep) hstart).keyed
  refine ⟨?_, fun ha obj hobj => hstep.untouched hkeyed ha hobj, ?_⟩
  · intro ha
    obtain ⟨old, hold⟩ := hstep.touched hkeyed ha
    exact ⟨old, hold, fun new hnew => hstep.version_lt hkeyed ha hold hnew⟩
  · rintro ha hgone next rest store₃ rfl h₃
    have hsplit' : executedAlong P path = before ++ ([e] ++ next) ++ rest := by
      rw [hsplit]
      simp
    exact h.removed hworld hstart hsplit' h₁ (.single hstep) h₃ ha hgone

end Line

/-! ## The ledger of the small chain -/

namespace Sample

theorem genuine_of_list {objects : List (Object Bytes)}
    (h : ∀ obj ∈ objects, obj.version ≠ .zero) : (Store.withObjects objects).Genuine where
  keyed := Store.keyed_withObjects _
  positive _ obj hobj := h obj (Store.mem_of_withObjects hobj)

theorem genesisStore_genuine : genesisStore.Genuine :=
  genuine_of_list (by decide)

theorem lower_of_list {objects : List (Object Bytes)}
    (h : ∀ obj ∈ objects, obj.address.toNat / 2 ^ 128 = 0) {a : Address} {obj : Object Bytes}
    (hobj : (Store.withObjects objects)[a]? = some obj) : a.toNat / 2 ^ 128 = 0 := by
  rw [← Store.keyed_withObjects _ a obj hobj]
  exact h obj (Store.mem_of_withObjects hobj)

/-- The upper half of a derived address is the lower half of the digest. -/
theorem derive_upper (d : Digest) (n : ℕ) :
    (chainPlatform.derive d 0 n).toNat / 2 ^ 128 = d.toNat % 2 ^ 128 := by
  have hn : n % 2 ^ 128 < 2 ^ 128 := Nat.mod_lt _ (by decide)
  have hd : d.toNat % 2 ^ 128 < 2 ^ 128 := Nat.mod_lt _ (by decide)
  show (BitVec.ofNat 256 (d.toNat % 2 ^ 128 * 2 ^ 128 + n % 2 ^ 128)).toNat / 2 ^ 128 = _
  rw [BitVec.toNat_ofNat, Nat.mod_eq_of_lt (by omega)]
  omega

theorem collisionless_of_list {blocks : List (Block Bytes (Address × Digest))}
    {initialStore : Store Bytes}
    (hlower : ∀ (a : Address) (obj : Object Bytes), initialStore[a]? = some obj →
      a.toNat / 2 ^ 128 = 0)
    (hfree : CollisionFree chainPlatform { block | block ∈ blocks })
    (h : ∀ b ∈ blocks, ∀ b' ∈ blocks,
      (b.header.miningHash chainPlatform = b'.header.miningHash chainPlatform →
        b.header.mining = b'.header.mining) ∧
      ∀ t ∈ b.allTransactions, (t.digest chainPlatform).toNat % 2 ^ 128 ≠ 0 ∧
        ∀ t' ∈ b'.allTransactions,
          (t.digest chainPlatform).toNat % 2 ^ 128 = (t'.digest chainPlatform).toNat % 2 ^ 128 →
            t.digest chainPlatform = t'.digest chainPlatform) :
    Collisionless chainPlatform { block | block ∈ blocks } initialStore where
  toCollisionFree := hfree
  mining b hb b' hb' := (h b hb b' hb').1
  derive b hb b' hb' t ht t' ht' n n' heq := by
    refine ((h b hb b' hb').2 t ht).2 t' ht' ?_
    rw [← derive_upper _ n, ← derive_upper _ n', heq]
  initial b hb t ht n := by
    by_contra hsome
    obtain ⟨obj, hobj⟩ := Option.ne_none_iff_exists'.mp hsome
    exact ((h b hb b hb).2 t ht).1 ((derive_upper _ n).symm.trans (hlower _ obj hobj))

theorem firstBlocks_collisionless :
    Collisionless chainPlatform { block | block ∈ firstBlocks } genesisStore :=
  collisionless_of_list (fun _ _ => lower_of_list (by decide)) firstBlocks_collisionFree
    (by decide +kernel)

theorem bareStore_genuine : bareStore.Genuine :=
  genuine_of_list (by decide)

theorem forkBlocks_collisionless :
    Collisionless chainPlatform { block | block ∈ forkBlocks } bareStore :=
  collisionless_of_list (fun _ _ => lower_of_list (by decide)) forkBlocks_collisionFree
    (by decide +kernel)

end Sample

open Sample in
/-- Four blocks, with one call each that the same coin pays. -/
theorem replay_protection_mined :
    ∃ (node : Node chainPlatform) (path : List (Block Bytes (Address × Digest))),
      node.miner.chain.headHeight = 4 ∧ Ancestry chainPlatform node.miner.chain.headBlock path ∧
      (path.reverse.flatMap fun b =>
        b.transactions.map (SignedTransaction.digest chainPlatform)).Nodup := by
  obtain ⟨node, hnode, hheight⟩ := Outcome.exists_of_isOkAnd
    (x := mineLine (growsIn forkBlocks) 9 shallowNode [5, 6, 7, 8])
    (p := fun node : Node chainPlatform => decide (node.miner.chain.headHeight = 4))
    (by decide +kernel)
  obtain ⟨path, hpath⟩ := (Node.historic_of_run chainPlatform_lawful
    (run_of_mineLine growsIn_sound hnode)).known _ _ _ node.miner.chain.getElem?_head
      node.miner.chain.getElem?_head_snapshot
  exact ⟨node, path, of_decide_eq_true hheight, hpath.ancestry.1,
    (replay_protection forkBlocks_collisionless bareStore_genuine hpath).1⟩

end MeowChain
