import MeowChain.Chain.Returning

/-!
# Grinding

`grind` is two nested loops: the inner one tries nonces, the outer one executes the batch and starts
again with what survived. Both loops are described with the number of turns they take. The outer one
ends because the header commits to the batch: a turn whose root differs has dropped a transaction.
-/

set_option autoImplicit false

namespace MeowChain

variable {B S K : Type} (P : ChainPlatform B S K)

/-! ## The two loops -/

/-- The inner loop from a nonce on: how many nonces it tries and the header it ends with, if any. -/
inductive NonceSearch (difficulty : ℕ) (header : BlockHeader) :
    UInt64 → ℕ → Option BlockHeader → Prop
  | found {nonce : UInt64}
      (hmeets : ({ header with nonce } : BlockHeader).meetsDifficulty P difficulty = true) :
      NonceSearch difficulty header nonce 1 (some { header with nonce })
  | exhausted {nonce : UInt64}
      (hmisses : ({ header with nonce } : BlockHeader).meetsDifficulty P difficulty = false)
      (hlast : nonce.toNat + 1 = 2 ^ 64) :
      NonceSearch difficulty header nonce 1 none
  | next {nonce : UInt64} {tried : ℕ} {result : Option BlockHeader}
      (hmisses : ({ header with nonce } : BlockHeader).meetsDifficulty P difficulty = false)
      (hroom : nonce.toNat + 1 < 2 ^ 64)
      (hrest : NonceSearch difficulty header (nonce + 1) tried result) :
      NonceSearch difficulty header nonce (tried + 1) result

/-- A turn of the outer loop starts with a search from nonce 0 that tries at most 2^64 nonces. -/
def SearchesNonce (work : MiningWork B S K) (header : BlockHeader)
    (result : Option BlockHeader) : Prop :=
  ∃ tried ≤ 2 ^ 64, NonceSearch P work.difficulty header 0 tried result

/-- The outer loop from a header and a batch on: how many turns it takes and what it ends with. -/
inductive GrindLoop (work : MiningWork B S K) : ℕ → BlockHeader → List (SignedTransaction B S) →
    Outcome Empty (Option (Block B S × Store B)) → Prop
  | exhausted {header : BlockHeader} {batch : List (SignedTransaction B S)}
      (hsearch : SearchesNonce P work header none) :
      GrindLoop work 1 header batch (.ok none)
  | panicked {header found : BlockHeader} {batch : List (SignedTransaction B S)} {message : String}
      (hsearch : SearchesNonce P work header (some found))
      (hrun : executeBatch P (found.context P) work.parentStore batch = .panic message) :
      GrindLoop work 1 header batch (.panic message)
  | diverged {header found : BlockHeader} {batch : List (SignedTransaction B S)}
      (hsearch : SearchesNonce P work header (some found))
      (hrun : executeBatch P (found.context P) work.parentStore batch = .diverge) :
      GrindLoop work 1 header batch .diverge
  | dropped {header found : BlockHeader} {batch : List (SignedTransaction B S)} {run : BatchRun B S}
      (hsearch : SearchesNonce P work header (some found))
      (hrun : executeBatch P (found.context P) work.parentStore batch = .ok run)
      (hempty : run.executed = []) :
      GrindLoop work 1 header batch (.ok none)
  | sealed {header found : BlockHeader} {batch : List (SignedTransaction B S)} {run : BatchRun B S}
      (hsearch : SearchesNonce P work header (some found))
      (hrun : executeBatch P (found.context P) work.parentStore batch = .ok run)
      (hne : run.executed ≠ [])
      (hroot : computeTransactionsRoot P run.transactions = found.transactionsRoot) :
      GrindLoop work 1 header batch ((sealBlock P work found run).map some)
  | again {header found : BlockHeader} {batch : List (SignedTransaction B S)} {run : BatchRun B S}
      {turns : ℕ} {outcome : Outcome Empty (Option (Block B S × Store B))}
      (hsearch : SearchesNonce P work header (some found))
      (hrun : executeBatch P (found.context P) work.parentStore batch = .ok run)
      (hne : run.executed ≠ [])
      (hroot : computeTransactionsRoot P run.transactions ≠ found.transactionsRoot)
      (hrest : GrindLoop work turns
        { found with transactionsRoot := computeTransactionsRoot P run.transactions }
        run.transactions outcome) :
      GrindLoop work (turns + 1) header batch outcome

variable {P}

/-! ## The nonces -/

theorem nonceSearch_findNonce (difficulty : ℕ) (header : BlockHeader) {count : ℕ} {nonce : UInt64}
    (hcount : nonce.toNat + (count + 1) = 2 ^ 64) :
    ∃ tried ≤ count + 1,
      NonceSearch P difficulty header nonce tried
        (findNonce P difficulty header (count + 1) nonce) := by
  induction count generalizing nonce with
  | zero =>
    unfold findNonce
    cases hmeets : ({ header with nonce } : BlockHeader).meetsDifficulty P difficulty with
    | true => exact ⟨1, le_rfl, by simpa [hmeets] using .found hmeets⟩
    | false => exact ⟨1, le_rfl, by simpa [hmeets, findNonce] using .exhausted hmeets hcount⟩
  | succ count ih =>
    unfold findNonce
    cases hmeets : ({ header with nonce } : BlockHeader).meetsDifficulty P difficulty with
    | true => exact ⟨1, by omega, by simpa [hmeets] using .found hmeets⟩
    | false =>
      have hnext : (nonce + 1).toNat = nonce.toNat + 1 := by
        rw [UInt64.toNat_add, Nat.mod_eq_of_lt (by simp; omega)]
        rfl
      obtain ⟨tried, htried, hsearch⟩ := @ih (nonce + 1) (by omega)
      refine ⟨tried + 1, by omega, ?_⟩
      simpa [hmeets] using .next hmeets (by omega) hsearch

theorem searchesNonce_findNonce (work : MiningWork B S K) (header : BlockHeader) :
    SearchesNonce P work header (findNonce P work.difficulty header nonceCount 0) := by
  have hcount : (0 : UInt64).toNat + (2 ^ 64 - 1 + 1) = 2 ^ 64 := by decide
  exact nonceSearch_findNonce work.difficulty header hcount

theorem NonceSearch.some_eq {difficulty : ℕ} {header found : BlockHeader} {nonce : UInt64}
    {tried : ℕ} (h : NonceSearch P difficulty header nonce tried (some found)) :
    found.transactionsRoot = header.transactionsRoot := by
  generalize hresult : some found = result at h
  induction h with
  | found =>
    cases hresult
    rfl
  | exhausted => cases hresult
  | next _ _ _ ih => exact ih hresult

/-! ## The turns -/

/-- The fuel of the model is no limit: the header commits to the batch, so a turn that does not end
the loop leaves a shorter batch. -/
theorem grindLoop_grindRounds (work : MiningWork B S K) {rounds : ℕ} {header : BlockHeader}
    {batch : List (SignedTransaction B S)}
    (hcommits : header.transactionsRoot = computeTransactionsRoot P batch)
    (hrounds : batch.length < rounds) :
    ∃ turns ≤ batch.length + 1,
      GrindLoop P work turns header batch (grindRounds P work rounds header batch) := by
  induction rounds generalizing header batch with
  | zero => omega
  | succ rounds ih =>
    have hsearch := searchesNonce_findNonce (P := P) work header
    unfold grindRounds
    cases hfound : findNonce P work.difficulty header nonceCount 0 with
    | none => exact ⟨1, by omega, .exhausted (hfound ▸ hsearch)⟩
    | some found =>
      rw [hfound] at hsearch
      dsimp only
      cases hrun : executeBatch P (found.context P) work.parentStore batch with
      | err e => exact e.elim
      | panic message => exact ⟨1, by omega, .panicked hsearch hrun⟩
      | diverge => exact ⟨1, by omega, .diverged hsearch hrun⟩
      | ok run =>
        simp only [Outcome.bind]
        by_cases hempty : run.executed = []
        · rw [if_pos (by simp [hempty])]
          exact ⟨1, by omega, .dropped hsearch hrun hempty⟩
        rw [if_neg (by simpa using hempty)]
        by_cases hroot : computeTransactionsRoot P run.transactions = found.transactionsRoot
        · rw [if_pos hroot]
          exact ⟨1, by omega, .sealed hsearch hrun hempty hroot⟩
        rw [if_neg hroot]
        have hsub := (executeBatch_eq_ok hrun).1
        have hshorter : run.transactions.length < batch.length := by
          refine lt_of_le_of_ne hsub.length_le fun hlength => hroot ?_
          obtain ⟨tried, -, hfrom⟩ := hsearch
          rw [hsub.eq_of_length hlength, hfrom.some_eq, hcommits]
        obtain ⟨turns, hturns, hloop⟩ := @ih
          { found with transactionsRoot := computeTransactionsRoot P run.transactions }
          run.transactions rfl (by omega)
        exact ⟨turns + 1, by omega, .again hsearch hrun hempty hroot hloop⟩

/-! ## The block -/

/-- The transactions execute one after the other, each on the store the ones before it left, and
give these results. -/
def ExecuteInTurn (P : ChainPlatform B S K) (ext : ExternalContext) :
    Store B → List (SignedTransaction B S) → List (ExecutionResult B) → Prop
  | _, [], [] => True
  | store, signed :: rest, result :: results =>
    ∃ next, store.executeTransaction P.toPlatform ext signed.transaction = .ok (next, result) ∧
      ExecuteInTurn P ext next rest results
  | _, _, _ => False

theorem executeInTurn_of_executeBatch {ext : ExternalContext} {store : Store B}
    {batch : List (SignedTransaction B S)} {run : BatchRun B S}
    (h : executeBatch P ext store batch = .ok run) :
    ExecuteInTurn P ext store run.transactions run.results := by
  induction batch generalizing store run with
  | nil =>
    cases h
    trivial
  | cons signed rest ih =>
    unfold executeBatch at h
    cases hnext : store.executeTransaction P.toPlatform ext signed.transaction with
    | ok next =>
      rw [hnext] at h
      obtain ⟨run', hrun', rfl⟩ := Outcome.map_eq_ok.mp h
      exact ⟨next.1, hnext, ih hrun'⟩
    | err e =>
      rw [hnext] at h
      exact ih h
    | panic message => rw [hnext] at h; cases h
    | diverge => rw [hnext] at h; cases h

structure Ground (P : ChainPlatform B S K) (work : MiningWork B S K)
    (batch : List (SignedTransaction B S)) (block : Block B S) : Prop where
  nonempty : block.transactions ≠ []
  subsequence : block.transactions.Sublist batch
  inTurn : ExecuteInTurn P
    { randSeed := block.header.miningHash P, timestamp := block.header.timestamp }
    work.parentStore block.transactions block.results

theorem GrindLoop.ground {work : MiningWork B S K} {turns : ℕ} {header : BlockHeader}
    {batch : List (SignedTransaction B S)} {block : Block B S} {store : Store B}
    (h : GrindLoop P work turns header batch (.ok (some (block, store)))) :
    Ground P work batch block := by
  generalize houtcome : (Outcome.ok (some (block, store)) :
    Outcome Empty (Option (Block B S × Store B))) = outcome at h
  induction h with
  | exhausted => cases houtcome
  | panicked => cases houtcome
  | diverged => cases houtcome
  | dropped => cases houtcome
  | @sealed header found batch run _ hrun hne _ =>
    obtain ⟨mined, hsealed, hmined⟩ := Outcome.map_eq_ok.mp houtcome.symm
    cases hmined
    obtain ⟨⟨minted, store'⟩, -, hpair⟩ := Outcome.map_eq_ok.mp hsealed
    obtain ⟨rfl, rfl⟩ := Prod.mk.inj hpair
    -- The reward and state roots, set last, are not part of the mining hash.
    exact {
      nonempty := by simpa [BatchRun.transactions] using hne
      subsequence := (executeBatch_eq_ok hrun).1
      inTurn := executeInTurn_of_executeBatch hrun }
  | again _ hrun _ _ _ ih =>
    have hrest := ih houtcome
    exact { hrest with subsequence := hrest.subsequence.trans (executeBatch_eq_ok hrun).1 }

/-- One execution that does not return is the only thing the loop can be stuck in. -/
def StuckExecution (P : ChainPlatform B S K) (work : MiningWork B S K)
    (batch : List (SignedTransaction B S)) : Prop :=
  (∃ signed ∈ batch, ∃ (store : Store B) (ext : ExternalContext),
    store.executeTransaction P.toPlatform ext signed.transaction = .diverge) ∨
  ∃ header total store, mintReward P work header total store = .diverge

section Ends

variable {I : Store B → Prop}

/-- On stores of which `I` holds every execution of the batch returns, and `I` stays. -/
theorem executeBatch_ends (ext : ExternalContext) {store : Store B}
    {batch : List (SignedTransaction B S)}
    (hkeeps : ∀ {store : Store B} {tx : Transaction B} {next : Store B × ExecutionResult B},
      I store → store.executeTransaction P.toPlatform ext tx = .ok next → I next.1)
    (hends : ∀ signed ∈ batch, ∀ store : Store B, I store →
      (store.executeTransaction P.toPlatform ext signed.transaction).Ends) (h : I store) :
    (executeBatch P ext store batch).Ends ∧
      ∀ run, executeBatch P ext store batch = .ok run → I run.store := by
  induction batch generalizing store with
  | nil =>
    refine ⟨trivial, fun run hrun => ?_⟩
    cases hrun
    exact h
  | cons signed rest ih =>
    have hrest {store : Store B} := @ih store fun other hother =>
      hends other (List.mem_cons_of_mem _ hother)
    unfold executeBatch
    cases hnext : store.executeTransaction P.toPlatform ext signed.transaction with
    | ok next =>
      obtain ⟨hended, hkept⟩ := hrest (hkeeps h hnext)
      refine ⟨Outcome.bind_ends hended fun _ _ => trivial, fun run hrun => ?_⟩
      obtain ⟨run', hrun', rfl⟩ := Outcome.map_eq_ok.mp hrun
      exact hkept run' hrun'
    | err e => exact hrest h
    | panic message => exact ⟨trivial, fun run hrun => (by cases hrun)⟩
    | diverge => exact absurd hnext (hends signed List.mem_cons_self store h).ne_diverge

theorem GrindLoop.ends {work : MiningWork B S K} {turns : ℕ} {header : BlockHeader}
    {batch : List (SignedTransaction B S)}
    {outcome : Outcome Empty (Option (Block B S × Store B))}
    (h : GrindLoop P work turns header batch outcome) (hstart : I work.parentStore)
    (hkeeps : ∀ {ext : ExternalContext} {store : Store B} {tx : Transaction B}
      {next : Store B × ExecutionResult B}, I store →
        store.executeTransaction P.toPlatform ext tx = .ok next → I next.1)
    (hmint : ∀ header total store, I store → (mintReward P work header total store).Ends)
    (hends : ∀ signed ∈ batch, ∀ (ext : ExternalContext) (store : Store B), I store →
      (store.executeTransaction P.toPlatform ext signed.transaction).Ends) : outcome.Ends := by
  induction h with
  | @diverged header found batch _ hrun =>
    have hbatch := executeBatch_ends (found.context P) hkeeps
      (fun signed hmem => hends signed hmem _) hstart
    exact absurd hrun hbatch.1.ne_diverge
  | @sealed header found batch run _ hrun =>
    have hbatch := executeBatch_ends (found.context P) hkeeps
      (fun signed hmem => hends signed hmem _) hstart
    exact Outcome.bind_ends (Outcome.bind_ends (hmint _ _ _ (hbatch.2 _ hrun)) fun _ _ => trivial)
      fun _ _ => trivial
  | again _ hrun _ _ _ ih =>
    exact ih fun signed hmem => hends signed ((executeBatch_eq_ok hrun).1.subset hmem)
  | _ => exact trivial

end Ends

theorem GrindLoop.stuck {work : MiningWork B S K} {turns : ℕ} {header : BlockHeader}
    {batch : List (SignedTransaction B S)} (h : GrindLoop P work turns header batch .diverge) :
    StuckExecution P work batch := by
  by_contra hnone
  obtain ⟨hexecutes, hmints⟩ := not_or.mp hnone
  exact h.ends (I := fun _ => True) trivial (fun _ _ => trivial)
    (fun header total store _ => Outcome.ends_iff.mpr fun hstuck =>
      hmints ⟨header, total, store, hstuck⟩)
    fun signed hmem ext store _ => Outcome.ends_iff.mpr fun hstuck =>
      hexecutes ⟨signed, hmem, store, ext, hstuck⟩

theorem GrindLoop.ends_of_modulesAccepted {work : MiningWork B S K} {turns : ℕ}
    {header : BlockHeader} {batch : List (SignedTransaction B S)}
    {outcome : Outcome Empty (Option (Block B S × Store B))}
    (h : GrindLoop P work turns header batch outcome)
    (hmodules : work.parentStore.ModulesAccepted P.toPlatform) : outcome.Ends :=
  h.ends hmodules (fun hstore hnext => hstore.executeTransaction hnext)
    (fun header total _ hstore => hstore.mintReward work header total)
    fun _ _ ext _ hstore => hstore.executeTransaction_ends ext _

theorem grindLoop_of_prepareRound {miner miner' : Miner P} {now : UInt64}
    {work : MiningWork B S K} (hwork : miner.prepareRound now = (some work, miner')) :
    ∃ turns ≤ work.batch.length + 1,
      GrindLoop P work turns work.header work.batch (work.grind P) := by
  have hcommits : work.header.transactionsRoot = computeTransactionsRoot P work.batch := by
    unfold Miner.prepareRound at hwork
    split_ifs at hwork
    · cases (Prod.mk.inj hwork).1
    · obtain rfl := Option.some.inj (Prod.mk.inj hwork).1
      rfl
  exact grindLoop_grindRounds work hcommits (Nat.lt_succ_self _)

/-- On a chain from genesis every round of a node comes to its end. -/
theorem Node.grind_ends [DecidableEq B] (hP : P.Lawful) {world : Set (Block B S)}
    {initialStore : Store B} (hgenesis : GenesisStore P.toPlatform initialStore) {difficulty : ℕ}
    {snapshotDepth : UInt64} {keypair : K} {rewardAddress : Address} {batchSize : ℕ}
    {node : Node P} (hrun : Node.Run (Node.GrowsIn world)
      (Node.start (.new P initialStore difficulty snapshotDepth) keypair rewardAddress batchSize)
      node) {now : UInt64} {work : MiningWork B S K} {miner : Miner P}
    (hwork : node.miner.prepareRound now = (some work, miner)) : (work.grind P).Ends := by
  obtain ⟨path, hpath⟩ := (Node.historic_of_run hP hrun).known _ _ _
    node.miner.chain.getElem?_head node.miner.chain.getElem?_head_snapshot
  have hmodules := hpath.modulesAccepted hgenesis
  rw [← (Miner.prepareRound_eq_some hwork).1.parentStore] at hmodules
  obtain ⟨turns, -, hloop⟩ := grindLoop_of_prepareRound hwork
  exact hloop.ends_of_modulesAccepted hmodules

/-- The work of a round is ground in at most one turn more than it has transactions, with at most
2^64 nonces each, unless an execution does not return, which none does on accepted modules; and a
block that comes out holds a part of the batch, in its order, that executes on the parent store
under the block's own mining hash. -/
theorem grind_within_rounds {miner miner' : Miner P} {now : UInt64} {work : MiningWork B S K}
    (hwork : miner.prepareRound now = (some work, miner')) :
    (∃ turns ≤ work.batch.length + 1,
      GrindLoop P work turns work.header work.batch (work.grind P)) ∧
    (work.grind P = .diverge → StuckExecution P work work.batch) ∧
    (work.parentStore.ModulesAccepted P.toPlatform → work.grind P ≠ .diverge) ∧
    ∀ block store, work.grind P = .ok (some (block, store)) → Ground P work work.batch block := by
  obtain ⟨turns, hturns, hloop⟩ := grindLoop_of_prepareRound hwork
  refine ⟨⟨turns, hturns, hloop⟩, fun hstuck => ?_, fun hmodules => ?_,
    fun block store hblock => ?_⟩
  · exact GrindLoop.stuck (hstuck ▸ hloop)
  · exact (hloop.ends_of_modulesAccepted hmodules).ne_diverge
  · exact GrindLoop.ground (hblock ▸ hloop)

namespace Sample

def rivalSigned (coin : Address) : SignedTransaction Bytes (Address × Digest) :=
  Transaction.sign chainPlatform { failingCall coin with
    type := .meowCall { module := 98, function := ⟨"rival", by decide⟩, arguments := [] } } owner

def pairNode : Node chainPlatform :=
  .start genesisChain 77 78 2

end Sample

open Sample in
/-- The coin pays for one of two calls: the other one is dropped, and the search starts again. -/
theorem grind_within_rounds_genesis :
    ∃ (work : MiningWork Bytes (Address × Digest) Address)
      (block : Block Bytes (Address × Digest)) (store : Store Bytes),
      work.batch = [failingSigned 8, rivalSigned 8] ∧ block.transactions = [failingSigned 8] ∧
      work.grind chainPlatform = .ok (some (block, store)) ∧
      (∃ turns ≤ 3, GrindLoop chainPlatform work turns work.header work.batch
        (.ok (some (block, store)))) ∧
      Ground chainPlatform work work.batch block := by
  obtain ⟨node, hnode, hp⟩ := Outcome.exists_of_isOkAnd
    (x := pairNode.handleAll (fun _ _ => true)
      [.submit (failingSigned 8), .submit (rivalSigned 8)])
    (p := fun node => decide ((mineAt node 5).map (·.1.transactions) = some [failingSigned 8] ∧
      (node.miner.prepareRound 5).1.map (·.batch) = some [failingSigned 8, rivalSigned 8]))
    (by decide +kernel)
  obtain ⟨hmined, hbatch⟩ := of_decide_eq_true hp
  obtain ⟨⟨block, store⟩, hmined, htransactions⟩ := Option.map_eq_some_iff.mp hmined
  obtain ⟨work, miner, hprepare, hgrind⟩ := mineAt_eq_some hmined
  rw [hprepare, Option.map_some, Option.some.injEq] at hbatch
  obtain ⟨⟨turns, hturns, hloop⟩, -, -, hblock⟩ := grind_within_rounds hprepare
  refine ⟨work, block, store, hbatch, htransactions, hgrind, ⟨turns, ?_, hgrind ▸ hloop⟩,
    hblock block store hgrind⟩
  rwa [hbatch] at hturns

end MeowChain
