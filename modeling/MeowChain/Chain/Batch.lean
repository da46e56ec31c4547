import MeowChain.Chain.Ledger

/-!
# Batches and gas coins

A round executes its batch again and again, each time without the transactions that could not pay,
until a header fits what was executed. Whatever the other transactions do, the first transaction
that can pay with a coin is executed every time, unless one before it uses the coin as an argument.
-/

set_option autoImplicit false

namespace MeowChain

variable {B S K : Type}

/-! ## Paying -/

section Pay

variable {P : Platform B} {store store' : Store B} {tx : Transaction B}

def Transaction.CanPay (P : Platform B) (tx : Transaction B) (store : Store B) : Prop :=
  ∃ coin, resolveGasCoinObject P tx.gasCoin tx.sender (store.collectInputs P tx) = .ok coin

theorem findInput_gasCoin (hstore : store.Keyed) :
    findInput (store.collectInputs P tx) tx.gasCoin.address = store[tx.gasCoin.address]? := by
  cases hcoin : store[tx.gasCoin.address]? with
  | none =>
    cases hfound : findInput (store.collectInputs P tx) tx.gasCoin.address with
    | none => rfl
    | some obj =>
      rw [hstore.getElem?_of_findInput (Store.collectInputs_stored P) hfound] at hcoin
      cases hcoin
  | some coin =>
    have haddress : (coin.address == tx.gasCoin.address) = true :=
      beq_iff_eq.mpr (hstore _ _ hcoin)
    have hfirst : ∃ rest, store.collectInputs P tx = coin :: rest := by
      unfold Store.collectInputs collectInputs
      dsimp only
      rw [hcoin]
      split
      · exact ⟨_, rfl⟩
      · exact ⟨_, rfl⟩
    obtain ⟨rest, hrest⟩ := hfirst
    unfold findInput
    rw [hrest, List.find?_cons, haddress]

theorem Transaction.CanPay.congr (hstore : store.Keyed) (hstore' : store'.Keyed)
    (hcoin : store'[tx.gasCoin.address]? = store[tx.gasCoin.address]?) (h : tx.CanPay P store) :
    tx.CanPay P store' := by
  unfold Transaction.CanPay resolveGasCoinObject at h ⊢
  rw [findInput_gasCoin hstore] at h
  rw [findInput_gasCoin hstore', hcoin]
  exact h

theorem Transaction.CanPay.coin (hstore : store.Keyed) (h : tx.CanPay P store) :
    ∃ coin, store[tx.gasCoin.address]? = some coin ∧ AcceptedObject P tx.gasCoin tx.sender coin := by
  obtain ⟨coin, hcoin⟩ := h
  obtain ⟨hfound, haccepted⟩ := resolveGasCoinObject_eq_ok hcoin
  exact ⟨coin, findInput_gasCoin hstore ▸ hfound, haccepted⟩

theorem executeType_ne_err {inputs : List (Object B)} {gas : GasMeter} {config : VmConfig}
    {ext : ExternalContext} {e : ExecutorError} :
    (executeType P tx inputs gas config ext).1 ≠ .err e := by
  unfold executeType
  dsimp only
  split
  · unfold executeMeowCall
    split
    · intro h
      cases h
    · unfold callResult
      dsimp only
      split
      · split <;> intro h <;> cases h
      all_goals
        intro h
        cases h
  · intro h
    cases h

theorem applyGasSpending_ne_err {result : ExecutionResult B} {gasCoin : Object B} {gasSpent : ℕ}
    {txDigest : Digest} {e : ExecutorError} :
    applyGasSpending P result gasCoin gasSpent txDigest ≠ .err e := by
  intro h
  obtain hcontent | ⟨content, -, h⟩ := Outcome.bind_eq_err.mp h
  · exact Outcome.expect_ne_err hcontent
  · obtain hversion | ⟨version, -, h⟩ := Outcome.bind_eq_err.mp h
    · exact Outcome.expect_ne_err hversion
    · cases h

theorem Transaction.CanPay.execute_ne_err {inputs : List (Object B)} {ext : ExternalContext}
    {coin : Object B} (hcoin : resolveGasCoinObject P tx.gasCoin tx.sender inputs = .ok coin)
    {e : ExecutorError} : execute P tx inputs ext ≠ .err e := by
  intro h
  unfold execute at h
  obtain hrefused | ⟨_, -, h⟩ := Outcome.bind_eq_err.mp h
  · rw [hcoin] at hrefused
    cases hrefused
  · obtain hbudget | ⟨budget, -, h⟩ := Outcome.bind_eq_err.mp h
    · exact Outcome.expect_ne_err hbudget
    · obtain hresult | ⟨result, -, hpay⟩ := Outcome.bind_eq_err.mp h
      · split at hresult
        · cases hresult
        · exact executeType_ne_err hresult
      · exact applyGasSpending_ne_err hpay

theorem Store.applyExecutionResult_ne_err {ε : Type} {result : ExecutionResult B} {e : ε} :
    store.applyExecutionResult result ≠ .err e := by
  rw [← Store.mapErr_applyExecutionResult Empty.elim]
  cases store.applyExecutionResult (ε := Empty) result with
  | err e => exact e.elim
  | ok _ => simp [Outcome.mapErr]
  | panic _ => simp [Outcome.mapErr]
  | diverge => simp [Outcome.mapErr]

theorem Transaction.CanPay.executeTransaction_ne_err (hpay : tx.CanPay P store)
    {ext : ExternalContext} {e : ExecutorError} :
    store.executeTransaction P ext tx ≠ .err e := by
  intro h
  obtain ⟨coin, hcoin⟩ := hpay
  obtain hexecute | ⟨result, -, h⟩ := Outcome.bind_eq_err.mp h
  · exact execute_ne_err hcoin hexecute
  · obtain happly | ⟨next, -, h⟩ := Outcome.bind_eq_err.mp h
    · exact Store.applyExecutionResult_ne_err happly
    · cases h

theorem canPay_of_executeTransaction {ext : ExternalContext} {result : ExecutionResult B}
    (h : store.executeTransaction P ext tx = .ok (store', result)) : tx.CanPay P store := by
  obtain ⟨hexecute, -⟩ := Store.executeTransaction_eq_ok h
  unfold execute at hexecute
  obtain ⟨coin, hcoin, -⟩ := Outcome.bind_eq_ok.mp hexecute
  exact ⟨coin, hcoin⟩

theorem getElem?_of_executeTransaction (hstore : store.Keyed) {ext : ExternalContext}
    {result : ExecutionResult B} (h : store.executeTransaction P ext tx = .ok (store', result))
    {a : Address} (hstored : store[a]? ≠ none) (hrefs : ∀ ref ∈ tx.objectRefs, ref.address ≠ a) :
    store'[a]? = store[a]? := by
  obtain ⟨hexecute, happly⟩ := Store.executeTransaction_eq_ok h
  have hchanges := (execute_paid hexecute).effects.changes hstore (Store.collectInputs_stored P)
    happly a
  generalize store[a]? = before at hchanges hstored ⊢
  generalize store'[a]? = after at hchanges ⊢
  cases hchanges with
  | kept => rfl
  | created => exact absurd rfl hstored
  | changed href haddress => exact absurd haddress (hrefs _ href)
  | destroyed href haddress => exact absurd haddress (hrefs _ (List.mem_cons_of_mem _ href))

end Pay

/-! ## Executing a batch -/

section Batch

variable {P : ChainPlatform B S K} {parentStore : Store B} {coin : Address}

structure Transaction.Pays (P : Platform B) (parentStore : Store B) (coin : Address)
    (tx : Transaction B) : Prop where
  address : tx.gasCoin.address = coin
  canPay : tx.CanPay P parentStore

/-- The transaction leaves the coin alone as long as others do. -/
structure Transaction.Harmless (P : Platform B) (parentStore : Store B) (coin : Address)
    (tx : Transaction B) : Prop where
  arguments : ∀ ref ∈ tx.argumentRefs, ref.address ≠ coin
  notPays : ¬ tx.Pays P parentStore coin

/-- Some transaction of the batch pays with the coin, and those before it are harmless. -/
def Covers (P : ChainPlatform B S K) (parentStore : Store B) (coin : Address)
    (batch : List (SignedTransaction B S)) : Prop :=
  ∃ before payer after, batch = before ++ payer :: after ∧
    payer.transaction.Pays P.toPlatform parentStore coin ∧
    ∀ signed ∈ before, signed.transaction.Harmless P.toPlatform parentStore coin

theorem covers_of_pays {before after : List (SignedTransaction B S)}
    {signed : SignedTransaction B S}
    (hpays : signed.transaction.Pays P.toPlatform parentStore coin)
    (hbefore : ∀ other ∈ before, ∀ ref ∈ other.transaction.argumentRefs, ref.address ≠ coin) :
    Covers P parentStore coin (before ++ signed :: after) := by
  induction before with
  | nil => exact ⟨[], signed, after, rfl, hpays, by simp⟩
  | cons first before ih =>
    rw [List.forall_mem_cons] at hbefore
    by_cases hfirst : first.transaction.Pays P.toPlatform parentStore coin
    · exact ⟨[], first, _, rfl, hfirst, by simp⟩
    · obtain ⟨before', payer, after', hsplit, hpayer, hharmless⟩ := ih hbefore.2
      refine ⟨first :: before', payer, after', ?_, hpayer, ?_⟩
      · rw [List.cons_append, hsplit, List.cons_append]
      · exact List.forall_mem_cons.mpr ⟨⟨hbefore.1, hfirst⟩, hharmless⟩

/-- Executing a batch keeps the first transaction that can pay with the coin. -/
theorem Covers.executeBatch {ext : ExternalContext} {store : Store B}
    {batch : List (SignedTransaction B S)} {run : BatchRun B S} (hparent : parentStore.Keyed)
    (hstore : store.Keyed) (hcoin : store[coin]? = parentStore[coin]?)
    (h : Covers P parentStore coin batch) (hrun : executeBatch P ext store batch = .ok run) :
    Covers P parentStore coin run.transactions := by
  obtain ⟨before, payer, after, rfl, hpayer, hharmless⟩ := h
  -- A transaction that refers to the coin as its gas coin finds it as the parent store has it.
  have hcanPay : ∀ (store : Store B) (tx : Transaction B), store.Keyed →
      store[coin]? = parentStore[coin]? → tx.gasCoin.address = coin →
      (tx.CanPay P.toPlatform store ↔ tx.CanPay P.toPlatform parentStore) := by
    rintro store tx hstore hcoin rfl
    exact ⟨fun h => h.congr hstore hparent hcoin.symm, fun h => h.congr hparent hstore hcoin⟩
  induction before generalizing store run with
  | nil =>
    rw [List.nil_append] at hrun
    unfold MeowChain.executeBatch at hrun
    split at hrun
    · obtain ⟨rest, -, rfl⟩ := Outcome.map_eq_ok.mp hrun
      exact ⟨[], payer, rest.transactions, rfl, hpayer, by simp⟩
    · rename_i e herr
      have hpay := (hcanPay store _ hstore hcoin hpayer.address).mpr hpayer.canPay
      exact absurd herr hpay.executeTransaction_ne_err
    · cases hrun
    · cases hrun
  | cons first before ih =>
    rw [List.forall_mem_cons] at hharmless
    rw [List.cons_append] at hrun
    unfold MeowChain.executeBatch at hrun
    split at hrun
    · rename_i next hnext
      obtain ⟨store', result⟩ := next
      obtain ⟨rest, hrest, rfl⟩ := Outcome.map_eq_ok.mp hrun
      have hkeyed : store'.Keyed :=
        hstore.applyExecutionResult (Store.executeTransaction_eq_ok hnext).2
      obtain ⟨obj, hobj, -⟩ := hpayer.canPay.coin hparent
      rw [hpayer.address] at hobj
      have hsame : store'[coin]? = parentStore[coin]? := by
        rw [← hcoin]
        apply getElem?_of_executeTransaction hstore hnext
        · rw [hcoin, hobj]
          exact Option.some_ne_none _
        · intro ref href
          rcases List.mem_cons.mp href with rfl | href
          · intro haddress
            refine hharmless.1.notPays ⟨haddress, ?_⟩
            exact (hcanPay store _ hstore hcoin haddress).mp (canPay_of_executeTransaction hnext)
          · exact hharmless.1.arguments ref href
      obtain ⟨before', payer', after', hsplit, hpayer', hharmless'⟩ :=
        ih hkeyed hsame hrest hharmless.2
      refine ⟨first :: before', payer', after', ?_, hpayer', ?_⟩
      · rw [List.cons_append, ← hsplit]
        rfl
      · exact List.forall_mem_cons.mpr ⟨hharmless.1, hharmless'⟩
    · exact ih hstore hcoin hrun hharmless.2
    · cases hrun
    · cases hrun

/-! ## Grinding -/

theorem findNonce_ne_none {difficulty : ℕ} {header : BlockHeader} {count : ℕ} {start : UInt64}
    {i : ℕ} (hi : i < count)
    (h : { header with nonce := start + UInt64.ofNat i }.meetsDifficulty P difficulty = true) :
    findNonce P difficulty header count start ≠ none := by
  induction count generalizing start i with
  | zero => exact absurd hi (Nat.not_lt_zero i)
  | succ count ih =>
    unfold findNonce
    dsimp only
    split_ifs with hfirst
    · exact Option.some_ne_none _
    · cases i with
      | zero =>
        refine absurd ?_ hfirst
        simpa using h
      | succ i =>
        refine ih (Nat.lt_of_succ_lt_succ hi) ?_
        have hnext : start + 1 + UInt64.ofNat i = start + UInt64.ofNat (i + 1) := by
          rw [UInt64.ofNat_add, UInt64.add_assoc, UInt64.add_comm 1]
          rfl
        rwa [hnext]

/-- The transaction roots a round may search a nonce for. -/
def MiningWork.Root (P : ChainPlatform B S K) (work : MiningWork B S K) (root : Digest) : Prop :=
  root = work.header.transactionsRoot ∨
    ∃ transactions, transactions.Sublist work.batch ∧ root = computeTransactionsRoot P transactions

/-- A round that does not lose the transaction: its sender can pay, no transaction before it uses
its gas coin as an argument, and for every set of transactions that may be left a nonce exists. -/
structure MiningWork.Secures (P : ChainPlatform B S K) (work : MiningWork B S K)
    (signed : SignedTransaction B S) : Prop where
  canPay : signed.transaction.CanPay P.toPlatform work.parentStore
  unspent : ∃ before after, work.batch = before ++ signed :: after ∧
    ∀ other ∈ before, ∀ ref ∈ other.transaction.argumentRefs,
      ref.address ≠ signed.transaction.gasCoin.address
  nonce : ∀ root, work.Root P root → ∃ nonce,
    { work.header with transactionsRoot := root, nonce }.meetsDifficulty P work.difficulty = true

theorem findNonce_isSome {difficulty : ℕ} {header : BlockHeader} {nonce : UInt64}
    (h : { header with nonce }.meetsDifficulty P difficulty = true) :
    findNonce P difficulty header nonceCount 0 ≠ none := by
  refine findNonce_ne_none (i := nonce.toNat) nonce.toNat_lt ?_
  rwa [UInt64.zero_add, UInt64.ofNat_toNat]

theorem findNonce_eq {difficulty : ℕ} {header found : BlockHeader} {count : ℕ} {start : UInt64}
    (h : findNonce P difficulty header count start = some found) :
    ∃ nonce, found = { header with nonce } := by
  induction count generalizing start with
  | zero => cases h
  | succ count ih =>
    unfold findNonce at h
    dsimp only at h
    split_ifs at h
    · cases h
      exact ⟨start, rfl⟩
    · exact ih h

/-- The block of a round that covers the coin has a transaction that pays with it. -/
theorem Covers.grindRounds {work : MiningWork B S K} {rounds : ℕ} {root : Digest} {nonce : UInt64}
    {batch : List (SignedTransaction B S)} {mined : Option (Block B S × Store B)}
    (hkeyed : work.parentStore.Keyed)
    (hnonce : ∀ root, work.Root P root → ∃ nonce,
      { work.header with transactionsRoot := root, nonce }.meetsDifficulty P work.difficulty = true)
    (hroot : work.Root P root) (hsub : batch.Sublist work.batch)
    (h : Covers P work.parentStore coin batch)
    (hgrind : grindRounds P work rounds { work.header with transactionsRoot := root, nonce } batch =
      .ok mined) :
    ∃ block store, mined = some (block, store) ∧
      Covers P work.parentStore coin block.transactions := by
  induction rounds generalizing root nonce batch with
  | zero => cases hgrind
  | succ rounds ih =>
    unfold MeowChain.grindRounds at hgrind
    split at hgrind
    · rename_i hnone
      obtain ⟨found, hfound⟩ := hnonce root hroot
      exact absurd hnone (findNonce_isSome hfound)
    · rename_i header hheader
      obtain ⟨found, rfl⟩ := findNonce_eq hheader
      obtain ⟨run, hrun, hgrind⟩ := Outcome.bind_eq_ok.mp hgrind
      have hkept := h.executeBatch hkeyed hkeyed rfl hrun
      have hsub' := (executeBatch_eq_ok hrun).1.trans hsub
      dsimp only at hgrind
      split_ifs at hgrind with hempty
      · -- The payer was executed.
        obtain ⟨before, payer, after, hsplit, -⟩ := hkept
        rw [List.isEmpty_iff] at hempty
        rw [BatchRun.transactions, hempty] at hsplit
        simp at hsplit
      · obtain ⟨⟨block, store⟩, hseal, rfl⟩ := Outcome.map_eq_ok.mp hgrind
        obtain ⟨minted, -, hblock⟩ := Outcome.map_eq_ok.mp hseal
        obtain ⟨rfl, rfl⟩ := Prod.mk.inj hblock
        exact ⟨_, _, rfl, hkept⟩
      · exact ih (.inr ⟨_, hsub', rfl⟩) hsub' hkept hgrind

theorem MiningWork.Secures.grind {work : MiningWork B S K} {signed : SignedTransaction B S}
    {mined : Option (Block B S × Store B)} (hkeyed : work.parentStore.Keyed)
    (h : work.Secures P signed) (hgrind : work.grind P = .ok mined) :
    ∃ block store, mined = some (block, store) ∧
      Covers P work.parentStore signed.transaction.gasCoin.address block.transactions := by
  obtain ⟨before, after, hbatch, hbefore⟩ := h.unspent
  refine Covers.grindRounds hkeyed h.nonce (.inl rfl) (List.Sublist.refl _) ?_ hgrind
  rw [hbatch]
  exact covers_of_pays ⟨rfl, h.canPay⟩ hbefore

end Batch

end MeowChain
