import MeowChain.Chain.Blocks
import MeowChain.Lib.Maps

/-!
# The mempool

Pending transactions in the order they arrived, with the set of their digests. A transaction enters
when its object references are those of the head store, and leaves with a batch or when a new head
store makes it stale.
-/

set_option autoImplicit false

namespace MeowChain

def maxMempoolSize : ℕ := 4096

inductive MempoolError where
  | duplicateTransaction (digest : Digest)
  | invalidObjectDigest (address : Address) (expected found : Digest)
  | invalidObjectVersion (address : Address) (expected found : ObjectVersion)
  | mempoolFull (capacity : ℕ)
  | objectNotFound (address : Address)
  | transactionValidationError (error : ValidationError)
  deriving DecidableEq

structure Mempool (B S : Type) where
  pending : List (SignedTransaction B S)
  seen : Std.ExtTreeSet Digest

section Validation

variable {B : Type} (P : Platform B)

def validateObjectRef (ref : ObjectRef) (store : Store B) : Except MempoolError Unit :=
  match store[ref.address]? with
  | none => .error (.objectNotFound ref.address)
  | some obj =>
    if obj.version ≠ ref.version then
      .error (.invalidObjectVersion ref.address ref.version obj.version)
    else if P.objectDigest obj ≠ ref.digest then
      .error (.invalidObjectDigest ref.address ref.digest (P.objectDigest obj))
    else .ok ()

/-- The object references of the arguments are checked one after the other. -/
def validateArguments (store : Store B) : List (Input B) → Except MempoolError Unit
  | [] => .ok ()
  | .raw _ :: rest => validateArguments store rest
  | .object ref :: rest => do
    validateObjectRef P ref store
    validateArguments store rest

def validateAgainstStore (tx : Transaction B) (store : Store B) : Except MempoolError Unit := do
  validateObjectRef P tx.gasCoin store
  validateArguments P store tx.type.arguments

def ObjectRef.Current (ref : ObjectRef) (store : Store B) : Prop :=
  ∃ obj, store[ref.address]? = some obj ∧ obj.version = ref.version ∧ P.objectDigest obj = ref.digest

theorem validateObjectRef_eq_ok {ref : ObjectRef} {store : Store B} :
    validateObjectRef P ref store = .ok () ↔ ref.Current P store := by
  unfold validateObjectRef ObjectRef.Current
  cases store[ref.address]? with
  | none => simp
  | some obj =>
    simp only [Option.some.injEq, exists_eq_left']
    split_ifs with hversion hdigest
    · simp [hversion]
    · simp [hdigest]
    · simpa using ⟨not_not.mp hversion, not_not.mp hdigest⟩

def Transaction.Valid (tx : Transaction B) (store : Store B) : Prop :=
  ∀ ref ∈ tx.objectRefs, ref.Current P store

theorem validateArguments_eq_ok {store : Store B} {arguments : List (Input B)} :
    validateArguments P store arguments = .ok () ↔
      ∀ ref, .object ref ∈ arguments → ref.Current P store := by
  induction arguments with
  | nil => simp [validateArguments]
  | cons argument rest ih =>
    cases argument with
    | raw bytes => simpa [validateArguments] using ih
    | object ref =>
      simp only [validateArguments, List.mem_cons, Input.object.injEq]
      constructor
      · intro h other hother
        cases hfirst : validateObjectRef P ref store with
        | error e => rw [hfirst] at h; cases h
        | ok _ =>
          rw [hfirst] at h
          rcases hother with rfl | hother
          · exact (validateObjectRef_eq_ok P).mp hfirst
          · exact ih.mp h other hother
      · intro h
        rw [(validateObjectRef_eq_ok P).mpr (h ref (.inl rfl))]
        exact ih.mpr fun other hother => h other (.inr hother)

theorem validateAgainstStore_eq_ok {tx : Transaction B} {store : Store B} :
    validateAgainstStore P tx store = .ok () ↔ tx.Valid P store := by
  have hargs : validateArguments P store tx.type.arguments = .ok () ↔
      ∀ ref ∈ tx.argumentRefs, ref.Current P store := by
    simp only [validateArguments_eq_ok, Transaction.mem_argumentRefs]
  unfold validateAgainstStore Transaction.Valid Transaction.objectRefs
  rw [List.forall_mem_cons, ← hargs, ← validateObjectRef_eq_ok]
  cases validateObjectRef P tx.gasCoin store with
  | error e => simp [bind, Except.bind]
  | ok _ => simp [bind, Except.bind]

end Validation

namespace Mempool

variable {B S K : Type} (P : ChainPlatform B S K)

def empty : Mempool B S where
  pending := []
  seen := ∅

def submit (pool : Mempool B S) (signed : SignedTransaction B S) (store : Store B) :
    Except MempoolError (Mempool B S) := do
  (validateSignedTransaction P.toPlatform P.toSigning signed).mapError .transactionValidationError
  let digest := signed.digest P
  if pool.seen.contains digest then throw (.duplicateTransaction digest)
  if pool.pending.length ≥ maxMempoolSize then throw (.mempoolFull maxMempoolSize)
  validateAgainstStore P.toPlatform signed.transaction store
  return { pending := pool.pending ++ [signed], seen := pool.seen.insert digest }

def stillValid (store : Store B) (signed : SignedTransaction B S) : Bool :=
  match validateAgainstStore P.toPlatform signed.transaction store with
  | .ok _ => true
  | .error _ => false

def retainValid (pool : Mempool B S) (store : Store B) : Mempool B S :=
  let valid := pool.pending.filter (stillValid P store)
  { pending := valid
    seen := valid.foldl (fun seen signed => seen.insert (signed.digest P)) ∅ }

def drainBatch (pool : Mempool B S) (limit : ℕ) :
    List (SignedTransaction B S) × Mempool B S :=
  let count := min limit pool.pending.length
  let batch := pool.pending.take count
  (batch, {
    pending := pool.pending.drop count
    seen := batch.foldl (fun seen signed => seen.erase (signed.digest P)) pool.seen })

theorem stillValid_iff {store : Store B} {signed : SignedTransaction B S} :
    stillValid P store signed = true ↔ signed.transaction.Valid P.toPlatform store := by
  rw [← validateAgainstStore_eq_ok]
  unfold stillValid
  cases validateAgainstStore P.toPlatform signed.transaction store <;> simp

/-! ## Integrity -/

/-- The queue has no transaction twice, `seen` holds its digests, and every entry passed the
checks on submission that do not depend on the store. -/
structure Sound (pool : Mempool B S) : Prop where
  nodup : (pool.pending.map (SignedTransaction.digest P)).Nodup
  mem_seen : ∀ digest, digest ∈ pool.seen ↔ digest ∈ pool.pending.map (SignedTransaction.digest P)
  validated : ∀ signed ∈ pool.pending,
    validateSignedTransaction P.toPlatform P.toSigning signed = .ok ()

theorem sound_empty : (empty : Mempool B S).Sound P where
  nodup := List.nodup_nil
  mem_seen digest := by simp [empty]
  validated := by simp [empty]

/-- What an accepted submission found, and the pool it leaves. -/
theorem submit_eq_ok {pool pool' : Mempool B S} {signed : SignedTransaction B S} {store : Store B}
    (h : pool.submit P signed store = .ok pool') :
    validateSignedTransaction P.toPlatform P.toSigning signed = .ok () ∧
      signed.digest P ∉ pool.seen ∧
      pool.pending.length < maxMempoolSize ∧
      signed.transaction.Valid P.toPlatform store ∧
      pool' = {
        pending := pool.pending ++ [signed]
        seen := pool.seen.insert (signed.digest P) } := by
  unfold submit at h
  cases hsigned : validateSignedTransaction P.toPlatform P.toSigning signed with
  | error e => simp [hsigned, Except.mapError, bind, Except.bind] at h
  | ok _ =>
    by_cases hseen : pool.seen.contains (signed.digest P) = true
    · simp [hsigned, hseen, Except.mapError, bind, Except.bind, throw, throwThe,
        MonadExceptOf.throw] at h
    · by_cases hfull : pool.pending.length ≥ maxMempoolSize
      · simp [hsigned, hseen, hfull, Except.mapError, bind, Except.bind, throw, throwThe,
          MonadExceptOf.throw] at h
      · cases hvalid : validateAgainstStore P.toPlatform signed.transaction store with
        | error e =>
          simp [hsigned, hseen, hfull, hvalid, Except.mapError, bind, Except.bind] at h
        | ok _ =>
          simp only [hsigned, hseen, hfull, hvalid, Except.mapError, bind, Except.bind,
            Bool.false_eq_true, if_false, pure, Except.pure, Except.ok.injEq] at h
          exact ⟨rfl, hseen, not_le.mp hfull, (validateAgainstStore_eq_ok _).mp hvalid, h.symm⟩

theorem Sound.submit {pool pool' : Mempool B S} {signed : SignedTransaction B S} {store : Store B}
    (hpool : pool.Sound P) (h : pool.submit P signed store = .ok pool') :
    pool'.Sound P := by
  obtain ⟨hsigned, hseen, -, -, rfl⟩ := submit_eq_ok P h
  have hnew : signed.digest P ∉ pool.pending.map (SignedTransaction.digest P) :=
    fun hmem => hseen ((hpool.mem_seen _).mpr hmem)
  exact {
    nodup := by
      rw [List.map_append, List.map_singleton, List.nodup_append]
      refine ⟨hpool.nodup, by simp, ?_⟩
      rintro digest hmem other hother rfl
      exact hnew (List.mem_singleton.mp hother ▸ hmem)
    mem_seen := fun digest => by
      rw [Std.ExtTreeSet.mem_insert, Std.compare_eq_iff_eq, hpool.mem_seen, List.map_append,
        List.map_singleton, List.mem_append, List.mem_singleton, or_comm, eq_comm (a := digest)]
    validated := fun other hmem => by
      rcases List.mem_append.mp hmem with hold | hself
      · exact hpool.validated other hold
      · rw [List.mem_singleton.mp hself]
        exact hsigned }

theorem Sound.retainValid {pool : Mempool B S} (hpool : pool.Sound P) (store : Store B) :
    (pool.retainValid P store).Sound P where
  nodup := hpool.nodup.sublist (List.filter_sublist.map _)
  mem_seen digest := by
    simp only [Mempool.retainValid, mem_foldl_insert, Std.ExtTreeSet.not_mem_empty, false_or]
  validated signed hmem := hpool.validated signed (List.mem_of_mem_filter hmem)

theorem Sound.drainBatch {pool : Mempool B S} (hpool : pool.Sound P) (limit : ℕ) :
    (pool.drainBatch P limit).2.Sound P := by
  set count := min limit pool.pending.length
  have hsplit : pool.pending.map (SignedTransaction.digest P) =
      (pool.pending.take count).map (SignedTransaction.digest P) ++
        (pool.pending.drop count).map (SignedTransaction.digest P) := by
    rw [← List.map_append, List.take_append_drop]
  have hdisjoint := hpool.nodup
  rw [hsplit, List.nodup_append] at hdisjoint
  obtain ⟨-, hrest, hapart⟩ := hdisjoint
  exact {
    nodup := hrest
    mem_seen := fun digest => by
      show digest ∈ List.foldl _ _ (pool.pending.take count) ↔ _
      rw [mem_foldl_erase, hpool.mem_seen, hsplit, List.mem_append]
      constructor
      · rintro ⟨hbatch | hkept, hnot⟩
        · exact absurd hbatch hnot
        · exact hkept
      · exact fun hkept => ⟨.inr hkept, fun hbatch => hapart _ hbatch _ hkept rfl⟩
    validated := fun signed hmem => hpool.validated signed (List.mem_of_mem_drop hmem) }

theorem Sound.batch {pool : Mempool B S} (hpool : pool.Sound P) (limit : ℕ) :
    ((pool.drainBatch P limit).1.map (SignedTransaction.digest P)).Nodup ∧
      ∀ signed ∈ (pool.drainBatch P limit).1,
        validateSignedTransaction P.toPlatform P.toSigning signed = .ok () :=
  ⟨hpool.nodup.sublist ((List.take_sublist _ _).map _),
    fun signed hmem => hpool.validated signed (List.mem_of_mem_take hmem)⟩

end Mempool

end MeowChain
