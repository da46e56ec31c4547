import MeowChain.Chain.Mempool

/-!
# The history of a mempool

Whatever requests a pool serves, the batches it hands out followed by what it still holds are the
accepted submissions in the order they came, less the evicted ones. The requests are recorded beside
the pool: every accepted submission stays in the record, with what became of it.
-/

set_option autoImplicit false

namespace MeowChain

namespace Mempool

inductive Request (B S : Type) where
  | submit (signed : SignedTransaction B S) (store : Store B)
  | retainValid (store : Store B)
  | drainBatch (limit : ℕ)

/-- What became of an accepted submission. -/
inductive Fate where
  | pending
  | drained
  | evicted
  deriving DecidableEq

abbrev Entry (B S : Type) := SignedTransaction B S × Fate

/-- A pool, the batches it has handed out, and the record of its accepted submissions. -/
structure Session (B S : Type) where
  pool : Mempool B S
  batches : List (List (SignedTransaction B S))
  record : List (Entry B S)

section Record

variable {B S : Type}

def Entry.evict (keep : SignedTransaction B S → Bool) : Entry B S → Entry B S
  | (signed, .pending) => if keep signed then (signed, .pending) else (signed, .evicted)
  | entry => entry

def evict (keep : SignedTransaction B S → Bool) (record : List (Entry B S)) : List (Entry B S) :=
  record.map (Entry.evict keep)

def drain : ℕ → List (Entry B S) → List (Entry B S)
  | _, [] => []
  | 0, record => record
  | count + 1, (signed, .pending) :: record => (signed, .drained) :: drain count record
  | count + 1, entry :: record => entry :: drain (count + 1) record

def kept (record : List (Entry B S)) : List (Entry B S) :=
  record.filter fun entry => entry.2 ≠ .evicted

def sharing (fate : Fate) (transactions : List (SignedTransaction B S)) : List (Entry B S) :=
  transactions.map fun signed => (signed, fate)

@[simp] theorem kept_append (left right : List (Entry B S)) :
    kept (left ++ right) = kept left ++ kept right :=
  List.filter_append ..

@[simp] theorem kept_cons (signed : SignedTransaction B S) (fate : Fate)
    (record : List (Entry B S)) :
    kept ((signed, fate) :: record) =
      if fate = .evicted then kept record else (signed, fate) :: kept record := by
  by_cases hfate : fate = .evicted <;> simp [kept, hfate]

theorem evict_cons (keep : SignedTransaction B S → Bool) (entry : Entry B S)
    (record : List (Entry B S)) :
    evict keep (entry :: record) = entry.evict keep :: evict keep record :=
  rfl

theorem kept_evict (keep : SignedTransaction B S → Bool) (record : List (Entry B S)) :
    kept (evict keep record) = kept (evict keep (kept record)) := by
  induction record with
  | nil => rfl
  | cons entry record ih =>
    obtain ⟨signed, fate⟩ := entry
    cases fate with
    | pending => cases hkeep : keep signed <;> simp [evict_cons, Entry.evict, hkeep, ih]
    | drained => simp [evict_cons, Entry.evict, ih]
    | evicted => simp [evict_cons, Entry.evict, ih]

/-- An eviction leaves the drained submissions alone and filters the queue. -/
theorem kept_evict_queue (keep : SignedTransaction B S → Bool)
    (drained queue : List (SignedTransaction B S)) :
    kept (evict keep (sharing .drained drained ++ sharing .pending queue)) =
      sharing .drained drained ++ sharing .pending (queue.filter keep) := by
  induction drained with
  | nil =>
    induction queue with
    | nil => rfl
    | cons signed queue ih =>
      simp only [sharing, List.map_nil, List.nil_append] at ih
      cases hkeep : keep signed <;> simp [sharing, evict_cons, Entry.evict, hkeep, ih]
  | cons signed drained ih => exact congrArg ((signed, .drained) :: ·) ih

theorem drain_zero (record : List (Entry B S)) : drain 0 record = record := by
  cases record <;> rfl

theorem kept_drain (count : ℕ) (record : List (Entry B S)) :
    kept (drain count record) = drain count (kept record) := by
  induction record generalizing count with
  | nil => cases count <;> rfl
  | cons entry record ih =>
    obtain ⟨signed, fate⟩ := entry
    cases count with
    | zero => simp only [drain_zero]
    | succ count =>
      cases fate <;> simp [drain, ih]

/-- Draining passes over what is drained already and takes from the front of the queue. -/
theorem drain_queue (count : ℕ) (drained queue : List (SignedTransaction B S)) :
    drain count (sharing .drained drained ++ sharing .pending queue) =
      sharing .drained (drained ++ queue.take count) ++ sharing .pending (queue.drop count) := by
  induction drained with
  | nil =>
    induction queue generalizing count with
    | nil => cases count <;> rfl
    | cons signed queue ih =>
      cases count with
      | zero => rfl
      | succ count => exact congrArg ((signed, .drained) :: ·) (ih count)
  | cons signed drained ih =>
    cases count with
    | zero => simp [drain_zero]
    | succ count => exact congrArg ((signed, .drained) :: ·) ih

end Record

variable {B S K : Type} (P : ChainPlatform B S K)

namespace Session

def empty : Session B S where
  pool := Mempool.empty
  batches := []
  record := []

/-- A rejected submission changes nothing. -/
def step (session : Session B S) : Request B S → Session B S
  | .submit signed store =>
    match session.pool.submit P signed store with
    | .error _ => session
    | .ok pool => { session with pool, record := session.record ++ [(signed, .pending)] }
  | .retainValid store =>
    { session with
      pool := session.pool.retainValid P store
      record := evict (stillValid P store) session.record }
  | .drainBatch limit =>
    let (batch, pool) := session.pool.drainBatch P limit
    { pool
      batches := session.batches ++ [batch]
      record := drain limit session.record }

def run (requests : List (Request B S)) : Session B S :=
  requests.foldl (step P) empty

/-- The pool is sound and within its capacity, and the record accounts for the batches and for the
queue. -/
structure Accounted (session : Session B S) : Prop where
  sound : session.pool.Sound P
  bounded : session.pool.pending.length ≤ maxMempoolSize
  record : kept session.record =
    sharing .drained session.batches.flatten ++ sharing .pending session.pool.pending

theorem accounted_empty : (empty : Session B S).Accounted P where
  sound := sound_empty P
  bounded := Nat.zero_le _
  record := rfl

theorem Accounted.step {session : Session B S} (h : session.Accounted P)
    (request : Request B S) : (session.step P request).Accounted P := by
  cases request with
  | submit signed store =>
    simp only [Session.step]
    cases hsubmit : session.pool.submit P signed store with
    | error e => exact h
    | ok pool =>
      obtain ⟨-, -, hroom, -, hpool⟩ := submit_eq_ok P hsubmit
      exact {
        sound := h.sound.submit P hsubmit
        bounded := by
          rw [hpool, List.length_append, List.length_singleton]
          exact hroom
        record := by
          show kept (session.record ++ [(signed, .pending)]) = _
          rw [kept_append, h.record, hpool, sharing, sharing, sharing, List.map_append,
            List.append_assoc]
          rfl }
  | retainValid store =>
    exact {
      sound := h.sound.retainValid P store
      bounded := (List.length_filter_le _ _).trans h.bounded
      record := by
        show kept (evict _ session.record) = _
        rw [kept_evict, h.record, kept_evict_queue]
        rfl }
  | drainBatch limit =>
    exact {
      sound := h.sound.drainBatch P limit
      bounded := (List.drop_sublist ..).length_le.trans h.bounded
      record := by
        show kept (drain limit session.record) = _
        rw [kept_drain, h.record, drain_queue]
        simp [Session.step, drainBatch, List.take_eq_take_min, List.drop_eq_drop_min] }

theorem accounted_run (requests : List (Request B S)) : (run P requests).Accounted P := by
  unfold run
  induction requests using List.reverseRecOn with
  | nil => exact accounted_empty P
  | append_singleton requests request ih =>
    rw [List.foldl_append]
    exact ih.step P request

def withFate (session : Session B S) (fate : Fate) : List (SignedTransaction B S) :=
  (session.record.filter fun entry => entry.2 = fate).map Prod.fst

end Session

theorem withFate_sharing {record : List (Entry B S)} {drained queue : List (SignedTransaction B S)}
    (h : kept record = sharing .drained drained ++ sharing .pending queue) :
    (record.filter fun entry => entry.2 = .drained).map Prod.fst = drained ∧
      (record.filter fun entry => entry.2 = .pending).map Prod.fst = queue := by
  have hfilter : ∀ fate : Fate, fate ≠ .evicted →
      (record.filter fun entry => entry.2 = fate) =
        (kept record).filter fun entry => entry.2 = fate := by
    intro fate hfate
    rw [kept, List.filter_filter]
    refine List.filter_congr fun entry _ => ?_
    by_cases hentry : entry.2 = fate <;> simp [hentry, hfate]
  rw [hfilter _ (by decide), hfilter _ (by decide), h]
  simp [sharing, List.filter_map, Function.comp_def]

/-- After any requests: `seen` holds exactly the digests of the queue, which are distinct and within
the capacity; and the batches followed by the queue are the accepted submissions in order, less
those `retainValid` evicted. -/
theorem mempool_integrity (requests : List (Request B S)) :
    let session := Session.run P requests
    (∀ digest, digest ∈ session.pool.seen ↔
        digest ∈ session.pool.pending.map (SignedTransaction.digest P)) ∧
      (session.pool.pending.map (SignedTransaction.digest P)).Nodup ∧
      session.pool.pending.length ≤ maxMempoolSize ∧
      session.batches.flatten ++ session.pool.pending = (kept session.record).map Prod.fst ∧
      session.batches.flatten = session.withFate .drained ∧
      session.pool.pending = session.withFate .pending := by
  intro session
  have h : session.Accounted P := Session.accounted_run P requests
  obtain ⟨hdrained, hqueue⟩ := withFate_sharing h.record
  refine ⟨h.sound.mem_seen, h.sound.nodup, h.bounded, ?_, hdrained.symm, hqueue.symm⟩
  rw [h.record]
  simp [sharing, Function.comp_def]

end Mempool

end MeowChain
