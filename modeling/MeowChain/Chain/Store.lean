import MeowChain.Executor.Execute

/-!
# Signed transactions and the store

What a transaction must look like before a node takes it, and how the result of executing it
changes the stored objects.
-/

set_option autoImplicit false

namespace MeowChain

/-! ## Validation -/

structure SignedTransaction (B S : Type) where
  transaction : Transaction B
  signature : S
  deriving DecidableEq

inductive ValidationError where
  | aliasedCallArgument (address : Address)
  | gasCoinUsedAsCallArgument (address : Address)
  | keyPairError (message : String)
  | moduleTooLarge (size limit : ℕ)
  | signerMismatch (sender signer : Address)
  | tooManyCallArguments (amount limit : ℕ)
  | transactionTooLarge (size limit : ℕ)
  deriving DecidableEq

structure Signing (S K : Type) where
  signer : S → Address
  verify : S → Digest → Except String Unit
  sign : K → Digest → S
  keyAddress : K → Address

def meowCallTransactionBcsBytesMaxSize : ℕ := 32 * 1024

def meowPublishModuleTransactionBcsBytesMaxSize : ℕ := maxBcsSerializedModuleSize + 1024

section Validator

variable {B S K : Type} (P : Platform B) (G : Signing S K)

def validateTransactionSize (tx : Transaction B) (limit : ℕ) : Except ValidationError Unit :=
  let size := P.transactionSize tx
  if size > limit then .error (.transactionTooLarge size limit) else .ok ()

def validateCallArgsCount (call : Call B) : Except ValidationError Unit :=
  let amount := call.arguments.length
  let limit := compilerConfig.maxParams
  if amount > limit then .error (.tooManyCallArguments amount limit) else .ok ()

def Call.objectAddresses (call : Call B) : List Address :=
  (objectArguments call.arguments).map (·.address)

def validateGasCoinNotInArgs (call : Call B) (gasCoin : Address) : Except ValidationError Unit :=
  if call.objectAddresses.contains gasCoin then .error (.gasCoinUsedAsCallArgument gasCoin)
  else .ok ()

def findAlias : List Address → List Address → Option Address
  | _, [] => none
  | seen, a :: rest => if seen.contains a then some a else findAlias (a :: seen) rest

def validateNoAliasedArgs (call : Call B) : Except ValidationError Unit :=
  match findAlias [] call.objectAddresses with
  | some a => .error (.aliasedCallArgument a)
  | none => .ok ()

def validateModuleSize (bytes : B) : Except ValidationError Unit :=
  let size := P.length bytes
  if size > maxBcsSerializedModuleSize then .error (.moduleTooLarge size maxBcsSerializedModuleSize)
  else .ok ()

def validateTransaction (tx : Transaction B) : Except ValidationError Unit :=
  match tx.type with
  | .meowCall call => do
    validateTransactionSize P tx meowCallTransactionBcsBytesMaxSize
    validateCallArgsCount call
    validateGasCoinNotInArgs call tx.gasCoin.address
    validateNoAliasedArgs call
  | .meowModulePublish bytes => do
    validateTransactionSize P tx meowPublishModuleTransactionBcsBytesMaxSize
    validateModuleSize P bytes

def validateSignedTransaction (signed : SignedTransaction B S) : Except ValidationError Unit := do
  validateTransaction P signed.transaction
  let sender := signed.transaction.sender
  let signer := G.signer signed.signature
  if signer ≠ sender then .error (.signerMismatch sender signer)
  else (G.verify signed.signature (P.transactionDigest signed.transaction)).mapError .keyPairError

end Validator

/-! ## The store -/

abbrev Store (B : Type) := Std.ExtTreeMap Address (Object B)

section Store

variable {B : Type} (P : Platform B)

def Store.withObjects (objects : List (Object B)) : Store B :=
  objects.foldl (fun store obj => store.insert obj.address obj) ∅

def Store.objects (store : Store B) : List (Object B) :=
  store.toList.map (·.2)

variable {ε : Type}

def Store.applyCreated (store : Store B) (obj : Object B) : Outcome ε (Store B) :=
  if store.contains obj.address then
    .panic ("created object ID collision: " ++ obj.address.display)
  else .ok (store.insert obj.address obj)

def Store.applyChanged (store : Store B) (obj : Object B) : Outcome ε (Store B) :=
  if store.contains obj.address then .ok (store.insert obj.address obj)
  else .panic ("changed object not found in store: " ++ obj.address.display)

def Store.applyDestroyed (store : Store B) (obj : Object B) : Outcome ε (Store B) :=
  if store.contains obj.address then .ok (store.erase obj.address)
  else .panic ("destroyed object not found in store: " ++ obj.address.display)

def Store.applyExecutionResult (store : Store B) (result : ExecutionResult B) :
    Outcome ε (Store B) :=
  (Outcome.foldl Store.applyCreated store result.createdObjects).bind fun store =>
  (Outcome.foldl Store.applyChanged store result.changedObjects).bind fun store =>
  Outcome.foldl Store.applyDestroyed store result.destroyedObjects

/-- Applying a result asserts, it never returns an error. -/
theorem Store.mapErr_applyExecutionResult {ε' : Type} (f : ε → ε') (store : Store B)
    (result : ExecutionResult B) :
    (store.applyExecutionResult (ε := ε) result).mapErr f = store.applyExecutionResult result := by
  have hcreated : (fun store obj => (Store.applyCreated (ε := ε) (B := B) store obj).mapErr f) =
      Store.applyCreated := by
    funext store obj
    unfold Store.applyCreated
    split_ifs <;> rfl
  have hchanged : (fun store obj => (Store.applyChanged (ε := ε) (B := B) store obj).mapErr f) =
      Store.applyChanged := by
    funext store obj
    unfold Store.applyChanged
    split_ifs <;> rfl
  have hdestroyed : (fun store obj => (Store.applyDestroyed (ε := ε) (B := B) store obj).mapErr f) =
      Store.applyDestroyed := by
    funext store obj
    unfold Store.applyDestroyed
    split_ifs <;> rfl
  simp only [Store.applyExecutionResult, Outcome.mapErr_bind, Outcome.mapErr_foldl, hcreated,
    hchanged, hdestroyed]

theorem Store.applyExecutionResult_eq_ok {ε' : Type} {store store' : Store B}
    {result : ExecutionResult B} (h : store.applyExecutionResult (ε := Empty) result = .ok store') :
    store.applyExecutionResult (ε := ε') result = .ok store' := by
  rw [← Store.mapErr_applyExecutionResult (ε := Empty) Empty.elim, h]
  rfl

def Store.collectInputs (store : Store B) (tx : Transaction B) : List (Object B) :=
  MeowChain.collectInputs P (fun a => store[a]?) (store.size + 1) tx

def Store.executeTransaction (store : Store B) (ext : ExternalContext) (tx : Transaction B) :
    Outcome ExecutorError (Store B × ExecutionResult B) :=
  (execute P tx (store.collectInputs P tx) ext).bind fun result =>
  (store.applyExecutionResult result).bind fun store => .ok (store, result)

end Store

end MeowChain
