import MeowChain.Adapter.Framework
import MeowChain.Executor.Messages

/-!
# Objects and transactions

What the executor reads and writes. Byte strings are an arbitrary type `B`: only BCS looks into
them, and BCS, the hash function and the random generator are parameters.
-/

set_option autoImplicit false

namespace MeowChain

/-- A name that passed `Identifier::new`; deserialising one checks it too. -/
structure Identifier where
  name : String
  valid : isValidIdentifier name compilerConfig = true
  deriving DecidableEq

def Identifier.new (name : String) : Option Identifier :=
  if valid : isValidIdentifier name compilerConfig = true then some { name, valid } else none

/-! ## Objects -/

abbrev ObjectVersion := UInt64

namespace ObjectVersion

def zero : ObjectVersion := 0

def one : ObjectVersion := 1

def max : ObjectVersion := UInt64.ofNat u64Max

def next (v : ObjectVersion) : Option ObjectVersion :=
  if v = max then none else some (v + 1)

end ObjectVersion

inductive ObjectOwner where
  | address (a : Address)
  | immutable
  deriving DecidableEq

def ObjectOwner.address? : ObjectOwner → Option Address
  | .address a => some a
  | .immutable => none

def ObjectOwner.isAddressOwned (owner : ObjectOwner) : Bool :=
  owner.address?.isSome

structure ObjectDeclRef where
  module : Address
  name : Identifier
  deriving DecidableEq

inductive ObjectType where
  | module
  | object (decl : ObjectDeclRef)
  deriving DecidableEq

structure ObjectRef where
  address : Address
  version : ObjectVersion
  digest : Digest
  deriving DecidableEq

structure Object (B : Type) where
  address : Address
  owner : ObjectOwner
  transaction : Digest
  version : ObjectVersion
  type : ObjectType
  content : B
  deriving DecidableEq

def Object.freshModule {B : Type} (address : Address) (transaction : Digest) (content : B) :
    Object B where
  address
  owner := .immutable
  transaction
  version := .one
  type := .module
  content

/-! ## Transactions -/

inductive Input (B : Type) where
  | object (ref : ObjectRef)
  | raw (bytes : B)
  deriving DecidableEq

structure Call (B : Type) where
  module : Address
  function : Identifier
  arguments : List (Input B)
  deriving DecidableEq

inductive TransactionType (B : Type) where
  | meowCall (call : Call B)
  | meowModulePublish (module : B)
  deriving DecidableEq

structure Transaction (B : Type) where
  sender : Address
  gasCoin : ObjectRef
  type : TransactionType B
  deriving DecidableEq

section References

variable {B : Type}

def TransactionType.arguments : TransactionType B → List (Input B)
  | .meowCall call => call.arguments
  | .meowModulePublish _ => []

def objectArguments (arguments : List (Input B)) : List ObjectRef :=
  arguments.filterMap fun
    | .object ref => some ref
    | .raw _ => none

theorem mem_objectArguments {arguments : List (Input B)} {ref : ObjectRef} :
    ref ∈ objectArguments arguments ↔ .object ref ∈ arguments := by
  unfold objectArguments
  rw [List.mem_filterMap]
  constructor
  · rintro ⟨argument, hmem, hsome⟩
    cases argument with
    | raw bytes => cases hsome
    | object other => cases hsome; exact hmem
  · exact fun hmem => ⟨_, hmem, rfl⟩

def Transaction.argumentRefs (tx : Transaction B) : List ObjectRef :=
  objectArguments tx.type.arguments

/-- Every object reference of a transaction: the gas coin and the object arguments. -/
def Transaction.objectRefs (tx : Transaction B) : List ObjectRef :=
  tx.gasCoin :: tx.argumentRefs

theorem Transaction.mem_argumentRefs {tx : Transaction B} {ref : ObjectRef} :
    ref ∈ tx.argumentRefs ↔ .object ref ∈ tx.type.arguments :=
  mem_objectArguments

end References

inductive ExecutionStatus where
  | success
  | failure (message : String)
  deriving DecidableEq

structure ExecutionResult (B : Type) where
  status : ExecutionStatus
  transactionDigest : Digest
  createdObjects : List (Object B)
  changedObjects : List (Object B)
  destroyedObjects : List (Object B)
  gasUsed : ℕ := 0
  deriving DecidableEq

def ExecutionResult.failure {B : Type} (message : String) (transactionDigest : Digest) :
    ExecutionResult B where
  status := .failure message
  transactionDigest
  createdObjects := []
  changedObjects := []
  destroyedObjects := []

structure ExternalContext where
  randSeed : Digest
  timestamp : UInt64

def ExternalContext.empty : ExternalContext where
  randSeed := 0
  timestamp := 0

/-! ## The libraries -/

/-- BCS, Blake2b and Base58. Decoding may fail with a text, encoding fails for values nested too
deeply. -/
structure Platform (B : Type) extends NativeCrypto where
  length : B → ℕ
  decodeModule : B → Except String Module
  decodeFields : B → Except String (List (String × Value Unit))
  encodeFields : List (String × Value Unit) → Option B
  decodeU64 : B → Except String UInt64
  encodeU64 : UInt64 → B
  decodeBool : B → Except String Bool
  decodeAddress : B → Except String Address
  encodeAddress : Address → B
  decodeStr : B → Except String String
  objectDigest : Object B → Digest
  transactionDigest : Transaction B → Digest
  displayDigest : Digest → String
  /-- The length of `bcs::to_bytes`. -/
  transactionSize : Transaction B → ℕ

/-! ## Objects as values -/

inductive ObjectConversionError where
  | invalidObjectType
  | invalidVMValueType
  | invalidTypeName
  | missingIdField
  | invalidContent (message : String)
  | invalidIdentifier (name : String)

def ObjectConversionError.message : ObjectConversionError → String
  | .invalidObjectType => "invalid object type"
  | .invalidVMValueType => "invalid VM value type"
  | .invalidTypeName => "type name is not a qualified address::name reference"
  | .missingIdField => "object struct is missing the required id field"
  | .invalidContent message => s!"object content is not valid BCS: {message}"
  | .invalidIdentifier name => s!"VM type name is not a valid identifier: invalid identifier: {name}"

section Conversion

variable {B : Type} (P : Platform B)

def ObjectDeclRef.typeName (decl : ObjectDeclRef) : String :=
  qualify decl.module decl.name.name

def objectToVmObjectValue (obj : Object B) : Except ObjectConversionError (Value Unit) :=
  match obj.type with
  | .module => .error .invalidObjectType
  | .object decl =>
    match P.decodeFields obj.content with
    | .error message => .error (.invalidContent message)
    | .ok fields =>
      .ok (.struct () decl.typeName ((meowObjectIdFieldName, meowObjectId obj.address) :: fields))

/-- The fields an object keeps in its content. -/
def contentFields (fields : List (String × Value Unit)) : List (String × Value Unit) :=
  fields.filter (·.1 != meowObjectIdFieldName)

/-- Panics when BCS cannot write the fields. -/
def vmObjectValueToObject (val : Value Unit) (owner : ObjectOwner) (txDigest : Digest)
    (version : ObjectVersion) : Outcome ObjectConversionError (Object B) :=
  match val with
  | .struct _ typeName fields =>
    match parseModuleRef typeName with
    | none => .err .invalidTypeName
    | some (module, structName) =>
      match Identifier.new structName with
      | none => .err (.invalidIdentifier structName)
      | some name =>
        match objectAddress P.bcs val with
        | none => .err .missingIdField
        | some address =>
          match P.encodeFields (contentFields fields) with
          | none => .panic "fields must be serializable"
          | some content =>
            .ok {
              address
              owner
              transaction := txDigest
              version
              type := .object { module, name }
              content }
  | _ => .err .invalidVMValueType

end Conversion

/-! ## Coins -/

section Coins

variable {B : Type} (P : Platform B)

def isMeowCoin (module : Address) (name : String) : Bool :=
  module == meowCoinModuleAddress && name == meowCoinObjectName

def isMeowCoinObject (obj : Object B) : Bool :=
  match obj.type with
  | .object decl => isMeowCoin decl.module decl.name.name
  | .module => false

def balanceFromObject (coin : Object B) : Option UInt64 :=
  if isMeowCoinObject coin then
    match P.decodeFields coin.content with
    | .error _ => none
    | .ok fields => (Value.lookup balanceFieldName fields).bind Value.asU64
  else none

/-- The fields with `spent` taken from the first balance, as far as it goes. -/
def deductBalance (spent : ℕ) :
    List (String × Value Unit) → Option (List (String × Value Unit))
  | [] => some []
  | (name, val) :: fields =>
    if name = balanceFieldName then
      val.asU64.map fun current => (name, .u64 (UInt64.ofNat (current.toNat - spent))) :: fields
    else (deductBalance spent fields).map ((name, val) :: ·)

def deductGas (gasCoin : Object B) (spent : ℕ) : Option B :=
  if isMeowCoinObject gasCoin then
    match P.decodeFields gasCoin.content with
    | .error _ => none
    | .ok fields => (deductBalance spent fields).bind P.encodeFields
  else none

end Coins

end MeowChain
