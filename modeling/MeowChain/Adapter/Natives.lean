import MeowChain.Adapter.Objects
import MeowChain.Vm.Machine

/-!
# Native functions of the adapter

The natives share a context that records what the call did to objects. Hashing and the random
generator are parameters.
-/

set_option autoImplicit false

namespace MeowChain

def nativeFnFreshId : String := "meow_vm_fresh_id"
def nativeFnTransfer : String := "meow_vm_transfer"
def nativeFnDestroy : String := "meow_vm_destroy"
def nativeFnSender : String := "meow_vm_sender"
def nativeFnRand : String := "meow_vm_rand"
def nativeFnTimestamp : String := "meow_vm_timestamp"

def nativeFunctionNames : List String :=
  [nativeFnFreshId, nativeFnTransfer, nativeFnDestroy, nativeFnSender, nativeFnRand,
    nativeFnTimestamp]

def compilerConfig : CompilerConfig where
  reservedFunctionNames := nativeFunctionNames

def vmConfig : VmConfig := {}

def vmConfigPrivileged : VmConfig where
  enableCallPrivateFunctions := true

/-! ## Signatures -/

def freshIdSig : NativeSig where
  name := nativeFnFreshId
  params := []
  returnType := some meowObjectIdType

def transferSig : NativeSig where
  name := nativeFnTransfer
  params := [.localStruct, .concrete .address]
  returnType := none

def destroySig : NativeSig where
  name := nativeFnDestroy
  params := [.concrete meowObjectIdType]
  returnType := none

def senderSig : NativeSig where
  name := nativeFnSender
  params := []
  returnType := some .address

def randSig : NativeSig where
  name := nativeFnRand
  params := []
  returnType := some .u64

def timestampSig : NativeSig where
  name := nativeFnTimestamp
  params := []
  returnType := some .u64

def adapterNativeSigs : List NativeSig :=
  [freshIdSig, transferSig, destroySig, senderSig, randSig, timestampSig]

/-! ## The context -/

/-- Blake2b, `StdRng` and BCS, which the natives use but do not define. -/
structure NativeCrypto where
  /-- `Address::derive(digest, tag, number)`. -/
  derive : Digest → UInt8 → ℕ → Address
  /-- The seed `create_random_generator` computes from a transaction digest and a block seed. -/
  seed : Digest → Digest → Digest
  /-- The `n`-th number drawn from a generator with the given seed. -/
  random : Digest → ℕ → UInt64
  bcs : Bcs

/-- The side effects of a call. A generator is its seed and how many numbers were drawn. -/
structure Context where
  sender : Address
  txDigest : Digest
  idCounter : ℕ
  freshIds : List Address
  transfers : List (Value Unit × Address)
  destroyed : List Address
  randomSeed : Digest
  randomDrawn : ℕ
  timestamp : UInt64

namespace Context

def new (crypto : NativeCrypto) (sender : Address) (txDigest randSeed : Digest)
    (timestamp : UInt64) : Context where
  sender
  txDigest
  idCounter := 0
  freshIds := []
  transfers := []
  destroyed := []
  randomSeed := crypto.seed txDigest randSeed
  randomDrawn := 0
  timestamp

def nextFreshId (crypto : NativeCrypto) (ctx : Context) : Address × Context :=
  let address := crypto.derive ctx.txDigest 0 ctx.idCounter
  (address, { ctx with
    freshIds := ctx.freshIds ++ [address]
    idCounter := ctx.idCounter + 1 })

def transfer (ctx : Context) (obj : Value Unit) (newOwner : Address) : Context :=
  { ctx with transfers := ctx.transfers ++ [(obj, newOwner)] }

def destroy (ctx : Context) (id : Address) : Context :=
  { ctx with destroyed := ctx.destroyed ++ [id] }

def nextRand (crypto : NativeCrypto) (ctx : Context) : UInt64 × Context :=
  (crypto.random ctx.randomSeed ctx.randomDrawn, { ctx with randomDrawn := ctx.randomDrawn + 1 })

end Context

/-! ## The natives -/

section Natives

variable (crypto : NativeCrypto)

def freshIdEntry : NativeFnEntry Context where
  toNativeSig := freshIdSig
  gasCost := 10
  func ctx _ :=
    let r := ctx.nextFreshId crypto
    (.ret (some (meowObjectId r.1)), r.2)

-- The machine passes exactly as many arguments as `params` lists.
def transferEntry : NativeFnEntry Context where
  toNativeSig := transferSig
  gasCost := 20
  func ctx args :=
    match args with
    | [obj, .address owner] =>
      if (objectAddress crypto.bcs obj).isNone then
        (.error ("meow_vm_transfer: expected struct with id: meow_object::Id as first field, got "
          ++ obj.typeName), ctx)
      else (.ret none, ctx.transfer obj owner)
    | [_, other] =>
      (.error ("meow_vm_transfer: expected address for owner, got " ++ other.typeName), ctx)
    | _ => (.error "", ctx)

def destroyEntry : NativeFnEntry Context where
  toNativeSig := destroySig
  gasCost := 10
  func ctx args :=
    match args with
    | idVal :: _ =>
      match idVal.toMeowObjectId crypto.bcs with
      | some id => (.ret none, ctx.destroy id)
      | none =>
        (.error ("meow_vm_destroy: expected meow_object::Id struct with inner: address, got "
          ++ idVal.typeName), ctx)
    | [] => (.error "", ctx)

def senderEntry : NativeFnEntry Context where
  toNativeSig := senderSig
  gasCost := 1
  func ctx _ := (.ret (some (.address ctx.sender)), ctx)

def randEntry : NativeFnEntry Context where
  toNativeSig := randSig
  gasCost := 10
  func ctx _ :=
    let r := ctx.nextRand crypto
    (.ret (some (.u64 r.1)), r.2)

def timestampEntry : NativeFnEntry Context where
  toNativeSig := timestampSig
  gasCost := 1
  func ctx _ := (.ret (some (.u64 ctx.timestamp)), ctx)

def buildNatives : List (NativeFnEntry Context) :=
  [freshIdEntry crypto, transferEntry crypto, destroyEntry crypto, senderEntry, randEntry crypto,
    timestampEntry]

/-- The native table of a machine the adapter builds: the built-in and the adapter's natives. -/
def chainNatives : List (NativeFnEntry Context) :=
  meowVmAbortEntry Context :: buildNatives crypto

theorem chainNatives_sigs :
    (chainNatives crypto).map (·.toNativeSig) = builtinNatives ++ adapterNativeSigs :=
  rfl

end Natives

end MeowChain
