import MeowChain.Executor.Resolvers
import MeowChain.Vm.Call

/-!
# The executor

Runs a transaction on its input objects. Gas is paid from the gas coin whether or not the
transaction succeeds.
-/

set_option autoImplicit false

namespace MeowChain

variable {B : Type} (P : Platform B)

def gasPerModuleByte : ℕ := 10

def baseTransactionGasCost : ℕ := 1000

def maxBcsSerializedModuleSize : ℕ := 512 * 1024

def GasMeter.new (limit : ℕ) : GasMeter where
  limit
  spent := 0

def GasMeter.unlimited : GasMeter :=
  GasMeter.new u64Max

/-! ## Effects -/

structure ObjectEffects (B : Type) where
  created : List (Object B)
  changed : List (Object B)
  destroyed : List (Object B)

def bumpVersion {ε : Type} (obj : Object B) : Outcome ε ObjectVersion :=
  Outcome.expect "version must increment; object version should never be MAX" obj.version.next

/-- The input object at an address; the last of several counts. -/
def inputByAddr (objectArgs : List (Object B)) (id : Address) : Option (Object B) :=
  objectArgs.reverse.find? (·.address == id)

def assertObjectArg (obj : Object B) : Outcome String Unit :=
  (Outcome.assert obj.owner.isAddressOwned
    "only address-owned objects can be used as call arguments").bind fun _ =>
  (Outcome.assert (decide (obj.type ≠ .module))
    "module objects cannot be used as call arguments").bind fun _ =>
  Outcome.assert (decide (obj.version ≠ .max))
    "objects at max version cannot be used as call arguments"

def checkConsumed (ctx : Context) (objectArgs : List (Object B)) : Option String :=
  let consumed (id : Address) : Bool :=
    (ctx.transfers.filterMap fun t => objectAddress P.bcs t.1).contains id
      || ctx.destroyed.contains id
  match ctx.freshIds.find? fun id => !consumed id with
  | some id =>
    let id := id.display
    some s!"created object not consumed: {id}"
  | none =>
    match objectArgs.find? fun obj => !consumed obj.address with
    | some obj =>
      let id := obj.address.display
      some s!"input object not accounted for: {id}"
    | none => none

/-- The object a transfer leaves behind, and whether it is new. -/
def transferredObject (ctx : Context) (objectArgs : List (Object B)) (txDigest : Digest)
    (transfer : Value Unit × Address) : Outcome String (Bool × Object B) :=
  (Outcome.expect "transferred object must have an address"
    (objectAddress P.bcs transfer.1)).bind fun id =>
  let isFresh := ctx.freshIds.contains id
  let version : Outcome String ObjectVersion :=
    if isFresh then .ok .one
    else (Outcome.expect "all transferred objects must be found in inputs"
      (inputByAddr objectArgs id)).bind bumpVersion
  version.bind fun version =>
  match vmObjectValueToObject P transfer.1 (.address transfer.2) txDigest version with
  | .ok obj => .ok (isFresh, obj)
  | .err _ => .panic "failed to convert VM object value to object"
  | .panic message => .panic message
  | .diverge => .diverge

def destroyedObject (objectArgs : List (Object B)) (txDigest : Digest) (id : Address) :
    Outcome String (Object B) :=
  (Outcome.expect "destroyed object must be found in inputs" (inputByAddr objectArgs id)).bind
    fun original => (bumpVersion original).bind fun version =>
  .ok { original with transaction := txDigest, version }

def collectObjectEffects (ctx : Context) (objectArgs : List (Object B)) (txDigest : Digest) :
    Outcome String (ObjectEffects B) :=
  (Outcome.forEach assertObjectArg objectArgs).bind fun _ =>
  match checkConsumed P ctx objectArgs with
  | some e => .err e
  | none =>
    (Outcome.forEach (transferredObject P ctx objectArgs txDigest) ctx.transfers).bind
      fun transferred =>
    (Outcome.forEach (destroyedObject objectArgs txDigest)
      (ctx.destroyed.filter fun id => !ctx.freshIds.contains id)).bind fun destroyed =>
    .ok {
      created := (transferred.filter (·.1)).map (·.2)
      changed := (transferred.filter (!·.1)).map (·.2)
      destroyed }

/-! ## Calls -/

/-- The same recursion as `Type::is_linear`. -/
def returnTypeContainsStruct (ty : Ty) : Bool :=
  ty.isLinear

/-- All that `execute_meow_call` hands to the machine, and the object arguments. -/
structure PreparedCall (B : Type) where
  module : Module
  deps : DepMap
  func : Function
  args : List (Value Unit)
  objectArgs : List (Object B)

/-- `execute_meow_call` up to the call of the machine. -/
def prepareCall (sender : Address) (call : Call B) (inputs : List (Object B)) :
    Except String (PreparedCall B) := do
  let module ← resolveModule P inputs call.module
  let deps ← resolveDepModules P inputs module.imports
  let fnName := call.function.name
  match module.getFunction fnName with
  | none => .error s!"function '{fnName}' not found in module"
  | some func =>
    if func.returnType.any returnTypeContainsStruct then
      .error (s!"function '{fnName}' returns a struct and cannot be called directly from a "
        ++ "transaction — structs must be consumed within the call")
    else
      let (args, objectArgs) ← resolveArgs P call func sender inputs
      .ok { module, deps, func, args, objectArgs }

def callVm (moduleAddress : Address) (prepared : PreparedCall B) (config : VmConfig) :
    Vm Context where
  module := prepared.module
  moduleAddr := moduleAddress
  deps := prepared.deps
  natives := chainNatives P.toNativeCrypto
  gasSchedule := {}
  config

/-- The result of a call from the outcome of the machine and the effects it left in the context. -/
def callResult (prepared : PreparedCall B) (txDigest : Digest) (final : Final Unit Context) :
    Outcome ExecutorError (ExecutionResult B) :=
  match final.outcome with
  | .ok _ =>
    match collectObjectEffects P final.ctx prepared.objectArgs txDigest with
    | .ok effects =>
      .ok {
        status := .success
        transactionDigest := txDigest
        createdObjects := effects.created
        changedObjects := effects.changed
        destroyedObjects := effects.destroyed }
    | .err e => .ok (.failure e txDigest)
    | .panic message => .panic message
    | .diverge => .diverge
  | .err (.aborted _ message) => .ok (.failure message txDigest)
  | .err e => .ok (.failure e.message txDigest)
  | .panic message => .panic message
  | .diverge => .diverge

def executeMeowCall (sender : Address) (txDigest : Digest) (call : Call B)
    (inputs : List (Object B)) (gas : GasMeter) (config : VmConfig) (ext : ExternalContext) :
    Outcome ExecutorError (ExecutionResult B) × GasMeter :=
  match prepareCall P sender call inputs with
  | .error e => (.ok (.failure e txDigest), gas)
  | .ok prepared =>
    let ctx := Context.new P.toNativeCrypto sender txDigest ext.randSeed ext.timestamp
    let final := (callVm P call.module prepared config).call (fun _ => ()) call.function.name
      prepared.args gas ctx
    (callResult P prepared txDigest final, final.gas)

/-! ## Publishing -/

/-- The module a publisher sends, once both verifiers have accepted it. -/
def verifyModule (bytes : B) (inputs : List (Object B)) : Except String Module := do
  let size := P.length bytes
  if size > maxBcsSerializedModuleSize then
    .error s!"module size {size} bytes exceeds maximum of {maxBcsSerializedModuleSize} bytes"
  else
    let module ← (P.decodeModule bytes).mapError ("failed to deserialize module: " ++ ·)
    let deps ← (resolveDepModules P inputs module.imports).mapError ("dep resolution: " ++ ·)
    match Verifier.verify module deps adapterNativeSigs compilerConfig with
    | e :: es =>
      .error ("bytecode verification failed: "
        ++ joinMessages ((e :: es).map Verifier.VerificationError.message))
    | [] =>
      match Adapter.verify module deps adapterNativeSigs with
      | e :: es =>
        .error ("adapter bytecode verification failed: "
          ++ joinMessages ((e :: es).map Adapter.BytecodeVerifierError.message))
      | [] => .ok module

def executeMeowModulePublish (txDigest : Digest) (bytes : B) (inputs : List (Object B))
    (gas : GasMeter) : ExecutionResult B × GasMeter :=
  match verifyModule P bytes inputs with
  | .error e => (.failure e txDigest, gas)
  | .ok _ =>
    match gas.charge (P.length bytes * gasPerModuleByte) with
    | (gas, some e) => (.failure e.message txDigest, gas)
    | (gas, none) =>
      ({ status := .success
         transactionDigest := txDigest
         createdObjects := [Object.freshModule (P.derive txDigest 0 0) txDigest bytes]
         changedObjects := []
         destroyedObjects := [] }, gas)

/-! ## Transactions -/

/-- The gas coin, with the gas taken from its balance, joins the changed objects. -/
def applyGasSpending (result : ExecutionResult B) (gasCoin : Object B) (gasSpent : ℕ)
    (txDigest : Digest) : Outcome ExecutorError (ExecutionResult B) :=
  (Outcome.expect "gas coin content must be deductible" (deductGas P gasCoin gasSpent)).bind
    fun content => (bumpVersion gasCoin).bind fun version =>
  let gasCoin := { gasCoin with transaction := txDigest, version, content }
  .ok { result with
    changedObjects := result.changedObjects ++ [gasCoin]
    gasUsed := gasSpent }

/-- What a transaction does apart from paying for it. -/
def executeType (tx : Transaction B) (inputs : List (Object B)) (gas : GasMeter)
    (config : VmConfig) (ext : ExternalContext) :
    Outcome ExecutorError (ExecutionResult B) × GasMeter :=
  let txDigest := P.transactionDigest tx
  match tx.type with
  | .meowCall call => executeMeowCall P tx.sender txDigest call inputs gas config ext
  | .meowModulePublish bytes =>
    let r := executeMeowModulePublish P txDigest bytes inputs gas
    (.ok r.1, r.2)

def execute (tx : Transaction B) (inputs : List (Object B)) (ext : ExternalContext) :
    Outcome ExecutorError (ExecutionResult B) :=
  let txDigest := P.transactionDigest tx
  (resolveGasCoinObject P tx.gasCoin tx.sender inputs).bind fun gasCoin =>
  (Outcome.expect "it is expected to have a valid balance field in the gas coin object"
    (balanceFromObject P gasCoin)).bind fun gasBudget =>
  let r : Outcome ExecutorError (ExecutionResult B) × GasMeter :=
    match (GasMeter.new gasBudget.toNat).charge baseTransactionGasCost with
    | (gas, some e) => (.ok (.failure e.message txDigest), gas)
    | (gas, none) => executeType P tx inputs gas vmConfig ext
  r.1.bind fun result => applyGasSpending P result gasCoin r.2.spent txDigest

/-- No gas, and private functions may be called. -/
def executeSystemTransaction (tx : Transaction B) (inputs : List (Object B)) :
    Outcome ExecutorError (ExecutionResult B) :=
  match tx.type with
  | .meowCall _ => (executeType P tx inputs .unlimited vmConfigPrivileged .empty).1
  | .meowModulePublish _ => .err .modulePublishNotAllowed

def executeGenesisTransaction (tx : Transaction B) (inputs : List (Object B)) :
    Outcome ExecutorError (ExecutionResult B) :=
  (executeType P tx inputs .unlimited vmConfigPrivileged .empty).1

end MeowChain
