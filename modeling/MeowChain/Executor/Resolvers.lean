import MeowChain.Executor.Objects

/-!
# Inputs of a transaction

Which objects a transaction is executed with, and what the executor makes of them before it starts
the machine.
-/

set_option autoImplicit false

namespace MeowChain

variable {B : Type} (P : Platform B)

/-! ## Collecting -/

section Collect

variable (getObject : Address → Option (Object B))

/-- Objects collected so far and addresses seen. -/
structure Collected (B : Type) where
  inputs : List (Object B)
  seen : List Address

/-- The modules that `root` imports, dependencies before dependents. Each level of the recursion
sees an address it has not seen before, so the depth is at most the number of stored objects. -/
def collectDepModules : ℕ → Object B → Collected B → Collected B
  | 0, _, acc => acc
  | depth + 1, root, acc =>
    match P.decodeModule root.content with
    | .error _ => acc
    | .ok module => module.imports.foldl (fun acc a =>
        if acc.seen.contains a then acc
        else
          let acc := { acc with seen := a :: acc.seen }
          match getObject a with
          | none => acc
          | some dep =>
            let acc := collectDepModules depth dep acc
            { acc with inputs := acc.inputs ++ [dep] }) acc

def collectInputs (depth : ℕ) (tx : Transaction B) : List (Object B) :=
  let gasCoin := (getObject tx.gasCoin.address).toList
  match tx.type with
  | .meowCall call =>
    let modules := match getObject call.module with
      | none => []
      | some obj =>
        (collectDepModules P getObject depth obj ⟨[], [call.module]⟩).inputs ++ [obj]
    let arguments := call.arguments.filterMap fun
      | .object ref => getObject ref.address
      | .raw _ => none
    gasCoin ++ modules ++ arguments
  | .meowModulePublish bytes =>
    -- The direct imports are visited like those of a module that is already stored.
    let root : Object B := Object.freshModule 0 0 bytes
    gasCoin ++ (collectDepModules P getObject (depth + 1) root ⟨[], []⟩).inputs

end Collect

/-! ## Resolving -/

def findInput (inputs : List (Object B)) (a : Address) : Option (Object B) :=
  inputs.find? (·.address == a)

/-- An object argument; the type of the parameter plays no part. -/
def resolveObject (ref : ObjectRef) (sender : Address) (inputs : List (Object B)) :
    Except String (Value Unit) :=
  let address := ref.address.display
  match findInput inputs ref.address with
  | none => .error s!"input object {address} not found"
  | some obj =>
    if obj.type = .module then
      .error s!"object {address} is a module and cannot be used as a call argument"
    else if obj.owner.address? ≠ some sender then
      .error s!"object {address} is not owned by the sender"
    else if obj.version = .max then
      .error s!"object {address} is at the maximum version and cannot be used as a call argument"
    else if obj.version ≠ ref.version then
      let expected := ref.version
      let found := obj.version
      .error s!"object {address} has invalid version: expected {expected}, found {found}"
    else if P.objectDigest obj ≠ ref.digest then
      let expected := P.displayDigest ref.digest
      let found := P.displayDigest (P.objectDigest obj)
      .error s!"object {address} has invalid digest: expected {expected}, found {found}"
    else (objectToVmObjectValue P obj).mapError ObjectConversionError.message

def resolveRaw (bytes : B) (expectedType : Ty) : Except String (Value Unit) :=
  match expectedType with
  | .u64 => ((P.decodeU64 bytes).map .u64).mapError ("u64 deserialization: " ++ ·)
  | .bool => ((P.decodeBool bytes).map .bool).mapError ("bool deserialization: " ++ ·)
  | .address => ((P.decodeAddress bytes).map .address).mapError ("address deserialization: " ++ ·)
  | .str => ((P.decodeStr bytes).map .str).mapError ("string deserialization: " ++ ·)
  | other =>
    let name := other.name
    .error s!"Raw input cannot be resolved to type '{name}'"

def resolveArg (input : Input B) (expectedType : Ty) (sender : Address)
    (inputs : List (Object B)) : Except String (Value Unit) :=
  match input with
  | .object ref => resolveObject P ref sender inputs
  | .raw bytes => resolveRaw P bytes expectedType

def objectArg (inputs : List (Object B)) : Input B → Option (Object B)
  | .object ref => findInput inputs ref.address
  | .raw _ => none

def resolveArgsFrom (sender : Address) (inputs : List (Object B)) :
    ℕ → List (Input B) → List (String × Ty) → Except String (List (Value Unit))
  | i, input :: arguments, (_, paramType) :: params =>
    match resolveArg P input paramType sender inputs with
    | .error e => .error s!"argument {i}: {e}"
    | .ok v => (resolveArgsFrom sender inputs (i + 1) arguments params).map (v :: ·)
  | _, _, _ => .ok []

def resolveArgs (call : Call B) (func : Function) (sender : Address) (inputs : List (Object B)) :
    Except String (List (Value Unit) × List (Object B)) :=
  let expected := func.params.length
  let got := call.arguments.length
  if got ≠ expected then .error s!"argument count mismatch: expected {expected}, got {got}"
  else
    (resolveArgsFrom P sender inputs 0 call.arguments func.params).map
      (·, call.arguments.filterMap (objectArg inputs))

inductive ExecutorError where
  | gasCoinNotFound
  | invalidGasCoin
  | invalidGasCoinOwner
  | invalidObjectDigest (address : Address) (expected found : Digest)
  | invalidObjectVersion (address : Address) (expected found : ObjectVersion)
  | objectAtMaxVersion (address : Address)
  | modulePublishNotAllowed
  deriving DecidableEq

def resolveGasCoinObject (gasCoinRef : ObjectRef) (sender : Address) (inputs : List (Object B)) :
    Outcome ExecutorError (Object B) :=
  match findInput inputs gasCoinRef.address with
  | none => .err .gasCoinNotFound
  | some gasCoin =>
    if !isMeowCoinObject gasCoin then .err .invalidGasCoin
    else if gasCoin.owner.address? ≠ some sender then .err .invalidGasCoinOwner
    else if gasCoin.version = .max then .err (.objectAtMaxVersion gasCoinRef.address)
    else if gasCoin.version ≠ gasCoinRef.version then
      .err (.invalidObjectVersion gasCoinRef.address gasCoinRef.version gasCoin.version)
    else if P.objectDigest gasCoin ≠ gasCoinRef.digest then
      .err (.invalidObjectDigest gasCoinRef.address gasCoinRef.digest (P.objectDigest gasCoin))
    else .ok gasCoin

/-! ## Modules -/

def resolveModule (inputs : List (Object B)) (moduleAddress : Address) : Except String Module :=
  let address := moduleAddress.display
  match inputs.find? fun o => decide (o.type = .module) && o.address == moduleAddress with
  | none => .error s!"module object at address {address} not found in inputs"
  | some obj =>
    (P.decodeModule obj.content).mapError (s!"failed to deserialize module at {address}: " ++ ·)

/-- The module objects by address; the last of several at one address counts. -/
def moduleIndex (inputs : List (Object B)) (a : Address) : Option (Object B) :=
  inputs.reverse.find? fun o => decide (o.type = .module) && o.address == a

/-- The search for dependencies: `queue` has the address to be popped next first. -/
def resolveDepLoop (inputs : List (Object B)) :
    ℕ → List Address → DepMap → Except String DepMap
  | 0, _, deps => .ok deps
  | _ + 1, [], deps => .ok deps
  | turns + 1, a :: queue, deps =>
    if deps.contains a then resolveDepLoop inputs turns queue deps
    else
      let address := a.display
      match moduleIndex inputs a with
      | none => .error s!"missing dependency module at address {address}"
      | some obj =>
        match P.decodeModule obj.content with
        | .error e => .error s!"failed to deserialize dependency module at {address}: {e}"
        | .ok dep =>
          let transitive := dep.imports.filter fun b => !deps.contains b
          resolveDepLoop inputs turns (transitive.reverse ++ queue) (deps.insert a dep)

def importCount (obj : Object B) : ℕ :=
  match P.decodeModule obj.content with
  | .ok module => module.imports.length
  | .error _ => 0

/-- Every address is put into the queue by the module that imports it, once per import. -/
def resolveDepModules (inputs : List (Object B)) (imports : List Address) :
    Except String DepMap :=
  resolveDepLoop P inputs (imports.length + (inputs.map (importCount P)).sum + 1) imports.reverse ∅

end MeowChain
