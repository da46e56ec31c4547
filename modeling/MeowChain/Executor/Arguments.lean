import MeowChain.Executor.Execute

/-!
# Entry arguments

Whether the values handed to the machine have the types of the parameters is decided by the object
arguments alone: a raw argument is decoded as its parameter's type, an object argument is passed on
whatever its type.
-/

set_option autoImplicit false

namespace MeowChain

/-- The address-qualified name of a struct type that a module at `a` refers to. -/
def qualifiedName (a : Address) (name : String) : String :=
  match parseModuleRef name with
  | some (b, structName) => qualify b structName
  | none => qualify a name

-- The value has the declared type, as far as its own type name tells.
mutual
def Value.inhabits (a : Address) : Value Unit → Ty → Bool
  | .bool _, .bool | .u64 _, .u64 | .address _, .address | .str _, .str => true
  | .struct _ typeName _, .struct name => typeName == qualifiedName a name
  | .tuple vs, .tuple types => Value.inhabitsList a vs types
  | _, _ => false

def Value.inhabitsList (a : Address) : List (Value Unit) → List Ty → Bool
  | [], [] => true
  | v :: vs, ty :: types => Value.inhabits a v ty && Value.inhabitsList a vs types
  | _, _ => false
end

section Arguments

variable {B : Type} (P : Platform B)

def Input.fits (a : Address) (inputs : List (Object B)) : Input B → Ty → Bool
  | .raw _, _ => true
  | .object ref, .struct name =>
    (findInput inputs ref.address).any fun obj =>
      match obj.type with
      | .object decl => decl.typeName == qualifiedName a name
      | .module => false
  | .object _, _ => false

def argumentsFit (a : Address) (inputs : List (Object B)) : List (Input B) → List Ty → Bool
  | [], [] => true
  | input :: arguments, ty :: types =>
    input.fits a inputs ty && argumentsFit a inputs arguments types
  | _, _ => false

variable {P} {sender : Address} {inputs : List (Object B)}

theorem objectToVmObjectValue_eq_ok {obj : Object B} {v : Value Unit}
    (h : objectToVmObjectValue P obj = .ok v) :
    ∃ decl fields, obj.type = .object decl ∧ P.decodeFields obj.content = .ok fields ∧
      v = .struct () decl.typeName
        ((meowObjectIdFieldName, meowObjectId obj.address) :: fields) := by
  unfold objectToVmObjectValue at h
  split at h
  · cases h
  · rename_i decl hdecl
    split at h
    · cases h
    · rename_i fields hfields
      exact ⟨decl, fields, hdecl, hfields, (Except.ok.inj h).symm⟩

/-- What is known of an object argument that the executor accepts. -/
structure AcceptedObject (P : Platform B) (ref : ObjectRef) (sender : Address) (obj : Object B) :
    Prop where
  notModule : obj.type ≠ .module
  owner : obj.owner.address? = some sender
  notMax : obj.version ≠ .max
  version : obj.version = ref.version
  digest : P.objectDigest obj = ref.digest

theorem resolveObject_eq_ok {ref : ObjectRef} {v : Value Unit}
    (h : resolveObject P ref sender inputs = .ok v) :
    ∃ obj, findInput inputs ref.address = some obj ∧ AcceptedObject P ref sender obj ∧
      objectToVmObjectValue P obj = .ok v := by
  unfold resolveObject at h
  dsimp only at h
  split at h
  · cases h
  · rename_i obj hfound
    refine ⟨obj, hfound, ?_⟩
    split_ifs at h with hmodule howner hmax hversion hdigest
    refine ⟨⟨hmodule, not_not.mp howner, hmax, not_not.mp hversion, not_not.mp hdigest⟩, ?_⟩
    cases hconvert : objectToVmObjectValue P obj with
    | error e =>
      rw [hconvert] at h
      cases h
    | ok w =>
      rw [hconvert] at h
      exact congrArg Except.ok (Except.ok.inj h)

theorem map_mapError_eq_ok {ε ε' α β : Type} {x : Except ε α} {f : α → β} {g : ε → ε'} {b : β}
    (h : (x.map f).mapError g = .ok b) : ∃ a, x = .ok a ∧ b = f a := by
  cases x with
  | error e => cases h
  | ok a => exact ⟨a, rfl, (Except.ok.inj h).symm⟩

theorem inhabits_of_resolveRaw {a : Address} {bytes : B} {ty : Ty} {v : Value Unit}
    (h : resolveRaw P bytes ty = .ok v) : v.inhabits a ty = true := by
  cases ty with
  | struct _ | tuple _ => cases h
  | _ =>
    obtain ⟨x, -, rfl⟩ := map_mapError_eq_ok h
    rfl

/-- An accepted argument has the type of its parameter exactly when it fits. -/
theorem inhabits_eq_fits (a : Address) {input : Input B} {ty : Ty} {v : Value Unit}
    (h : resolveArg P input ty sender inputs = .ok v) :
    v.inhabits a ty = input.fits a inputs ty := by
  cases input with
  | raw bytes => exact inhabits_of_resolveRaw h
  | object ref =>
    obtain ⟨obj, hfound, -, hvalue⟩ := resolveObject_eq_ok h
    obtain ⟨decl, fields, hdecl, -, rfl⟩ := objectToVmObjectValue_eq_ok hvalue
    cases ty with
    | struct name => simp [Value.inhabits, Input.fits, hfound, hdecl]
    | _ => rfl

theorem inhabitsList_eq_argumentsFit (a : Address) {i : ℕ} {arguments : List (Input B)}
    {params : List (String × Ty)} {args : List (Value Unit)}
    (hlen : arguments.length = params.length)
    (h : resolveArgsFrom P sender inputs i arguments params = .ok args) :
    Value.inhabitsList a args (params.map (·.2))
      = argumentsFit a inputs arguments (params.map (·.2)) := by
  induction arguments generalizing i params args with
  | nil =>
    obtain rfl := List.length_eq_zero_iff.mp hlen.symm
    obtain rfl := Except.ok.inj h
    rfl
  | cons input arguments ih =>
    cases params with
    | nil => cases hlen
    | cons param params =>
      obtain ⟨name, ty⟩ := param
      rw [resolveArgsFrom] at h
      split at h
      · cases h
      · rename_i v hv
        cases hrest : resolveArgsFrom P sender inputs (i + 1) arguments params with
        | error e =>
          rw [hrest] at h
          cases h
        | ok vs =>
          rw [hrest] at h
          obtain rfl := Except.ok.inj h
          simp only [List.map_cons, Value.inhabitsList, argumentsFit, inhabits_eq_fits a hv,
            ih (Nat.succ.inj hlen) hrest]

theorem resolveArgs_eq_ok {call : Call B} {func : Function} {args : List (Value Unit)}
    {objectArgs : List (Object B)}
    (h : resolveArgs P call func sender inputs = .ok (args, objectArgs)) :
    call.arguments.length = func.params.length ∧
    resolveArgsFrom P sender inputs 0 call.arguments func.params = .ok args ∧
    objectArgs = call.arguments.filterMap (objectArg inputs) := by
  unfold resolveArgs at h
  dsimp only at h
  split_ifs at h with hlen
  cases hrest : resolveArgsFrom P sender inputs 0 call.arguments func.params with
  | error e =>
    rw [hrest] at h
    cases h
  | ok vs =>
    rw [hrest] at h
    obtain ⟨rfl, rfl⟩ := Prod.mk.inj (Except.ok.inj h)
    exact ⟨not_not.mp hlen, rfl, rfl⟩

structure PreparedCall.From (P : Platform B) (sender : Address) (call : Call B)
    (inputs : List (Object B)) (prepared : PreparedCall B) : Prop where
  module : resolveModule P inputs call.module = .ok prepared.module
  deps : resolveDepModules P inputs prepared.module.imports = .ok prepared.deps
  func : prepared.module.getFunction call.function.name = some prepared.func
  noStruct : prepared.func.returnType.any returnTypeContainsStruct = false
  args : resolveArgs P call prepared.func sender inputs
    = .ok (prepared.args, prepared.objectArgs)

theorem prepareCall_eq_ok {call : Call B} {prepared : PreparedCall B}
    (h : prepareCall P sender call inputs = .ok prepared) : prepared.From P sender call inputs := by
  unfold prepareCall at h
  cases hmodule : resolveModule P inputs call.module with
  | error e =>
    rw [hmodule] at h
    cases h
  | ok module =>
    rw [hmodule] at h
    cases hdeps : resolveDepModules P inputs module.imports with
    | error e =>
      simp only [bind, Except.bind, hdeps] at h
      cases h
    | ok deps =>
      simp only [bind, Except.bind, hdeps] at h
      split at h
      · cases h
      · rename_i func hfunc
        split at h
        · cases h
        · rename_i hstruct
          cases hargs : resolveArgs P call func sender inputs with
          | error e =>
            rw [hargs] at h
            cases h
          | ok r =>
            rw [hargs] at h
            obtain rfl := Except.ok.inj h
            exact ⟨hmodule, hdeps, hfunc, by simpa using hstruct, hargs⟩

/-- The values a call hands to the machine have the declared types of the parameters exactly when
every object argument is passed for a parameter of its own type. -/
theorem entry_arguments_typed {call : Call B} {prepared : PreparedCall B}
    (h : prepareCall P sender call inputs = .ok prepared) :
    Value.inhabitsList call.module prepared.args (prepared.func.params.map (·.2)) = true ↔
      argumentsFit call.module inputs call.arguments (prepared.func.params.map (·.2)) = true := by
  obtain ⟨hlen, hargs, -⟩ := resolveArgs_eq_ok (prepareCall_eq_ok h).args
  rw [inhabitsList_eq_argumentsFit call.module hlen hargs]

end Arguments

/-! ## A vault and a coin -/

namespace Sample

inductive Blob where
  | fields (fields : List (String × Value Unit))
  | module (module : Module)
  | u64 (n : UInt64)
  | bool (b : Bool)
  | address (a : Address)
  | str (s : String)

def unexpected {α : Type} : Except String α :=
  .error "unexpected input"

def platform : Platform Blob where
  derive d _ n := BitVec.ofNat 256 (2 ^ 128 + d.toNat * 2 ^ 16 + n)
  seed d _ := d
  random _ _ := 0
  bcs := bcsLayout
  length _ := 64
  decodeModule | .module m => .ok m | _ => unexpected
  decodeFields | .fields fields => .ok fields | _ => unexpected
  encodeFields fields := some (.fields fields)
  decodeU64 | .u64 n => .ok n | _ => unexpected
  encodeU64 := .u64
  decodeBool | .bool b => .ok b | _ => unexpected
  decodeAddress | .address a => .ok a | _ => unexpected
  encodeAddress := .address
  decodeStr | .str s => .ok s | _ => unexpected
  objectDigest obj := BitVec.ofNat 256 (obj.address.toNat * 2 ^ 64 + obj.version.toNat)
  transactionDigest tx := BitVec.ofNat 256 (tx.gasCoin.address.toNat * 2 ^ 64 + tx.gasCoin.version.toNat)
  displayDigest _ := "digest"
  transactionSize _ := 256

def vaultAddr : Address := 1

def owner : Address := 9

/-- `raise` sets the level of a vault and gives it back. -/
def vaultModule : Module where
  name := "vault"
  imports := [meowObjectModuleAddress]
  structs := [{
    name := "Vault"
    fields := [⟨"id", meowObjectIdType⟩, ⟨"level", .u64⟩]
    isPublic := true }]
  functions := [{
    name := "raise"
    isPublic := true
    params := [("vault", .struct "Vault"), ("level", .u64)]
    returnType := none
    localCount := 2
    code := [
      .load 1, .storeField 0 ["level"],
      .load 0, .call nativeFnSender, .call nativeFnTransfer, .pop, .ret] }]

def ownedObject (address : Address) (decl : ObjectDeclRef) (fields : List (String × Value Unit)) :
    Object Blob where
  address
  owner := .address owner
  transaction := 0
  version := .one
  type := .object decl
  content := .fields fields

def vaultDecl : ObjectDeclRef := ⟨vaultAddr, ⟨"Vault", by decide⟩⟩

def coinDecl : ObjectDeclRef := ⟨meowCoinModuleAddress, ⟨"MeowCoin", by decide⟩⟩

def vaultObject : Object Blob := ownedObject 7 vaultDecl [("level", .u64 1)]

def coinObject : Object Blob := ownedObject 8 coinDecl [("balance", .u64 5000)]

def objectRef (obj : Object Blob) : ObjectRef :=
  ⟨obj.address, obj.version, platform.objectDigest obj⟩

def vaultInputs : List (Object Blob) := [
  .freshModule meowObjectModuleAddress 0 (.module meowObjectModule),
  .freshModule vaultAddr 0 (.module vaultModule),
  vaultObject,
  coinObject]

def raiseCall (obj : Object Blob) : Call Blob where
  module := vaultAddr
  function := ⟨"raise", by decide⟩
  arguments := [.object (objectRef obj), .raw (.u64 3)]

def okHolds {ε α : Type} (p : α → Bool) : Except ε α → Bool
  | .ok a => p a
  | .error _ => false

theorem okHolds_exists {ε α : Type} {p : α → Bool} {x : Except ε α} (h : okHolds p x = true) :
    ∃ a, x = .ok a ∧ p a = true := by
  cases x with
  | error e => cases h
  | ok a => exact ⟨a, rfl, h⟩

end Sample

open Sample in
theorem entry_arguments_typed_vault :
    ∃ prepared, prepareCall platform owner (raiseCall vaultObject) vaultInputs = .ok prepared ∧
      Value.inhabitsList vaultAddr prepared.args (prepared.func.params.map (·.2)) = true := by
  obtain ⟨prepared, hprepared, hfit⟩ := okHolds_exists
    (x := prepareCall platform owner (raiseCall vaultObject) vaultInputs)
    (p := fun prepared => argumentsFit vaultAddr vaultInputs (raiseCall vaultObject).arguments
      (prepared.func.params.map (·.2))) (by decide +kernel)
  exact ⟨prepared, hprepared, (entry_arguments_typed hprepared).mpr hfit⟩

open Sample in
/-- `raise` accepts a coin for its vault. -/
theorem entry_arguments_typed_fails :
    Verifier.verify vaultModule objectDeps adapterNativeSigs compilerConfig = [] ∧
    Adapter.verify vaultModule objectDeps adapterNativeSigs = [] ∧
    ∃ prepared, prepareCall platform owner (raiseCall coinObject) vaultInputs = .ok prepared ∧
      ¬ Value.inhabitsList vaultAddr prepared.args (prepared.func.params.map (·.2)) = true := by
  refine ⟨by decide +kernel, by decide +kernel, ?_⟩
  obtain ⟨prepared, hprepared, hunfit⟩ := okHolds_exists
    (x := prepareCall platform owner (raiseCall coinObject) vaultInputs)
    (p := fun prepared =>
      !Value.inhabitsList vaultAddr prepared.args (prepared.func.params.map (·.2)))
    (by decide +kernel)
  exact ⟨prepared, hprepared, by simpa using hunfit⟩

end MeowChain
