import MeowChain.Compiler.Ast
import MeowChain.Vm.Machine

/-!
# The validator

Identifiers, limits, and references between declarations. A `HashMap` that the source builds by
insertion is a list of its entries with the latest one first.
-/

set_option autoImplicit false

namespace MeowChain.Compiler

/-- The text of a parse error comes from the parser library. -/
inductive CompilerError where
  | parse
  | message (text : String)
  deriving DecidableEq

abbrev Result := Except CompilerError

def refuse {α : Type} (text : String) : Result α := .error (.message text)

def refuseIf (p : Bool) (text : String) : Result Unit :=
  if p then refuse text else .ok ()

def checkSome {α : Type} (check : α → Result Unit) : Option α → Result Unit
  | some a => check a
  | none => .ok ()

section Validate

variable (config : CompilerConfig)

def validateIdentifier (name context : String) : Result Unit :=
  if isValidIdentifier name config then .ok ()
  else refuse (context ++ ": '" ++ name ++ "' is not a valid identifier (must start with a letter "
    ++ "or underscore, followed by letters, digits, or underscores; max "
    ++ toString config.maxIdentifierLen ++ " characters)")

def validateFunctionName (name : String) : Result Unit := do
  validateIdentifier config name "function name"
  refuseIf (reservedFunctionNames.contains name || config.reservedFunctionNames.contains name)
    ("function name '" ++ name ++ "' is reserved for a built-in native function")

def validateField (structName : String) (field : String × Ty) : Result Unit := do
  validateIdentifier config field.1 ("field in struct '" ++ structName ++ "'")
  refuseIf (!field.2.isValidFieldType)
    ("struct '" ++ structName ++ "': field '" ++ field.1 ++ "' has type '" ++ field.2.name
      ++ "' which is not allowed as a field type — only primitives (bool, u64, address, string) "
      ++ "and structs are allowed")

def validateStructDef (decl : AstStruct) : Result Unit := do
  validateIdentifier config decl.name "struct name"
  refuseIf decl.fields.isEmpty
    ("struct '" ++ decl.name ++ "': must have at least one field")
  refuseIf (decl.fields.length > config.maxFields)
    ("struct '" ++ decl.name ++ "': too many fields (" ++ toString decl.fields.length
      ++ " > limit of " ++ toString config.maxFields ++ ")")
  decl.fields.forM (validateField config decl.name)

end Validate

def astFieldsToFieldDefs (fields : List (String × Ty)) : List FieldDef :=
  fields.map fun field => ⟨field.1, field.2⟩

/-! ## Types of other modules -/

section Translate

variable (depAddresses : List (String × Address))

mutual
def translateFieldType : Ty → Ty
  | .struct name =>
    match splitOnce name.toList with
    | some (modName, typeName) =>
      match depAddresses.lookup (String.ofList modName) with
      | some addr => .struct (qualify addr (String.ofList typeName))
      | none => .struct name
    | none => .struct name
  | .tuple types => .tuple (translateFieldTypes types)
  | ty => ty

def translateFieldTypes : List Ty → List Ty
  | [] => []
  | t :: ts => translateFieldType t :: translateFieldTypes ts
end

def translateStructFieldTypes (structs : List StructDef) : List StructDef :=
  structs.map fun decl => { decl with
    fields := decl.fields.map fun field => { field with ty := translateFieldType depAddresses field.ty } }

end Translate

/-! ## Cycles -/

structure Visits (κ : Type) where
  visited : List κ := []
  inStack : List κ := []

/-- Depth-first search: a node on the current path that is met again. -/
def dfsCycle {κ : Type} [DecidableEq κ] (next : κ → List κ) :
    ℕ → κ → Visits κ → Option κ × Visits κ
  | 0, _, st => (none, st)
  | fuel + 1, node, st =>
    let visit (acc : Option κ × Visits κ) (succ : κ) : Option κ × Visits κ :=
      if acc.1.isSome then acc
      else if !acc.2.visited.contains succ then dfsCycle next fuel succ acc.2
      else if acc.2.inStack.contains succ then (some succ, acc.2)
      else acc
    let st := { visited := node :: st.visited, inStack := node :: st.inStack }
    match (next node).foldl visit (none, st) with
    | (some found, st) => (some found, st)
    | (none, st) => (none, { st with inStack := st.inStack.filter (· ≠ node) })

def importsProvided (deps : List (Address × Module)) (addr : Address) : List Address :=
  match deps.lookup addr with
  | some dep => dep.imports.filter fun a => (deps.lookup a).isSome
  | none => []

/-- The stack is empty again for every start. -/
def detectModuleDepCycles (deps : List (Address × Module)) : Result Unit :=
  let visit (acc : Option Address × Visits Address) (dep : Address × Module) :=
    if acc.1.isSome || acc.2.visited.contains dep.1 then acc
    else dfsCycle (importsProvided deps) (deps.length + 1) dep.1 { acc.2 with inStack := [] }
  match (deps.foldl visit (none, {})).1 with
  | none => .ok ()
  | some addr =>
    let name := ((deps.lookup addr).map (·.name)).getD "<unknown>"
    refuse ("circular module dependency detected: module '" ++ name ++ "' at "
      ++ String.ofList addr.toChars ++ " is part of a recursive import chain")

def fieldStructs (structs : List StructDef) (name : String) : List String :=
  match structs.find? (·.name == name) with
  | some decl => decl.fields.filterMap fun field =>
    match field.ty with
    | .struct n => some n
    | _ => none
  | none => []

def detectStructCycles (localStructs depStructs : List StructDef) : Result Unit :=
  let all := localStructs ++ depStructs
  let fuel := all.length + (all.map (·.fields.length)).sum + 1
  let visit (acc : Option String × Visits String) (decl : StructDef) :=
    if acc.1.isSome || acc.2.visited.contains decl.name then acc
    else dfsCycle (fieldStructs all) fuel decl.name acc.2
  match (localStructs.foldl visit (none, {})).1 with
  | none => .ok ()
  | some name =>
    refuse ("struct cycle detected: '" ++ name ++ "' is part of a recursive struct definition")

/-! ## References -/

section Refs

variable (localStructs depStructs : List StructDef)

def isKnownStruct (name : String) : Bool :=
  (localStructs ++ depStructs).any (·.name == name)

def checkFieldRef (structName : String) (field : FieldDef) : Result Unit :=
  match field.ty with
  | .struct name =>
    if isKnownStruct localStructs depStructs name then .ok ()
    else refuse ("struct '" ++ structName ++ "': field '" ++ field.name
      ++ "' references unknown struct '" ++ name ++ "'")
  | _ => .ok ()

def validateStructRefs : Result Unit := do
  localStructs.forM fun decl =>
    decl.fields.forM (checkFieldRef localStructs depStructs decl.name)
  detectStructCycles localStructs depStructs

mutual
def checkTypeRefKnown (context : String) : Ty → Result Unit
  | .struct name =>
    if isKnownStruct localStructs depStructs name then .ok ()
    else refuse (context ++ " references unknown struct '" ++ name ++ "'")
  | .tuple types => checkTypeRefsKnown context types
  | _ => .ok ()

def checkTypeRefsKnown (context : String) : List Ty → Result Unit
  | [] => .ok ()
  | t :: ts => do
    checkTypeRefKnown context t
    checkTypeRefsKnown context ts
end

def validateFunctionTypeRefs (functions : List AstFunction) : Result Unit :=
  functions.forM fun f => do
    f.params.forM fun param => checkTypeRefKnown localStructs depStructs
      ("function '" ++ f.name ++ "' parameter '" ++ param.1 ++ "'") param.2
    checkSome (checkTypeRefKnown localStructs depStructs
      ("function '" ++ f.name ++ "' return type")) f.returnType

end Refs

end MeowChain.Compiler
