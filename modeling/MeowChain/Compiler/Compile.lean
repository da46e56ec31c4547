import MeowChain.Compiler.Codegen
import MeowChain.Compiler.Comments
import MeowChain.Compiler.TypeChecker

/-!
# The compiler

`Compiler::compile`: source text and dependency modules to a module, or the first error. The parser,
which the source builds with a library, is a parameter.
-/

set_option autoImplicit false

namespace MeowChain.Compiler

/-- The order in which the map of imports is iterated. -/
structure MapOrder where
  entries : List (String × Address) → List (String × Address)
  perm : ∀ l, (entries l).Perm l

/-- The entries in the order of the `use` declarations. -/
def declarationOrder : MapOrder where
  entries := id
  perm := .refl

structure UseDecl where
  name : String
  alias_ : Option String
  address : Address

def UseDecl.localName (decl : UseDecl) : String := decl.alias_.getD decl.name

/-! ## Declarations -/

def structDecls (items : List AstItem) : List AstStruct :=
  items.filterMap fun
    | .struct decl => some decl
    | _ => none

def fnDecls (items : List AstItem) : List AstFunction :=
  items.filterMap fun
    | .fn decl => some decl
    | _ => none

def useDecls (items : List AstItem) : List UseDecl :=
  items.filterMap fun
    | .use name address alias_ => some ⟨name, alias_, address⟩
    | _ => none

def isModuleDecl : AstItem → Bool
  | .moduleDecl _ => true
  | _ => false

def checkUseNames : List String → List UseDecl → Result Unit
  | _, [] => .ok ()
  | seen, decl :: rest =>
    if seen.contains decl.localName then
      refuse ("duplicate use declaration: '" ++ decl.localName ++ "' is already used as an alias")
    else checkUseNames (decl.localName :: seen) rest

/-- The items behind a single `mod NAME;` at the start. -/
def extract (items : List AstItem) : Result (List AstItem × String × List UseDecl) :=
  match items with
  | .moduleDecl name :: rest => do
    refuseIf (rest.any isModuleDecl)
      "duplicate 'mod NAME;' declaration: only one is allowed per file"
    checkUseNames [] (useDecls items)
    .ok (items, name, useDecls items)
  | _ => refuse "source must begin with 'mod NAME;' declaration"

/-- `parser().parse`: the items of a text without comments. -/
abbrev ItemParser := List Char → Option (List AstItem)

/-- The parser of a few known texts. -/
def tableParser (table : List (String × List AstItem)) : ItemParser := fun text =>
  table.lookup (String.ofList text)

def parseAndExtract (parse : ItemParser) (source : String) :
    Result (List AstItem × String × List UseDecl) :=
  match parse (stripLineComments false source.toList) with
  | some items => extract items
  | none => .error .parse

/-! ## Dependencies -/

section Dependencies

variable (config : CompilerConfig) (deps : List (Address × Module))

def checkLimit (what : String) (count limit : ℕ) : Result Unit :=
  refuseIf (count > limit)
    ("too many " ++ what ++ ": " ++ toString count ++ " > limit of " ++ toString limit)

def checkDepAddresses : List Address → List (Address × Module) → Result Unit
  | _, [] => .ok ()
  | seen, (addr, _) :: rest =>
    if seen.contains addr then refuse ("duplicate dep address: " ++ String.ofList addr.toChars)
    else checkDepAddresses (addr :: seen) rest

def checkUses (uses : List UseDecl) : Result Unit :=
  uses.forM fun decl => do
    refuseIf (!deps.any fun dep => dep.1 == decl.address && dep.2.name == decl.name)
      ("unknown dependency '" ++ decl.name ++ "@" ++ String.ofList decl.address.toChars
        ++ "': no provided dep module matches that name and address")
    validateIdentifier config decl.localName "use alias"

/-- Breadth-first over the imports. An address enters the queue once for every import that names it,
so the fuel of `checkClosure` is not used up. -/
def visitClosure : ℕ → List Address → List Address → Result Unit
  | 0, _, _ => .ok ()
  | _ + 1, _, [] => .ok ()
  | fuel + 1, visited, addr :: queue =>
    if visited.contains addr then visitClosure fuel visited queue
    else
      match deps.lookup addr with
      | none => refuse ("transitive dependency at " ++ String.ofList addr.toChars
          ++ " is required but was not provided")
      | some dep =>
        let visited := addr :: visited
        visitClosure fuel visited
          (queue ++ dep.imports.filter fun import_ => !visited.contains import_)

def checkClosure (imports : List Address) : Result Unit :=
  visitClosure deps (imports.length + (deps.map (·.2.imports.length)).sum + 1) [] imports

end Dependencies

/-! ## Modules -/

/-- The public structs of the imported modules. A module imported under several aliases goes by the
first one that the map yields. -/
def importedStructs (depAddresses : List (String × Address)) (deps : List (Address × Module)) :
    List StructDef :=
  deps.flatMap fun dep =>
    match depAddresses.find? (·.2 == dep.1) with
    | none => []
    | some (depName, _) => (dep.2.structs.filter (·.isPublic)).map fun decl =>
      { decl with name := depName ++ "::" ++ decl.name, isPublic := true }

section Module

variable (order : MapOrder) (deps : List (Address × Module)) (natives : List NativeSig)
  (config : CompilerConfig)

/-- `dep_addresses`, in the order of iteration. -/
def depAddressesOf (uses : List UseDecl) : List (String × Address) :=
  order.entries (uses.map fun decl => (decl.localName, decl.address))

def localStructs (items : List AstItem) : List StructDef :=
  (structDecls items).map fun decl =>
    { name := decl.name, fields := astFieldsToFieldDefs decl.fields, isPublic := decl.isPublic }

def checkInput (items : List AstItem) (uses : List UseDecl) : CheckInput where
  structs := structDecls items
  depAddresses := depAddressesOf order uses
  deps := deps
  natives := builtinNatives ++ natives
  functions := fnDecls items

def codegenEnv (items : List AstItem) (uses : List UseDecl) : CodegenEnv where
  config := config
  structs := translateStructFieldTypes (depAddressesOf order uses) (localStructs items)
    ++ importedStructs (depAddressesOf order uses) deps
  depAddresses := depAddressesOf order uses
  depModules := deps
  localFnReturnTypes := ((fnDecls items).map fun f => (f.name, f.returnType)).reverse

def validateModule (items : List AstItem) (name : String) (uses : List UseDecl) : Result Unit := do
  validateIdentifier config name "module name"
  checkLimit "struct definitions" (structDecls items).length config.maxStructs
  checkLimit "functions" (fnDecls items).length config.maxFunctions
  checkLimit "use declarations" uses.length config.maxImports
  checkLimit "dependency modules" deps.length config.maxDepModules
  checkDepAddresses [] deps
  checkUses config deps uses
  checkClosure deps (uses.map (·.address))
  detectModuleDepCycles deps
  (structDecls items).forM (validateStructDef config)
  let depStructs := importedStructs (depAddressesOf order uses) deps
  validateStructRefs (localStructs items) depStructs
  validateFunctionTypeRefs (localStructs items) depStructs (fnDecls items)

def compileItems (items : List AstItem) (name : String) (uses : List UseDecl) : Result Module := do
  validateModule order deps config items name uses
  (checkInput order deps natives items uses).check
  let functions ← (fnDecls items).mapM (codegenEnv order deps config items uses).compileFunction
  .ok
    { name := name
      imports := uses.map (·.address)
      structs := translateStructFieldTypes (depAddressesOf order uses) (localStructs items)
      functions := functions }

def compile (parse : ItemParser) (source : String) : Result Module := do
  let (items, name, uses) ← parseAndExtract parse source
  compileItems order deps natives config items name uses

end Module

end MeowChain.Compiler
