import MeowChain.Compiler.Validator

/-!
# The type checker

Types are those of the source text: a struct of another module is `alias::Name` here.
-/

set_option autoImplicit false

namespace MeowChain.Compiler

/-- Function signatures are parameter types and a return type. -/
structure TypeChecker where
  sourceStructs : List (String × List (String × Ty))
  sourceFns : List (String × (List Ty × Option Ty))
  nativeFns : List (String × (List NativeParam × Option Ty))
  fnName : String
  returnType : Option Ty

abbrev TypeEnv := List (String × Ty)

namespace TypeChecker

def typeDisplay : Ty → String := Ty.name

variable (tc : TypeChecker)

def typeErr {α : Type} (text : String) : Result α :=
  refuse ("in function '" ++ tc.fnName ++ "': " ++ text)

def expectType (actual expected : Ty) (context : String) : Result Unit :=
  if actual = expected then .ok ()
  else tc.typeErr (context ++ ": expected " ++ typeDisplay expected ++ ", found "
    ++ typeDisplay actual)

def requireTyped (ty : Result (Option Ty)) (context : String) : Result Ty := do
  match ← ty with
  | some ty => .ok ty
  | none => tc.typeErr (context ++ ": void expression cannot be used as a value")

def expectKnown (actual : Option Ty) (expected : Ty) (context : String) : Result Unit :=
  checkSome (fun ty => tc.expectType ty expected context) actual

def checkBinop (op : BinOp) (lty rty : Ty) : Result Ty :=
  match op with
  | .add | .sub | .mul | .div | .mod => do
    tc.expectType lty .u64 "left operand of arithmetic op"
    tc.expectType rty .u64 "right operand of arithmetic op"
    .ok .u64
  | .lt | .le | .gt | .ge => do
    tc.expectType lty .u64 "left operand of comparison"
    tc.expectType rty .u64 "right operand of comparison"
    .ok .bool
  | .eq | .ne =>
    if lty.isLinear || rty.isLinear then
      tc.typeErr ("'" ++ (if lty.isLinear then lty else rty).name ++ "': struct types and tuples "
        ++ "containing structs cannot be compared with == or != — destructure and compare fields "
        ++ "individually")
    else do
      tc.expectType rty lty "right operand of equality"
      .ok .bool
  | .and | .or => do
    tc.expectType lty .bool "left operand of logical op"
    tc.expectType rty .bool "right operand of logical op"
    .ok .bool

def checkCount (name : String) (expected found : ℕ) : Result Unit :=
  if found = expected then .ok ()
  else tc.typeErr ("call to '" ++ name ++ "': expected " ++ toString expected
    ++ " argument(s), found " ++ toString found)

def argContext (i : ℕ) (name : String) : String :=
  "argument " ++ toString (i + 1) ++ " of '" ++ name ++ "'"

def checkNativeArg (context : String) (actual : Ty) (param : NativeParam) : Result Unit :=
  match param, actual with
  | .concrete expected, actual => tc.expectType actual expected context
  | .anyStruct, .struct _ => .ok ()
  | .anyStruct, other =>
    tc.typeErr (context ++ ": expected a struct, found " ++ typeDisplay other)
  | .localStruct, .struct n =>
    if isQualified n then
      tc.typeErr (context ++ ": expected a struct defined in this module, found " ++ n)
    else .ok ()
  | .localStruct, other =>
    tc.typeErr (context ++ ": expected a struct defined in this module, found "
      ++ typeDisplay other)

/-- Arguments from number `i` on. -/
def checkNativeArgs (name : String) : ℕ → List Ty → List NativeParam → Result Unit
  | i, actual :: args, param :: params => do
    tc.checkNativeArg (argContext i name) actual param
    checkNativeArgs name (i + 1) args params
  | _, _, _ => .ok ()

def checkSourceArgs (name : String) : ℕ → List Ty → List Ty → Result Unit
  | i, actual :: args, expected :: params => do
    tc.expectType actual expected (argContext i name)
    checkSourceArgs name (i + 1) args params
  | _, _, _ => .ok ()

/-- Natives come first; a function that is not known at all has no type. -/
def checkCall (name : String) (argTypes : List Ty) : Result (Option Ty) :=
  match tc.nativeFns.lookup name with
  | some (params, ret) => do
    tc.checkCount name params.length argTypes.length
    tc.checkNativeArgs name 0 argTypes params
    .ok ret
  | none =>
    match tc.sourceFns.lookup name with
    | some (params, ret) => do
      tc.checkCount name params.length argTypes.length
      tc.checkSourceArgs name 0 argTypes params
      .ok ret
    | none => .ok none

def fieldOf (structName field : String) : Result Ty :=
  match tc.sourceStructs.lookup structName with
  | none => tc.typeErr ("unknown struct '" ++ structName ++ "'")
  | some fields =>
    match fields.find? (·.1 == field) with
    | none => tc.typeErr ("no field '" ++ field ++ "' on struct '" ++ structName ++ "'")
    | some (_, ty) => .ok ty

def accessField (baseTy : Ty) (field : String) : Result Ty :=
  match baseTy with
  | .struct structName =>
    if isQualified structName then
      tc.typeErr ("fields of '" ++ structName ++ "' are private — use a public getter function to "
        ++ "access them")
    else tc.fieldOf structName field
  | other =>
    tc.typeErr ("field access '." ++ field ++ "' requires a struct, found " ++ typeDisplay other)

/-- The fields of a literal against the definition; a field given twice counts as given last. -/
def checkLiteral (name : String) (defFields : List (String × Ty))
    (given : List (String × Result (Option Ty))) : Result Unit := do
  defFields.forM fun field => do
    match given.reverse.lookup field.1 with
    | none =>
      tc.typeErr ("missing field '" ++ field.1 ++ "' in struct literal '" ++ name ++ "'")
    | some ty =>
      let context := "field '" ++ field.1 ++ "' in '" ++ name ++ "'"
      let actual ← tc.requireTyped ty context
      tc.expectType actual field.2 context
  given.forM fun field =>
    if defFields.any (·.1 == field.1) then .ok ()
    else tc.typeErr ("unknown field '" ++ field.1 ++ "' in struct literal '" ++ name ++ "'")

-- The type of an expression, nothing for a call that returns nothing.
mutual
def exprType (locals : TypeEnv) : Expr → Result (Option Ty)
  | .bool _ => .ok (some .bool)
  | .int _ => .ok (some .u64)
  | .address _ => .ok (some .address)
  | .str _ => .ok (some .str)
  | .ident name =>
    match locals.lookup name with
    | some ty => .ok (some ty)
    | none => tc.typeErr ("undefined variable '" ++ name ++ "'")
  | .unaryOp .not e => do
    let ty ← tc.requireTyped (exprType locals e) "unary '!'"
    tc.expectType ty .bool "operand of '!'"
    .ok (some .bool)
  | .binOp left op right => do
    let lty ← tc.requireTyped (exprType locals left) "left operand"
    let rty ← tc.requireTyped (exprType locals right) "right operand"
    let ty ← tc.checkBinop op lty rty
    .ok (some ty)
  | .structLit name fields =>
    if isQualified name then .ok (some (.struct name))
    else
      match tc.sourceStructs.lookup name with
      | none => tc.typeErr ("unknown struct '" ++ name ++ "'")
      | some defFields => do
        tc.checkLiteral name defFields (fieldTypes locals fields)
        .ok (some (.struct name))
  | .fieldAccess base field => do
    let baseTy ← tc.requireTyped (exprType locals base) "field access base"
    let ty ← tc.accessField baseTy field
    .ok (some ty)
  | .call name args => do
    let argTypes ← exprTypes locals ("argument to '" ++ name ++ "'") args
    tc.checkCall name argTypes
  | .tuple items => do
    let types ← exprTypes locals "tuple element" items
    .ok (some (.tuple types))

def exprTypes (locals : TypeEnv) (context : String) : List Expr → Result (List Ty)
  | [] => .ok []
  | e :: es => do
    let ty ← tc.requireTyped (exprType locals e) context
    let types ← exprTypes locals context es
    .ok (ty :: types)

def fieldTypes (locals : TypeEnv) : List (String × Expr) → List (String × Result (Option Ty))
  | [] => []
  | (name, e) :: fields => (name, exprType locals e) :: fieldTypes locals fields
end

/-! ## Statements -/

/-- The path of an assignment, which starts at a value of type `ty`. The walk ends without a check
where it meets a struct of another module. -/
def checkPath (path : String) (exprTy : Result (Option Ty)) :
    Ty → String → List String → Result Unit
  | .struct structName, field, [] =>
    if isQualified structName then do
      let _ ← exprTy
      .ok ()
    else do
      let fieldTy ← tc.fieldOf structName field
      let actual ← exprTy
      tc.expectKnown actual fieldTy ("assignment to '" ++ path ++ "'")
  | .struct structName, field, next :: rest =>
    if isQualified structName then do
      let _ ← exprTy
      .ok ()
    else do
      let fieldTy ← tc.fieldOf structName field
      checkPath path exprTy fieldTy next rest
  | other, _, _ =>
    tc.typeErr ("field access on non-struct type " ++ typeDisplay other ++ " in '" ++ path ++ "'")

/-- `_` is not bound. -/
def bindNames (locals : TypeEnv) : List String → List Ty → TypeEnv
  | name :: names, ty :: types =>
    bindNames (if name = "_" then locals else (name, ty) :: locals) names types
  | _, _ => locals

def bindFields (typeName : String) (fields : List (String × Ty)) :
    TypeEnv → List (String × String) → Result TypeEnv
  | locals, [] => .ok locals
  | locals, (field, name) :: bindings =>
    if name = "_" then bindFields typeName fields locals bindings
    else
      match fields.find? (·.1 == field) with
      | some (_, ty) => bindFields typeName fields ((name, ty) :: locals) bindings
      | none =>
        tc.typeErr ("struct destructuring of '" ++ typeName ++ "': unknown field '" ++ field ++ "'")

/-- Nothing is checked for a struct of another module. -/
def checkDestructured (typeName : String) (ty : Ty) : Result Unit :=
  if isQualified typeName then .ok ()
  else tc.expectType ty (.struct typeName) ("struct destructuring of '" ++ typeName ++ "'")

def checkReturn (locals : TypeEnv) (expr : Option Expr) : Result Unit :=
  match tc.returnType, expr with
  | none, none => .ok ()
  | none, some e => do
    let _ ← tc.exprType locals e
    .ok ()
  | some ret, none =>
    tc.typeErr ("return without value in function that returns " ++ typeDisplay ret)
  | some ret, some e => do
    let actual ← tc.exprType locals e
    tc.expectKnown actual ret "return value"

mutual
def checkStmt : Stmt → TypeEnv → Result TypeEnv
  | .let_ name e, locals => do
    let ty ← tc.requireTyped (tc.exprType locals e) ("let binding '" ++ name ++ "'")
    .ok ((name, ty) :: locals)
  | .reassign name e, locals =>
    match locals.lookup name with
    | none => tc.typeErr ("assignment to undefined variable '" ++ name ++ "'")
    | some expected => do
      let actual ← tc.exprType locals e
      tc.expectKnown actual expected ("assignment to '" ++ name ++ "'")
      .ok locals
  | .return_ e, locals => do
    tc.checkReturn locals e
    .ok locals
  | .expr e, locals => do
    let _ ← tc.exprType locals e
    .ok locals
  | .if_ cond body none, locals => do
    let condTy ← tc.requireTyped (tc.exprType locals cond) "if condition"
    tc.expectType condTy .bool "if condition"
    let _ ← checkStmts body locals
    .ok locals
  | .if_ cond body (some stmts), locals => do
    let condTy ← tc.requireTyped (tc.exprType locals cond) "if condition"
    tc.expectType condTy .bool "if condition"
    let _ ← checkStmts body locals
    let _ ← checkStmts stmts locals
    .ok locals
  | .fieldAssign objName field path e, locals =>
    match locals.lookup objName with
    | none => tc.typeErr ("undefined variable '" ++ objName ++ "'")
    | some objTy => do
      tc.checkPath (String.intercalate "." (objName :: field :: path)) (tc.exprType locals e) objTy
        field path
      .ok locals
  | .letTuple names e, locals => do
    let ty ← tc.requireTyped (tc.exprType locals e) "tuple destructuring"
    match ty with
    | .tuple types =>
      if names.length = types.length then .ok (bindNames locals names types)
      else tc.typeErr ("let tuple: " ++ toString names.length ++ " names but tuple has "
        ++ toString types.length ++ " elements")
    | other =>
      tc.typeErr ("let tuple destructuring: expected a tuple, found " ++ typeDisplay other)
  | .letStruct typeName bindings e _, locals => do
    let ty ← tc.requireTyped (tc.exprType locals e) "struct destructuring"
    tc.checkDestructured typeName ty
    match tc.sourceStructs.lookup typeName with
    | some fields => tc.bindFields typeName fields locals bindings
    | none => .ok locals

def checkStmts : List Stmt → TypeEnv → Result TypeEnv
  | [], locals => .ok locals
  | s :: stmts, locals => do
    let locals ← checkStmt s locals
    checkStmts stmts locals
end

def forFunction (f : AstFunction) : TypeChecker :=
  { tc with fnName := f.name, returnType := f.returnType }

def checkFunction (f : AstFunction) : Result Unit := do
  let _ ← (tc.forFunction f).checkStmts f.body f.params.reverse
  .ok ()

end TypeChecker

/-! ## Names of other modules -/

section Names

mutual
/-- Back from `@0xADDR::Name` to `alias::Name`. -/
def reverseTranslateType (addrToDep : List (Address × String)) : Ty → Ty
  | .struct name =>
    match parseModuleRef name with
    | some (addr, rest) =>
      match addrToDep.lookup addr with
      | some depName => .struct (depName ++ "::" ++ rest)
      | none => .struct name
    | none => .struct name
  | .tuple types => .tuple (reverseTranslateTypes addrToDep types)
  | ty => ty

def reverseTranslateTypes (addrToDep : List (Address × String)) : List Ty → List Ty
  | [] => []
  | t :: ts => reverseTranslateType addrToDep t :: reverseTranslateTypes addrToDep ts
end

mutual
/-- A struct of the module itself gets the alias of the module. -/
def qualifyDepLocalType (depName : String) (structNames : List String) : Ty → Ty
  | .struct name =>
    if !isQualified name && name.toList.head? != some '@' && structNames.contains name then
      .struct (depName ++ "::" ++ name)
    else .struct name
  | .tuple types => .tuple (qualifyDepLocalTypes depName structNames types)
  | ty => ty

def qualifyDepLocalTypes (depName : String) (structNames : List String) : List Ty → List Ty
  | [] => []
  | t :: ts => qualifyDepLocalType depName structNames t :: qualifyDepLocalTypes depName structNames ts
end

end Names

/-- The entries of `dep_addresses` in the order in which the map is iterated. -/
structure CheckInput where
  structs : List AstStruct
  depAddresses : List (String × Address)
  deps : List (Address × Module)
  natives : List NativeSig
  functions : List AstFunction

namespace CheckInput

variable (input : CheckInput)

def addrToDep : List (Address × String) :=
  (input.depAddresses.map fun entry => (entry.2, entry.1)).reverse

def depType (depName : String) (dep : Module) (ty : Ty) : Ty :=
  qualifyDepLocalType depName (dep.structs.map (·.name)) (reverseTranslateType input.addrToDep ty)

def depStructs (dep : Address × Module) : List (String × List (String × Ty)) :=
  match input.addrToDep.lookup dep.1 with
  | none => []
  | some depName => (dep.2.structs.filter (·.isPublic)).map fun decl =>
    (depName ++ "::" ++ decl.name,
      decl.fields.map fun field => (field.name, input.depType depName dep.2 field.ty))

def depFns (dep : Address × Module) : List (String × (List Ty × Option Ty)) :=
  match input.addrToDep.lookup dep.1 with
  | none => []
  | some depName => (dep.2.functions.filter (·.isPublic)).map fun func =>
    (depName ++ "::" ++ func.name,
      (func.params.map fun param => input.depType depName dep.2 param.2,
        func.returnType.map (input.depType depName dep.2)))

def checker : TypeChecker where
  sourceStructs :=
    (input.structs.map (fun decl => (decl.name, decl.fields))
      ++ input.deps.flatMap input.depStructs).reverse
  sourceFns :=
    (input.functions.map (fun f => (f.name, (f.params.map (·.2), f.returnType)))
      ++ input.deps.flatMap input.depFns).reverse
  nativeFns := (input.natives.map fun sig => (sig.name, (sig.params, sig.returnType))).reverse
  fnName := ""
  returnType := none

def check : Result Unit :=
  input.functions.forM input.checker.checkFunction

end CheckInput

end MeowChain.Compiler
