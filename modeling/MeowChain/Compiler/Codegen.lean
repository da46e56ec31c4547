import Mathlib.Logic.Function.Basic
import MeowChain.Compiler.Validator

/-!
# The code generator

Types recorded for a slot are the ones the source records: translated (`@0xADDR::Name`) for
parameters and fields of local structs, written `alias::Name` for the results of calls.
-/

set_option autoImplicit false

namespace MeowChain.Compiler

structure CodegenEnv where
  config : CompilerConfig
  structs : List StructDef
  depAddresses : List (String × Address)
  depModules : List (Address × Module)
  localFnReturnTypes : List (String × Option Ty)

/-- `locals` holds one entry for a name: its slot and the depth at which it was bound. -/
structure Codegen where
  locals : List (String × (ℕ × ℕ)) := []
  localTypes : ℕ → Option Ty := fun _ => none
  moved : ℕ → Bool := fun _ => false
  nextSlot : ℕ := 0
  scopeDepth : ℕ := 0
  code : List Instruction := []

def isCrossModule : Ty → Bool
  | .struct name => isQualified name
  | _ => false

namespace Codegen

def emit (cg : Codegen) (instr : Instruction) : Codegen :=
  { cg with code := cg.code ++ [instr] }

def emitAll (cg : Codegen) (instrs : List Instruction) : Codegen :=
  { cg with code := cg.code ++ instrs }

def patch (cg : Codegen) (index : ℕ) (instr : Instruction) : Codegen :=
  { cg with code := cg.code.set index instr }

def slotOf (cg : Codegen) (name : String) : Option ℕ :=
  (cg.locals.lookup name).map (·.1)

/-- A slot whose recorded type is not primitive. -/
def holdsStruct (cg : Codegen) (slot : ℕ) : Bool :=
  (cg.localTypes slot).any fun ty => !ty.isPrimitive

def setType (cg : Codegen) (slot : ℕ) (ty : Option Ty) : Codegen :=
  { cg with localTypes := Function.update cg.localTypes slot ty }

def setMoved (cg : Codegen) (slot : ℕ) (moved : Bool) : Codegen :=
  { cg with moved := Function.update cg.moved slot moved }

def insertLocal (locals : List (String × (ℕ × ℕ))) (name : String) (entry : ℕ × ℕ) :
    List (String × (ℕ × ℕ)) :=
  (name, entry) :: locals.filter (·.1 != name)

def freshSlot (config : CompilerConfig) (name : String) (cg : Codegen) : Result (ℕ × Codegen) :=
  if cg.nextSlot ≥ config.maxLocals then
    refuse ("too many local variables: limit is " ++ toString config.maxLocals)
  else
    .ok (cg.nextSlot, { cg with
      locals := insertLocal cg.locals name (cg.nextSlot, cg.scopeDepth)
      nextSlot := cg.nextSlot + 1 })

def rewind (cg before : Codegen) : Codegen :=
  { cg with localTypes := before.localTypes, moved := before.moved }

/-- A name bound again at the depth of its binding keeps its slot. -/
def allocLocal (config : CompilerConfig) (name : String) (cg : Codegen) :
    Result (ℕ × Codegen) := do
  validateIdentifier config name "variable"
  match cg.locals.lookup name with
  | some (slot, depth) =>
    if depth = cg.scopeDepth then
      if cg.holdsStruct slot then
        refuse ("cannot shadow '" ++ name ++ "': the binding still holds a struct value — "
          ++ "consume or destructure it first")
      else .ok (slot, cg.setMoved slot false)
    else cg.freshSlot config name
  | none => cg.freshSlot config name

/-- The entry with the least slot among those that `leaks` holds of. -/
def offender (leaks : String → ℕ → Bool) (cg : Codegen) : Option (String × ℕ) :=
  let entries := (cg.locals.map fun entry => (entry.1, entry.2.1)).filter fun entry =>
    leaks entry.1 entry.2
  entries.foldl (fun best entry =>
    match best with
    | some least => if entry.2 < least.2 then some entry else some least
    | none => some entry) none

def checkAllStructsConsumed (fnName : String) (cg : Codegen) : Result Unit :=
  match cg.offender fun _ slot => cg.holdsStruct slot with
  | none => .ok ()
  | some (name, slot) =>
    refuse ("in function '" ++ fnName ++ "': '" ++ name ++ "' of type '"
      ++ ((cg.localTypes slot).elim "" Ty.name) ++ "' must be consumed before the function returns")

/-- The entries of a branch are those with another slot than before it. -/
def checkBranchStructsConsumed (outerLocals : List (String × (ℕ × ℕ))) (branch : String)
    (cg : Codegen) : Result Unit :=
  match cg.offender fun name slot =>
      (outerLocals.lookup name).map (·.1) != some slot && cg.holdsStruct slot with
  | none => .ok ()
  | some (name, _) =>
    refuse ("struct '" ++ name ++ "' introduced in " ++ branch
      ++ " body must be consumed before the branch ends")

end Codegen

namespace CodegenEnv

variable (env : CodegenEnv)

/-! ## Names and types -/

def translateName (name : String) : Result String :=
  match splitOnce name.toList with
  | none => .ok name
  | some (modName, rest) =>
    match env.depAddresses.lookup (String.ofList modName) with
    | some addr => .ok (qualify addr (String.ofList rest))
    | none =>
      let modName := String.ofList modName
      refuse ("reference to undeclared module '" ++ modName ++ "' — add `use " ++ modName
        ++ ";` at the top of the file")

mutual
def translateType : Ty → Result Ty
  | .struct name => do
    let name ← env.translateName name
    .ok (.struct name)
  | .tuple types => do
    let types ← translateTypes types
    .ok (.tuple types)
  | ty => .ok ty

def translateTypes : List Ty → Result (List Ty)
  | [] => .ok []
  | t :: ts => do
    let t ← translateType t
    let ts ← translateTypes ts
    .ok (t :: ts)
end

def translateReturn : Option Ty → Result (Option Ty)
  | some ty => do
    let ty ← env.translateType ty
    .ok (some ty)
  | none => .ok none

def structNamed (name : String) : Option StructDef :=
  env.structs.find? (·.name == name)

def fieldType (ty : Ty) (field : String) : Option Ty := do
  let decl ← env.structNamed ty.name
  let fieldDef ← decl.fields.find? (·.name == field)
  some fieldDef.ty

def fieldPathType (root : Ty) (path : List String) : Option Ty :=
  path.foldlM env.fieldType root

/-- The return type of a called function, with the alias of its module in front of a struct. -/
def callType (name : String) : Option Ty :=
  match splitOnce name.toList with
  | some (depName, fnLocalName) => do
    let depAddr ← env.depAddresses.lookup (String.ofList depName)
    let depModule ← env.depModules.lookup depAddr
    let func ← depModule.getFunction (String.ofList fnLocalName)
    match ← func.returnType with
    | .struct localName => some (.struct (String.ofList depName ++ "::" ++ localName))
    | other => some other
  | none => (env.localFnReturnTypes.lookup name).join

mutual
def inferType (cg : Codegen) : Expr → Option Ty
  | .bool _ => some .bool
  | .int _ => some .u64
  | .address _ => some .address
  | .str _ => some .str
  | .ident name => (cg.slotOf name).bind cg.localTypes
  | .structLit name _ => some (.struct name)
  | .fieldAccess base field => (inferType cg base).bind fun ty => env.fieldType ty field
  | .call name _ => env.callType name
  | .binOp _ op _ =>
    match op with
    | .add | .sub | .mul | .div | .mod => some .u64
    | _ => some .bool
  | .tuple items => (inferTypes cg items).map .tuple
  | .unaryOp _ _ => some .bool

def inferTypes (cg : Codegen) : List Expr → Option (List Ty)
  | [] => some []
  | e :: es => do
    let t ← inferType cg e
    let ts ← inferTypes cg es
    some (t :: ts)
end

/-! ## Visibility and move semantics -/

def checkFnVisibility (fnName : String) : Result Unit :=
  match splitOnce fnName.toList with
  | none => .ok ()
  | some (depName, fnLocalName) =>
    let depName := String.ofList depName
    let fnLocalName := String.ofList fnLocalName
    match env.depAddresses.lookup depName with
    | none => refuse ("reference to undeclared module '" ++ depName ++ "'")
    | some depAddr =>
      match env.depModules.lookup depAddr with
      | none => refuse ("dependency module '" ++ depName ++ "' not found")
      | some depModule =>
        match depModule.getFunction fnLocalName with
        | none =>
          refuse ("function '" ++ fnLocalName ++ "' not found in module '" ++ depName ++ "'")
        | some func =>
          if func.isPublic then .ok ()
          else refuse ("function '" ++ fnName
            ++ "' is private — only `pub fn` can be called from other modules")

def checkFieldRead (ty : Ty) : Result Unit :=
  refuseIf (isCrossModule ty)
    ("fields of '" ++ ty.name
      ++ "' are private — use a public getter function to access them")

def checkFieldWrite (field : String) (ty : Ty) : Result Unit :=
  refuseIf (isCrossModule ty)
    ("field '" ++ field ++ "' of '" ++ ty.name
      ++ "' cannot be written from outside the declaring module")

def isStruct : Ty → Bool
  | .struct _ => true
  | _ => false

/-- The value a path leads to is not a struct, as far as the types are known. -/
def pathEndsInStruct (root : Option Ty) (path : List String) : Bool :=
  (root.bind fun ty => env.fieldPathType ty path).any isStruct

def checkGetfieldOnStruct (ty : Ty) (field : String) : Result Unit :=
  match env.structNamed ty.name with
  | none => .ok ()
  | some decl =>
    if (decl.fields.find? (·.name == field)).any (isStruct ·.ty) then
      refuse ("field '" ++ field ++ "' has struct type and cannot be accessed directly — "
        ++ "structs have move semantics; use destructuring `let " ++ ty.name ++ " \x7b " ++ field
        ++ ", .. \x7d = expr;`")
    else
      match decl.fields.find? fun f => f.name != field && isStruct f.ty with
      | some linear =>
        refuse ("cannot access field '" ++ field ++ "' on '" ++ ty.name ++ "' — struct-typed field '"
          ++ linear.name ++ "' would be silently dropped; use destructuring `let " ++ ty.name
          ++ " \x7b " ++ field ++ ", .. \x7d = expr;`")
      | none => .ok ()

/-! ## Expressions -/

def binInstr : BinOp → Instruction
  | .add => .add
  | .sub => .sub
  | .mul => .mul
  | .div => .div
  | .mod => .mod
  | .eq => .eq
  | .ne => .ne
  | .lt => .lt
  | .le => .le
  | .gt => .gt
  | .ge => .ge
  | .and => .and
  | .or => .or

/-- Reading a struct moves it out of its slot. -/
def compileIdent (name : String) (cg : Codegen) : Result Codegen :=
  match cg.slotOf name with
  | none => refuse ("undefined variable '" ++ name ++ "'")
  | some slot =>
    if cg.moved slot then
      refuse ("use of '" ++ name ++ "' after it was moved — structs have move semantics; "
        ++ "rebind it before using it again")
    else if cg.holdsStruct slot then
      .ok (((cg.setType slot none).setMoved slot true).emit (.load slot))
    else .ok (cg.emit (.load slot))

/-- A path into a variable is one instruction. -/
def compileLoadField (slot : ℕ) (field : String) (path : List String) (cg : Codegen) :
    Result Codegen := do
  checkSome checkFieldRead (cg.localTypes slot)
  let last := (field :: path).getLastD field
  refuseIf (env.pathEndsInStruct (cg.localTypes slot) (field :: path))
    ("field '" ++ last ++ "' has struct type and cannot be accessed directly — structs have "
      ++ "move semantics; use destructuring `let TypeName \x7b " ++ last ++ ", .. \x7d = expr;`")
  .ok (cg.emit (.loadField slot (field :: path)))

def checkGetField (ty : Option Ty) (path : List String) : Result Unit :=
  match ty, path with
  | some ty, field :: _ => do
    checkFieldRead ty
    env.checkGetfieldOnStruct ty field
  | _, _ => .ok ()

/-- The fields of a literal in the order of the definition, each taken out of the map once. -/
def compileLiteral (name : String) :
    List String → List (String × (Codegen → Result Codegen)) → Codegen → Result Codegen
  | [], _, cg => .ok cg
  | field :: fields, literalMap, cg =>
    match literalMap.lookup field with
    | none => refuse ("missing field '" ++ field ++ "' in struct literal '" ++ name ++ "'")
    | some compile => do
      let cg ← compile cg
      compileLiteral name fields (literalMap.filter (·.1 != field)) cg

-- `compile_expr` for the expression with a path of fields behind it. A chain of accesses is first
-- unwound into its root and the path (`flatten_field_chain`).
mutual
def compileChain : Expr → List String → Codegen → Result Codegen
  | .fieldAccess e field, path, cg => compileChain e (field :: path) cg
  | .ident name, [], cg => compileIdent name cg
  | .ident name, field :: path, cg =>
    match cg.slotOf name with
    | some slot => env.compileLoadField slot field path cg
    | none => compileIdent name cg
  | .bool b, path, cg => do
    env.checkGetField (some .bool) path
    .ok ((cg.emit (.pushBool b)).emitAll (path.map .getField))
  | .int n, path, cg => do
    env.checkGetField (some .u64) path
    .ok ((cg.emit (.pushU64 n)).emitAll (path.map .getField))
  | .address a, path, cg => do
    env.checkGetField (some .address) path
    .ok ((cg.emit (.pushAddress a)).emitAll (path.map .getField))
  | .str s, path, cg => do
    env.checkGetField (some .str) path
    .ok ((cg.emit (.pushStr s)).emitAll (path.map .getField))
  | .binOp left op right, path, cg => do
    env.checkGetField (env.inferType cg (.binOp left op right)) path
    let cg ← compileChain left [] cg
    let cg ← compileChain right [] cg
    .ok ((cg.emit (binInstr op)).emitAll (path.map .getField))
  | .unaryOp .not e, path, cg => do
    env.checkGetField (some .bool) path
    let cg ← compileChain e [] cg
    .ok ((cg.emit .not).emitAll (path.map .getField))
  | .structLit name fields, path, cg => do
    env.checkGetField (some (.struct name)) path
    refuseIf (isQualified name)
      ("cannot construct '" ++ name ++ "' outside its declaring module — structs can only "
        ++ "be created where they are defined")
    match env.structNamed name with
    | none => refuse ("unknown struct '" ++ name ++ "'")
    | some decl => do
      let fieldNames := decl.fields.map (·.name)
      let cg ← compileLiteral name fieldNames (compileFields fields).reverse cg
      let typeName ← env.translateName name
      .ok ((cg.emit (.newStruct typeName fieldNames)).emitAll (path.map .getField))
  | .tuple items, path, cg => do
    env.checkGetField (env.inferType cg (.tuple items)) path
    refuseIf (items.length > env.config.maxTupleElements)
      ("tuple literal has " ++ toString items.length ++ " elements, exceeding the limit of "
        ++ toString env.config.maxTupleElements)
    let cg ← compileExprs items cg
    .ok ((cg.emit (.makeTuple items.length)).emitAll (path.map .getField))
  | .call name args, path, cg => do
    env.checkGetField (env.callType name) path
    env.checkFnVisibility name
    let cg ← compileExprs args cg
    let translated ← env.translateName name
    .ok ((cg.emit (.call translated)).emitAll (path.map .getField))

def compileExprs : List Expr → Codegen → Result Codegen
  | [], cg => .ok cg
  | e :: es, cg => do
    let cg ← compileChain e [] cg
    compileExprs es cg

def compileFields : List (String × Expr) → List (String × (Codegen → Result Codegen))
  | [] => []
  | (name, e) :: fields => (name, compileChain e []) :: compileFields fields
end

def compileExpr (e : Expr) (cg : Codegen) : Result Codegen :=
  env.compileChain e [] cg

/-! ## Statements -/

def bindLocal (name : String) (ty : Option Ty) (cg : Codegen) : Result Codegen := do
  let (slot, cg) ← cg.allocLocal env.config name
  let cg := cg.emit (.store slot)
  .ok (if ty.isSome then cg.setType slot ty else cg)

/-- The names of a tuple with the types of its elements, where those are known. -/
def bindNames : List String → List (Option Ty) → Codegen → Result Codegen
  | name :: names, ty :: types, cg => do
    let cg ← env.bindLocal name ty cg
    bindNames names types cg
  | _, _, cg => .ok cg

/-- The fields of a definition in its order: bound, or dropped under `..`. -/
def bindFields (typeName : String) (fields : List FieldDef) (bindings : List (String × String)) :
    List String → Codegen → Result Codegen
  | [], cg => .ok cg
  | fieldName :: rest, cg =>
    let ty := (fields.find? (·.name == fieldName)).map (·.ty)
    match bindings.lookup fieldName with
    | some bindingName => do
      let cg ← env.bindLocal bindingName ty cg
      bindFields typeName fields bindings rest cg
    | none => do
      refuseIf (ty.any isStruct)
        ("struct destructuring of '" ++ typeName ++ "': cannot discard linear field '"
          ++ fieldName ++ "' with `..`; bind it explicitly")
      bindFields typeName fields bindings rest (cg.emit .pop)

def checkBindings (typeName : String) (fieldNames : List String)
    (bindings : List (String × String)) (restDiscarded : Bool) : Result Unit := do
  bindings.forM fun binding =>
    refuseIf (!fieldNames.contains binding.1)
      ("struct destructuring of '" ++ typeName ++ "': unknown field '" ++ binding.1 ++ "'")
  fieldNames.forM fun field =>
    refuseIf (!restDiscarded && (bindings.lookup field).isNone)
      ("struct destructuring of '" ++ typeName ++ "': missing binding for field '"
        ++ field ++ "' (use `..` to discard remaining fields)")

/-- The types of the elements, where the type of the tuple is known and of the right length. -/
def tupleTypes (ty : Option Ty) (names : List String) : List (Option Ty) :=
  match ty with
  | some (.tuple types) =>
    if types.length = names.length then types.map some else names.map fun _ => none
  | _ => names.map fun _ => none

def checkDiscard (ty : Ty) : Result Unit :=
  refuseIf (!ty.isPrimitive)
    ("expression of type '" ++ ty.name ++ "' cannot be discarded as a statement — "
      ++ "structs have move semantics; bind or consume the value")

/-- `matches!(stmts.last(), Some(Stmt::Return(_)))`. -/
def terminates (stmts : List Stmt) : Bool :=
  match stmts.getLast? with
  | some (.return_ _) => true
  | _ => false

/-- The state after the join. `other` is the outcome of the path that was compiled last. -/
def mergeBranches (thenTerminates elseTerminates : Bool) (thenTypes : ℕ → Option Ty)
    (thenMoved : ℕ → Bool) (other : Codegen) : Codegen :=
  if thenTerminates then other
  else if elseTerminates then { other with localTypes := thenTypes, moved := thenMoved }
  else { other with
    localTypes := fun slot =>
      if thenTypes slot = other.localTypes slot then other.localTypes slot else none
    moved := fun slot => other.moved slot || thenMoved slot }

def compileScoped (branch : String) (body : Codegen → Result Codegen) (cg : Codegen) :
    Result Codegen := do
  let inner ← body { cg with scopeDepth := cg.scopeDepth + 1 }
  let inner := { inner with scopeDepth := inner.scopeDepth - 1 }
  inner.checkBranchStructsConsumed cg.locals branch
  .ok { inner with locals := cg.locals }

mutual
def compileStmt : Stmt → Codegen → Result Codegen
  | .let_ name e, cg => do
    let ty := env.inferType cg e
    let cg ← env.compileExpr e cg
    env.bindLocal name ty cg
  | .reassign name e, cg =>
    match cg.slotOf name with
    | none => refuse ("undefined variable '" ++ name ++ "'")
    | some slot => do
      refuseIf (cg.holdsStruct slot)
        ("cannot reassign '" ++ name ++ "': it still holds a struct value — consume or "
          ++ "destructure it first")
      let ty := env.inferType cg e
      let cg ← env.compileExpr e cg
      .ok (((cg.emit (.store slot)).setMoved slot false).setType slot ty)
  | .return_ (some e), cg => do
    let cg ← env.compileExpr e cg
    .ok (cg.emit .ret)
  | .return_ none, cg => .ok (cg.emit .ret)
  | .expr e, cg => do
    checkSome checkDiscard (env.inferType cg e)
    let cg ← env.compileExpr e cg
    .ok (cg.emit .pop)
  -- the path that does not take the branch starts from the types and moves before it
  | .if_ cond body none, cg => do
    let cg ← env.compileExpr cond cg
    let patchCond := cg.code.length
    let thenCg ← compileScoped "if" (compileStmts body) (cg.emit (.jumpIfNot 0))
    let restored := thenCg.rewind cg
    let elseCg := restored.patch patchCond (.jumpIfNot (restored.code.length - patchCond))
    .ok (mergeBranches (terminates body) false thenCg.localTypes thenCg.moved elseCg)
  | .if_ cond body (some stmts), cg => do
    let cg ← env.compileExpr cond cg
    let patchCond := cg.code.length
    let thenCg ← compileScoped "if" (compileStmts body) (cg.emit (.jumpIfNot 0))
    let restored := thenCg.rewind cg
    let patchJump := restored.code.length
    let jumped := restored.emit (.jump 0)
    let elseCg ← compileScoped "else" (compileStmts stmts)
      (jumped.patch patchCond (.jumpIfNot (jumped.code.length - patchCond)))
    let elseCg := elseCg.patch patchJump (.jump (elseCg.code.length - patchJump))
    .ok (mergeBranches (terminates body) (terminates stmts) thenCg.localTypes thenCg.moved elseCg)
  | .letTuple names e, cg => do
    refuseIf (names.length > env.config.maxTupleElements)
      ("tuple destructuring has " ++ toString names.length
        ++ " elements, exceeding the limit of " ++ toString env.config.maxTupleElements)
    let types := tupleTypes (env.inferType cg e) names
    let cg ← env.compileExpr e cg
    env.bindNames names types (cg.emit (.unpackTuple names.length))
  | .letStruct typeName bindings e restDiscarded, cg =>
    match env.structNamed typeName with
    | none => refuse ("unknown struct '" ++ typeName ++ "'")
    | some decl => do
      let fieldNames := decl.fields.map (·.name)
      checkBindings typeName fieldNames bindings restDiscarded
      let cg ← env.compileExpr e cg
      let translated ← env.translateName typeName
      env.bindFields typeName decl.fields bindings.reverse fieldNames
        (cg.emit (.unpackStruct translated fieldNames))
  | .fieldAssign objName field path e, cg =>
    match cg.slotOf objName with
    | none => refuse ("undefined variable '" ++ objName ++ "'")
    | some slot => do
      checkSome (checkFieldWrite field) (cg.localTypes slot)
      refuseIf (env.pathEndsInStruct (cg.localTypes slot) (field :: path))
        ("cannot assign to struct-typed field '" ++ (field :: path).getLastD field
          ++ "' — structs have move semantics")
      let cg ← env.compileExpr e cg
      .ok (cg.emit (.storeField slot (field :: path)))

def compileStmts : List Stmt → Codegen → Result Codegen
  | [], cg => .ok cg
  | s :: stmts, cg => do
    let cg ← compileStmt s cg
    compileStmts stmts cg
end

/-! ## Functions -/

def compileParams (fnName : String) :
    List (String × Ty) → Codegen → Result (List (String × Ty) × Codegen)
  | [], cg => .ok ([], cg)
  | (name, ty) :: rest, cg => do
    validateIdentifier env.config name ("parameter in function '" ++ fnName ++ "'")
    let (slot, cg) ← cg.allocLocal env.config name
    let ty ← env.translateType ty
    let (params, cg) ← compileParams fnName rest (cg.setType slot (some ty))
    .ok ((name, ty) :: params, cg)

/-- A `Return` is added unless the code already ends with one. -/
def closeCode (code : List Instruction) : List Instruction :=
  if code.getLast? = some .ret then code else code ++ [.ret]

def compileFunction (f : AstFunction) : Result Function := do
  validateFunctionName env.config f.name
  refuseIf (f.params.length > env.config.maxParams)
    ("function '" ++ f.name ++ "': too many parameters (" ++ toString f.params.length
      ++ " > limit of " ++ toString env.config.maxParams ++ ")")
  let (params, cg) ← env.compileParams f.name f.params {}
  let returnType ← env.translateReturn f.returnType
  let cg ← env.compileStmts f.body cg
  cg.checkAllStructsConsumed f.name
  let code := closeCode cg.code
  refuseIf (code.length > env.config.maxFunCodeSize)
    ("function '" ++ f.name ++ "': bytecode too large (" ++ toString code.length
      ++ " instructions > limit of " ++ toString env.config.maxFunCodeSize ++ ")")
  .ok
    { name := f.name
      isPublic := f.isPublic
      params := params
      returnType := returnType
      localCount := cg.nextSlot
      code := code }

end CodegenEnv

end MeowChain.Compiler
