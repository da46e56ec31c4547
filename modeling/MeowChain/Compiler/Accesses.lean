import MeowChain.Compiler.Compile
import MeowChain.Compiler.Layout

/-!
# Accesses and the types they start from

Every instruction of a compiled module that takes a value from a variable, from a called function or
from a field is listed with the type of the value it starts from. Two types are kept: the one that
the type checker believes in, and the type of the value that the code has put there. They differ
where the passes disagree: arguments are in the slots of their positions, while the code generator
gives a repeated parameter the slot it had; the checker does not bind `_` and binds the fields of a
struct pattern in the order in which they are written, the code generator binds `_` like any other
name and goes by the definition; the checker takes the last function of a name, the machine the
first.
-/

set_option autoImplicit false

namespace MeowChain.Compiler

/-- The fields that an instruction takes from the value it starts from. -/
def accessPath : Instruction → Option (List String)
  | .load _ | .call _ => some []
  | .loadField _ path | .storeField _ path => some path
  | .getField field => some [field]
  | _ => none

def isAccess (instr : Instruction) : Bool := (accessPath instr).isSome

/-- What a native or another function takes and returns. -/
structure Signature where
  params : List NativeParam ⊕ List Ty
  result : Option Ty
  deriving DecidableEq

/-- An instruction, with the checker's type of the value it starts from and the type of the value
that is there. -/
structure Access where
  instr : Instruction
  checked : Option Ty
  held : Option Ty
  /-- The type that the code generator has for the variable of an assignment. -/
  recorded : Option Ty := none
  /-- The function that the checker takes for the called one, and the one that is called. -/
  callees : Option Signature × Option Signature := (none, none)

namespace Access

def path (a : Access) : List String := (accessPath a.instr).getD []

def isWrite (a : Access) : Bool :=
  match a.instr with
  | .storeField _ _ => true
  | _ => false

/-- The passes know what the code does: the checker has the right type and the right function, and
the code generator does not take a variable of another module for one of this module. -/
structure Tracked (a : Access) : Prop where
  checked : a.checked = a.held
  callees : a.callees.1 = a.callees.2
  recorded : a.isWrite = true → a.held.any isCrossModule = true →
    a.recorded.any isCrossModule = true

instance (a : Access) : Decidable a.Tracked :=
  decidable_of_iff (a.checked = a.held ∧ a.callees.1 = a.callees.2 ∧ (a.isWrite = true →
    a.held.any isCrossModule = true → a.recorded.any isCrossModule = true))
    ⟨fun h => ⟨h.1, h.2.1, h.2.2⟩, fun h => ⟨h.1, h.2, h.3⟩⟩

end Access

/-! ## Types of values -/

namespace TypeChecker

variable (tc : TypeChecker)

def stepType (ty : Ty) (field : String) : Option Ty :=
  match ty with
  | .struct name =>
    (tc.sourceStructs.lookup name).bind fun fields => (fields.find? (·.1 == field)).map (·.2)
  | _ => none

def signature (name : String) : Option Signature :=
  match tc.nativeFns.lookup name with
  | some sig => some ⟨.inl sig.1, sig.2⟩
  | none => (tc.sourceFns.lookup name).map fun sig => ⟨.inr sig.1, sig.2⟩

def binType : BinOp → Ty
  | .add | .sub | .mul | .div | .mod => .u64
  | _ => .bool

section Values

variable (calls : String → Option Signature) (types : String → Option Ty)

-- The type of the value of an expression, given the functions and the types of the variables.
mutual
def valueType : Expr → Option Ty
  | .bool _ => some .bool
  | .int _ => some .u64
  | .address _ => some .address
  | .str _ => some .str
  | .ident name => types name
  | .binOp _ op _ => some (binType op)
  | .unaryOp .not _ => some .bool
  | .structLit name _ => some (.struct name)
  | .fieldAccess e field => (valueType e).bind fun ty => tc.stepType ty field
  | .call name _ => (calls name).bind (·.result)
  | .tuple items => (valueTypes items).map .tuple

def valueTypes : List Expr → Option (List Ty)
  | [] => some []
  | e :: es => do
    let ty ← valueType e
    let tys ← valueTypes es
    some (ty :: tys)
end

end Values

/-- Every struct that the path takes a field of is one of `declared`. -/
def staysIn (declared : List String) : Option Ty → List String → Bool
  | _, [] => true
  | some (.struct name), field :: path =>
    declared.contains name && staysIn declared (tc.stepType (.struct name) field) path
  | _, _ :: _ => false

end TypeChecker

/-! ## Variables -/

/-- What is known about the variables at a point of a function. -/
structure Vars where
  checked : List (String × Option Ty) := []
  layout : Layout := {}
  slots : ℕ → Option Ty := fun _ => none

namespace Vars

def checkedType (v : Vars) (name : String) : Option Ty := (v.checked.lookup name).join

def heldType (v : Vars) (name : String) : Option Ty := (v.layout.slotOf name).bind v.slots

def bindChecked (v : Vars) (name : String) (ty : Option Ty) : Vars :=
  { v with checked := (name, ty) :: v.checked }

def bindHeld (v : Vars) (name : String) (ty : Option Ty) : Vars :=
  { v with
    layout := (v.layout.bind name).2
    slots := Function.update v.slots (v.layout.bind name).1 ty }

def bind (v : Vars) (name : String) (checked held : Option Ty) : Vars :=
  (v.bindChecked name checked).bindHeld name held

def assign (v : Vars) (name : String) (held : Option Ty) : Vars :=
  { v with slots := Function.update v.slots (v.layout.slot name) held }

def enter (v : Vars) : Vars := { v with layout := v.layout.enter }

/-- The second branch starts from the values before the first one. -/
def otherwise (v inner : Vars) : Vars := { v with layout := v.layout.leave inner.layout }

def join (v : Vars) (thenEnds elseEnds : Bool) (thenVars elseVars : Vars) : Vars :=
  { v with
    layout := v.layout.leave elseVars.layout
    slots :=
      if thenEnds then elseVars.slots
      else if elseEnds then thenVars.slots
      else fun slot =>
        if thenVars.slots slot = elseVars.slots slot then elseVars.slots slot else none }

def bindCheckedNames (v : Vars) : List String → List (Option Ty) → Vars
  | name :: names, ty :: types =>
    bindCheckedNames (if name = "_" then v else v.bindChecked name ty) names types
  | _, _ => v

def bindHeldNames (v : Vars) : List String → List (Option Ty) → Vars
  | [], _ => v
  | name :: names, types => bindHeldNames (v.bindHeld name types.head?.join) names types.tail

def bindCheckedFields (v : Vars) (fields : List (String × Ty)) : List (String × String) → Vars
  | [] => v
  | (field, name) :: bindings =>
    bindCheckedFields
      (if name = "_" then v else v.bindChecked name ((fields.find? (·.1 == field)).map (·.2)))
      fields bindings

/-- The fields in the order of the definition. -/
def bindHeldFields (fieldTy : String → Option Ty) (bindings : List (String × String)) :
    Vars → List String → Vars
  | v, [] => v
  | v, field :: fields =>
    match bindings.lookup field with
    | some name => bindHeldFields fieldTy bindings (v.bindHeld name (fieldTy field)) fields
    | none => bindHeldFields fieldTy bindings v fields

end Vars

def elementTypes : Option Ty → List (Option Ty)
  | some (.tuple types) => types.map some
  | _ => []

/-! ## Accesses -/

section Accesses

variable (tc : TypeChecker) (calls : String → Option Signature) (env : CodegenEnv)

/-- The type that the checker gives to an expression, and the type of its value. -/
def Vars.checkedOf (v : Vars) (e : Expr) : Option Ty := tc.valueType tc.signature v.checkedType e

def Vars.heldOf (v : Vars) (e : Expr) : Option Ty := tc.valueType calls v.heldType e

/-- One `GetField` for each step. -/
def stepAccesses : Option Ty → Option Ty → List String → List Access
  | _, _, [] => []
  | checked, held, field :: path =>
    { instr := .getField field, checked, held }
      :: stepAccesses (checked.bind (tc.stepType · field)) (held.bind (tc.stepType · field)) path

-- The accesses of an expression with a path of fields behind it.
mutual
def chainAccesses (v : Vars) : Expr → List String → List Access
  | .fieldAccess e field, path => chainAccesses v e (field :: path)
  | .ident name, [] => [{
      instr := .load (v.layout.slot name)
      checked := v.checkedType name
      held := v.heldType name }]
  | .ident name, field :: path => [{
      instr := .loadField (v.layout.slot name) (field :: path)
      checked := v.checkedType name
      held := v.heldType name }]
  | .bool _, path => stepAccesses tc (some .bool) (some .bool) path
  | .int _, path => stepAccesses tc (some .u64) (some .u64) path
  | .address _, path => stepAccesses tc (some .address) (some .address) path
  | .str _, path => stepAccesses tc (some .str) (some .str) path
  | .binOp left op right, path =>
    let ty := some (TypeChecker.binType op)
    chainAccesses v left [] ++ (chainAccesses v right [] ++ stepAccesses tc ty ty path)
  | .unaryOp .not e, path =>
    chainAccesses v e [] ++ stepAccesses tc (some .bool) (some .bool) path
  | .structLit name fields, path =>
    CodegenEnv.inOrder (env.fieldNamesOf name) (fieldsAccesses v fields).reverse
      ++ stepAccesses tc (some (.struct name)) (some (.struct name)) path
  | .tuple items, path =>
    exprsAccesses v items
      ++ stepAccesses tc (v.checkedOf tc (.tuple items)) (v.heldOf tc calls (.tuple items)) path
  | .call name args, path =>
    let checked := (tc.signature name).bind (·.result)
    let held := (calls name).bind (·.result)
    exprsAccesses v args ++ {
      instr := .call (env.nameInCode name)
      checked
      held
      callees := (tc.signature name, calls name) } :: stepAccesses tc checked held path

def exprsAccesses (v : Vars) : List Expr → List Access
  | [] => []
  | e :: es => chainAccesses v e [] ++ exprsAccesses v es

def fieldsAccesses (v : Vars) : List (String × Expr) → List (String × List Access)
  | [] => []
  | (name, e) :: fields => (name, chainAccesses v e []) :: fieldsAccesses v fields
end

def exprAccesses (v : Vars) (e : Expr) : List Access := chainAccesses tc calls env v e []

/-- The state after a step, which has succeeded where it matters. -/
def Codegen.after (cg : Codegen) : Result Codegen → Codegen
  | .ok next => next
  | .error _ => cg

def Codegen.enter (cg : Codegen) : Codegen := { cg with scopeDepth := cg.scopeDepth + 1 }

/-- From the state after the condition to the one in which the second branch is compiled. -/
def Codegen.otherwise (cg : Codegen) (body : List Stmt) : Codegen :=
  let thenCg := cg.after
    (CodegenEnv.compileScoped "if" (env.compileStmts body) (cg.emit (.jumpIfNot 0)))
  let jumped := (thenCg.rewind cg).emit (.jump 0)
  jumped.patch cg.code.length (.jumpIfNot (jumped.code.length - cg.code.length))

-- The state of the code generator is kept for the types that it has for the slots.
mutual
def stmtAccesses (v : Vars) (cg : Codegen) : Stmt → List Access × Vars
  | .let_ name e =>
    (exprAccesses tc calls env v e, v.bind name (v.checkedOf tc e) (v.heldOf tc calls e))
  | .reassign name e => (exprAccesses tc calls env v e, v.assign name (v.heldOf tc calls e))
  | .return_ (some e) => (exprAccesses tc calls env v e, v)
  | .return_ none => ([], v)
  | .expr e => (exprAccesses tc calls env v e, v)
  | .if_ cond body none =>
    let mid := cg.after (env.compileExpr cond cg)
    let thenPart := stmtsAccesses v.enter (mid.emit (.jumpIfNot 0)).enter body
    (exprAccesses tc calls env v cond ++ thenPart.1,
      v.join (CodegenEnv.terminates body) false thenPart.2 (v.otherwise thenPart.2))
  | .if_ cond body (some stmts) =>
    let mid := cg.after (env.compileExpr cond cg)
    let thenPart := stmtsAccesses v.enter (mid.emit (.jumpIfNot 0)).enter body
    let elsePart :=
      stmtsAccesses (v.otherwise thenPart.2).enter (mid.otherwise env body).enter stmts
    (exprAccesses tc calls env v cond ++ (thenPart.1 ++ elsePart.1),
      v.join (CodegenEnv.terminates body) (CodegenEnv.terminates stmts) thenPart.2 elsePart.2)
  | .letTuple names e =>
    (exprAccesses tc calls env v e,
      (v.bindCheckedNames names (elementTypes (v.checkedOf tc e))).bindHeldNames names
        (elementTypes (v.heldOf tc calls e)))
  -- the machine takes the fields of any struct that has them
  | .letStruct typeName bindings e _ =>
    (exprAccesses tc calls env v e,
      Vars.bindHeldFields (fun field => (v.heldOf tc calls e).bind (tc.stepType · field))
        bindings.reverse
        (match tc.sourceStructs.lookup typeName with
        | some fields => v.bindCheckedFields fields bindings
        | none => v) (env.fieldNamesOf typeName))
  | .fieldAssign objName field path e =>
    (exprAccesses tc calls env v e ++ [{
      instr := .storeField (v.layout.slot objName) (field :: path)
      checked := v.checkedType objName
      held := v.heldType objName
      recorded := (cg.slotOf objName).bind cg.localTypes }], v)

def stmtsAccesses (v : Vars) (cg : Codegen) : List Stmt → List Access × Vars
  | [] => ([], v)
  | s :: stmts =>
    let first := stmtAccesses v cg s
    let rest := stmtsAccesses first.2 (cg.after (env.compileStmt s cg)) stmts
    (first.1 ++ rest.1, rest.2)
end

/-- Argument `i` is in slot `i`, wherever the code generator looks for it. -/
def paramVars (params : List (String × Ty)) : Vars where
  checked := (params.map fun param => (param.1, some param.2)).reverse
  layout := CodegenEnv.paramLayout params
  slots i := params[i]?.map (·.2)

/-- The state in which the body of a function is compiled. -/
def CodegenEnv.paramState (f : AstFunction) : Codegen :=
  match env.compileParams f.name f.params {} with
  | .ok (_, cg) => cg
  | .error _ => {}

def functionAccesses (f : AstFunction) : List Access :=
  (stmtsAccesses tc calls env (paramVars f.params) (env.paramState f) f.body).1

/-! ## The listed instructions are those of the code -/

def accessInstrs (code : List Instruction) : List Instruction := code.filter isAccess

@[simp] theorem accessInstrs_append (a b : List Instruction) :
    accessInstrs (a ++ b) = accessInstrs a ++ accessInstrs b :=
  List.filter_append a b

@[simp] theorem accessInstrs_nil : accessInstrs [] = [] := rfl

theorem accessInstrs_cons {instr : Instruction} (h : isAccess instr = false)
    (code : List Instruction) : accessInstrs (instr :: code) = accessInstrs code :=
  List.filter_cons_of_neg (by rw [h]; decide)

theorem accessInstrs_steps (checked held : Option Ty) (path : List String) :
    accessInstrs (path.map .getField) = (stepAccesses tc checked held path).map (·.instr) := by
  induction path generalizing checked held with
  | nil => rfl
  | cons field path ih =>
    rw [stepAccesses, List.map_cons, List.map_cons, ← ih]
    rfl

theorem isAccess_binInstr (op : BinOp) : isAccess (CodegenEnv.binInstr op) = false := by
  cases op <;> rfl

theorem inOrder_map {α β : Type} (f : List α → List β) (hnil : f [] = [])
    (happend : ∀ a b, f (a ++ b) = f a ++ f b) (fields : List String)
    (parts : List (String × List α)) :
    f (CodegenEnv.inOrder fields parts)
      = CodegenEnv.inOrder fields (parts.map fun part => (part.1, f part.2)) := by
  induction fields generalizing parts with
  | nil => exact hnil
  | cons field fields ih =>
    rw [CodegenEnv.inOrder, CodegenEnv.inOrder, happend, ih, List.filter_map]
    congr 1
    induction parts with
    | nil => exact hnil
    | cons part parts ih =>
      rw [List.map_cons, List.lookup_cons, List.lookup_cons]
      split
      · rfl
      · exact ih

mutual
theorem accessInstrs_chainCode (v : Vars) : ∀ (e : Expr) (path : List String),
    accessInstrs (env.chainCode v.layout e path)
      = (chainAccesses tc calls env v e path).map (·.instr)
  | .fieldAccess e field, path => by
    rw [CodegenEnv.chainCode, chainAccesses]
    exact accessInstrs_chainCode v e (field :: path)
  | .ident name, [] => rfl
  | .ident name, field :: path => rfl
  | .bool b, path | .int b, path | .address b, path | .str b, path => by
    rw [CodegenEnv.chainCode, chainAccesses, accessInstrs_cons rfl]
    exact accessInstrs_steps tc _ _ path
  | .binOp left op right, path => by
    rw [CodegenEnv.chainCode, chainAccesses, accessInstrs_append, accessInstrs_append,
      accessInstrs_cons (isAccess_binInstr op), accessInstrs_chainCode v left [],
      accessInstrs_chainCode v right [], List.map_append, List.map_append]
    rw [accessInstrs_steps tc]
  | .unaryOp .not e, path => by
    rw [CodegenEnv.chainCode, chainAccesses, accessInstrs_append, accessInstrs_cons rfl,
      accessInstrs_chainCode v e [], List.map_append]
    rw [accessInstrs_steps tc]
  | .structLit name fields, path => by
    rw [CodegenEnv.chainCode, chainAccesses, accessInstrs_append, accessInstrs_cons rfl,
      List.map_append, inOrder_map accessInstrs rfl accessInstrs_append,
      inOrder_map (List.map Access.instr) rfl (fun a b => List.map_append),
      List.map_reverse, List.map_reverse, accessInstrs_fieldsCode v fields]
    rw [accessInstrs_steps tc]
  | .tuple items, path => by
    rw [CodegenEnv.chainCode, chainAccesses, accessInstrs_append, accessInstrs_cons rfl,
      accessInstrs_exprsCode v items, List.map_append]
    rw [accessInstrs_steps tc]
  | .call name args, path => by
    rw [CodegenEnv.chainCode, chainAccesses, accessInstrs_append, accessInstrs_exprsCode v args,
      List.map_append, List.map_cons]
    exact congrArg (fun steps => _ ++ _ :: steps) (accessInstrs_steps tc _ _ path)

theorem accessInstrs_exprsCode (v : Vars) : ∀ es : List Expr,
    accessInstrs (env.exprsCode v.layout es) = (exprsAccesses tc calls env v es).map (·.instr)
  | [] => rfl
  | e :: es => by
    rw [CodegenEnv.exprsCode, exprsAccesses, accessInstrs_append, List.map_append,
      accessInstrs_chainCode v e [], accessInstrs_exprsCode v es]

theorem accessInstrs_fieldsCode (v : Vars) : ∀ fields : List (String × Expr),
    (env.fieldsCode v.layout fields).map (fun part => (part.1, accessInstrs part.2))
      = (fieldsAccesses tc calls env v fields).map fun part => (part.1, part.2.map (·.instr))
  | [] => rfl
  | (name, e) :: fields => by
    rw [CodegenEnv.fieldsCode, fieldsAccesses, List.map_cons, List.map_cons,
      accessInstrs_fieldsCode v fields, accessInstrs_chainCode v e []]
end

theorem accessInstrs_exprCode (v : Vars) (e : Expr) :
    accessInstrs (env.exprCode v.layout e) = (exprAccesses tc calls env v e).map (·.instr) :=
  accessInstrs_chainCode tc calls env v e []

theorem accessInstrs_bindNames (L : Layout) (names : List String) :
    accessInstrs (L.bindNames names).1 = [] := by
  induction names generalizing L with
  | nil => rfl
  | cons name names ih => exact ih _

theorem accessInstrs_bindFields (bindings : List (String × String)) (L : Layout)
    (fields : List String) : accessInstrs (L.bindFields bindings fields).1 = [] := by
  induction fields generalizing L with
  | nil => rfl
  | cons field fields ih =>
    rw [Layout.bindFields]
    split
    · exact ih _
    · exact ih _

theorem bindCheckedNames_layout (v : Vars) (names : List String) (types : List (Option Ty)) :
    (v.bindCheckedNames names types).layout = v.layout := by
  induction names generalizing v types with
  | nil => cases types <;> rfl
  | cons name names ih =>
    cases types with
    | nil => rfl
    | cons ty types =>
      rw [Vars.bindCheckedNames, ih]
      split
      · rfl
      · rfl

theorem bindHeldNames_layout (v : Vars) (names : List String) (types : List (Option Ty)) :
    (v.bindHeldNames names types).layout = (v.layout.bindNames names).2 := by
  induction names generalizing v types with
  | nil => rfl
  | cons name names ih => exact ih _ _

theorem bindCheckedFields_layout (v : Vars) (fields : List (String × Ty))
    (bindings : List (String × String)) :
    (v.bindCheckedFields fields bindings).layout = v.layout := by
  induction bindings generalizing v with
  | nil => rfl
  | cons binding bindings ih =>
    rw [Vars.bindCheckedFields, ih]
    split
    · rfl
    · rfl

theorem bindHeldFields_layout (fieldTy : String → Option Ty) (bindings : List (String × String))
    (v : Vars) (fields : List String) :
    (Vars.bindHeldFields fieldTy bindings v fields).layout
      = (v.layout.bindFields bindings fields).2 := by
  induction fields generalizing v with
  | nil => rfl
  | cons field fields ih =>
    rw [Vars.bindHeldFields, Layout.bindFields]
    cases bindings.lookup field with
    | none => exact ih _
    | some name => exact ih _

mutual
theorem accessInstrs_stmtCode (v : Vars) (cg : Codegen) : ∀ s : Stmt,
    accessInstrs (env.stmtCode v.layout s).1
        = (stmtAccesses tc calls env v cg s).1.map (·.instr) ∧
      (stmtAccesses tc calls env v cg s).2.layout = (env.stmtCode v.layout s).2
  | .let_ name e | .reassign name e => by
    rw [CodegenEnv.stmtCode, stmtAccesses]
    refine ⟨?_, rfl⟩
    rw [accessInstrs_append, accessInstrs_exprCode tc calls]
    exact List.append_nil _
  | .return_ (some e) | .expr e => by
    rw [CodegenEnv.stmtCode, stmtAccesses]
    refine ⟨?_, rfl⟩
    rw [accessInstrs_append, accessInstrs_exprCode tc calls]
    exact List.append_nil _
  | .return_ none => ⟨rfl, rfl⟩
  | .if_ cond body none => by
    obtain ⟨hthen, hlayout⟩ := accessInstrs_stmtsCode v.enter _ body
    rw [CodegenEnv.stmtCode, stmtAccesses]
    refine ⟨?_, ?_⟩
    · rw [accessInstrs_append, accessInstrs_cons rfl, accessInstrs_exprCode tc calls,
        List.map_append]
      exact congrArg _ hthen
    · exact congrArg (fun L => v.layout.leave (v.layout.leave L)) hlayout
  | .if_ cond body (some stmts) => by
    set mid := cg.after (env.compileExpr cond cg)
    set thenVars := (stmtsAccesses tc calls env v.enter (mid.emit (.jumpIfNot 0)).enter body).2
    obtain ⟨hthen, hlayout⟩ := accessInstrs_stmtsCode v.enter (mid.emit (.jumpIfNot 0)).enter body
    obtain ⟨helse, hlayout'⟩ :=
      accessInstrs_stmtsCode (v.otherwise thenVars).enter (mid.otherwise env body).enter stmts
    have hstart : (v.otherwise thenVars).enter.layout
        = (v.layout.leave (env.stmtsCode v.layout.enter body).2).enter :=
      congrArg (fun L => (v.layout.leave L).enter) hlayout
    rw [hstart] at helse hlayout'
    rw [CodegenEnv.stmtCode, stmtAccesses, CodegenEnv.ifCode]
    refine ⟨?_, ?_⟩
    · rw [accessInstrs_append, accessInstrs_cons rfl, accessInstrs_append, accessInstrs_cons rfl,
        accessInstrs_exprCode tc calls, List.map_append, List.map_append, helse]
      exact congrArg (fun part => _ ++ (part ++ _)) hthen
    · exact congrArg v.layout.leave hlayout'
  | .letTuple names e => by
    rw [CodegenEnv.stmtCode, stmtAccesses]
    refine ⟨?_, ?_⟩
    · rw [accessInstrs_append, accessInstrs_cons rfl, accessInstrs_bindNames,
        accessInstrs_exprCode tc calls]
      exact List.append_nil _
    · rw [bindHeldNames_layout, bindCheckedNames_layout]
  | .letStruct typeName bindings e rest => by
    rw [CodegenEnv.stmtCode, stmtAccesses]
    refine ⟨?_, ?_⟩
    · rw [accessInstrs_append, accessInstrs_cons rfl, accessInstrs_bindFields,
        accessInstrs_exprCode tc calls]
      exact List.append_nil _
    · rw [bindHeldFields_layout]
      split
      · rw [bindCheckedFields_layout]
      · rfl
  | .fieldAssign objName field path e => by
    rw [CodegenEnv.stmtCode, stmtAccesses]
    refine ⟨?_, rfl⟩
    rw [accessInstrs_append, accessInstrs_exprCode tc calls, List.map_append]
    rfl

theorem accessInstrs_stmtsCode (v : Vars) (cg : Codegen) : ∀ stmts : List Stmt,
    accessInstrs (env.stmtsCode v.layout stmts).1
        = (stmtsAccesses tc calls env v cg stmts).1.map (·.instr) ∧
      (stmtsAccesses tc calls env v cg stmts).2.layout = (env.stmtsCode v.layout stmts).2
  | [] => ⟨rfl, rfl⟩
  | s :: stmts => by
    obtain ⟨hfirst, hlayout⟩ := accessInstrs_stmtCode v cg s
    obtain ⟨hrest, hlayout'⟩ := accessInstrs_stmtsCode (stmtAccesses tc calls env v cg s).2
      (cg.after (env.compileStmt s cg)) stmts
    rw [hlayout] at hrest hlayout'
    rw [CodegenEnv.stmtsCode, stmtsAccesses]
    refine ⟨?_, hlayout'⟩
    rw [accessInstrs_append, List.map_append, hfirst, hrest]
end

theorem accessInstrs_closeCode (code : List Instruction) :
    accessInstrs (CodegenEnv.closeCode code) = accessInstrs code := by
  unfold CodegenEnv.closeCode
  split
  · rfl
  · rw [accessInstrs_append]
    exact List.append_nil _

/-- The accesses of a compiled function, in order. -/
theorem accessInstrs_function {f : AstFunction} {func : Function}
    (h : env.compileFunction f = .ok func) :
    accessInstrs func.code = (functionAccesses tc calls env f).map (·.instr) := by
  obtain ⟨-, -, hcode, -⟩ := env.compileFunction_code h
  rw [hcode, accessInstrs_closeCode]
  exact (accessInstrs_stmtsCode tc calls env (paramVars f.params) (env.paramState f) f.body).1

end Accesses

end MeowChain.Compiler
