import MeowChain.Vm.Types

/-!
# The syntax tree

What the parser produces and the type checker and the code generator consume.
-/

set_option autoImplicit false

namespace MeowChain.Compiler

inductive UnaryOp where
  | not
  deriving DecidableEq

inductive BinOp where
  | add
  | sub
  | mul
  | div
  | mod
  | eq
  | ne
  | lt
  | le
  | gt
  | ge
  | and
  | or
  deriving DecidableEq

inductive Expr where
  | bool (b : Bool)
  | int (n : UInt64)
  | address (a : Address)
  | str (s : String)
  | ident (name : String)
  | binOp (left : Expr) (op : BinOp) (right : Expr)
  | fieldAccess (expr : Expr) (field : String)
  | structLit (name : String) (fields : List (String × Expr))
  | call (name : String) (args : List Expr)
  | tuple (items : List Expr)
  | unaryOp (op : UnaryOp) (expr : Expr)

/-- The path of a field assignment is not empty: it is its first field and the rest. -/
inductive Stmt where
  | let_ (name : String) (expr : Expr)
  | reassign (name : String) (expr : Expr)
  | return_ (expr : Option Expr)
  | expr (expr : Expr)
  | if_ (cond : Expr) (body : List Stmt) (elseBody : Option (List Stmt))
  | fieldAssign (objName field : String) (path : List String) (expr : Expr)
  | letTuple (names : List String) (expr : Expr)
  | letStruct (typeName : String) (bindings : List (String × String)) (expr : Expr)
      (restDiscarded : Bool)

structure AstFunction where
  isPublic : Bool
  name : String
  params : List (String × Ty)
  returnType : Option Ty
  body : List Stmt

structure AstStruct where
  isPublic : Bool
  name : String
  fields : List (String × Ty)

inductive AstItem where
  | moduleDecl (name : String)
  | use (name : String) (address : Address) (alias_ : Option String)
  | struct (decl : AstStruct)
  | fn (decl : AstFunction)

end MeowChain.Compiler
