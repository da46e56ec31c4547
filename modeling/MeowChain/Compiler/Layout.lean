import MeowChain.Compiler.Codegen
import MeowChain.Lib.Outcome

/-!
# Emitted code as a function of the layout

Apart from its checks, the code generator only reads where variables live: `locals`, the next slot
and the depth. `stmtCode` is what it emits for a statement under a given layout; `compileStmt_code`
says that a successful compilation emits exactly that.
-/

set_option autoImplicit false

namespace MeowChain.Compiler

structure Layout where
  locals : List (String × (ℕ × ℕ)) := []
  nextSlot : ℕ := 0
  depth : ℕ := 0

namespace Layout

def slotOf (L : Layout) (name : String) : Option ℕ :=
  (L.locals.lookup name).map (·.1)

def slot (L : Layout) (name : String) : ℕ :=
  (L.slotOf name).getD 0

def fresh (L : Layout) (name : String) : ℕ × Layout :=
  (L.nextSlot, { L with
    locals := Codegen.insertLocal L.locals name (L.nextSlot, L.depth)
    nextSlot := L.nextSlot + 1 })

def bind (L : Layout) (name : String) : ℕ × Layout :=
  match L.locals.lookup name with
  | some (slot, depth) => if depth = L.depth then (slot, L) else L.fresh name
  | none => L.fresh name

def enter (L : Layout) : Layout := { L with depth := L.depth + 1 }

/-- Back in the scope of `outer`: slots that were given out stay taken. -/
def leave (outer inner : Layout) : Layout := { outer with nextSlot := inner.nextSlot }

def bindNames (L : Layout) : List String → List Instruction × Layout
  | [] => ([], L)
  | name :: names =>
    let rest := bindNames (L.bind name).2 names
    (.store (L.bind name).1 :: rest.1, rest.2)

/-- One instruction for each field of a destructured struct. -/
def bindFields (bindings : List (String × String)) : Layout → List String → List Instruction × Layout
  | L, [] => ([], L)
  | L, field :: fields =>
    match bindings.lookup field with
    | some name =>
      let rest := bindFields bindings (L.bind name).2 fields
      (.store (L.bind name).1 :: rest.1, rest.2)
    | none =>
      let rest := bindFields bindings L fields
      (.pop :: rest.1, rest.2)

theorem bind_depth (L : Layout) (name : String) : (L.bind name).2.depth = L.depth := by
  unfold bind
  split
  · split
    · rfl
    · rfl
  · rfl

theorem bindNames_depth (L : Layout) (names : List String) :
    (L.bindNames names).2.depth = L.depth := by
  induction names generalizing L with
  | nil => rfl
  | cons name names ih => exact (ih _).trans (L.bind_depth name)

theorem bindFields_depth (L : Layout) (bindings : List (String × String)) (fields : List String) :
    (L.bindFields bindings fields).2.depth = L.depth := by
  induction fields generalizing L with
  | nil => rfl
  | cons field fields ih =>
    rw [bindFields]
    split
    · exact (ih _).trans (L.bind_depth _)
    · exact ih L

end Layout

namespace CodegenEnv

variable (env : CodegenEnv)

/-! ## Code -/

def fieldNamesOf (name : String) : List String :=
  ((env.structNamed name).map fun decl => decl.fields.map (·.name)).getD []

/-- The name that the code uses for a function or a struct. -/
def nameInCode (name : String) : String :=
  match splitOnce name.toList with
  | none => name
  | some (modName, rest) =>
    match env.depAddresses.lookup (String.ofList modName) with
    | some addr => qualify addr (String.ofList rest)
    | none => name

/-- The parts of a literal in the order of the definition, each taken once. -/
def inOrder {α : Type} : List String → List (String × List α) → List α
  | [], _ => []
  | field :: fields, literalMap =>
    (literalMap.lookup field).getD [] ++ inOrder fields (literalMap.filter (·.1 != field))

-- The code of an expression with a path of fields behind it.
mutual
def chainCode (L : Layout) : Expr → List String → List Instruction
  | .fieldAccess e field, path => chainCode L e (field :: path)
  | .ident name, [] => [.load (L.slot name)]
  | .ident name, field :: path => [.loadField (L.slot name) (field :: path)]
  | .bool b, path => .pushBool b :: path.map .getField
  | .int n, path => .pushU64 n :: path.map .getField
  | .address a, path => .pushAddress a :: path.map .getField
  | .str s, path => .pushStr s :: path.map .getField
  | .binOp left op right, path =>
    chainCode L left [] ++ (chainCode L right [] ++ binInstr op :: path.map .getField)
  | .unaryOp .not e, path => chainCode L e [] ++ .not :: path.map .getField
  | .structLit name fields, path =>
    inOrder (env.fieldNamesOf name) (fieldsCode L fields).reverse
      ++ .newStruct (env.nameInCode name) (env.fieldNamesOf name) :: path.map .getField
  | .tuple items, path => exprsCode L items ++ .makeTuple items.length :: path.map .getField
  | .call name args, path => exprsCode L args ++ .call (env.nameInCode name) :: path.map .getField

def exprsCode (L : Layout) : List Expr → List Instruction
  | [] => []
  | e :: es => chainCode L e [] ++ exprsCode L es

def fieldsCode (L : Layout) : List (String × Expr) → List (String × List Instruction)
  | [] => []
  | (name, e) :: fields => (name, chainCode L e []) :: fieldsCode L fields
end

def exprCode (L : Layout) (e : Expr) : List Instruction := env.chainCode L e []

def ifCode (cond thenCode elseCode : List Instruction) : List Instruction :=
  cond ++ .jumpIfNot (thenCode.length + 2) :: (thenCode ++ .jump (elseCode.length + 1) :: elseCode)

mutual
def stmtCode (L : Layout) : Stmt → List Instruction × Layout
  | .let_ name e => (env.exprCode L e ++ [.store (L.bind name).1], (L.bind name).2)
  | .reassign name e => (env.exprCode L e ++ [.store (L.slot name)], L)
  | .return_ (some e) => (env.exprCode L e ++ [.ret], L)
  | .return_ none => ([.ret], L)
  | .expr e => (env.exprCode L e ++ [.pop], L)
  | .if_ cond body none =>
    let thenPart := stmtsCode L.enter body
    (env.exprCode L cond ++ .jumpIfNot (thenPart.1.length + 1) :: thenPart.1,
      L.leave thenPart.2)
  | .if_ cond body (some stmts) =>
    let thenPart := stmtsCode L.enter body
    let elsePart := stmtsCode (L.leave thenPart.2).enter stmts
    (ifCode (env.exprCode L cond) thenPart.1 elsePart.1, L.leave elsePart.2)
  | .letTuple names e =>
    let bound := L.bindNames names
    (env.exprCode L e ++ .unpackTuple names.length :: bound.1, bound.2)
  | .letStruct typeName bindings e _ =>
    let bound := L.bindFields bindings.reverse (env.fieldNamesOf typeName)
    (env.exprCode L e
      ++ .unpackStruct (env.nameInCode typeName) (env.fieldNamesOf typeName) :: bound.1, bound.2)
  | .fieldAssign objName field path e =>
    (env.exprCode L e ++ [.storeField (L.slot objName) (field :: path)], L)

def stmtsCode (L : Layout) : List Stmt → List Instruction × Layout
  | [] => ([], L)
  | s :: stmts =>
    let first := stmtCode L s
    let rest := stmtsCode first.2 stmts
    (first.1 ++ rest.1, rest.2)
end

def paramLayout (params : List (String × Ty)) : Layout :=
  params.foldl (fun L param => (L.bind param.1).2) {}

end CodegenEnv

/-! ## What a step of the code generator leaves behind -/

namespace Codegen

def layout (cg : Codegen) : Layout := ⟨cg.locals, cg.nextSlot, cg.scopeDepth⟩

/-- `cg'` has emitted `code` and holds the layout `L`. -/
structure Emitted (cg cg' : Codegen) (code : List Instruction) (L : Layout) : Prop where
  code : cg'.code = cg.code ++ code
  layout : cg'.layout = L

theorem Emitted.refl (cg : Codegen) : cg.Emitted cg [] cg.layout where
  code := (List.append_nil _).symm
  layout := rfl

theorem Emitted.trans {cg cg' cg'' : Codegen} {a b : List Instruction} {L L' : Layout}
    (h : cg.Emitted cg' a L) (h' : cg'.Emitted cg'' b L') : cg.Emitted cg'' (a ++ b) L' where
  code := by rw [h'.code, h.code, List.append_assoc]
  layout := h'.layout

theorem Emitted.emit {cg cg' : Codegen} {a : List Instruction} {L : Layout}
    (h : cg.Emitted cg' a L) (instr : Instruction) : cg.Emitted (cg'.emit instr) (a ++ [instr]) L where
  code := by simp [Codegen.emit, h.code]
  layout := h.layout

theorem Emitted.emitAll {cg cg' : Codegen} {a : List Instruction} {L : Layout}
    (h : cg.Emitted cg' a L) (instrs : List Instruction) :
    cg.Emitted (cg'.emitAll instrs) (a ++ instrs) L where
  code := by simp [Codegen.emitAll, h.code]
  layout := h.layout

theorem Emitted.congr {cg cg' cg'' : Codegen} {a : List Instruction} {L : Layout}
    (h : cg.Emitted cg' a L) (hcode : cg''.code = cg'.code) (hlayout : cg''.layout = cg'.layout) :
    cg.Emitted cg'' a L where
  code := hcode.trans h.code
  layout := hlayout.trans h.layout

theorem slotOf_layout (cg : Codegen) (name : String) : cg.layout.slotOf name = cg.slotOf name := rfl

theorem slot_layout {cg : Codegen} {name : String} {slot : ℕ} (h : cg.slotOf name = some slot) :
    cg.layout.slot name = slot := by
  rw [Layout.slot, slotOf_layout, h]
  rfl

end Codegen

@[simp] theorem refuse_ne_ok {α : Type} {text : String} {a : α} : refuse text ≠ .ok a := by
  intro h
  cases h

theorem refuseIf_ok {p : Bool} {text : String} {u : Unit} (h : refuseIf p text = .ok u) :
    p = false := by
  cases p with
  | true => cases h
  | false => rfl

namespace Codegen

theorem freshSlot_ok {config : CompilerConfig} {name : String} {cg cg' : Codegen} {slot : ℕ}
    (h : cg.freshSlot config name = .ok (slot, cg')) :
    cg'.code = cg.code ∧ (slot, cg'.layout) = cg.layout.fresh name := by
  unfold freshSlot at h
  split at h
  · cases h
  · cases h
    exact ⟨rfl, rfl⟩

theorem allocLocal_ok {config : CompilerConfig} {name : String} {cg cg' : Codegen} {slot : ℕ}
    (h : cg.allocLocal config name = .ok (slot, cg')) :
    cg'.code = cg.code ∧ (slot, cg'.layout) = cg.layout.bind name := by
  obtain ⟨_, _, h⟩ := ok_of_bind h
  have hbind : cg.layout.bind name =
      match cg.locals.lookup name with
      | some (slot, depth) =>
        if depth = cg.scopeDepth then (slot, cg.layout) else cg.layout.fresh name
      | none => cg.layout.fresh name := rfl
  rw [hbind]
  cases hlook : cg.locals.lookup name with
  | some entry =>
    rw [hlook] at h
    dsimp only at h ⊢
    split at h
    · rename_i hdepth
      rw [if_pos hdepth]
      split at h
      · cases h
      · cases h
        exact ⟨rfl, rfl⟩
    · rename_i hdepth
      rw [if_neg hdepth]
      exact freshSlot_ok h
  | none =>
    rw [hlook] at h
    exact freshSlot_ok h

end Codegen

namespace CodegenEnv

variable (env : CodegenEnv)

theorem translateName_ok {name translated : String} (h : env.translateName name = .ok translated) :
    translated = env.nameInCode name := by
  unfold translateName at h
  unfold nameInCode
  cases hsplit : splitOnce name.toList with
  | none =>
    rw [hsplit] at h
    exact (Except.ok.inj h).symm
  | some parts =>
    rw [hsplit] at h
    dsimp only at h ⊢
    cases hlook : env.depAddresses.lookup (String.ofList parts.1) with
    | some addr =>
      rw [hlook] at h
      exact (Except.ok.inj h).symm
    | none =>
      rw [hlook] at h
      exact absurd h refuse_ne_ok

theorem fieldNamesOf_eq {name : String} {decl : StructDef} (h : env.structNamed name = some decl) :
    env.fieldNamesOf name = decl.fields.map (·.name) := by
  rw [fieldNamesOf, h]
  rfl

theorem compileIdent_code {name : String} {cg cg' : Codegen} (h : compileIdent name cg = .ok cg') :
    cg.Emitted cg' [.load (cg.layout.slot name)] cg.layout := by
  unfold compileIdent at h
  split at h
  · cases h
  · rename_i slot hslot
    rw [Codegen.slot_layout hslot]
    split at h
    · cases h
    · split at h
      · cases h
        exact ⟨rfl, rfl⟩
      · cases h
        exact ⟨rfl, rfl⟩

theorem compileLoadField_code {slot : ℕ} {field : String} {path : List String} {cg cg' : Codegen}
    (h : env.compileLoadField slot field path cg = .ok cg') :
    cg.Emitted cg' [.loadField slot (field :: path)] cg.layout := by
  unfold compileLoadField at h
  obtain ⟨_, _, h⟩ := ok_of_bind h
  obtain ⟨_, _, h⟩ := ok_of_bind h
  cases h
  exact ⟨rfl, rfl⟩

/-- Each entry of a literal emits its own piece of code. -/
def FieldsEmit (L : Layout) (compiled : List (String × (Codegen → Result Codegen)))
    (code : List (String × List Instruction)) : Prop :=
  List.Forall₂ (fun c piece => c.1 = piece.1 ∧
    ∀ cg cg', cg.layout = L → c.2 cg = .ok cg' → cg.Emitted cg' piece.2 L) compiled code

theorem FieldsEmit.lookup {L : Layout} {compiled : List (String × (Codegen → Result Codegen))}
    {code : List (String × List Instruction)} (h : FieldsEmit L compiled code) {field : String}
    {c : Codegen → Result Codegen} (hc : compiled.lookup field = some c) :
    ∀ cg cg', cg.layout = L → c cg = .ok cg' →
      cg.Emitted cg' ((code.lookup field).getD []) L := by
  induction h with
  | nil => cases hc
  | @cons entry piece compiled code hentry _ ih =>
    obtain ⟨name, compile⟩ := entry
    obtain ⟨name', instrs⟩ := piece
    obtain ⟨rfl, hemit⟩ := hentry
    rw [List.lookup_cons] at hc ⊢
    split at hc
    · rename_i heq
      cases hc
      simpa only [heq, Option.getD_some] using hemit
    · rename_i heq
      simpa only [heq] using ih hc

theorem FieldsEmit.filter {L : Layout} {compiled : List (String × (Codegen → Result Codegen))}
    {code : List (String × List Instruction)} (h : FieldsEmit L compiled code) (field : String) :
    FieldsEmit L (compiled.filter (·.1 != field)) (code.filter (·.1 != field)) := by
  induction h with
  | nil => exact .nil
  | @cons entry piece compiled code hentry _ ih =>
    by_cases hname : entry.1 != field
    · have hpiece : (piece.1 != field) = true := by rwa [← hentry.1]
      simp only [List.filter_cons, hname, hpiece, if_true]
      exact .cons hentry ih
    · have hpiece : ¬(piece.1 != field) = true := by rwa [← hentry.1]
      simp only [List.filter_cons, hname, hpiece]
      exact ih

theorem compileLiteral_code {L : Layout} {name : String} {fields : List String}
    {compiled : List (String × (Codegen → Result Codegen))} {code : List (String × List Instruction)}
    (hfields : FieldsEmit L compiled code) {cg cg' : Codegen} (hL : cg.layout = L)
    (h : compileLiteral name fields compiled cg = .ok cg') :
    cg.Emitted cg' (inOrder fields code) L := by
  induction fields generalizing compiled code cg with
  | nil =>
    rw [compileLiteral] at h
    cases h
    rw [← hL]
    exact Codegen.Emitted.refl cg'
  | cons field fields ih =>
    rw [compileLiteral] at h
    split at h
    · cases h
    · rename_i compile hlook
      obtain ⟨mid, hmid, h⟩ := ok_of_bind h
      have hfirst := hfields.lookup hlook cg mid hL hmid
      exact hfirst.trans (ih (hfields.filter field) hfirst.layout h)

mutual
theorem compileChain_code : ∀ (e : Expr) (path : List String) {cg cg' : Codegen},
    env.compileChain e path cg = .ok cg' →
      cg.Emitted cg' (env.chainCode cg.layout e path) cg.layout
  | .fieldAccess e field, path, cg, cg', h => by
    rw [compileChain] at h
    rw [chainCode]
    exact compileChain_code e (field :: path) h
  | .ident name, [], cg, cg', h => by
    rw [compileChain] at h
    rw [chainCode]
    exact compileIdent_code h
  | .ident name, field :: path, cg, cg', h => by
    rw [compileChain] at h
    rw [chainCode]
    split at h
    · rename_i slot hs
      rw [Codegen.slot_layout hs]
      exact env.compileLoadField_code h
    · rename_i hs
      simp only [compileIdent, hs] at h
      exact absurd h refuse_ne_ok
  | .bool b, path, cg, cg', h | .int b, path, cg, cg', h | .address b, path, cg, cg', h
  | .str b, path, cg, cg', h => by
    rw [compileChain] at h
    obtain ⟨_, _, h⟩ := ok_of_bind h
    cases h
    rw [chainCode]
    exact ((Codegen.Emitted.refl cg).emit _).emitAll _
  | .binOp left op right, path, cg, cg', h => by
    rw [compileChain] at h
    obtain ⟨_, _, h⟩ := ok_of_bind h
    obtain ⟨mid, hl, h⟩ := ok_of_bind h
    obtain ⟨last, hr, h⟩ := ok_of_bind h
    cases h
    have hleft := compileChain_code left [] hl
    have hright := compileChain_code right [] hr
    rw [hleft.layout] at hright
    rw [chainCode]
    simpa using ((hleft.trans hright).emit _).emitAll _
  | .unaryOp .not e, path, cg, cg', h => by
    rw [compileChain] at h
    obtain ⟨_, _, h⟩ := ok_of_bind h
    obtain ⟨mid, he, h⟩ := ok_of_bind h
    cases h
    rw [chainCode]
    simpa using ((compileChain_code e [] he).emit _).emitAll _
  | .structLit name fields, path, cg, cg', h => by
    rw [compileChain] at h
    obtain ⟨_, _, h⟩ := ok_of_bind h
    obtain ⟨_, _, h⟩ := ok_of_bind h
    split at h
    · cases h
    · rename_i decl hdecl
      obtain ⟨mid, hmid, h⟩ := ok_of_bind h
      obtain ⟨typeName, htype, h⟩ := ok_of_bind h
      cases h
      have hfields := compileFields_code fields cg.layout
      have hlit := compileLiteral_code (List.rel_reverse hfields) rfl hmid
      rw [chainCode, env.fieldNamesOf_eq hdecl, ← env.translateName_ok htype]
      simpa using (hlit.emit _).emitAll _
  | .tuple items, path, cg, cg', h => by
    rw [compileChain] at h
    obtain ⟨_, _, h⟩ := ok_of_bind h
    obtain ⟨_, _, h⟩ := ok_of_bind h
    obtain ⟨mid, hmid, h⟩ := ok_of_bind h
    cases h
    rw [chainCode]
    simpa using ((compileExprs_code items hmid).emit _).emitAll _
  | .call name args, path, cg, cg', h => by
    rw [compileChain] at h
    obtain ⟨_, _, h⟩ := ok_of_bind h
    obtain ⟨_, _, h⟩ := ok_of_bind h
    obtain ⟨mid, hmid, h⟩ := ok_of_bind h
    obtain ⟨translated, hname, h⟩ := ok_of_bind h
    cases h
    rw [chainCode, ← env.translateName_ok hname]
    simpa using ((compileExprs_code args hmid).emit _).emitAll _

theorem compileExprs_code : ∀ (es : List Expr) {cg cg' : Codegen},
    env.compileExprs es cg = .ok cg' → cg.Emitted cg' (env.exprsCode cg.layout es) cg.layout
  | [], cg, cg', h => by
    rw [compileExprs] at h
    cases h
    rw [exprsCode]
    exact Codegen.Emitted.refl cg
  | e :: es, cg, cg', h => by
    rw [compileExprs] at h
    obtain ⟨mid, hmid, h⟩ := ok_of_bind h
    have hfirst := compileChain_code e [] hmid
    have hrest := compileExprs_code es h
    rw [hfirst.layout] at hrest
    rw [exprsCode]
    exact hfirst.trans hrest

theorem compileFields_code : ∀ (fields : List (String × Expr)) (L : Layout),
    FieldsEmit L (env.compileFields fields) (env.fieldsCode L fields)
  | [], _ => .nil
  | (name, e) :: fields, L => by
    rw [compileFields, fieldsCode]
    refine .cons ⟨rfl, ?_⟩ (compileFields_code fields L)
    rintro cg cg' rfl h
    exact compileChain_code e [] h
end

/-! ## Statements -/

theorem compileExpr_code {e : Expr} {cg cg' : Codegen} (h : env.compileExpr e cg = .ok cg') :
    cg.Emitted cg' (env.exprCode cg.layout e) cg.layout :=
  env.compileChain_code e [] h

theorem bindLocal_code {name : String} {ty : Option Ty} {cg cg' : Codegen}
    (h : env.bindLocal name ty cg = .ok cg') :
    cg.Emitted cg' [.store (cg.layout.bind name).1] (cg.layout.bind name).2 := by
  unfold bindLocal at h
  obtain ⟨⟨slot, mid⟩, hmid, h⟩ := ok_of_bind h
  cases h
  obtain ⟨hcode, hbind⟩ := Codegen.allocLocal_ok hmid
  have hemit : (mid.emit (.store slot)).code = cg.code ++ [.store slot] := by
    rw [Codegen.emit, hcode]
  rw [← hbind]
  split
  · exact ⟨hemit, rfl⟩
  · exact ⟨hemit, rfl⟩

theorem bindNames_code {names : List String} {types : List (Option Ty)} {cg cg' : Codegen}
    (hlen : types.length = names.length) (h : env.bindNames names types cg = .ok cg') :
    cg.Emitted cg' (cg.layout.bindNames names).1 (cg.layout.bindNames names).2 := by
  induction names generalizing types cg with
  | nil =>
    rw [bindNames] at h
    · cases h
      exact Codegen.Emitted.refl cg'
    · intro _ _ _ _ hnil
      cases hnil
  | cons name names ih =>
    cases types with
    | nil => cases hlen
    | cons ty types =>
      rw [bindNames] at h
      obtain ⟨mid, hmid, h⟩ := ok_of_bind h
      have hfirst := env.bindLocal_code hmid
      have hrest := ih (Nat.succ.inj hlen) h
      rw [hfirst.layout] at hrest
      exact hfirst.trans hrest

theorem tupleTypes_length (ty : Option Ty) (names : List String) :
    (tupleTypes ty names).length = names.length := by
  unfold tupleTypes
  split
  · split
    · rename_i hlen
      rw [List.length_map, hlen]
    · rw [List.length_map]
  · rw [List.length_map]

theorem bindFields_code {typeName : String} {defs : List FieldDef} {bindings : List (String × String)}
    {fields : List String} {cg cg' : Codegen}
    (h : env.bindFields typeName defs bindings fields cg = .ok cg') :
    cg.Emitted cg' (cg.layout.bindFields bindings fields).1
      (cg.layout.bindFields bindings fields).2 := by
  induction fields generalizing cg with
  | nil =>
    rw [bindFields] at h
    cases h
    exact Codegen.Emitted.refl cg'
  | cons field fields ih =>
    rw [bindFields] at h
    rw [Layout.bindFields]
    cases hlook : bindings.lookup field with
    | some name =>
      rw [hlook] at h
      obtain ⟨mid, hmid, h⟩ := ok_of_bind h
      have hfirst := env.bindLocal_code hmid
      have hrest := ih h
      rw [hfirst.layout] at hrest
      exact hfirst.trans hrest
    | none =>
      rw [hlook] at h
      obtain ⟨_, _, h⟩ := ok_of_bind h
      exact ((Codegen.Emitted.refl cg).emit .pop).trans (ih h)

theorem mergeBranches_code (a b : Bool) (types : ℕ → Option Ty) (moved : ℕ → Bool) (cg : Codegen) :
    (mergeBranches a b types moved cg).code = cg.code := by
  unfold mergeBranches
  split
  · rfl
  · split
    · rfl
    · rfl

theorem mergeBranches_layout (a b : Bool) (types : ℕ → Option Ty) (moved : ℕ → Bool)
    (cg : Codegen) : (mergeBranches a b types moved cg).layout = cg.layout := by
  unfold mergeBranches
  split
  · rfl
  · split
    · rfl
    · rfl

theorem compileScoped_code {branch : String} {body : Codegen → Result Codegen} {cg cg' : Codegen}
    (code : Layout → List Instruction × Layout)
    (hbody : ∀ {inner inner' : Codegen}, body inner = .ok inner' →
      inner.Emitted inner' (code inner.layout).1 (code inner.layout).2)
    (hdepth : (code cg.layout.enter).2.depth = cg.layout.depth + 1)
    (h : compileScoped branch body cg = .ok cg') :
    cg.Emitted cg' (code cg.layout.enter).1 (cg.layout.leave (code cg.layout.enter).2) := by
  unfold compileScoped at h
  obtain ⟨inner, hinner, h⟩ := ok_of_bind h
  obtain ⟨_, _, h⟩ := ok_of_bind h
  cases h
  have hemit := hbody hinner
  have hlayout : inner.layout = (code cg.layout.enter).2 := hemit.layout
  refine ⟨hemit.code, ?_⟩
  rw [← hlayout] at hdepth ⊢
  have hscope : inner.scopeDepth - 1 = cg.scopeDepth := by
    have hinner : inner.scopeDepth = cg.scopeDepth + 1 := hdepth
    omega
  rw [Codegen.layout, Layout.leave]
  simp only [hscope]
  rfl

theorem patch_code {cg : Codegen} {pre post : List Instruction} {old : Instruction}
    (h : cg.code = pre ++ old :: post) (instr : Instruction) :
    (cg.patch pre.length instr).code = pre ++ instr :: post := by
  rw [Codegen.patch]
  simp only [h]
  rw [List.set_append_right _ _ (Nat.le_refl _), Nat.sub_self, List.set_cons_zero]

mutual
theorem stmtCode_depth (L : Layout) : ∀ s : Stmt, (env.stmtCode L s).2.depth = L.depth
  | .let_ name _ => L.bind_depth name
  | .reassign _ _ | .return_ none | .return_ (some _) | .expr _ | .fieldAssign _ _ _ _ => rfl
  | .if_ _ _ none | .if_ _ _ (some _) => rfl
  | .letTuple names _ => L.bindNames_depth names
  | .letStruct _ bindings _ _ => L.bindFields_depth bindings.reverse _

theorem stmtsCode_depth (L : Layout) : ∀ stmts : List Stmt,
    (env.stmtsCode L stmts).2.depth = L.depth
  | [] => rfl
  | s :: stmts => (stmtsCode_depth _ stmts).trans (stmtCode_depth L s)
end

theorem compileThen_code {body : List Stmt} {cg mid cg' : Codegen} {cond : List Instruction}
    (hbody : ∀ {inner inner' : Codegen}, env.compileStmts body inner = .ok inner' →
      inner.Emitted inner' (env.stmtsCode inner.layout body).1
        (env.stmtsCode inner.layout body).2)
    (hcond : cg.Emitted mid cond cg.layout)
    (h : compileScoped "if" (env.compileStmts body) (mid.emit (.jumpIfNot 0)) = .ok cg') :
    cg'.code = mid.code ++ .jumpIfNot 0 :: (env.stmtsCode cg.layout.enter body).1 ∧
      cg'.layout = cg.layout.leave (env.stmtsCode cg.layout.enter body).2 := by
  have hemitted := compileScoped_code (fun L => env.stmtsCode L body) hbody
    (env.stmtsCode_depth _ body) h
  have hlayout : (mid.emit (.jumpIfNot 0)).layout = cg.layout := hcond.layout
  rw [hlayout] at hemitted
  refine ⟨?_, hemitted.layout⟩
  rw [hemitted.code, Codegen.emit, List.append_assoc]
  rfl

/-- The second branch: `start` has the jump over it as its last instruction. -/
theorem compileElse_code {stmts : List Stmt} {start elseCg : Codegen}
    {pre thenCode : List Instruction} {first : Instruction} {L : Layout}
    (hbody : ∀ {inner inner' : Codegen}, env.compileStmts stmts inner = .ok inner' →
      inner.Emitted inner' (env.stmtsCode inner.layout stmts).1
        (env.stmtsCode inner.layout stmts).2)
    (hcode : start.code = pre ++ first :: (thenCode ++ [.jump 0])) (hlayout : start.layout = L)
    (h : compileScoped "else" (env.compileStmts stmts) start = .ok elseCg) :
    (elseCg.patch (pre.length + thenCode.length + 1)
        (.jump (elseCg.code.length - (pre.length + thenCode.length + 1 : ℕ)))).code
      = pre ++ first :: (thenCode ++ .jump ((env.stmtsCode L.enter stmts).1.length + 1)
        :: (env.stmtsCode L.enter stmts).1) ∧
    elseCg.layout = L.leave (env.stmtsCode L.enter stmts).2 := by
  have hemitted := compileScoped_code (fun L => env.stmtsCode L stmts) hbody
    (env.stmtsCode_depth _ stmts) h
  rw [hlayout] at hemitted
  refine ⟨?_, hemitted.layout⟩
  have hsplit : elseCg.code
      = (pre ++ first :: thenCode) ++ .jump 0 :: (env.stmtsCode L.enter stmts).1 := by
    rw [hemitted.code, hcode]
    simp only [List.append_assoc, List.cons_append, List.nil_append]
  have hlen : (pre ++ first :: thenCode).length = pre.length + thenCode.length + 1 := by
    rw [List.length_append, List.length_cons]
    omega
  have hoffset : (elseCg.code.length : ℤ) - (pre.length + thenCode.length + 1 : ℕ)
      = (env.stmtsCode L.enter stmts).1.length + 1 := by
    rw [hsplit, List.length_append, hlen, List.length_cons]
    push_cast
    omega
  rw [hoffset, ← hlen, patch_code hsplit, List.append_assoc, List.cons_append]

mutual
theorem compileStmt_code : ∀ (s : Stmt) {cg cg' : Codegen}, env.compileStmt s cg = .ok cg' →
    cg.Emitted cg' (env.stmtCode cg.layout s).1 (env.stmtCode cg.layout s).2
  | .let_ name e, cg, cg', h => by
    rw [compileStmt] at h
    obtain ⟨mid, hmid, h⟩ := ok_of_bind h
    have hexpr := env.compileExpr_code hmid
    have hbind := env.bindLocal_code h
    rw [hexpr.layout] at hbind
    exact hexpr.trans hbind
  | .reassign name e, cg, cg', h => by
    rw [compileStmt] at h
    split at h
    · cases h
    · rename_i slot hslot
      obtain ⟨_, _, h⟩ := ok_of_bind h
      obtain ⟨mid, hmid, h⟩ := ok_of_bind h
      cases h
      rw [stmtCode, Codegen.slot_layout hslot]
      exact ((env.compileExpr_code hmid).emit (.store slot)).congr rfl rfl
  | .return_ none, cg, cg', h => by
    rw [compileStmt] at h
    cases h
    exact (Codegen.Emitted.refl cg).emit .ret
  | .return_ (some e), cg, cg', h => by
    rw [compileStmt] at h
    obtain ⟨mid, hmid, h⟩ := ok_of_bind h
    cases h
    exact (env.compileExpr_code hmid).emit .ret
  | .expr e, cg, cg', h => by
    rw [compileStmt] at h
    obtain ⟨_, _, h⟩ := ok_of_bind h
    obtain ⟨mid, hmid, h⟩ := ok_of_bind h
    cases h
    exact (env.compileExpr_code hmid).emit .pop
  | .if_ cond body none, cg, cg', h => by
    rw [compileStmt] at h
    obtain ⟨mid, hmid, h⟩ := ok_of_bind h
    obtain ⟨thenCg, hthen, h⟩ := ok_of_bind h
    cases h
    have hcond := env.compileExpr_code hmid
    obtain ⟨hcode, hlayout⟩ := env.compileThen_code (compileStmts_code body) hcond hthen
    have hrewind : (thenCg.rewind mid).code = _ := hcode
    refine ⟨?_, (mergeBranches_layout _ _ _ _ _).trans hlayout⟩
    rw [mergeBranches_code, patch_code hrewind, hrewind, hcond.code, stmtCode]
    simp only [List.length_append, List.length_cons, List.append_assoc]
    congr 4
    push_cast
    omega
  | .if_ cond body (some stmts), cg, cg', h => by
    rw [compileStmt] at h
    obtain ⟨mid, hmid, h⟩ := ok_of_bind h
    obtain ⟨thenCg, hthen, h⟩ := ok_of_bind h
    obtain ⟨elseCg, helse, h⟩ := ok_of_bind h
    cases h
    have hcond := env.compileExpr_code hmid
    obtain ⟨hcode, hlayout⟩ := env.compileThen_code (compileStmts_code body) hcond hthen
    have hjumped : ((thenCg.rewind mid).emit (.jump 0)).code
        = mid.code ++ .jumpIfNot 0 :: ((env.stmtsCode cg.layout.enter body).1 ++ [.jump 0]) := by
      rw [Codegen.emit, Codegen.rewind, hcode, List.append_assoc, List.cons_append]
    have hstart := patch_code hjumped
      (.jumpIfNot (((thenCg.rewind mid).emit (.jump 0)).code.length - mid.code.length))
    obtain ⟨helse, helseLayout⟩ := env.compileElse_code (compileStmts_code stmts) hstart hlayout helse
    have hlen : (thenCg.rewind mid).code.length
        = mid.code.length + (env.stmtsCode cg.layout.enter body).1.length + 1 := by
      rw [Codegen.rewind, hcode, List.length_append, List.length_cons]
      omega
    refine ⟨?_, (mergeBranches_layout _ _ _ _ _).trans helseLayout⟩
    rw [mergeBranches_code, hlen, helse, hjumped, hcond.code, stmtCode, ifCode]
    simp only [List.length_append, List.length_cons, List.length_nil, List.append_assoc]
    congr 4
    push_cast
    omega
  | .letTuple names e, cg, cg', h => by
    rw [compileStmt] at h
    obtain ⟨_, _, h⟩ := ok_of_bind h
    obtain ⟨mid, hmid, h⟩ := ok_of_bind h
    have hexpr := (env.compileExpr_code hmid).emit (.unpackTuple names.length)
    have hbind := env.bindNames_code (tupleTypes_length _ names) h
    rw [hexpr.layout] at hbind
    have hall := hexpr.trans hbind
    rw [List.append_assoc] at hall
    exact hall
  | .letStruct typeName bindings e rest, cg, cg', h => by
    rw [compileStmt] at h
    split at h
    · cases h
    · rename_i decl hdecl
      obtain ⟨_, _, h⟩ := ok_of_bind h
      obtain ⟨mid, hmid, h⟩ := ok_of_bind h
      obtain ⟨translated, hname, h⟩ := ok_of_bind h
      have hexpr := (env.compileExpr_code hmid).emit
        (.unpackStruct translated (decl.fields.map (·.name)))
      have hbind := env.bindFields_code h
      rw [hexpr.layout] at hbind
      have hall := hexpr.trans hbind
      rw [List.append_assoc, env.translateName_ok hname, ← env.fieldNamesOf_eq hdecl] at hall
      exact hall
  | .fieldAssign objName field path e, cg, cg', h => by
    rw [compileStmt] at h
    split at h
    · cases h
    · rename_i slot hslot
      obtain ⟨_, _, h⟩ := ok_of_bind h
      obtain ⟨_, _, h⟩ := ok_of_bind h
      obtain ⟨mid, hmid, h⟩ := ok_of_bind h
      cases h
      rw [stmtCode, Codegen.slot_layout hslot]
      exact (env.compileExpr_code hmid).emit (.storeField slot (field :: path))

theorem compileStmts_code : ∀ (stmts : List Stmt) {cg cg' : Codegen},
    env.compileStmts stmts cg = .ok cg' →
      cg.Emitted cg' (env.stmtsCode cg.layout stmts).1 (env.stmtsCode cg.layout stmts).2
  | [], cg, cg', h => by
    rw [compileStmts] at h
    cases h
    exact Codegen.Emitted.refl cg
  | s :: stmts, cg, cg', h => by
    rw [compileStmts] at h
    obtain ⟨mid, hmid, h⟩ := ok_of_bind h
    have hfirst := compileStmt_code s hmid
    have hrest := compileStmts_code stmts h
    rw [hfirst.layout] at hrest
    exact hfirst.trans hrest
end

/-! ## Functions -/

theorem compileParams_code {fnName : String} {params translated : List (String × Ty)}
    {cg cg' : Codegen} (h : env.compileParams fnName params cg = .ok (translated, cg')) :
    cg'.code = cg.code ∧
      cg'.layout = params.foldl (fun L param => (L.bind param.1).2) cg.layout := by
  induction params generalizing translated cg with
  | nil =>
    rw [compileParams] at h
    cases h
    exact ⟨rfl, rfl⟩
  | cons param params ih =>
    rw [compileParams] at h
    obtain ⟨_, _, h⟩ := ok_of_bind h
    obtain ⟨⟨slot, mid⟩, hmid, h⟩ := ok_of_bind h
    obtain ⟨ty, _, h⟩ := ok_of_bind h
    obtain ⟨⟨rest, last⟩, hrest, h⟩ := ok_of_bind h
    cases h
    obtain ⟨hcode, hbind⟩ := Codegen.allocLocal_ok hmid
    obtain ⟨hcode', hlayout⟩ := ih hrest
    have hmidLayout : (mid.setType slot (some ty)).layout = (cg.layout.bind param.1).2 :=
      congrArg Prod.snd hbind
    rw [hmidLayout] at hlayout
    exact ⟨hcode'.trans hcode, hlayout⟩

theorem compileFunction_code {f : AstFunction} {func : Function}
    (h : env.compileFunction f = .ok func) :
    func.name = f.name ∧ func.isPublic = f.isPublic ∧
      func.code = closeCode (env.stmtsCode (paramLayout f.params) f.body).1 ∧
      func.localCount = (env.stmtsCode (paramLayout f.params) f.body).2.nextSlot := by
  rw [compileFunction] at h
  obtain ⟨_, _, h⟩ := ok_of_bind h
  obtain ⟨_, _, h⟩ := ok_of_bind h
  obtain ⟨⟨params, start⟩, hparams, h⟩ := ok_of_bind h
  obtain ⟨returnType, _, h⟩ := ok_of_bind h
  obtain ⟨cg, hbody, h⟩ := ok_of_bind h
  obtain ⟨_, _, h⟩ := ok_of_bind h
  obtain ⟨_, _, h⟩ := ok_of_bind h
  cases h
  obtain ⟨hcode, hlayout⟩ := env.compileParams_code hparams
  have hemitted := env.compileStmts_code f.body hbody
  rw [hlayout] at hemitted
  have hall : cg.code = (env.stmtsCode (paramLayout f.params) f.body).1 := by
    rw [hemitted.code, hcode]
    exact List.nil_append _
  have hslots : cg.nextSlot = (env.stmtsCode (paramLayout f.params) f.body).2.nextSlot :=
    congrArg Layout.nextSlot hemitted.layout
  exact ⟨rfl, rfl, congrArg closeCode hall, hslots⟩

end CodegenEnv

end MeowChain.Compiler
