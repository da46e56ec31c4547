import MeowChain.Lib.ForwardFlow
import MeowChain.Verifier.Structural

/-!
# Abstract interpretation

Phase 2 of the bytecode verifier: one forward walk over each function with types in place of
values. Stacks have their top first.
-/

set_option autoImplicit false

namespace MeowChain.Verifier

inductive AbstractType where
  | bool
  | u64
  | address
  | str
  | struct (name : String)
  | void
  | tuple (types : List AbstractType)

namespace AbstractType

mutual
def beq : AbstractType → AbstractType → Bool
  | .bool, .bool => true
  | .u64, .u64 => true
  | .address, .address => true
  | .str, .str => true
  | .void, .void => true
  | .struct n, .struct m => n == m
  | .tuple ts, .tuple us => beqList ts us
  | _, _ => false

def beqList : List AbstractType → List AbstractType → Bool
  | [], [] => true
  | t :: ts, u :: us => beq t u && beqList ts us
  | _, _ => false
end

mutual
theorem beq_iff : ∀ t u : AbstractType, beq t u = true ↔ t = u
  | .tuple ts, .tuple us => by simpa [beq] using beqList_iff ts us
  | .bool, u | .u64, u | .address, u | .str, u | .void, u => by cases u <;> simp [beq]
  | .struct n, u => by cases u <;> simp [beq]
  | .tuple _, .bool | .tuple _, .u64 | .tuple _, .address | .tuple _, .str | .tuple _, .void
  | .tuple _, .struct _ => by simp [beq]

theorem beqList_iff : ∀ ts us : List AbstractType, beqList ts us = true ↔ ts = us
  | [], us => by cases us <;> simp [beqList]
  | _ :: _, [] => by simp [beqList]
  | t :: ts, u :: us => by simp [beqList, beq_iff t u, beqList_iff ts us]
end

instance : DecidableEq AbstractType := fun t u => decidable_of_iff _ (beq_iff t u)

mutual
def displayName : AbstractType → String
  | .bool => "bool"
  | .u64 => "u64"
  | .address => "address"
  | .str => "str"
  | .struct n => "struct(" ++ n ++ ")"
  | .void => "void"
  | .tuple types => "(" ++ String.intercalate ", " (displayNames types) ++ ")"

def displayNames : List AbstractType → List String
  | [] => []
  | t :: ts => displayName t :: displayNames ts
end

mutual
def isLinear : AbstractType → Bool
  | .struct _ => true
  | .tuple types => anyLinear types
  | _ => false

def anyLinear : List AbstractType → Bool
  | [] => false
  | t :: ts => isLinear t || anyLinear ts
end

theorem anyLinear_eq_any (types : List AbstractType) : anyLinear types = types.any isLinear := by
  induction types with
  | nil => rfl
  | cons ty types ih => rw [anyLinear, ih, List.any_cons]

def isStruct : AbstractType → Bool
  | .struct _ => true
  | _ => false

end AbstractType

mutual
def fromType : Ty → AbstractType
  | .bool => .bool
  | .u64 => .u64
  | .address => .address
  | .str => .str
  | .struct n => .struct n
  | .tuple types => .tuple (fromTypes types)

def fromTypes : List Ty → List AbstractType
  | [] => []
  | t :: ts => fromType t :: fromTypes ts
end

theorem fromTypes_eq_map (types : List Ty) : fromTypes types = types.map fromType := by
  induction types with
  | nil => rfl
  | cons ty types ih => rw [fromTypes, ih, List.map_cons]

inductive SlotState where
  | live (ty : AbstractType)
  | dead
  deriving DecidableEq

def SlotState.isLinear : SlotState → Bool
  | .live ty => ty.isLinear
  | .dead => false

structure AbstractState where
  stack : List AbstractType
  locals : List SlotState
  reachable : Bool

namespace AbstractState

def push (s : AbstractState) (ty : AbstractType) : AbstractState :=
  { s with stack := ty :: s.stack }

end AbstractState

/-! ## Merging -/

/-- A divergence that involves a live linear value is an error, any other one kills the slot. -/
def mergeSlots (fnName : String) (joinPc : ℕ) :
    ℕ → List SlotState → List SlotState → Except VerificationError (List SlotState)
  | slot, a :: as, b :: bs =>
    if a = b then do .ok (a :: (← mergeSlots fnName joinPc (slot + 1) as bs))
    else if a.isLinear != b.isLinear then .error (.livenessMergeConflict fnName joinPc slot)
    else if a.isLinear then .error (.slotTypeMergeConflict fnName joinPc slot)
    else do .ok (.dead :: (← mergeSlots fnName joinPc (slot + 1) as bs))
  | _, as, _ => .ok as

def merge (fnName : String) (current incoming : AbstractState) (joinPc : ℕ) :
    Option AbstractState × List VerificationError :=
  if !incoming.reachable then (some current, [])
  else if !current.reachable then (some incoming, [])
  else if current.stack ≠ incoming.stack then (none, [.stackMergeConflict fnName joinPc])
  else
    match mergeSlots fnName joinPc 0 current.locals incoming.locals with
    | .ok locals => (some { current with locals }, [])
    | .error e => (none, [e])

/-! ## Field resolution -/

/-- The declared type of a field of a local struct; `none` for any other type and for an unknown
field. -/
def resolveFieldType (ty : AbstractType) (fieldName : String) (module : Module) :
    Option AbstractType :=
  match ty with
  | .struct typeName =>
    if (parseModuleRef typeName).isSome then none
    else
      match module.getStruct typeName with
      | none => none
      | some structDef =>
        (structDef.fields.find? (·.name == fieldName)).map fun field => fromType field.ty
  | _ => none

def resolveFieldPathType (module : Module) : AbstractType → List String → Option AbstractType
  | ty, [] => some ty
  | ty, field :: path =>
    match resolveFieldType ty field module with
    | some next => resolveFieldPathType module next path
    | none => none

/-- Only the type at the root of a path is looked at. -/
def checkFieldReadVisibility (fnName : String) (pc : ℕ) (ty : AbstractType) (fieldName : String) :
    List VerificationError :=
  match ty with
  | .struct typeName =>
    report (parseModuleRef typeName).isSome
      (.crossModulePrivateFieldRead fnName pc typeName fieldName)
  | _ => []

/-! ## Instructions -/

structure Scope where
  func : Function
  module : Module
  deps : DepMap
  natives : List NativeSig

abbrev Effect := ForwardFlow.Effect AbstractState VerificationError

def goOn (s : AbstractState) (errors : List VerificationError) : Effect where
  state := s
  errors
  jump := none

/-- Pop a value that must have the type `want`; `side` names the operand in an underflow. -/
def popExpect (fnName : String) (pc : ℕ) (want : AbstractType) (side : String)
    (stack : List AbstractType) : List AbstractType × List VerificationError :=
  match stack with
  | [] => ([], [.stackUnderflow fnName pc side])
  | ty :: rest =>
    (rest, if ty = want then [] else [.typeMismatch fnName pc want.displayName ty.displayName])

def binaryOp (fnName : String) (pc : ℕ) (operand result : AbstractType) (s : AbstractState) :
    Effect :=
  let r := popExpect fnName pc operand "right operand" s.stack
  let l := popExpect fnName pc operand "left operand" r.1
  goOn { s with stack := result :: l.1 } (r.2 ++ l.2)

def eqInstr (fnName : String) (pc : ℕ) (s : AbstractState) : Effect :=
  match s.stack with
  | r :: l :: rest =>
    goOn { s with stack := .bool :: rest }
      (if l.isLinear || r.isLinear then [.eqOnLinearType fnName pc]
        else if l = r then []
        else [.typeMismatch fnName pc l.displayName r.displayName])
  | _ =>
    goOn { s with stack := [.bool] } [.stackUnderflow fnName pc "two comparable values"]

def loadInstr (fnName : String) (pc slot : ℕ) (s : AbstractState) : Effect :=
  match s.locals[slot]? with
  | none => goOn s []
  | some .dead => goOn s [.useAfterMove fnName pc slot]
  | some (.live ty) =>
    goOn { s with
      stack := ty :: s.stack
      locals := if ty.isLinear then s.locals.set slot .dead else s.locals } []

def storeInstr (fnName : String) (pc slot : ℕ) (s : AbstractState) : Effect :=
  match s.locals[slot]? with
  | none => goOn s []
  | some old =>
    match s.stack with
    | [] => goOn s [.stackUnderflow fnName pc "any"]
    | ty :: rest =>
      goOn { s with stack := rest, locals := s.locals.set slot (.live ty) }
        (report old.isLinear (.slotOverwrite fnName pc slot))

/-- A path that does not resolve is taken to end in an address. -/
def loadFieldInstr (fnName : String) (module : Module) (pc slot : ℕ) (path : List String)
    (s : AbstractState) : Effect :=
  match s.locals[slot]?, path with
  | none, _ => goOn s []
  | some .dead, _ => goOn s [.useAfterMove fnName pc slot]
  | some (.live _), [] => goOn s []
  | some (.live root), field :: _ =>
    let terminal := (resolveFieldPathType module root path).getD .address
    goOn (s.push terminal)
      (checkFieldReadVisibility fnName pc root field
        ++ report terminal.isStruct (.structTypedFieldLoaded fnName pc (path.getLastD "")))

/-- A path that does not resolve is not checked at all. -/
def checkFieldWrite (fnName : String) (module : Module) (pc : ℕ) (root val : AbstractType)
    (path : List String) : List VerificationError :=
  match resolveFieldPathType module root path with
  | none => []
  | some expected =>
    if expected.isStruct then [.structTypedFieldWritten fnName pc (path.getLastD "")]
    else if val = expected then []
    else [.typeMismatch fnName pc expected.displayName val.displayName]

def storeFieldInstr (fnName : String) (module : Module) (pc slot : ℕ) (path : List String)
    (s : AbstractState) : Effect :=
  match s.locals[slot]? with
  | none => goOn s []
  | some local_ =>
    match s.stack with
    | [] => goOn s [.stackUnderflow fnName pc "value to store"]
    | val :: rest =>
      let s := { s with stack := rest }
      match local_, path with
      | .dead, _ => goOn s [.useAfterMove fnName pc slot]
      | .live _, [] => goOn s []
      | .live root, field :: _ =>
        match root with
        | .struct n =>
          if (parseModuleRef n).isSome then goOn s [.crossModuleFieldWrite fnName pc n field]
          else goOn s (checkFieldWrite fnName module pc root val path)
        | _ => goOn s (checkFieldWrite fnName module pc root val path)

def popFields (fnName : String) (pc : ℕ) :
    List FieldDef → List AbstractType → List AbstractType × List VerificationError
  | [], stack => (stack, [])
  | field :: fields, stack =>
    let top :=
      match stack with
      | [] => [VerificationError.stackUnderflow fnName pc ("field '" ++ field.name ++ "'")]
      | ty :: _ =>
        if ty = fromType field.ty then []
        else [.typeMismatch fnName pc (fromType field.ty).displayName ty.displayName]
    let rest := popFields fnName pc fields (stack.drop 1)
    (rest.1, top ++ rest.2)

def newStructInstr (fnName : String) (module : Module) (pc : ℕ) (typeName : String)
    (fieldNames : List String) (s : AbstractState) : Effect :=
  if (parseModuleRef typeName).isSome then
    goOn { s with stack := s.stack.drop fieldNames.length } []
  else
    match module.getStruct typeName with
    | some structDef =>
      let popped := popFields fnName pc structDef.fields.reverse s.stack
      goOn { s with stack := .struct typeName :: popped.1 } popped.2
    | none => goOn { s with stack := .struct typeName :: s.stack.drop fieldNames.length } []

/-- The first struct-typed field of a local struct, which `GetField` would drop. -/
def linearField (module : Module) (typeName : String) : Option FieldDef :=
  (module.getStruct typeName).bind fun structDef =>
    structDef.fields.find? fun field => (fromType field.ty).isStruct

def getFieldInstr (fnName : String) (module : Module) (pc : ℕ) (fieldName : String)
    (s : AbstractState) : Effect :=
  match s.stack with
  | [] => goOn s [.stackUnderflow fnName pc "struct"]
  | .struct typeName :: rest =>
    let fieldTy := (resolveFieldType (.struct typeName) fieldName module).getD .address
    goOn { s with stack := fieldTy :: rest }
      (checkFieldReadVisibility fnName pc (.struct typeName) fieldName
        ++ if fieldTy.isStruct then [.structTypedFieldLoaded fnName pc fieldName]
          else
            match linearField module typeName with
            | some field => [.getFieldDropsLinearField fnName pc typeName field.name]
            | none => [])
  | other :: rest =>
    goOn { s with stack := .address :: rest }
      [.typeMismatch fnName pc "struct" other.displayName]

def unpackStructInstr (fnName : String) (module : Module) (pc : ℕ) (typeName : String)
    (fieldNames : List String) (s : AbstractState) : Effect :=
  let placeholders := List.replicate fieldNames.length AbstractType.u64
  if (parseModuleRef typeName).isSome then
    goOn { s with stack := placeholders ++ s.stack.drop 1 } []
  else
    match s.stack with
    | [] => goOn s [.stackUnderflow fnName pc "struct"]
    | ty :: rest =>
      if ty = .struct typeName then
        match module.getStruct typeName with
        | some structDef =>
          goOn { s with stack := structDef.fields.map (fun field => fromType field.ty) ++ rest } []
        | none => goOn { s with stack := placeholders ++ rest } []
      else
        goOn { s with stack := placeholders ++ rest }
          [.typeMismatch fnName pc ("struct(" ++ typeName ++ ")") ty.displayName]

def makeTupleInstr (fnName : String) (pc n : ℕ) (s : AbstractState) : Effect :=
  if s.stack.length < n then
    goOn { s with stack := [] }
      [.stackUnderflow fnName pc (toString n ++ " values for MakeTuple")]
  else goOn { s with stack := .tuple (s.stack.take n).reverse :: s.stack.drop n } []

def unpackTupleInstr (fnName : String) (pc n : ℕ) (s : AbstractState) : Effect :=
  match s.stack with
  | [] => goOn s [.stackUnderflow fnName pc "tuple"]
  | .tuple types :: rest =>
    if types.length = n then goOn { s with stack := types ++ rest } []
    else
      goOn { s with stack := rest }
        [.typeMismatch fnName pc ("tuple of size " ++ toString n)
          ("tuple of size " ++ toString types.length)]
  | other :: rest =>
    goOn { s with stack := List.replicate n .u64 ++ rest }
      [.typeMismatch fnName pc "tuple" other.displayName]

def popInstr (fnName : String) (pc : ℕ) (s : AbstractState) : Effect :=
  match s.stack with
  | [] => goOn s [.stackUnderflow fnName pc "any"]
  | ty :: rest => goOn { s with stack := rest } (report ty.isLinear (.popOnStruct fnName pc))

def dupInstr (fnName : String) (pc : ℕ) (s : AbstractState) : Effect :=
  match s.stack with
  | [] => goOn s [.stackUnderflow fnName pc "any"]
  | ty :: _ => if ty.isLinear then goOn s [.dupOnStruct fnName pc] else goOn (s.push ty) []

/-- Only a forward jump sends its state on. -/
def jumpEdge (pc : ℕ) (offset : ℤ) (s : AbstractState) : Option (ℕ × AbstractState) :=
  if offset > 0 then some (((pc : ℤ) + offset).toNat, s) else none

def jumpInstr (pc : ℕ) (offset : ℤ) (s : AbstractState) : Effect where
  state := { s with reachable := false }
  errors := []
  jump := jumpEdge pc offset s

def jumpIfInstr (fnName : String) (pc : ℕ) (offset : ℤ) (s : AbstractState) : Effect :=
  let popped := popExpect fnName pc .bool "bool" s.stack
  let s := { s with stack := popped.1 }
  { state := s, errors := popped.2, jump := jumpEdge pc offset s }

def notInstr (fnName : String) (pc : ℕ) (s : AbstractState) : Effect :=
  let popped := popExpect fnName pc .bool "bool" s.stack
  goOn { s with stack := .bool :: popped.1 } popped.2

/-! ## Calls and returns -/

mutual
def qualifyType (addr : Address) : Ty → Ty
  | .struct n => if (parseModuleRef n).isNone then .struct (qualify addr n) else .struct n
  | .tuple types => .tuple (qualifyTypes addr types)
  | ty => ty

def qualifyTypes (addr : Address) : List Ty → List Ty
  | [] => []
  | t :: ts => qualifyType addr t :: qualifyTypes addr ts
end

def checkArgs (fnName : String) (pc : ℕ) : List Ty → List AbstractType → List VerificationError
  | expectedTy :: params, actual :: args =>
    (if actual = fromType expectedTy then []
      else [.typeMismatch fnName pc (fromType expectedTy).displayName actual.displayName])
    ++ checkArgs fnName pc params args
  | _, _ => []

def popAndCheckParams (fnName : String) (pc : ℕ) (callee : String) (params : List Ty)
    (stack : List AbstractType) : List AbstractType × List VerificationError :=
  if stack.length < params.length then
    ([], [.stackUnderflow fnName pc
      (toString params.length ++ " args for '" ++ callee ++ "'")])
  else
    (stack.drop params.length,
      checkArgs fnName pc params (stack.take params.length).reverse)

def returnAbstract : Option Ty → AbstractType
  | some ty => fromType ty
  | none => .void

def nativeParamMatches : NativeParam → AbstractType → Bool
  | .concrete t, ty => fromType t = ty
  | .anyStruct, ty => ty.isStruct
  | .localStruct, .struct n => (parseModuleRef n).isNone
  | .localStruct, _ => false

def nativeParamDisplay : NativeParam → String
  | .concrete t => (fromType t).displayName
  | .anyStruct => "any struct"
  | .localStruct => "local struct"

def checkNativeArgs (fnName : String) (pc : ℕ) (callee : String) :
    ℕ → List NativeParam → List AbstractType → List VerificationError
  | i, param :: params, ty :: args =>
    report (!nativeParamMatches param ty)
      (.nativeArgTypeMismatch fnName pc callee i (nativeParamDisplay param) ty.displayName)
    ++ checkNativeArgs fnName pc callee (i + 1) params args
  | _, _, _ => []

def popNativeArgs (fnName : String) (pc : ℕ) (native : NativeSig) (stack : List AbstractType) :
    List AbstractType × List VerificationError :=
  if stack.length < native.params.length then
    ([], [.nativeArgCountMismatch fnName pc native.name native.params.length stack.length])
  else
    (stack.drop native.params.length,
      checkNativeArgs fnName pc native.name 0 native.params
        (stack.take native.params.length).reverse)

def callInstr (sc : Scope) (pc : ℕ) (name : String) (s : AbstractState) : Effect :=
  let fnName := sc.func.name
  let undefined := goOn s [.undefinedFunction fnName pc name]
  match parseModuleRef name with
  | some (depAddr, calleeName) =>
    match sc.deps[depAddr]?.bind (·.getFunction calleeName) with
    | some callee =>
      let params := callee.params.map fun param => qualifyType depAddr param.2
      let popped := popAndCheckParams fnName pc name params s.stack
      goOn { s with
        stack := returnAbstract (callee.returnType.map (qualifyType depAddr)) :: popped.1 }
        popped.2
    | none => undefined
  | none =>
    match sc.module.getFunction name with
    | some callee =>
      let popped := popAndCheckParams fnName pc name (callee.params.map (·.2)) s.stack
      goOn { s with stack := returnAbstract callee.returnType :: popped.1 } popped.2
    | none =>
      match sc.natives.find? (·.name == name) with
      | some native =>
        let popped := popNativeArgs fnName pc native s.stack
        goOn { s with stack := returnAbstract native.returnType :: popped.1 } popped.2
      | none => undefined

/-- `UnconsumedStruct` for every live linear slot, numbering the slots from `slot`. -/
def unconsumedStructs (fnName : String) : ℕ → List SlotState → List VerificationError
  | _, [] => []
  | slot, local_ :: locals =>
    report local_.isLinear (.unconsumedStruct fnName slot)
      ++ unconsumedStructs fnName (slot + 1) locals

def checkReturnType (func : Function) (stack : List AbstractType) : List VerificationError :=
  match func.returnType, stack with
  | none, [] | none, .void :: _ => []
  | none, other :: _ => [.returnTypeMismatch func.name "void" other.displayName]
  | some declared, [] =>
    [.returnTypeMismatch func.name (fromType declared).displayName "empty stack"]
  | some declared, actual :: _ =>
    if actual = fromType declared then []
    else [.returnTypeMismatch func.name (fromType declared).displayName actual.displayName]

def checkReturn (func : Function) (s : AbstractState) : List VerificationError :=
  checkReturnType func s.stack
  ++ report (AbstractType.anyLinear s.stack.tail) (.unconsumedStructOnStack func.name)
  ++ unconsumedStructs func.name 0 s.locals

def returnInstr (func : Function) (s : AbstractState) : Effect :=
  goOn { s with reachable := false } (checkReturn func s)

def exec (sc : Scope) (pc : ℕ) (instr : Instruction) (s : AbstractState) : Effect :=
  let fnName := sc.func.name
  match instr with
  | .pushBool _ => goOn (s.push .bool) []
  | .pushU64 _ => goOn (s.push .u64) []
  | .pushAddress _ => goOn (s.push .address) []
  | .pushStr _ => goOn (s.push .str) []
  | .load slot => loadInstr fnName pc slot s
  | .store slot => storeInstr fnName pc slot s
  | .loadField slot path => loadFieldInstr fnName sc.module pc slot path s
  | .storeField slot path => storeFieldInstr fnName sc.module pc slot path s
  | .add | .sub | .mul | .div | .mod => binaryOp fnName pc .u64 .u64 s
  | .eq | .ne => eqInstr fnName pc s
  | .lt | .le | .gt | .ge => binaryOp fnName pc .u64 .bool s
  | .not => notInstr fnName pc s
  | .and | .or => binaryOp fnName pc .bool .bool s
  | .newStruct typeName fieldNames => newStructInstr fnName sc.module pc typeName fieldNames s
  | .getField fieldName => getFieldInstr fnName sc.module pc fieldName s
  | .unpackStruct typeName fieldNames =>
    unpackStructInstr fnName sc.module pc typeName fieldNames s
  | .pop => popInstr fnName pc s
  | .dup => dupInstr fnName pc s
  | .jump offset => jumpInstr pc offset s
  | .jumpIf offset | .jumpIfNot offset => jumpIfInstr fnName pc offset s
  | .call name => callInstr sc pc name s
  | .ret => returnInstr sc.func s
  | .makeTuple n => makeTupleInstr fnName pc n s
  | .unpackTuple n => unpackTupleInstr fnName pc n s

/-! ## The walk over a function -/

def pass (sc : Scope) : ForwardFlow.Pass Instruction AbstractState VerificationError where
  reachable s := s.reachable
  merge := merge sc.func.name
  exec := exec sc

/-- Parameters are live in the first slots, the other slots are dead. -/
def initialState (func : Function) : AbstractState where
  stack := []
  locals := func.params.map (fun param => .live (fromType param.2))
    ++ List.replicate (func.localCount - func.params.length) .dead
  reachable := true

/-- A path that runs off the end, by falling through or by a jump to the position after the last
instruction. -/
def checkEnd (func : Function) (flow : ForwardFlow.Flow AbstractState VerificationError) :
    List VerificationError :=
  match flow.pending[func.code.length]? with
  | some escaped =>
    .missingReturn func.name
      :: unconsumedStructs func.name func.params.length (escaped.locals.drop func.params.length)
  | none => report flow.cur.reachable (.missingReturn func.name)

def checkFunction (sc : Scope) : List VerificationError :=
  if sc.func.localCount < sc.func.params.length then []
  else
    let flow := (pass sc).run (initialState sc.func) sc.func.code
    flow.errors ++ checkEnd sc.func flow

/-- The state `check_function` holds when it comes to `pc`, if some path leads there. -/
def stateAt (sc : Scope) (pc : ℕ) : Option AbstractState :=
  (pass sc).stateAt (initialState sc.func) sc.func.code pc

/-- All errors of the two phases; `verify` is `Ok` when there is none. -/
def verify (module : Module) (deps : DepMap) (natives : List NativeSig) (cfg : CompilerConfig) :
    List VerificationError :=
  checkModule module deps cfg
  ++ module.functions.flatMap fun func =>
    checkFunction { func, module, deps, natives := builtinNatives ++ natives }

end MeowChain.Verifier
