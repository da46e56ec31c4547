import MeowChain.Adapter.Natives
import MeowChain.Verifier.AbstractInterpretation

/-!
# The adapter's bytecode verifier

Runs after the language verifier and checks the object conventions of the chain: the layout of
object structs, the origin of their ids and what `meow_vm_transfer` is given. Stacks have their top
first.
-/

set_option autoImplicit false

namespace MeowChain.Adapter

open Verifier (Scope)

inductive BytecodeVerifierError where
  | idFieldNotFirst (structName fieldName : String)
  | objectAsFieldType (structName fieldName objectType : String)
  | objectIdNotFresh (function : String) (pc : ℕ) (object : String)
  | transferNonObjectStruct (function : String) (pc : ℕ) (structName : String)
  deriving DecidableEq

/-! ## Object layout -/

def objectTypes (module : Module) : List String :=
  (module.structs.filter isObjectStruct).map (·.name)

def isObjectType (module : Module) (deps : DepMap) (typeName : String) : Bool :=
  match parseModuleRef typeName with
  | some (depAddr, name) =>
    match deps[depAddr]?.bind (·.getStruct name) with
    | some structDef => isObjectStruct structDef
    | none => false
  | none => (objectTypes module).contains typeName

def checkFieldLayout (module : Module) (deps : DepMap) (s : StructDef) (i : ℕ) (field : FieldDef) :
    List BytecodeVerifierError :=
  (if field.ty = meowObjectIdType ∧ i ≠ 0 then [.idFieldNotFirst s.name field.name] else [])
  ++ match field.ty with
    | .struct typeName =>
      if isObjectType module deps typeName then [.objectAsFieldType s.name field.name typeName]
      else []
    | _ => []

def checkFieldLayouts (module : Module) (deps : DepMap) (s : StructDef) :
    ℕ → List FieldDef → List BytecodeVerifierError
  | _, [] => []
  | i, field :: fields =>
    checkFieldLayout module deps s i field ++ checkFieldLayouts module deps s (i + 1) fields

def checkObjectLayouts (module : Module) (deps : DepMap) : List BytecodeVerifierError :=
  module.structs.flatMap fun s => checkFieldLayouts module deps s 0 s.fields

/-! ## Abstract values -/

inductive Fresh where
  | id
  | other
  deriving DecidableEq

inductive StructTag where
  | object
  | nonObject (name : String)
  | other
  deriving DecidableEq

/-- What is known of a value; a tuple value has the tags of its elements. -/
structure Slot where
  fresh : Fresh
  tag : StructTag
  tuple : Option (List StructTag)
  deriving DecidableEq

namespace Slot

def scalar (fresh : Fresh) (tag : StructTag) : Slot where
  fresh
  tag
  tuple := none

def other : Slot :=
  scalar .other .other

end Slot

structure VerifyState where
  stack : List Slot
  locals : List Slot
  reachable : Bool

namespace VerifyState

/-- A pop from an empty stack yields `Slot::other`. -/
def pop (s : VerifyState) : Slot × VerifyState :=
  (s.stack.head?.getD .other, { s with stack := s.stack.tail })

def popN (s : VerifyState) (n : ℕ) : VerifyState :=
  { s with stack := s.stack.drop n }

def push (s : VerifyState) (slot : Slot) : VerifyState :=
  { s with stack := slot :: s.stack }

def pushAll (s : VerifyState) (slots : List Slot) : VerifyState :=
  { s with stack := slots.reverse ++ s.stack }

/-- The slot at index `len.saturating_sub(n)` counted from the bottom: the `n`-th from the top, or
the bottom one of a shorter stack. -/
def nthFromTop (s : VerifyState) (n : ℕ) : Option Slot :=
  s.stack.reverse[s.stack.length - n]?

end VerifyState

/-! ## Joins -/

def mergeTag (a b : StructTag) : StructTag :=
  if a = b then a else .other

def mergeTuple : Option (List StructTag) → Option (List StructTag) → Option (List StructTag)
  | some as, some bs => if as.length = bs.length then some (List.zipWith mergeTag as bs) else none
  | _, _ => none

def mergeSlot (slot other : Slot) : Slot where
  fresh := if other.fresh = .id then slot.fresh else .other
  tag := mergeTag slot.tag other.tag
  tuple := mergeTuple slot.tuple other.tuple

def mergeLocals : List Slot → List Slot → List Slot
  | a :: as, b :: bs => mergeSlot a b :: mergeLocals as bs
  | as, [] => as.map fun _ => .other
  | [], _ => []

/-- Both stacks are cut to the shorter one, keeping the bottom. -/
def mergeFrom (s t : VerifyState) : VerifyState :=
  let len := min s.stack.length t.stack.length
  { s with
    stack := List.zipWith mergeSlot (s.stack.drop (s.stack.length - len))
      (t.stack.drop (t.stack.length - len))
    locals := mergeLocals s.locals t.locals }

/-- A state that waits for its target was reachable when it was stored. -/
def merge (current incoming : VerifyState) (_ : ℕ) :
    Option VerifyState × List BytecodeVerifierError :=
  (some (if current.reachable then mergeFrom current incoming else incoming), [])

/-! ## Types and calls -/

def localStructTag (objects : List String) (typeName : String) : StructTag :=
  if isQualified typeName then .other
  else if objects.contains typeName then .object
  else .nonObject typeName

def typeTag (objects : List String) : Ty → StructTag
  | .struct name => localStructTag objects name
  | _ => .other

def objects (sc : Scope) : List String :=
  objectTypes sc.module

def returnSlot (sc : Scope) (name : String) (fresh : Fresh) : Slot :=
  if isQualified name then .scalar fresh .other
  else
    match (sc.module.getFunction name).bind (·.returnType) with
    | some (.struct typeName) => .scalar fresh (localStructTag (objects sc) typeName)
    | some (.tuple types) =>
      { fresh, tag := .other, tuple := some (types.map (typeTag (objects sc))) }
    | _ => .scalar fresh .other

def callEffect (sc : Scope) (name : String) : ℕ × Bool :=
  match parseModuleRef name with
  | some (depAddr, fnName) =>
    match sc.deps[depAddr]?.bind (·.getFunction fnName) with
    | some func => (func.params.length, func.returnType.isSome)
    | none => (0, false)
  | none =>
    match sc.natives.find? (·.name == name) with
    | some sig => (sig.params.length, sig.returnType.isSome)
    | none =>
      match sc.module.getFunction name with
      | some func => (func.params.length, func.returnType.isSome)
      | none => (0, false)

/-! ## Instructions -/

abbrev Effect := ForwardFlow.Effect VerifyState BytecodeVerifierError

def goOn (s : VerifyState) (errors : List BytecodeVerifierError) : Effect where
  state := s
  errors
  jump := none

/-- Only forward jumps reach this pass; a state sent anywhere else would never be picked up. -/
def jumpTarget (pc : ℕ) (offset : ℤ) : ℕ :=
  ((pc : ℤ) + offset).toNat

def newStructInstr (sc : Scope) (pc : ℕ) (typeName : String) (fieldNames : List String)
    (s : VerifyState) : Effect :=
  let n := fieldNames.length
  let stale := (objects sc).contains typeName && decide (n > 0)
    && decide ((s.nthFromTop n).map (·.fresh) ≠ some .id)
  goOn ((s.popN n).push (.scalar .other (localStructTag (objects sc) typeName)))
    (if stale then [.objectIdNotFresh sc.func.name pc typeName] else [])

def fieldTag (sc : Scope) (typeName fieldName : String) : StructTag :=
  match (sc.module.getStruct typeName).bind (·.fields.find? (·.name == fieldName)) with
  | some field => typeTag (objects sc) field.ty
  | none => .other

def unpackStructInstr (sc : Scope) (typeName : String) (fieldNames : List String)
    (s : VerifyState) : Effect :=
  goOn (s.pop.2.pushAll
    (fieldNames.map fun fieldName => .scalar .other (fieldTag sc typeName fieldName))) []

def checkTransfer (sc : Scope) (pc : ℕ) (name : String) (argCount : ℕ) (s : VerifyState) :
    List BytecodeVerifierError :=
  if name = nativeFnTransfer then
    match (s.nthFromTop argCount).map Slot.tag with
    | some (.nonObject structName) => [.transferNonObjectStruct sc.func.name pc structName]
    | _ => []
  else []

def callInstr (sc : Scope) (pc : ℕ) (name : String) (s : VerifyState) : Effect :=
  let effect := callEffect sc name
  let popped := s.popN effect.1
  let fresh := if name = nativeFnFreshId then Fresh.id else Fresh.other
  goOn (if effect.2 then popped.push (returnSlot sc name fresh) else popped)
    (checkTransfer sc pc name effect.1 s)

def makeTupleInstr (n : ℕ) (s : VerifyState) : Effect :=
  let tags := (s.stack.take n).map (·.tag) ++ List.replicate (n - s.stack.length) .other
  goOn ((s.popN n).push { fresh := .other, tag := .other, tuple := some tags.reverse }) []

def unpackTupleInstr (n : ℕ) (s : VerifyState) : Effect :=
  let popped := s.pop
  match popped.1.tuple with
  | some tags =>
    if tags.length = n then goOn (popped.2.pushAll (tags.reverse.map (.scalar .other))) []
    else goOn (popped.2.pushAll (List.replicate n .other)) []
  | none => goOn (popped.2.pushAll (List.replicate n .other)) []

/-- `LoadField` pops a value, although the machine reads the field from a local slot, and a call
of a function without a result pushes nothing, although the machine pushes `Void`. -/
def exec (sc : Scope) (pc : ℕ) (instr : Instruction) (s : VerifyState) : Effect :=
  match instr with
  | .pushBool _ | .pushU64 _ | .pushAddress _ | .pushStr _ => goOn (s.push .other) []
  | .load slot => goOn (s.push (s.locals[slot]?.getD .other)) []
  | .store slot => goOn { s.pop.2 with locals := s.locals.set slot s.pop.1 } []
  | .loadField _ _ => goOn (s.pop.2.push .other) []
  | .storeField _ _ => goOn s.pop.2 []
  | .add | .sub | .mul | .div | .mod | .eq | .ne | .lt | .le | .gt | .ge | .and | .or =>
    goOn ((s.popN 2).push .other) []
  | .not => goOn (s.pop.2.push .other) []
  | .newStruct typeName fieldNames => newStructInstr sc pc typeName fieldNames s
  | .getField _ => goOn (s.pop.2.push .other) []
  | .unpackStruct typeName fieldNames => unpackStructInstr sc typeName fieldNames s
  | .pop => goOn s.pop.2 []
  | .dup => goOn (s.push (s.stack.head?.getD .other)) []
  | .jump offset =>
    { state := { s with reachable := false }, errors := [], jump := some (jumpTarget pc offset, s) }
  | .jumpIf offset | .jumpIfNot offset =>
    { state := s.pop.2, errors := [], jump := some (jumpTarget pc offset, s.pop.2) }
  | .ret => goOn { s.pop.2 with reachable := false } []
  | .call name => callInstr sc pc name s
  | .makeTuple n => makeTupleInstr n s
  | .unpackTuple n => unpackTupleInstr n s

def pass (sc : Scope) : ForwardFlow.Pass Instruction VerifyState BytecodeVerifierError where
  reachable s := s.reachable
  merge := merge
  exec := exec sc

/-- Struct-typed parameters have the tag of their type. -/
def initialState (sc : Scope) : VerifyState where
  stack := []
  locals := (sc.func.params.map fun param => Slot.scalar .other (typeTag (objects sc) param.2)).take
      sc.func.localCount
    ++ List.replicate (sc.func.localCount - sc.func.params.length) .other
  reachable := true

def checkFunctionBody (sc : Scope) : List BytecodeVerifierError :=
  ((pass sc).run (initialState sc) sc.func.code).errors

def stateAt (sc : Scope) (pc : ℕ) : Option VerifyState :=
  (pass sc).stateAt (initialState sc) sc.func.code pc

/-- All errors; `verify` is `Ok` when there is none. -/
def verify (module : Module) (deps : DepMap) (adapterNatives : List NativeSig) :
    List BytecodeVerifierError :=
  checkObjectLayouts module deps
  ++ module.functions.flatMap fun func =>
    checkFunctionBody { func, module, deps, natives := builtinNatives ++ adapterNatives }

end MeowChain.Adapter
