import MeowChain.Lib.Outcome
import MeowChain.Vm.Names
import Std.Data.ExtTreeMap.Lemmas

/-!
# The virtual machine

`Vm::call_inner` as a small-step machine. The recursion of the source is an explicit list of
suspended callers, the operand stack has its top first, and every step ends in another state or
in the outcome of the whole call together with the gas meter and the native context.
-/

set_option autoImplicit false

namespace MeowChain

inductive VmError where
  | aborted (code : UInt64) (message : String)
  | arithmeticOverflow
  | arityMismatch (function : String) (got localCount : ℕ)
  | callStackOverflow (maxDepth : ℕ)
  | divisionByZero
  | eqOnLinearType (typeName : String)
  | invalidJumpTarget (pc : ℕ) (offset : ℤ)
  | linearFieldOverwrite (field : String)
  | nativeError (message : String)
  | nativeFunctionCallDirect (name : String)
  | outOfGas (spent limit : ℕ)
  | privateFunction (name : String)
  | slotOverwrite (slot : ℕ)
  | stackUnderflow
  | tooManyDepModules (max : ℕ)
  | typeError (message : String)
  | undefinedField (typeName field : String)
  | undefinedFunction (name : String)
  | undefinedStruct (name : String)
  | undefinedVariable (slot : ℕ)
  | useAfterMove (message : String)
  deriving DecidableEq

/-! ## Gas -/

def u64Max : ℕ := 2 ^ 64 - 1

structure GasMeter where
  limit : ℕ
  spent : ℕ
  deriving DecidableEq

/-- `GasMeter::charge`: a saturating addition; a failed charge leaves `spent` at the limit. -/
def GasMeter.charge (gas : GasMeter) (cost : ℕ) : GasMeter × Option VmError :=
  let spent := min (gas.spent + cost) u64Max
  if spent > gas.limit then
    ({ gas with spent := gas.limit }, some (.outOfGas gas.limit gas.limit))
  else
    ({ gas with spent }, none)

structure GasSchedule where
  pushPrimitive : ℕ := 1
  pushStr : ℕ := 2
  loadStore : ℕ := 1
  loadField : ℕ := 2
  storeField : ℕ := 5
  addSubMul : ℕ := 2
  div : ℕ := 5
  mod : ℕ := 5
  compare : ℕ := 2
  logic : ℕ := 1
  newStructBase : ℕ := 10
  newStructPerField : ℕ := 2
  getField : ℕ := 3
  stack : ℕ := 1
  jump : ℕ := 2
  call : ℕ := 20
  ret : ℕ := 2
  makeTuplePerElement : ℕ := 1
  unpackTuplePerElement : ℕ := 1
  unpackStructPerField : ℕ := 1

def GasSchedule.costOf (g : GasSchedule) : Instruction → ℕ
  | .pushBool _ | .pushU64 _ | .pushAddress _ => g.pushPrimitive
  | .pushStr _ => g.pushStr
  | .load _ | .store _ => g.loadStore
  | .loadField _ _ => g.loadField
  | .storeField _ _ => g.storeField
  | .add | .sub | .mul => g.addSubMul
  | .div => g.div
  | .mod => g.mod
  | .eq | .ne | .lt | .le | .gt | .ge => g.compare
  | .not | .and | .or => g.logic
  | .newStruct _ fieldNames => g.newStructBase + fieldNames.length * g.newStructPerField
  | .getField _ => g.getField
  | .pop | .dup => g.stack
  | .jump _ | .jumpIf _ | .jumpIfNot _ => g.jump
  | .call _ => g.call
  | .ret => g.ret
  | .makeTuple n => n * g.makeTuplePerElement
  | .unpackTuple n => n * g.unpackTuplePerElement
  | .unpackStruct _ fieldNames => fieldNames.length * g.unpackStructPerField

/-! ## Native functions -/

inductive NativeParam where
  | concrete (ty : Ty)
  | anyStruct
  | localStruct
  deriving DecidableEq

structure NativeSig where
  name : String
  params : List NativeParam
  returnType : Option Ty
  deriving DecidableEq

inductive NativeResult where
  | ret (value : Option (Value Unit))
  | abort (code : UInt64) (message : String)
  | error (message : String)

/-- A native function acts on a context `σ` shared by all natives of the run. -/
structure NativeFnEntry (σ : Type) extends NativeSig where
  gasCost : ℕ
  func : σ → List (Value Unit) → NativeResult × σ

def meowVmAbort : String := "meow_vm_abort"

def meowVmAbortSig : NativeSig where
  name := meowVmAbort
  params := [.concrete .bool, .concrete .u64, .concrete .str]
  returnType := none

def builtinNatives : List NativeSig :=
  [meowVmAbortSig]

def meowVmAbortEntry (σ : Type) : NativeFnEntry σ where
  toNativeSig := meowVmAbortSig
  gasCost := 0
  func ctx args :=
    match args with
    | .bool true :: _ => (.ret none, ctx)
    | .bool false :: code :: message :: _ =>
      let code := match code with
        | .u64 n => n
        | _ => 0
      let message := match message with
        | .str s => s
        | _ => "aborted"
      (.abort code message, ctx)
    | _ => (.error "meow_vm_abort: first argument must be bool", ctx)

/-! ## Operations on values -/

namespace Value

variable {τ : Type}

def asU64 : Value τ → Option UInt64
  | .u64 n => some n
  | _ => none

def asBool : Value τ → Option Bool
  | .bool b => some b
  | _ => none

end Value

section Values

variable {τ : Type}

def checkedAdd (a b : UInt64) : Option UInt64 :=
  if a.toNat + b.toNat ≤ u64Max then some (a + b) else none

def checkedSub (a b : UInt64) : Option UInt64 :=
  if b ≤ a then some (a - b) else none

def checkedMul (a b : UInt64) : Option UInt64 :=
  if a.toNat * b.toNat ≤ u64Max then some (a * b) else none

def checkedDiv (a b : UInt64) : Option UInt64 :=
  if b = 0 then none else some (a / b)

def checkedRem (a b : UInt64) : Option UInt64 :=
  if b = 0 then none else some (a % b)

def expectU64 (v : Value τ) : Except VmError UInt64 :=
  match v.asU64 with
  | some n => .ok n
  | none => .error (.typeError ("expected integer, got " ++ v.typeName))

def expectBool (v : Value τ) : Except VmError Bool :=
  match v.asBool with
  | some b => .ok b
  | none => .error (.typeError ("expected bool, got " ++ v.typeName))

def arithOp (op : UInt64 → UInt64 → Option UInt64) (l r : Value τ) :
    Except VmError (Value τ) := do
  let a ← expectU64 l
  let b ← expectU64 r
  match op a b with
  | some c => .ok (.u64 c)
  | none => .error .arithmeticOverflow

/-- `Div` and `Mod` look at the divisor before the operand types. -/
def divOp (op : UInt64 → UInt64 → Option UInt64) (l r : Value τ) : Except VmError (Value τ) :=
  if r.asU64 = some 0 then .error .divisionByZero else arithOp op l r

def cmpValues (l r : Value τ) : Except VmError Bool := do
  let a ← expectU64 l
  let b ← expectU64 r
  .ok (a < b)

def linearTypeName (l r : Value τ) : String :=
  if l.isLinear then l.typeName else r.typeName

def eqOp (negate : Bool) (l r : Value τ) : Except VmError (Value τ) :=
  if l.isLinear || r.isLinear then .error (.eqOnLinearType (linearTypeName l r))
  else .ok (.bool (l.beq r != negate))

def boolOp (op : Bool → Bool → Bool) (l r : Value τ) : Except VmError (Value τ) := do
  let a ← expectBool l
  let b ← expectBool r
  .ok (.bool (op a b))

def movedMessage (slot : ℕ) : String :=
  s!"local slot {slot} has already been moved"

/-- A copy of the value at the end of `path`, which starts at step `i` of the whole path. -/
def readFieldPath (i : ℕ) : Value τ → List String → Except VmError (Value τ)
  | current, [] => .ok current
  | .struct _ typeName fields, field :: path =>
    match Value.lookup field fields with
    | some child => readFieldPath (i + 1) child path
    | none => .error (.undefinedField typeName field)
  | other, _ :: _ =>
    .error (.typeError (s!"LoadField: expected struct at path step {i}, got " ++ other.typeName))

def setField (name : String) (v : Value τ) : List (String × Value τ) → List (String × Value τ)
  | [] => []
  | (n, w) :: fields => if n == name then (n, v) :: fields else (n, w) :: setField name v fields

def writeFieldPath (val : Value τ) (i : ℕ) : Value τ → List String → Except VmError (Value τ)
  | _, [] => .error (.typeError "StoreField: path must not be empty")
  | .struct label typeName fields, [last] =>
    match Value.lookup last fields with
    | some old =>
      if old.isLinear then .error (.linearFieldOverwrite last)
      else .ok (.struct label typeName (setField last val fields))
    | none => .error (.undefinedField typeName last)
  | other, [_] =>
    .error (.typeError ("StoreField: expected struct for terminal write, got " ++ other.typeName))
  | .struct label typeName fields, field :: path =>
    match Value.lookup field fields with
    | some child => do
      let child' ← writeFieldPath val (i + 1) child path
      .ok (.struct label typeName (setField field child' fields))
    | none => .error (.undefinedField typeName field)
  | other, _ :: _ =>
    .error (.typeError (s!"StoreField: expected struct at path step {i}, got " ++ other.typeName))

/-- Pops of `UnpackStruct` for the names still to come. The source collects the fields into a
`HashMap`, so the last of two fields of one name wins and a name can be removed only once. -/
def unpackFields (typeName : String) :
    List String → List (String × Value τ) → List (Value τ) → Except VmError (List (Value τ))
  | [], _, stack => .ok stack
  | name :: names, fields, stack =>
    match Value.lookup name fields.reverse with
    | some v => unpackFields typeName names (fields.filter (·.1 != name)) (v :: stack)
    | none => .error (.undefinedField typeName name)

def popArgs (n : ℕ) (stack : List (Value τ)) :
    Except VmError (List (Value τ) × List (Value τ)) :=
  if n ≤ stack.length then .ok ((stack.take n).reverse, stack.drop n)
  else .error .stackUnderflow

def jumpTarget (pc : ℕ) (offset : ℤ) : Except VmError ℕ :=
  let target : ℤ := pc - 1 + offset
  if target < 0 then .error (.invalidJumpTarget pc offset) else .ok target.toNat

end Values

-- `check_struct_qualified`; the source does not look into tuples.
mutual
def checkStructQualified {τ : Type} : Value τ → Bool
  | .struct _ typeName fields => (parseModuleRef typeName).isSome && checkFieldsQualified fields
  | _ => true

def checkFieldsQualified {τ : Type} : List (String × Value τ) → Bool
  | [] => true
  | (_, v) :: fields => checkStructQualified v && checkFieldsQualified fields
end

/-! ## Frames -/

/-- Modules by on-chain address. -/
abbrev DepMap := Std.ExtTreeMap Address Module

/-- An activation of `function`, a function of the module `context` published at `contextAddr`. -/
structure Frame (τ : Type) where
  context : Module
  contextAddr : Address
  function : Function
  locals : List (Option (Value τ))
  stack : List (Value τ)
  pc : ℕ

namespace Frame

variable {τ : Type}

def new (context : Module) (contextAddr : Address) (function : Function) (args : List (Value τ)) :
    Frame τ where
  context
  contextAddr
  function
  locals := args.map some ++ List.replicate (function.localCount - args.length) none
  stack := []
  pc := 0

def push (frame : Frame τ) (v : Value τ) : Frame τ :=
  { frame with stack := v :: frame.stack }

def unary (frame : Frame τ) (op : Value τ → Except VmError (Value τ)) :
    Except VmError (Frame τ) :=
  match frame.stack with
  | v :: rest => do
    let w ← op v
    .ok { frame with stack := w :: rest }
  | [] => .error .stackUnderflow

/-- The right operand is on top. -/
def binary (frame : Frame τ) (op : Value τ → Value τ → Except VmError (Value τ)) :
    Except VmError (Frame τ) :=
  match frame.stack with
  | r :: l :: rest => do
    let w ← op l r
    .ok { frame with stack := w :: rest }
  | _ => .error .stackUnderflow

/-- A linear value moves out of its slot, any other value is copied. -/
def load (frame : Frame τ) (slot : ℕ) : Except VmError (Frame τ) :=
  match frame.locals[slot]? with
  | none => .error (.undefinedVariable slot)
  | some none => .error (.useAfterMove (movedMessage slot))
  | some (some v) =>
    if v.isLinear then
      .ok { frame with locals := frame.locals.set slot none, stack := v :: frame.stack }
    else
      .ok (frame.push v)

def store (frame : Frame τ) (slot : ℕ) : Except VmError (Frame τ) :=
  match frame.stack with
  | [] => .error .stackUnderflow
  | v :: rest =>
    let locals := frame.locals ++ List.replicate (slot + 1 - frame.locals.length) none
    match locals[slot]? with
    | some (some old) =>
      if old.isLinear then .error (.slotOverwrite slot)
      else .ok { frame with locals := locals.set slot (some v), stack := rest }
    | _ => .ok { frame with locals := locals.set slot (some v), stack := rest }

def loadField (frame : Frame τ) (slot : ℕ) (path : List String) : Except VmError (Frame τ) :=
  match frame.locals[slot]? with
  | some (some root) => do
    let v ← readFieldPath 0 root path
    .ok (frame.push v)
  | _ => .error (.useAfterMove (movedMessage slot))

def storeField (frame : Frame τ) (slot : ℕ) (path : List String) : Except VmError (Frame τ) :=
  match frame.stack with
  | [] => .error .stackUnderflow
  | v :: rest =>
    match frame.locals[slot]? with
    | some (some root) => do
      let root' ← writeFieldPath v 0 root path
      .ok { frame with locals := frame.locals.set slot (some root'), stack := rest }
    | _ => .error (.useAfterMove (movedMessage slot))

/-- The run-time type name of a `NewStruct`: a reference to a dependency is kept as it is
written, a local name is qualified with the address of the executing module. -/
def structTypeName (deps : DepMap) (frame : Frame τ) (typeName : String) :
    Except VmError String :=
  match parseModuleRef typeName with
  | some (depAddr, structName) =>
    match deps[depAddr]?.bind (·.getStruct structName) with
    | some _ => .ok typeName
    | none => .error (.undefinedStruct typeName)
  | none =>
    match frame.context.getStruct typeName with
    | some _ => .ok (qualify frame.contextAddr typeName)
    | none => .error (.undefinedStruct typeName)

def newStruct (deps : DepMap) (label : τ) (frame : Frame τ) (typeName : String)
    (fieldNames : List String) : Except VmError (Frame τ) := do
  let qualified ← structTypeName deps frame typeName
  let (values, rest) ← popArgs fieldNames.length frame.stack
  .ok { frame with stack := .struct label qualified (fieldNames.zip values) :: rest }

def getField (frame : Frame τ) (field : String) : Except VmError (Frame τ) :=
  frame.unary fun
    | .struct _ typeName fields =>
      match Value.lookup field fields with
      | some v => .ok v
      | none => .error (.undefinedField typeName field)
    | other => .error (.typeError ("expected struct, got " ++ other.typeName))

def unpackStruct (frame : Frame τ) (fieldNames : List String) : Except VmError (Frame τ) :=
  match frame.stack with
  | [] => .error .stackUnderflow
  | .struct _ typeName fields :: rest => do
    let stack ← unpackFields typeName fieldNames.reverse fields rest
    .ok { frame with stack }
  | other :: _ =>
    .error (.typeError ("UnpackStruct: expected struct, got " ++ other.typeName))

def jump (frame : Frame τ) (offset : ℤ) : Except VmError (Frame τ) := do
  let pc ← jumpTarget frame.pc offset
  .ok { frame with pc }

/-- `JumpIf` jumps when the condition is `expected`. -/
def jumpWhen (expected : Bool) (frame : Frame τ) (offset : ℤ) : Except VmError (Frame τ) :=
  match frame.stack with
  | [] => .error .stackUnderflow
  | v :: rest => do
    let cond ← expectBool v
    let frame := { frame with stack := rest }
    if cond = expected then frame.jump offset else .ok frame

def makeTuple (frame : Frame τ) (n : ℕ) : Except VmError (Frame τ) := do
  let (values, rest) ← popArgs n frame.stack
  .ok { frame with stack := .tuple values :: rest }

def unpackTuple (frame : Frame τ) (n : ℕ) : Except VmError (Frame τ) :=
  match frame.stack with
  | [] => .error .stackUnderflow
  | .tuple values :: rest =>
    if values.length = n then .ok { frame with stack := values ++ rest }
    else .error (.typeError
      (s!"UnpackTuple: expected tuple of size {n}, got size " ++ toString values.length))
  | other :: _ => .error (.typeError ("UnpackTuple: expected tuple, got " ++ other.typeName))

/-- Every instruction that stays within its frame. `pc` is already past the instruction. -/
def exec (deps : DepMap) (label : τ) (frame : Frame τ) : Instruction → Except VmError (Frame τ)
  | .pushBool b => .ok (frame.push (.bool b))
  | .pushU64 n => .ok (frame.push (.u64 n))
  | .pushAddress a => .ok (frame.push (.address a))
  | .pushStr s => .ok (frame.push (.str s))
  | .load slot => frame.load slot
  | .store slot => frame.store slot
  | .loadField slot path => frame.loadField slot path
  | .storeField slot path => frame.storeField slot path
  | .add => frame.binary (arithOp checkedAdd)
  | .sub => frame.binary (arithOp checkedSub)
  | .mul => frame.binary (arithOp checkedMul)
  | .div => frame.binary (divOp checkedDiv)
  | .mod => frame.binary (divOp checkedRem)
  | .eq => frame.binary (eqOp false)
  | .ne => frame.binary (eqOp true)
  | .lt => frame.binary fun l r => do .ok (.bool (← cmpValues l r))
  | .le => frame.binary fun l r => do .ok (.bool (!(← cmpValues r l)))
  | .gt => frame.binary fun l r => do .ok (.bool (← cmpValues r l))
  | .ge => frame.binary fun l r => do .ok (.bool (!(← cmpValues l r)))
  | .not => frame.unary fun v => do .ok (.bool (!(← expectBool v)))
  | .and => frame.binary (boolOp (· && ·))
  | .or => frame.binary (boolOp (· || ·))
  | .newStruct typeName fieldNames => newStruct deps label frame typeName fieldNames
  | .getField field => frame.getField field
  | .unpackStruct _ fieldNames => frame.unpackStruct fieldNames
  | .pop =>
    match frame.stack with
    | [] => .error .stackUnderflow
    | _ :: rest => .ok { frame with stack := rest }
  | .dup =>
    match frame.stack with
    | [] => .error .stackUnderflow
    | v :: _ => .ok (frame.push v)
  | .jump offset => frame.jump offset
  | .jumpIf offset => frame.jumpWhen true offset
  | .jumpIfNot offset => frame.jumpWhen false offset
  | .makeTuple n => frame.makeTuple n
  | .unpackTuple n => frame.unpackTuple n
  -- `Call` and `Return` leave the frame; see `step`.
  | .call _ => .ok frame
  | .ret => .ok frame

end Frame

/-! ## The machine -/

structure VmConfig where
  maxCallDepth : ℕ := 256
  maxDepModules : ℕ := 64
  enableCallPrivateFunctions : Bool := false
  deriving DecidableEq

structure Vm (σ : Type) where
  module : Module
  moduleAddr : Address
  deps : DepMap
  natives : List (NativeFnEntry σ)
  gasSchedule : GasSchedule
  config : VmConfig

/-- The current frame, its suspended callers (innermost first) and what all frames share.
`nextLabel` is the next unused label number. -/
structure State (τ σ : Type) where
  frame : Frame τ
  callers : List (Frame τ)
  gas : GasMeter
  ctx : σ
  nextLabel : ℕ

/-- How a call ended, with the gas meter and the native context it leaves behind. -/
structure Final (τ σ : Type) where
  outcome : Outcome VmError (Option (Value τ))
  gas : GasMeter
  ctx : σ

inductive StepResult (τ σ : Type) where
  | next (state : State τ σ)
  | done (final : Final τ σ)

section Step

variable {τ σ : Type}

def State.fail (s : State τ σ) (e : VmError) : StepResult τ σ :=
  .done { outcome := .err e, gas := s.gas, ctx := s.ctx }

def Vm.enter (maxCallDepth depth : ℕ) (context : Module) (contextAddr : Address) (fnName : String)
    (args : List (Value τ)) : Except VmError (Frame τ) :=
  if depth ≥ maxCallDepth then .error (.callStackOverflow maxCallDepth)
  else
    match context.getFunction fnName with
    | none => .error (.undefinedFunction fnName)
    | some function =>
      if args.length > function.localCount then
        .error (.arityMismatch fnName args.length function.localCount)
      else .ok (Frame.new context contextAddr function args)

/-- Return from the current frame; a void callee leaves `Void` on its caller's stack. -/
def Vm.leave (s : State τ σ) : StepResult τ σ :=
  match s.callers with
  | [] => .done { outcome := .ok s.frame.stack.head?, gas := s.gas, ctx := s.ctx }
  | caller :: callers =>
    .next { s with frame := caller.push (s.frame.stack.head?.getD .void), callers }

def Vm.invoke (vm : Vm σ) (s : State τ σ) (context : Module) (contextAddr : Address)
    (fnName : String) (argCount : ℕ) : StepResult τ σ :=
  match popArgs argCount s.frame.stack with
  | .error e => s.fail e
  | .ok (args, rest) =>
    match Vm.enter vm.config.maxCallDepth (s.callers.length + 1) context contextAddr fnName args with
    | .error e => s.fail e
    | .ok frame => .next { s with frame, callers := { s.frame with stack := rest } :: s.callers }

def Vm.callNative (tok : ℕ → τ) (s : State τ σ) (entry : NativeFnEntry σ) : StepResult τ σ :=
  match s.gas.charge entry.gasCost with
  | (gas, some e) => State.fail { s with gas } e
  | (gas, none) =>
    match popArgs entry.params.length s.frame.stack with
    | .error e => State.fail { s with gas } e
    | .ok (args, rest) =>
      match entry.func s.ctx (args.map Value.erase) with
      | (.ret v, ctx) =>
        if (v.map checkStructQualified).getD true then
          let r := (v.getD .void).label tok s.nextLabel
          .next { s with
            frame := { s.frame with stack := r.1 :: rest }, gas, ctx, nextLabel := r.2 }
        else
          .done { outcome := .panic ("native function '" ++ entry.name
            ++ "' returned a struct with unqualified type name"), gas, ctx }
      | (.abort code message, ctx) => State.fail { s with gas, ctx } (.aborted code message)
      | (.error message, ctx) => State.fail { s with gas, ctx } (.nativeError message)

def Vm.getNative (vm : Vm σ) (name : String) : Option (NativeFnEntry σ) :=
  vm.natives.find? (·.name == name)

def Vm.execCall (vm : Vm σ) (tok : ℕ → τ) (s : State τ σ) (name : String) : StepResult τ σ :=
  match parseModuleRef name with
  | some (depAddr, fnName) =>
    match vm.deps[depAddr]? with
    | none => s.fail (.undefinedFunction name)
    | some dep =>
      match dep.getFunction fnName with
      | none => s.fail (.undefinedFunction name)
      | some callee =>
        if callee.isPublic then vm.invoke s dep depAddr fnName callee.params.length
        else s.fail (.privateFunction name)
  | none =>
    match s.frame.context.getFunction name with
    | some callee =>
      vm.invoke s s.frame.context s.frame.contextAddr name callee.params.length
    | none =>
      match vm.getNative name with
      | some entry => Vm.callNative tok s entry
      | none => s.fail (.undefinedFunction name)

/-- An instruction, after its gas is charged and with `pc` already past it. -/
def Vm.execInstr (vm : Vm σ) (tok : ℕ → τ) (s : State τ σ) : Instruction → StepResult τ σ
  | .call name => vm.execCall tok s name
  | .ret => Vm.leave s
  | instr =>
    match Frame.exec vm.deps (tok s.nextLabel) s.frame instr with
    | .ok frame => .next { s with frame, nextLabel := s.nextLabel + 1 }
    | .error e => s.fail e

/-- One turn of the loop of `call_inner`; running past the last instruction returns. -/
def Vm.step (vm : Vm σ) (tok : ℕ → τ) (s : State τ σ) : StepResult τ σ :=
  match s.frame.function.code[s.frame.pc]? with
  | none => Vm.leave s
  | some instr =>
    match s.gas.charge (vm.gasSchedule.costOf instr) with
    | (gas, some e) => State.fail { s with gas } e
    | (gas, none) =>
      vm.execInstr tok { s with gas, frame := { s.frame with pc := s.frame.pc + 1 } } instr

def Vm.run (vm : Vm σ) (tok : ℕ → τ) : ℕ → State τ σ → StepResult τ σ
  | 0, s => .next s
  | fuel + 1, s =>
    match vm.step tok s with
    | .next s' => vm.run tok fuel s'
    | .done final => .done final

def Vm.start (vm : Vm σ) (tok : ℕ → τ) (fnName : String) (args : List (Value Unit))
    (gas : GasMeter) (ctx : σ) : StepResult τ σ :=
  let fail e : StepResult τ σ := .done { outcome := .err e, gas, ctx }
  if vm.deps.size > vm.config.maxDepModules then
    fail (.tooManyDepModules vm.config.maxDepModules)
  else if (vm.getNative fnName).isSome then fail (.nativeFunctionCallDirect fnName)
  else
    match vm.module.getFunction fnName with
    | none => fail (.undefinedFunction fnName)
    | some function =>
      if !function.isPublic && !vm.config.enableCallPrivateFunctions then
        fail (.privateFunction fnName)
      else if !args.all checkStructQualified then
        .done { outcome := .panic ("struct argument has unqualified type name; all struct "
          ++ "values passed to the VM must use @0xHEX::Name format"), gas, ctx }
      else
        let r := Value.labelList tok 0 args
        match Vm.enter vm.config.maxCallDepth 0 vm.module vm.moduleAddr fnName r.1 with
        | .error e => fail e
        | .ok frame => .next { frame, callers := [], gas, ctx, nextLabel := r.2 }

def Vm.callFor (vm : Vm σ) (tok : ℕ → τ) (fuel : ℕ) (fnName : String)
    (args : List (Value Unit)) (gas : GasMeter) (ctx : σ) : StepResult τ σ :=
  match vm.start tok fnName args gas ctx with
  | .next s => vm.run tok fuel s
  | .done final => .done final

end Step

end MeowChain
