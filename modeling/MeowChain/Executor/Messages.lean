import MeowChain.Adapter.BytecodeVerifier

/-!
# Error texts

The texts that end up in the status of a failed transaction.
-/

set_option autoImplicit false

namespace MeowChain

def Address.display (a : Address) : String :=
  String.ofList a.toChars

def VmError.message : VmError → String
  | .aborted code message => s!"aborted with code {code}: {message}"
  | .arithmeticOverflow => "arithmetic overflow"
  | .arityMismatch function got localCount =>
    s!"function '{function}' received {got} arguments but declares only {localCount} local slots"
  | .callStackOverflow maxDepth => s!"call stack overflow (max depth {maxDepth})"
  | .divisionByZero => "division by zero"
  | .eqOnLinearType typeName =>
    s!"'{typeName}': struct types and tuples containing structs cannot be compared with == or != "
    ++ "— destructure and compare fields individually"
  | .invalidJumpTarget pc offset =>
    s!"invalid jump target: offset {offset} from pc {pc} is out of range"
  | .linearFieldOverwrite field =>
    s!"store-field would overwrite live struct field '{field}'; consume it before storing"
  | .nativeError message => s!"native function error: {message}"
  | .nativeFunctionCallDirect name =>
    s!"'{name}' is a native function and cannot be called directly from outside a contract"
  | .outOfGas spent limit => s!"out of gas: spent {spent}, limit {limit}"
  | .privateFunction name =>
    s!"function '{name}' is private — only `pub fn` can be called from outside the module"
  | .slotOverwrite slot =>
    s!"slot overwrite: slot {slot} holds a live struct; consume it before storing"
  | .stackUnderflow => "stack underflow"
  | .tooManyDepModules max => s!"too many dependency modules (max {max})"
  | .typeError message => s!"type error: {message}"
  | .undefinedField typeName field => s!"undefined field '{field}' on struct '{typeName}'"
  | .undefinedFunction name => s!"undefined function: {name}"
  | .undefinedStruct name => s!"undefined struct: {name}"
  | .undefinedVariable slot => s!"undefined variable at slot {slot}"
  | .useAfterMove message => s!"use after move: {message}"

namespace Verifier

/-- The place an instruction-level error names. -/
def place (function : String) (pc : ℕ) : String :=
  s!"function '{function}' at pc {pc}: "

def VerificationError.message : VerificationError → String
  | .invalidIdentifier name context => s!"invalid identifier '{name}' in {context}"
  | .duplicateFunctionName name => s!"duplicate function name '{name}'"
  | .duplicateStructName name => s!"duplicate struct name '{name}'"
  | .tooManyStructs count limit =>
    s!"module has {count} struct definitions, exceeding the limit of {limit}"
  | .tooManyFunctions count limit =>
    s!"module has {count} function definitions, exceeding the limit of {limit}"
  | .tooManyImports count limit => s!"module has {count} imports, exceeding the limit of {limit}"
  | .emptyStruct structName =>
    s!"struct '{structName}' has no fields — structs must have at least one field"
  | .tooManyFields structName count limit =>
    s!"struct '{structName}' has {count} fields, exceeding the limit of {limit}"
  | .cyclicStructDefinition structName =>
    s!"struct '{structName}' is part of a cyclic field type definition"
  | .tupleFieldType structName fieldName =>
    s!"field '{fieldName}' in struct '{structName}' has a tuple type "
    ++ "— only primitives and struct types are allowed as field types"
  | .tupleTooLarge function size limit =>
    s!"function '{function}': tuple has {size} elements, exceeding the limit of {limit}"
  | .localCountTooSmall function localCount paramCount =>
    s!"function '{function}': local_count {localCount} < param count {paramCount}"
  | .tooManyParams function count limit =>
    s!"function '{function}' has {count} parameters, exceeding the limit of {limit}"
  | .functionTooLarge function count limit =>
    s!"function '{function}' has {count} bytecode instructions, exceeding the limit of {limit}"
  | .tooManyLocals function count limit =>
    s!"function '{function}' has local_count {count} exceeding the limit of {limit}"
  | .backwardJump function pc offset =>
    place function pc ++ s!"backward or zero jump offset {offset} — loops are not allowed"
  | .jumpOutOfBounds function pc target codeLen =>
    place function pc ++ s!"jump target {target} is out of bounds (code length {codeLen})"
  | .slotOutOfRange function pc slot localCount =>
    place function pc ++ s!"local slot {slot} is out of range (local_count is {localCount})"
  | .emptyFieldPath function pc => place function pc ++ "field path must not be empty"
  | .unresolvedTypeReference context typeName => s!"unresolved type '{typeName}' in {context}"
  | .undefinedStructType function pc typeName =>
    place function pc ++ s!"NewStruct references unknown type '{typeName}'"
  | .structFieldMismatch function pc typeName =>
    place function pc ++ s!"field list for '{typeName}' does not match definition"
  | .crossModuleCallToPrivateFunction function pc callee =>
    place function pc ++ s!"call to '{callee}' which is private"
  | .crossModuleStructAccess function pc typeName =>
    place function pc ++ s!"cross-module struct access for type '{typeName}' is forbidden"
  | .crossModulePrivateStructReference context typeName =>
    s!"in {context}: type '{typeName}' refers to a private struct in another module "
    ++ "— only `pub` structs are visible across modules"
  | .crossModulePrivateFieldRead function pc typeName field =>
    place function pc ++ s!"field '{field}' on cross-module type '{typeName}' is private"
  | .crossModuleFieldWrite function pc typeName field =>
    place function pc
    ++ s!"cross-module field write to '{field}' on '{typeName}' is forbidden"
  | .stackUnderflow function pc expected =>
    place function pc ++ s!"stack underflow — expected {expected}"
  | .typeMismatch function pc expected found =>
    place function pc ++ s!"type mismatch — expected {expected}, found {found}"
  | .stackMergeConflict function joinPc =>
    s!"function '{function}': stack types at join point pc {joinPc} differ between branch paths"
  | .livenessMergeConflict function joinPc slot =>
    s!"function '{function}': struct liveness at join point pc {joinPc} differs between branch "
    ++ s!"paths (slot {slot})"
  | .slotTypeMergeConflict function joinPc slot =>
    s!"function '{function}': local slot {slot} holds linear values of incompatible types at join "
    ++ s!"point pc {joinPc} between branch paths"
  | .returnTypeMismatch function declared found =>
    s!"function '{function}': return type mismatch — declared {declared}, found {found}"
  | .missingReturn function => s!"function '{function}': missing Return at end of function"
  | .structTypedFieldLoaded function pc field =>
    place function pc ++ s!"field '{field}' has struct type — LoadField on a struct-typed field is "
    ++ "forbidden; use UnpackStruct to extract struct fields"
  | .structTypedFieldWritten function pc field =>
    place function pc ++ s!"field '{field}' has struct type — StoreField into a struct-typed field "
    ++ "is forbidden; the old value would be implicitly dropped"
  | .getFieldDropsLinearField function pc typeName linearField =>
    place function pc ++ s!"GetField on struct '{typeName}' would silently drop linear field "
    ++ s!"'{linearField}' — use UnpackStruct to consume all fields explicitly"
  | .useAfterMove function pc slot =>
    place function pc ++ s!"use-after-move of struct in slot {slot}"
  | .popOnStruct function pc =>
    place function pc
    ++ "Pop on struct value — structs have move semantics and must be explicitly consumed"
  | .dupOnStruct function pc =>
    place function pc ++ "Dup on struct value — structs have move semantics"
  | .eqOnLinearType function pc =>
    place function pc ++ "struct types and tuples containing structs cannot be compared with == or "
    ++ "!= — destructure and compare fields individually"
  | .slotOverwrite function pc slot =>
    place function pc
    ++ s!"Store overwrites live struct in slot {slot} — consume the existing value first"
  | .unconsumedStruct function slot =>
    s!"function '{function}': struct in slot {slot} was not consumed before Return"
  | .unconsumedStructOnStack function =>
    s!"function '{function}': a linear value is left on the operand stack beneath the return value "
    ++ "— it would be silently dropped at Return"
  | .undefinedFunction function pc callee =>
    place function pc ++ s!"call to undefined function '{callee}'"
  | .nativeArgCountMismatch function pc callee expected found =>
    place function pc ++ s!"native '{callee}' expects {expected} args but {found} were provided"
  | .nativeArgTypeMismatch function pc callee argIndex expected found =>
    place function pc
    ++ s!"native '{callee}' arg {argIndex} expects {expected}, found {found}"

end Verifier

namespace Adapter

def BytecodeVerifierError.message : BytecodeVerifierError → String
  | .idFieldNotFirst structName fieldName =>
    s!"struct '{structName}' field '{fieldName}' has type `meow_object::Id` but is not the first "
    ++ "field — an `id: meow_object::Id` field is only allowed as the first field (which makes the "
    ++ "struct an object)"
  | .objectAsFieldType structName fieldName objectType =>
    s!"struct '{structName}' field '{fieldName}' has type '{objectType}' which is an object type "
    ++ "— objects cannot be nested as struct fields"
  | .objectIdNotFresh function pc object =>
    s!"in '{function}' at pc {pc}: object '{object}' constructed with non-fresh id (id must "
    ++ "originate directly from meow_vm_fresh_id)"
  | .transferNonObjectStruct function pc structName =>
    s!"in '{function}' at pc {pc}: meow_vm_transfer argument '{structName}' is not an on-chain "
    ++ "object type — first field must be `id: meow_object::Id`"

end Adapter

def joinMessages (messages : List String) : String :=
  String.intercalate "; " messages

end MeowChain
