import MeowChain.Vm.Machine

/-!
# Structural checks

Phase 1 of the bytecode verifier: everything that needs no simulated stack. Errors are collected
in the order the source pushes them.
-/

set_option autoImplicit false

namespace MeowChain.Verifier

inductive VerificationError where
  | invalidIdentifier (name context : String)
  | duplicateFunctionName (name : String)
  | duplicateStructName (name : String)
  | tooManyStructs (count limit : ℕ)
  | tooManyFunctions (count limit : ℕ)
  | tooManyImports (count limit : ℕ)
  | emptyStruct (structName : String)
  | tooManyFields (structName : String) (count limit : ℕ)
  | cyclicStructDefinition (structName : String)
  | tupleFieldType (structName fieldName : String)
  | tupleTooLarge (function : String) (size limit : ℕ)
  | localCountTooSmall (function : String) (localCount paramCount : ℕ)
  | tooManyParams (function : String) (count limit : ℕ)
  | functionTooLarge (function : String) (count limit : ℕ)
  | tooManyLocals (function : String) (count limit : ℕ)
  | backwardJump (function : String) (pc : ℕ) (offset : ℤ)
  | jumpOutOfBounds (function : String) (pc target codeLen : ℕ)
  | slotOutOfRange (function : String) (pc slot localCount : ℕ)
  | emptyFieldPath (function : String) (pc : ℕ)
  | unresolvedTypeReference (context typeName : String)
  | undefinedStructType (function : String) (pc : ℕ) (typeName : String)
  | structFieldMismatch (function : String) (pc : ℕ) (typeName : String)
  | crossModuleCallToPrivateFunction (function : String) (pc : ℕ) (callee : String)
  | crossModuleStructAccess (function : String) (pc : ℕ) (typeName : String)
  | crossModulePrivateStructReference (context typeName : String)
  | crossModulePrivateFieldRead (function : String) (pc : ℕ) (typeName field : String)
  | crossModuleFieldWrite (function : String) (pc : ℕ) (typeName field : String)
  | stackUnderflow (function : String) (pc : ℕ) (expected : String)
  | typeMismatch (function : String) (pc : ℕ) (expected found : String)
  | stackMergeConflict (function : String) (joinPc : ℕ)
  | livenessMergeConflict (function : String) (joinPc slot : ℕ)
  | slotTypeMergeConflict (function : String) (joinPc slot : ℕ)
  | returnTypeMismatch (function declared found : String)
  | missingReturn (function : String)
  | structTypedFieldLoaded (function : String) (pc : ℕ) (field : String)
  | structTypedFieldWritten (function : String) (pc : ℕ) (field : String)
  | getFieldDropsLinearField (function : String) (pc : ℕ) (typeName linearField : String)
  | useAfterMove (function : String) (pc slot : ℕ)
  | popOnStruct (function : String) (pc : ℕ)
  | dupOnStruct (function : String) (pc : ℕ)
  | eqOnLinearType (function : String) (pc : ℕ)
  | slotOverwrite (function : String) (pc slot : ℕ)
  | unconsumedStruct (function : String) (slot : ℕ)
  | unconsumedStructOnStack (function : String)
  | undefinedFunction (function : String) (pc : ℕ) (callee : String)
  | nativeArgCountMismatch (function : String) (pc : ℕ) (callee : String) (expected found : ℕ)
  | nativeArgTypeMismatch (function : String) (pc : ℕ) (callee : String) (argIndex : ℕ)
      (expected found : String)
  deriving DecidableEq

def report (failed : Bool) (e : VerificationError) : List VerificationError :=
  if failed then [e] else []

@[simp] theorem report_eq_nil {failed : Bool} {e : VerificationError} :
    report failed e = [] ↔ failed = false := by
  cases failed <;> simp [report]

/-- A struct type of another module must name an import and, when that module is at hand, a public
struct of it; the source accepts the type when the module is not at hand. -/
def validateStructRef (name : String) (module : Module) (deps : DepMap) (context : String) :
    List VerificationError :=
  match parseModuleRef name with
  | some (depAddr, structName) =>
    if !module.imports.contains depAddr then [.unresolvedTypeReference context name]
    else
      match deps[depAddr]? with
      | none => []
      | some dep =>
        match dep.getStruct structName with
        | none => [.unresolvedTypeReference context name]
        | some structDef =>
          report (!structDef.isPublic) (.crossModulePrivateStructReference context name)
  | none => report (module.getStruct name).isNone (.unresolvedTypeReference context name)

mutual
def validateTypeRef (module : Module) (deps : DepMap) (context : String) :
    Ty → List VerificationError
  | .struct name => validateStructRef name module deps context
  | .tuple types => validateTypeRefs module deps context types
  | _ => []

def validateTypeRefs (module : Module) (deps : DepMap) (context : String) :
    List Ty → List VerificationError
  | [] => []
  | t :: ts => validateTypeRef module deps context t ++ validateTypeRefs module deps context ts
end

def checkField (module : Module) (deps : DepMap) (cfg : CompilerConfig) (s : StructDef)
    (field : FieldDef) : List VerificationError :=
  report (!isValidIdentifier field.name cfg)
    (.invalidIdentifier field.name ("field in struct '" ++ s.name ++ "'"))
  ++ report (!field.ty.isValidFieldType) (.tupleFieldType s.name field.name)
  ++ validateTypeRef module deps
    ("field '" ++ field.name ++ "' in struct '" ++ s.name ++ "'") field.ty

def checkStruct (module : Module) (deps : DepMap) (cfg : CompilerConfig) (seen : List String)
    (s : StructDef) : List VerificationError :=
  report (!isValidIdentifier s.name cfg) (.invalidIdentifier s.name "struct definition")
  ++ report (seen.contains s.name) (.duplicateStructName s.name)
  ++ report s.fields.isEmpty (.emptyStruct s.name)
  ++ report (s.fields.length > cfg.maxFields)
    (.tooManyFields s.name s.fields.length cfg.maxFields)
  ++ s.fields.flatMap (checkField module deps cfg s)

def checkStructs (module : Module) (deps : DepMap) (cfg : CompilerConfig) :
    List String → List StructDef → List VerificationError
  | _, [] => []
  | seen, s :: structs =>
    checkStruct module deps cfg seen s ++ checkStructs module deps cfg (s.name :: seen) structs

/-- The sets of `check_struct_cycles` and the errors found so far. -/
structure DfsState where
  visiting : List String := []
  visited : List String := []
  errors : List VerificationError := []

/-- Depth-first search along local struct-typed fields. The names on the current path are distinct
struct names, so `fuel` above their number is never used up. -/
def structDfs (module : Module) : ℕ → String → DfsState → DfsState
  | 0, _, st => st
  | fuel + 1, name, st =>
    let visitField (st : DfsState) (field : FieldDef) : DfsState :=
      match field.ty with
      | .struct tyName =>
        if (parseModuleRef tyName).isNone && (module.structs.map (·.name)).contains tyName then
          if st.visiting.contains tyName then
            { st with errors := st.errors ++ [.cyclicStructDefinition tyName] }
          else if st.visited.contains tyName then st
          else structDfs module fuel tyName st
        else st
      | _ => st
    let st := { st with visiting := name :: st.visiting }
    let st :=
      match module.getStruct name with
      | some structDef => structDef.fields.foldl visitField st
      | none => st
    { st with visiting := st.visiting.filter (· != name), visited := name :: st.visited }

def checkStructCycles (module : Module) : List VerificationError :=
  let visit (st : DfsState) (s : StructDef) : DfsState :=
    if st.visited.contains s.name then st
    else structDfs module (module.structs.length + 1) s.name st
  (module.structs.foldl visit {}).errors

def checkSlot (f : Function) (pc slot : ℕ) : List VerificationError :=
  report (slot ≥ f.localCount) (.slotOutOfRange f.name pc slot f.localCount)

def checkJump (f : Function) (pc : ℕ) (offset : ℤ) : List VerificationError :=
  if offset ≤ 0 then [.backwardJump f.name pc offset]
  else
    report ((pc : ℤ) + offset > f.code.length)
      (.jumpOutOfBounds f.name pc ((pc : ℤ) + offset).toNat f.code.length)

/-- `NewStruct` and `UnpackStruct`: a local struct, with exactly its field list. -/
def checkStructAccess (module : Module) (f : Function) (pc : ℕ) (typeName : String)
    (fieldNames : List String) : List VerificationError :=
  if (parseModuleRef typeName).isSome then [.crossModuleStructAccess f.name pc typeName]
  else
    match module.getStruct typeName with
    | none => [.undefinedStructType f.name pc typeName]
    | some structDef =>
      report (structDef.fields.map (·.name) != fieldNames)
        (.structFieldMismatch f.name pc typeName)

def checkTupleSize (cfg : CompilerConfig) (f : Function) (size : ℕ) : List VerificationError :=
  report (size > cfg.maxTupleElements) (.tupleTooLarge f.name size cfg.maxTupleElements)

def checkInstr (module : Module) (deps : DepMap) (cfg : CompilerConfig) (f : Function) (pc : ℕ) :
    Instruction → List VerificationError
  | .load slot | .store slot => checkSlot f pc slot
  | .loadField slot path | .storeField slot path =>
    checkSlot f pc slot ++ report path.isEmpty (.emptyFieldPath f.name pc)
  | .jump offset | .jumpIf offset | .jumpIfNot offset => checkJump f pc offset
  | .newStruct typeName fieldNames | .unpackStruct typeName fieldNames =>
    checkStructAccess module f pc typeName fieldNames
  | .call name =>
    -- A missing module or function is reported by the abstract interpretation.
    match parseModuleRef name with
    | none => []
    | some (depAddr, fnName) =>
      match deps[depAddr]?.bind (·.getFunction fnName) with
      | none => []
      | some callee =>
        report (!callee.isPublic) (.crossModuleCallToPrivateFunction f.name pc name)
  | .makeTuple n | .unpackTuple n => checkTupleSize cfg f n
  | _ => []

def checkCode (module : Module) (deps : DepMap) (cfg : CompilerConfig) (f : Function) :
    ℕ → List Instruction → List VerificationError
  | _, [] => []
  | pc, instr :: code =>
    checkInstr module deps cfg f pc instr ++ checkCode module deps cfg f (pc + 1) code

def checkSignature (module : Module) (deps : DepMap) (cfg : CompilerConfig) (f : Function) :
    List VerificationError :=
  f.params.flatMap (fun (paramName, paramTy) =>
    validateTypeRef module deps
      ("param '" ++ paramName ++ "' of function '" ++ f.name ++ "'") paramTy)
  ++ (match f.returnType with
    | some retTy =>
      validateTypeRef module deps ("return type of function '" ++ f.name ++ "'") retTy
    | none => [])
  ++ (match f.returnType with
    | some (.tuple types) => checkTupleSize cfg f types.length
    | _ => [])

def checkFunctionLimits (cfg : CompilerConfig) (f : Function) : List VerificationError :=
  report (f.localCount < f.params.length)
    (.localCountTooSmall f.name f.localCount f.params.length)
  ++ report (f.params.length > cfg.maxParams)
    (.tooManyParams f.name f.params.length cfg.maxParams)
  ++ report (f.code.length > cfg.maxFunCodeSize)
    (.functionTooLarge f.name f.code.length cfg.maxFunCodeSize)
  ++ report (f.localCount > cfg.maxLocals) (.tooManyLocals f.name f.localCount cfg.maxLocals)

def isFunctionName (cfg : CompilerConfig) (name : String) : Bool :=
  isValidIdentifier name cfg && !reservedFunctionNames.contains name
    && !cfg.reservedFunctionNames.contains name

def checkFunctionDef (module : Module) (deps : DepMap) (cfg : CompilerConfig)
    (seen : List String) (f : Function) : List VerificationError :=
  report (!isFunctionName cfg f.name) (.invalidIdentifier f.name "function definition")
  ++ report (seen.contains f.name) (.duplicateFunctionName f.name)
  ++ checkSignature module deps cfg f
  ++ checkFunctionLimits cfg f
  ++ checkCode module deps cfg f 0 f.code

def checkFunctions (module : Module) (deps : DepMap) (cfg : CompilerConfig) :
    List String → List Function → List VerificationError
  | _, [] => []
  | seen, f :: functions =>
    checkFunctionDef module deps cfg seen f ++ checkFunctions module deps cfg (f.name :: seen) functions

def checkModule (module : Module) (deps : DepMap) (cfg : CompilerConfig) :
    List VerificationError :=
  report (!isValidIdentifier module.name cfg)
    (.invalidIdentifier module.name "module declaration")
  ++ report (module.structs.length > cfg.maxStructs)
    (.tooManyStructs module.structs.length cfg.maxStructs)
  ++ report (module.functions.length > cfg.maxFunctions)
    (.tooManyFunctions module.functions.length cfg.maxFunctions)
  ++ report (module.imports.length > cfg.maxImports)
    (.tooManyImports module.imports.length cfg.maxImports)
  ++ checkStructs module deps cfg [] module.structs
  ++ checkStructCycles module
  ++ checkFunctions module deps cfg [] module.functions

/-! ## What an accepted module satisfies -/

section Accepted

variable {module : Module} {deps : DepMap} {cfg : CompilerConfig}

theorem checkStruct_of_mem {structs : List StructDef} {seen : List String}
    (h : checkStructs module deps cfg seen structs = []) {s : StructDef} (hs : s ∈ structs) :
    ∃ seen', checkStruct module deps cfg seen' s = [] := by
  induction structs generalizing seen with
  | nil => cases hs
  | cons t structs ih =>
    obtain ⟨ht, hrest⟩ := List.append_eq_nil_iff.mp h
    rcases List.mem_cons.mp hs with rfl | hs
    · exact ⟨seen, ht⟩
    · exact ih hrest hs

theorem checkFunctionDef_of_mem {functions : List Function} {seen : List String}
    (h : checkFunctions module deps cfg seen functions = []) {f : Function} (hf : f ∈ functions) :
    ∃ seen', checkFunctionDef module deps cfg seen' f = [] := by
  induction functions generalizing seen with
  | nil => cases hf
  | cons g functions ih =>
    obtain ⟨hg, hrest⟩ := List.append_eq_nil_iff.mp h
    rcases List.mem_cons.mp hf with rfl | hf
    · exact ⟨seen, hg⟩
    · exact ih hrest hf

theorem checkInstr_of_checkCode {f : Function} {start : ℕ} {code : List Instruction}
    (h : checkCode module deps cfg f start code = []) {pc : ℕ} {instr : Instruction}
    (hinstr : code[pc]? = some instr) : checkInstr module deps cfg f (start + pc) instr = [] := by
  induction code generalizing start pc with
  | nil => simp at hinstr
  | cons i code ih =>
    obtain ⟨hi, hrest⟩ := List.append_eq_nil_iff.mp h
    cases pc with
    | zero =>
      obtain rfl : i = instr := by simpa using hinstr
      exact hi
    | succ pc =>
      have := ih hrest (by simpa using hinstr : code[pc]? = some instr)
      rwa [Nat.add_right_comm] at this

end Accepted

end MeowChain.Verifier
