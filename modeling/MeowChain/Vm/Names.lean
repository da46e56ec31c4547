import MeowChain.Vm.Types

/-!
# Module references and identifiers

A struct or function of another module is referred to by `@0xHEX::name`. `qualify` writes the
canonical reference, `parseModuleRef` reads any spelling of the address.
-/

set_option autoImplicit false

namespace MeowChain

/-- `split_once("::")` on characters. -/
def splitOnce : List Char → Option (List Char × List Char)
  | [] => none
  | ':' :: ':' :: rest => some ([], rest)
  | c :: rest => (splitOnce rest).map fun (front, back) => (c :: front, back)

theorem splitOnce_cons_of_ne {c : Char} (h : c ≠ ':') (cs : List Char) :
    splitOnce (c :: cs) = (splitOnce cs).map fun (front, back) => (c :: front, back) := by
  cases cs with
  | nil => simp [splitOnce]
  | cons d ds => simp [splitOnce, h]

theorem splitOnce_append {front : List Char} (h : ':' ∉ front) (back : List Char) :
    splitOnce (front ++ ':' :: ':' :: back) = some (front, back) := by
  induction front with
  | nil => simp [splitOnce]
  | cons c cs ih =>
    simp only [List.mem_cons, not_or] at h
    rw [List.cons_append, splitOnce_cons_of_ne (Ne.symm h.1), ih h.2]
    rfl

theorem splitOnce_eq_none {cs : List Char} (h : ':' ∉ cs) : splitOnce cs = none := by
  induction cs with
  | nil => rfl
  | cons c cs ih =>
    simp only [List.mem_cons, not_or] at h
    rw [splitOnce_cons_of_ne (Ne.symm h.1), ih h.2]
    rfl

def parseModuleRef (s : String) : Option (Address × String) :=
  match s.toList with
  | '@' :: rest =>
    match splitOnce rest with
    | some (hexPart, name) =>
      (Address.fromChars hexPart).map fun address => (address, String.ofList name)
    | none => none
  | _ => none

def qualify (address : Address) (name : String) : String :=
  String.ofList ('@' :: (address.toChars ++ ':' :: ':' :: name.toList))

def isQualified (s : String) : Bool :=
  (splitOnce s.toList).isSome

@[simp] theorem parseModuleRef_qualify (a : Address) (name : String) :
    parseModuleRef (qualify a name) = some (a, name) := by
  simp only [parseModuleRef, qualify, String.toList_ofList,
    splitOnce_append a.colon_not_mem_toChars, a.fromChars_toChars]
  simp [String.ofList_toList]

@[simp] theorem isQualified_qualify (a : Address) (name : String) :
    isQualified (qualify a name) = true := by
  have hsplit := splitOnce_append a.colon_not_mem_toChars name.toList
  simp only [isQualified, qualify, String.toList_ofList]
  rw [splitOnce_cons_of_ne (by decide), hsplit]
  rfl

theorem qualify_inj {a b : Address} {m n : String} (h : qualify a m = qualify b n) :
    a = b ∧ m = n := by
  have hparse := congrArg parseModuleRef h
  simpa using hparse

theorem isQualified_eq_false {s : String} (h : ':' ∉ s.toList) : isQualified s = false := by
  simp [isQualified, splitOnce_eq_none h]

theorem isQualified_of_parseModuleRef {s : String} {r : Address × String}
    (h : parseModuleRef s = some r) : isQualified s = true := by
  unfold parseModuleRef at h
  split at h
  · rename_i rest hs
    split at h
    · rename_i hexPart name hsplit
      rw [isQualified, hs, splitOnce_cons_of_ne (by decide), hsplit]
      rfl
    · simp at h
  · simp at h

theorem parseModuleRef_eq_none {s : String} (h : isQualified s = false) :
    parseModuleRef s = none := by
  cases hp : parseModuleRef s with
  | none => rfl
  | some r => simp [isQualified_of_parseModuleRef hp] at h

structure CompilerConfig where
  maxIdentifierLen : ℕ := 128
  maxStructs : ℕ := 128
  maxFunctions : ℕ := 256
  maxFields : ℕ := 32
  maxParams : ℕ := 16
  maxTupleElements : ℕ := 16
  maxLocals : ℕ := 255
  maxFunCodeSize : ℕ := 65536
  maxImports : ℕ := 64
  maxDepModules : ℕ := 64
  reservedFunctionNames : List String := []

def reservedFunctionNames : List String :=
  ["meow_vm_abort"]

def isIdentifierStart (c : Char) : Bool :=
  c.isAlpha || c == '_'

def isIdentifierRest (c : Char) : Bool :=
  c.isAlphanum || c == '_'

def isValidIdentifier (name : String) (config : CompilerConfig) : Bool :=
  match name.toList with
  | [] => false
  | first :: rest =>
    name.utf8ByteSize ≤ config.maxIdentifierLen && isIdentifierStart first
      && rest.all isIdentifierRest

theorem colon_not_mem_of_isValidIdentifier {name : String} {config : CompilerConfig}
    (h : isValidIdentifier name config = true) : ':' ∉ name.toList := by
  unfold isValidIdentifier at h
  split at h
  · simp at h
  · rename_i first rest hname
    simp only [Bool.and_eq_true, List.all_eq_true] at h
    obtain ⟨⟨-, hfirst⟩, hrest⟩ := h
    rw [hname, List.mem_cons, not_or]
    refine ⟨?_, fun hmem => ?_⟩
    · rintro rfl
      exact absurd hfirst (by decide)
    · exact absurd (hrest _ hmem) (by decide)

theorem isQualified_of_isValidIdentifier {name : String} {config : CompilerConfig}
    (h : isValidIdentifier name config = true) : isQualified name = false :=
  isQualified_eq_false (colon_not_mem_of_isValidIdentifier h)

end MeowChain
