import MeowChain.Adapter.Framework
import MeowChain.Soundness.TypeSafety

/-!
# One name for a struct type

Type names are compared as texts, by both verifiers and by the virtual machine. `parseModuleRef`
reads an address in any spelling, so one struct may go by several names; those of modules that
write all 64 digits of an address, in lower case, do not.
-/

set_option autoImplicit false

namespace MeowChain

open Verifier

/-! ## The names of a module -/

mutual
def Ty.structNames : Ty → List String
  | .struct name => [name]
  | .tuple types => structNamesOf types
  | _ => []

def Ty.structNamesOf : List Ty → List String
  | [] => []
  | ty :: types => ty.structNames ++ structNamesOf types
end

def Instruction.structName : Instruction → Option String
  | .newStruct typeName _ | .unpackStruct typeName _ => some typeName
  | _ => none

def StructDef.typeNames (s : StructDef) : List String :=
  s.fields.flatMap (·.ty.structNames)

def Function.typeNames (f : Function) : List String :=
  f.params.flatMap (·.2.structNames) ++ f.returnType.toList.flatMap Ty.structNames
    ++ f.code.filterMap Instruction.structName

/-- Struct type names in the fields, signatures and instructions of a module. -/
def Module.typeNames (m : Module) : List String :=
  m.structs.flatMap StructDef.typeNames ++ m.functions.flatMap Function.typeNames

/-! ## Spelling -/

/-- `0x` and 64 digits in lower case. -/
def spelledOut : List Char → Bool
  | '0' :: 'x' :: digits => digits.length == 64 && digits.all Hex.isLower
  | _ => false

/-- The address in a reference to another module is spelled out. -/
def addressSpelledOut (name : String) : Bool :=
  match name.toList with
  | '@' :: rest =>
    match splitOnce rest with
    | some (hexPart, _) => spelledOut hexPart
    | none => true
  | _ => true

theorem spelledOut_toChars (a : Address) : spelledOut a.toChars = true := by
  simp [spelledOut, Address.toChars, Hex.all_isLower_encode]

/-- An address that is spelled out is written back as it was read. -/
theorem toChars_of_spelledOut {hexPart : List Char} {a : Address} (hspelled : spelledOut hexPart = true)
    (h : Address.fromChars hexPart = some a) : hexPart = a.toChars := by
  unfold spelledOut at hspelled
  split at hspelled
  · rename_i digits
    rw [Bool.and_eq_true, beq_iff_eq] at hspelled
    obtain ⟨hlength, hlower⟩ := hspelled
    rw [Address.fromChars, if_pos (by omega)] at h
    obtain ⟨n, hn, rfl⟩ := Option.map_eq_some_iff.mp h
    obtain ⟨hback, hlt⟩ := Hex.encode_of_decode hlower hn
    rw [hlength] at hback hlt
    have hnat : (BitVec.ofNat 256 n).toNat = n := by
      rw [BitVec.toNat_ofNat]
      exact Nat.mod_eq_of_lt (by norm_num at hlt ⊢; exact hlt)
    rw [Address.toChars, hnat, hback]
  · cases hspelled

theorem splitOnce_eq_some {cs front back : List Char} (h : splitOnce cs = some (front, back)) :
    cs = front ++ ':' :: ':' :: back := by
  induction cs generalizing front with
  | nil => cases h
  | cons c cs ih =>
    unfold splitOnce at h
    split at h
    · cases h
    · obtain ⟨rfl, rfl⟩ := Prod.mk.inj (Option.some.inj h)
      rename_i heq
      rw [heq]
      rfl
    · rename_i c' rest' hne heq
      obtain ⟨rfl, rfl⟩ := List.cons.inj heq
      obtain ⟨⟨front', back'⟩, hrest, heq'⟩ := Option.map_eq_some_iff.mp h
      obtain ⟨rfl, rfl⟩ := Prod.mk.inj heq'
      rw [ih hrest]
      rfl

theorem parseModuleRef_eq_some {name structName : String} {a : Address}
    (h : parseModuleRef name = some (a, structName)) :
    ∃ hexPart rest, name.toList = '@' :: rest ∧ splitOnce rest = some (hexPart, structName.toList) ∧
      Address.fromChars hexPart = some a := by
  unfold parseModuleRef at h
  split at h
  · rename_i rest hname
    split at h
    · rename_i hexPart back hsplit
      obtain ⟨b, hb, heq⟩ := Option.map_eq_some_iff.mp h
      obtain ⟨rfl, rfl⟩ := Prod.mk.inj heq
      exact ⟨hexPart, rest, hname, by rw [String.toList_ofList]; exact hsplit, hb⟩
    · cases h
  · cases h

theorem eq_qualify_iff {name structName : String} {a : Address}
    (h : parseModuleRef name = some (a, structName)) :
    name = qualify a structName ↔ addressSpelledOut name = true := by
  obtain ⟨hexPart, rest, hname, hsplit, haddr⟩ := parseModuleRef_eq_some h
  have hspelling : addressSpelledOut name = spelledOut hexPart := by
    unfold addressSpelledOut
    rw [hname]
    simp only [hsplit]
  rw [hspelling]
  constructor
  · intro hcanonical
    have hrest : rest = a.toChars ++ ':' :: ':' :: structName.toList := by
      rw [hcanonical, qualify, String.toList_ofList] at hname
      exact (List.cons.inj hname).2.symm
    rw [hrest, splitOnce_append a.colon_not_mem_toChars] at hsplit
    rw [← (Prod.mk.inj (Option.some.inj hsplit)).1]
    exact spelledOut_toChars a
  · intro hspelled
    rw [qualify, ← toChars_of_spelledOut hspelled haddr, ← splitOnce_eq_some hsplit, ← hname,
      String.ofList_toList]

/-! ## Accepted modules -/

section Accepted

variable {m : Module} {deps : DepMap} {cfg : CompilerConfig}

def Module.Refers (m : Module) (name : String) : Prop :=
  (parseModuleRef name = none ∧ (m.getStruct name).isSome = true) ∨
    ∃ a structName, parseModuleRef name = some (a, structName) ∧ a ∈ m.imports

theorem refers_of_validateStructRef {name context : String}
    (h : validateStructRef name m deps context = []) : m.Refers name := by
  unfold validateStructRef at h
  cases hparse : parseModuleRef name with
  | none =>
    rw [hparse] at h
    refine .inl ⟨hparse, ?_⟩
    simpa using h
  | some r =>
    rw [hparse] at h
    refine .inr ⟨r.1, r.2, hparse, ?_⟩
    dsimp only at h
    split at h
    · cases h
    · rename_i himports
      simpa using himports

mutual
theorem refers_of_validateTypeRef {context : String} : ∀ (ty : Ty),
    validateTypeRef m deps context ty = [] → ∀ name ∈ ty.structNames, m.Refers name
  | .bool, _, _, hname | .u64, _, _, hname | .address, _, _, hname | .str, _, _, hname => by
    cases hname
  | .struct n, h, name, hname => by
    rw [List.mem_singleton.mp hname]
    exact refers_of_validateStructRef h
  | .tuple types, h, name, hname => refers_of_validateTypeRefs types h name hname

theorem refers_of_validateTypeRefs {context : String} : ∀ (types : List Ty),
    validateTypeRefs m deps context types = [] → ∀ name ∈ Ty.structNamesOf types, m.Refers name
  | [], _, _, hname => by cases hname
  | ty :: types, h, name, hname => by
    obtain ⟨hty, htypes⟩ := List.append_eq_nil_iff.mp h
    rcases List.mem_append.mp hname with hname | hname
    · exact refers_of_validateTypeRef ty hty name hname
    · exact refers_of_validateTypeRefs types htypes name hname
end

theorem refers_of_struct (h : checkModule m deps cfg = []) {s : StructDef} (hs : s ∈ m.structs)
    {name : String} (hname : name ∈ s.typeNames) : m.Refers name := by
  simp only [checkModule, List.append_eq_nil_iff] at h
  obtain ⟨seen, hstruct⟩ := checkStruct_of_mem h.1.1.2 hs
  obtain ⟨field, hfield, hname⟩ := List.mem_flatMap.mp hname
  simp only [checkStruct, List.append_eq_nil_iff] at hstruct
  have hchecked := List.flatMap_eq_nil_iff.mp hstruct.2 field hfield
  simp only [checkField, List.append_eq_nil_iff] at hchecked
  exact refers_of_validateTypeRef _ hchecked.2 name hname

theorem refers_of_function (h : checkModule m deps cfg = []) {f : Function} (hf : f ∈ m.functions)
    {name : String} (hname : name ∈ f.typeNames) : m.Refers name := by
  obtain ⟨seen, hdef⟩ := checkFunctionDef_of_checkModule h hf
  simp only [checkFunctionDef, checkSignature, List.append_eq_nil_iff] at hdef
  obtain ⟨⟨⟨-, ⟨hparams, hreturn⟩, -⟩, -⟩, -⟩ := hdef
  rcases List.mem_append.mp hname with hname | hname
  · rcases List.mem_append.mp hname with hname | hname
    · obtain ⟨param, hparam, hname⟩ := List.mem_flatMap.mp hname
      exact refers_of_validateTypeRef _ (List.flatMap_eq_nil_iff.mp hparams param hparam) name hname
    · obtain ⟨ty, hty, hname⟩ := List.mem_flatMap.mp hname
      rw [Option.mem_toList.mp hty] at hreturn
      exact refers_of_validateTypeRef _ hreturn name hname
  · -- Structs are built and opened by their own module only.
    obtain ⟨instr, hinstr, hname⟩ := List.mem_filterMap.mp hname
    obtain ⟨pc, hpc, hget⟩ := List.mem_iff_getElem.mp hinstr
    have hchecked := checkInstr_of_checkModule h hf
      (List.getElem?_eq_some_iff.mpr ⟨hpc, hget⟩)
    cases instr with
    | newStruct typeName fieldNames | unpackStruct typeName fieldNames =>
      obtain rfl := Option.some.inj hname
      obtain ⟨hparse, structDef, hdef, -⟩ := checkStructAccess_eq_nil hchecked
      exact .inl ⟨hparse, by rw [hdef]; rfl⟩
    | _ => cases hname

theorem refers_of_mem (h : checkModule m deps cfg = []) {name : String}
    (hname : name ∈ m.typeNames) : m.Refers name := by
  rcases List.mem_append.mp hname with hname | hname
  · obtain ⟨s, hs, hname⟩ := List.mem_flatMap.mp hname
    exact refers_of_struct h hs hname
  · obtain ⟨f, hf, hname⟩ := List.mem_flatMap.mp hname
    exact refers_of_function h hf hname

theorem addressSpelledOut_of_isValidIdentifier {name : String}
    (h : isValidIdentifier name cfg = true) : addressSpelledOut name = true := by
  unfold addressSpelledOut
  split
  · rename_i rest hname
    rw [splitOnce_eq_none]
    have hcolon := colon_not_mem_of_isValidIdentifier h
    rw [hname] at hcolon
    exact fun hmem => hcolon (List.mem_cons_of_mem _ hmem)
  · rfl

end Accepted

/-! ## Names and identities -/

/-- The declaring module and the name of a struct that a module at `a` calls `name`. -/
def typeIdentity (a : Address) (name : String) : Address × String :=
  (parseModuleRef name).getD (a, name)

def Module.SpellsOut (m : Module) : Prop :=
  ∀ name ∈ m.typeNames, addressSpelledOut name = true

section Identity

variable {m m' : Module} {deps : DepMap} {cfg : CompilerConfig} {a a' : Address}
  {name name' : String}

/-- The name that the machine gives to a type is the canonical one. -/
theorem resolveName_eq_qualify (hspells : m.SpellsOut) (hname : name ∈ m.typeNames) :
    resolveName a name = qualify (typeIdentity a name).1 (typeIdentity a name).2 := by
  cases hparse : parseModuleRef name with
  | none => simp [resolveName, typeIdentity, hparse]
  | some r =>
    have hcanonical := (eq_qualify_iff hparse).mpr (hspells name hname)
    simp only [resolveName, typeIdentity, hparse, Option.isSome_some, if_true, Option.getD_some]
    exact hcanonical

theorem resolveName_eq_iff (hspells : m.SpellsOut) (hspells' : m'.SpellsOut)
    (hname : name ∈ m.typeNames) (hname' : name' ∈ m'.typeNames) :
    resolveName a name = resolveName a' name' ↔ typeIdentity a name = typeIdentity a' name' := by
  rw [resolveName_eq_qualify hspells hname, resolveName_eq_qualify hspells' hname']
  constructor
  · intro h
    obtain ⟨haddr, hstruct⟩ := qualify_inj h
    exact Prod.ext haddr hstruct
  · intro h
    rw [h]

theorem eq_qualify_iff_typeIdentity (hspells : m.SpellsOut) (hname : name ∈ m.typeNames)
    {b : Address} {structName : String} (hother : b ≠ a) :
    name = qualify b structName ↔ typeIdentity a name = (b, structName) := by
  cases hparse : parseModuleRef name with
  | none =>
    constructor
    · intro h
      rw [h, parseModuleRef_qualify] at hparse
      cases hparse
    · intro h
      rw [typeIdentity, hparse] at h
      exact absurd (Prod.mk.inj h).1.symm hother
  | some r =>
    have hcanonical := (eq_qualify_iff hparse).mpr (hspells name hname)
    rw [typeIdentity, hparse]
    constructor
    · intro h
      rw [h, parseModuleRef_qualify] at hparse
      exact (Option.some.inj hparse).symm
    · rintro rfl
      exact hcanonical

theorem eq_iff_typeIdentity (h : checkModule m deps cfg = []) (hspells : m.SpellsOut)
    (hself : a ∉ m.imports) (hname : name ∈ m.typeNames) (hname' : name' ∈ m.typeNames) :
    name = name' ↔ typeIdentity a name = typeIdentity a name' := by
  refine ⟨fun heq => by rw [heq], fun hidentity => ?_⟩
  rcases refers_of_mem h hname' with ⟨hlocal', -⟩ | ⟨b, structName, hparse', himports⟩
  · rcases refers_of_mem h hname with ⟨hlocal, -⟩ | ⟨b, structName, hparse, himports⟩
    · simpa [typeIdentity, hlocal, hlocal'] using hidentity
    · simp only [typeIdentity, hparse, hlocal', Option.getD_some, Option.getD_none,
        Prod.mk.injEq] at hidentity
      exact absurd (hidentity.1 ▸ himports) hself
  · have hother : b ≠ a := fun heq => hself (heq ▸ himports)
    have hidentity' : typeIdentity a name' = (b, structName) := by simp [typeIdentity, hparse']
    rw [hidentity'] at hidentity
    rw [(eq_qualify_iff_typeIdentity hspells hname hother).mpr hidentity]
    exact ((eq_qualify_iff_typeIdentity hspells hname' hother).mpr hidentity').symm

end Identity

/-- In accepted modules names are local or canonical exactly if addresses are spelled out. Texts of
names then tell structs apart: those of the machine, those of a module and the canonical name of a
struct of another module, and those of one module that does not import itself. -/
theorem one_name_per_type {m : Module} {deps : DepMap} {sigs : List NativeSig}
    {cfg : CompilerConfig} (haccepted : Verifier.verify m deps sigs cfg = []) :
    (m.SpellsOut ↔ ∀ name ∈ m.typeNames, (m.getStruct name).isSome = true ∨
      ∃ a structName, parseModuleRef name = some (a, structName) ∧ name = qualify a structName) ∧
    (m.SpellsOut → ∀ a name, name ∈ m.typeNames →
      (∀ m' : Module, m'.SpellsOut → ∀ a' name', name' ∈ m'.typeNames →
        (resolveName a name = resolveName a' name'
          ↔ typeIdentity a name = typeIdentity a' name')) ∧
      (∀ b structName, b ≠ a →
        (name = qualify b structName ↔ typeIdentity a name = (b, structName))) ∧
      ∀ name' ∈ m.typeNames, a ∉ m.imports →
        (name = name' ↔ typeIdentity a name = typeIdentity a name')) := by
  have hchecked := (verify_eq_nil haccepted).1
  refine ⟨⟨fun hspells name hname => ?_, fun hcanonical name hname => ?_⟩, ?_⟩
  · rcases refers_of_mem hchecked hname with ⟨-, hlocal⟩ | ⟨a, structName, hparse, -⟩
    · exact .inl hlocal
    · exact .inr ⟨a, structName, hparse, (eq_qualify_iff hparse).mpr (hspells name hname)⟩
  · rcases hcanonical name hname with hlocal | ⟨a, structName, hparse, heq⟩
    · exact addressSpelledOut_of_isValidIdentifier (isValidIdentifier_of_getStruct hchecked hlocal)
    · exact (eq_qualify_iff hparse).mp heq
  · intro hspells a name hname
    refine ⟨?_, ?_, ?_⟩
    · intro m' hspells' a' name' hname'
      exact resolveName_eq_iff hspells hspells' hname hname'
    · intro b structName hother
      exact eq_qualify_iff_typeIdentity hspells hname hother
    · intro name' hname' hself
      exact eq_iff_typeIdentity hchecked hspells hself hname hname'

namespace Sample

theorem wallet_spellsOut : walletVm.module.SpellsOut := by
  show ∀ name ∈ walletVm.module.typeNames, addressSpelledOut name = true
  decide +kernel

/-- `id` has the type `meow_object::Id`, with the leading zeros of its address left out. -/
def shortIdStruct : StructDef where
  name := "Coin"
  fields := [⟨"id", .struct "@0x10::Id"⟩, ⟨"value", .u64⟩]
  isPublic := true

def shortIdModule : Module where
  name := "coin"
  imports := [meowObjectModuleAddress]
  structs := [shortIdStruct]
  functions := []

end Sample

open Sample in
/-- The wallet refers to the coin by its canonical name. -/
theorem wallet_names : walletVm.module.SpellsOut ∧ ∀ name ∈ walletVm.module.typeNames,
    (walletVm.module.getStruct name).isSome = true ∨
      ∃ a structName, parseModuleRef name = some (a, structName) ∧ name = qualify a structName :=
  ⟨wallet_spellsOut,
    (one_name_per_type (walletVm_linked.accepted (world_moduleAddr walletVm))).1.mp wallet_spellsOut⟩

open Sample in
/-- An accepted module that calls `meow_object::Id` by another name, and has no object for it. -/
theorem short_name_accepted :
    Verifier.verify shortIdModule objectDeps [] {} = [] ∧
    "@0x10::Id" ∈ shortIdModule.typeNames ∧ shortIdModule.getStruct "@0x10::Id" = none ∧
    parseModuleRef "@0x10::Id" = some (meowObjectModuleAddress, "Id") ∧
    "@0x10::Id" ≠ qualify meowObjectModuleAddress "Id" ∧
    isObjectStruct shortIdStruct = false := by
  decide +kernel

end MeowChain
