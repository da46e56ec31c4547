import MeowChain.Adapter.TypeNames
import MeowChain.Executor.Arguments
import MeowChain.Executor.Effects

/-!
# Objects and values of the machine

An object keeps its id in its address and the other fields in its content: fields named `id` are
left out of the content, and the id comes back as the first field.
-/

set_option autoImplicit false

namespace MeowChain

open Verifier

/-! ## Ids -/

section Ids

variable {W : World} {a : Address}

theorem hasType_meowObjectId_iff (hframework : W meowObjectModuleAddress = some meowObjectModule)
    {v : Value Unit} :
    HasType W a v (.struct meowObjectIdTypeName) ↔ ∃ x, v = meowObjectId x := by
  have hdecl : W.declaration meowObjectIdTypeName =
      .declared meowObjectModuleAddress ⟨"Id", [⟨"inner", .address⟩], true⟩ :=
    declaration_qualify hframework "Id"
  have hresolve : resolveName a meowObjectIdTypeName = meowObjectIdTypeName :=
    resolveName_qualify _
  constructor
  · intro h
    obtain ⟨label, fields, rfl⟩ := hasType_struct h
    rw [hresolve] at h ⊢
    obtain ⟨-, hfields⟩ := h
    rw [hdecl] at hfields
    cases List.forall₂_cons_right_iff.mp (fieldsHaveType_iff.mp hfields) with
    | intro field hfield =>
      obtain ⟨rest, ⟨hname, hinner⟩, hrest, rfl⟩ := hfield
      obtain rfl := List.forall₂_nil_right_iff.mp hrest
      obtain ⟨name, inner⟩ := field
      obtain rfl : name = "inner" := hname
      cases inner with
      | address x => exact ⟨x, rfl⟩
      | _ => simp [HasType, fromType] at hinner
  · rintro ⟨x, rfl⟩
    refine ⟨⟨_, rfl, hresolve⟩, ?_⟩
    rw [hdecl]
    exact ⟨_, _, rfl, rfl, rfl, rfl⟩

theorem objectAddress_of_id (bcs : Bcs) (label : Unit) (typeName : String) (x : Address)
    (rest : List (String × Value Unit)) :
    objectAddress bcs (.struct label typeName ((meowObjectIdFieldName, meowObjectId x) :: rest)) =
      some x := by
  have hfield : (Value.struct label typeName
      ((meowObjectIdFieldName, meowObjectId x) :: rest)).field meowObjectIdFieldName =
      some (meowObjectId x) := by
    simp [Value.field, Value.lookup]
  rw [objectAddress, hfield, Option.bind_some, toMeowObjectId_meowObjectId]

end Ids

/-! ## Conversion -/

section Conversion

variable {B : Type} {P : Platform B}

theorem contentFields_id (id : Value Unit) (rest : List (String × Value Unit)) :
    contentFields ((meowObjectIdFieldName, id) :: rest) = contentFields rest :=
  List.filter_cons_of_neg (by simp)

theorem contentFields_eq_self {fields : List (String × Value Unit)} :
    contentFields fields = fields ↔ ∀ name ∈ fields.map (·.1), name ≠ meowObjectIdFieldName := by
  unfold contentFields
  rw [List.filter_eq_self, List.forall_mem_map]
  simp

theorem contentFields_contentFields (fields : List (String × Value Unit)) :
    contentFields (contentFields fields) = contentFields fields := by
  simp only [contentFields, List.filter_filter, Bool.and_self]

variable (hdecode : ∀ fields bytes, P.encodeFields fields = some bytes →
  P.decodeFields bytes = .ok fields)
include hdecode

theorem objectToVmObjectValue_of_converted {fields : List (String × Value Unit)}
    {owner : ObjectOwner} {txDigest : Digest} {version : ObjectVersion} {decl : ObjectDeclRef}
    {address : Address} {content : B}
    (hcontent : P.encodeFields (contentFields fields) = some content) :
    objectToVmObjectValue P ⟨address, owner, txDigest, version, .object decl, content⟩ =
      .ok (.struct () decl.typeName
        ((meowObjectIdFieldName, meowObjectId address) :: contentFields fields)) := by
  simp only [objectToVmObjectValue, hdecode _ _ hcontent]

/-- An object made of a value is made again of the value it is read back as. -/
theorem vmObjectValueToObject_again {v : Value Unit} {owner : ObjectOwner} {txDigest : Digest}
    {version : ObjectVersion} {obj : Object B}
    (h : vmObjectValueToObject P v owner txDigest version = .ok obj) :
    ∃ w, objectToVmObjectValue P obj = .ok w ∧
      vmObjectValueToObject P w obj.owner obj.transaction obj.version = .ok obj := by
  obtain ⟨typeName, fields, decl, address, content, rfl, hparse, haddress, hcontent, rfl⟩ :=
    vmObjectValueToObject_eq_ok_iff.mp h
  refine ⟨_, objectToVmObjectValue_of_converted hdecode hcontent, ?_⟩
  refine vmObjectValueToObject_eq_ok_iff.mpr ⟨_, _, decl, address, content, rfl, ?_, ?_, ?_, rfl⟩
  · exact parseModuleRef_qualify _ _
  · exact objectAddress_of_id _ () _ _ _
  · rw [contentFields_id, contentFields_contentFields]
    exact hcontent

end Conversion

/-- A value of an object struct becomes an object and the object becomes the value again exactly if
no other field of the struct is named `id` and BCS can write these fields; and what becomes an
object is the same object again after a conversion forth and back. -/
theorem object_round_trip {B : Type} {P : Platform B}
    (hdecode : ∀ fields bytes, P.encodeFields fields = some bytes →
      P.decodeFields bytes = .ok fields)
    {m : Module} {deps : DepMap} {sigs : List NativeSig}
    (haccepted : verify m deps sigs compilerConfig = []) {W : World} {a : Address}
    (hmodule : W a = some m) (hframework : W meowObjectModuleAddress = some meowObjectModule)
    {s : StructDef} (hs : s ∈ m.structs) (hobject : isObjectStruct s = true)
    {fields : List (String × Value Unit)}
    (htyped : HasType W a (.struct () (qualify a s.name) fields : Value Unit) (.struct s.name))
    (owner : ObjectOwner) (txDigest : Digest) (version : ObjectVersion) :
    ((∃ obj, vmObjectValueToObject P (.struct () (qualify a s.name) fields) owner txDigest version =
          .ok obj ∧
        objectToVmObjectValue P obj = .ok (.struct () (qualify a s.name) fields)) ↔
      (∀ d ∈ s.fields.tail, d.name ≠ meowObjectIdFieldName) ∧
        (P.encodeFields fields.tail).isSome = true) ∧
    ∀ obj, vmObjectValueToObject P (.struct () (qualify a s.name) fields) owner txDigest version =
        .ok obj →
      obj.owner = owner ∧ obj.transaction = txDigest ∧ obj.version = version ∧
      ∃ w, objectToVmObjectValue P obj = .ok w ∧
        vmObjectValueToObject P w owner txDigest version = .ok obj := by
  have hchecked := (verify_eq_nil haccepted).1
  have hstruct := getStruct_of_mem hchecked hs
  have hvalid : isValidIdentifier s.name compilerConfig = true :=
    isValidIdentifier_of_getStruct hchecked (by rw [hstruct]; rfl)
  have hlocal : parseModuleRef s.name = none :=
    parseModuleRef_eq_none (isQualified_of_isValidIdentifier hvalid)
  obtain ⟨structDef, label, fields', hstruct', hvalue, hfields⟩ :=
    (hasType_localStruct hmodule hlocal).mp htyped
  obtain rfl := Option.some.inj (hstruct.symm.trans hstruct')
  obtain ⟨-, -, rfl⟩ := Value.struct.inj hvalue
  -- The first field is the id, the others are named as they are declared.
  obtain ⟨x, rest, rfl, hnames⟩ : ∃ x rest,
      fields = (meowObjectIdFieldName, meowObjectId x) :: rest ∧
        rest.map (·.1) = s.fields.tail.map (·.name) := by
    unfold isObjectStruct at hobject
    cases hdecls : s.fields with
    | nil =>
      rw [hdecls] at hobject
      cases hobject
    | cons d ds =>
      rw [hdecls] at hobject hfields
      simp only [List.head?_cons, Bool.and_eq_true, beq_iff_eq] at hobject
      obtain ⟨field, rest, ⟨hname, hid⟩, hrest, rfl⟩ := List.forall₂_cons_right_iff.mp hfields
      rw [hobject.2] at hid
      obtain ⟨x, hx⟩ := (hasType_meowObjectId_iff hframework).mp hid
      refine ⟨x, rest, ?_, ?_⟩
      · rw [← hx, ← hobject.1, ← hname]
      · have hsame : List.Forall₂ (· = ·) (rest.map (·.1)) (ds.map (·.name)) :=
          List.forall₂_map_left_iff.mpr (List.forall₂_map_right_iff.mpr
            (hrest.imp fun _ _ hfield => hfield.1))
        exact List.forall₂_eq_eq_eq ▸ hsame
  have hname : qualify a s.name = ObjectDeclRef.typeName ⟨a, ⟨s.name, hvalid⟩⟩ := rfl
  have htail : (∀ d ∈ s.fields.tail, d.name ≠ meowObjectIdFieldName) ↔
      contentFields rest = rest := by
    rw [contentFields_eq_self, hnames, List.forall_mem_map]
  refine ⟨⟨?_, ?_⟩, ?_⟩
  · rintro ⟨obj, hobj, hback⟩
    obtain ⟨typeName, fields, decl, address, content, hv, -, -, hcontent, rfl⟩ :=
      vmObjectValueToObject_eq_ok_iff.mp hobj
    obtain ⟨-, -, rfl⟩ := Value.struct.inj hv
    rw [objectToVmObjectValue_of_converted hdecode hcontent, contentFields_id] at hback
    obtain ⟨-, -, hcons⟩ := Value.struct.inj (Except.ok.inj hback)
    have hrest : contentFields rest = rest := (List.cons.inj hcons).2
    refine ⟨htail.mpr hrest, ?_⟩
    rw [contentFields_id, hrest] at hcontent
    rw [List.tail_cons, hcontent]
    rfl
  · rintro ⟨hother, hencodes⟩
    obtain ⟨content, hcontent⟩ := Option.isSome_iff_exists.mp hencodes
    have hrest := htail.mp hother
    have hfieldsContent : P.encodeFields
        (contentFields ((meowObjectIdFieldName, meowObjectId x) :: rest)) = some content := by
      rw [contentFields_id, hrest]
      exact hcontent
    refine ⟨_, vmObjectValueToObject_eq_ok_iff.mpr ⟨_, _, ⟨a, ⟨s.name, hvalid⟩⟩, x, content, rfl,
      parseModuleRef_qualify _ _, objectAddress_of_id _ () _ _ _, hfieldsContent, rfl⟩, ?_⟩
    rw [objectToVmObjectValue_of_converted hdecode hfieldsContent, contentFields_id, hrest, hname]
  · intro obj hobj
    obtain ⟨w, hw, hagain⟩ := vmObjectValueToObject_again hdecode hobj
    obtain ⟨_, _, _, _, _, -, -, -, -, rfl⟩ := vmObjectValueToObject_eq_ok_iff.mp hobj
    exact ⟨rfl, rfl, rfl, w, hw, hagain⟩

namespace Sample

/-- The module at an address of its own, next to `meow_object`. -/
def besideObjects (a : Address) (m : Module) : World := fun b =>
  if b = a then some m else if b = meowObjectModuleAddress then some meowObjectModule else none

def vaultStruct : StructDef where
  name := "Vault"
  fields := [⟨"id", meowObjectIdType⟩, ⟨"level", .u64⟩]
  isPublic := true

def vaultFields : List (String × Value Unit) :=
  [("id", meowObjectId 7), ("level", .u64 1)]

def badgeStruct : StructDef where
  name := "Badge"
  fields := [⟨"id", meowObjectIdType⟩, ⟨"id", .u64⟩]
  isPublic := true

def badgeModule : Module where
  name := "badge"
  imports := [meowObjectModuleAddress]
  structs := [badgeStruct]
  functions := []

def badge : Value Unit :=
  .struct () (qualify vaultAddr "Badge") [("id", meowObjectId 7), ("id", .u64 1)]

end Sample

open Sample in
/-- A vault is stored and read back. -/
theorem vault_round_trip :
    ∃ obj, vmObjectValueToObject platform (.struct () (qualify vaultAddr "Vault") vaultFields)
        (.address owner) 0 .one = .ok obj ∧
      objectToVmObjectValue platform obj =
        .ok (.struct () (qualify vaultAddr "Vault") vaultFields) := by
  have hmodule : besideObjects vaultAddr vaultModule vaultAddr = some vaultModule := if_pos rfl
  have hframework : besideObjects vaultAddr vaultModule meowObjectModuleAddress =
      some meowObjectModule := by decide +kernel
  have haccepted : verify vaultModule objectDeps adapterNativeSigs compilerConfig = [] := by
    decide +kernel
  refine (object_round_trip (fun fields bytes h => ?_) haccepted hmodule hframework (s := vaultStruct)
    List.mem_cons_self (by decide +kernel) ?_ (.address owner) 0 .one).1.mpr ?_
  · obtain rfl := Option.some.inj h
    rfl
  · refine (hasType_localStruct hmodule (by decide +kernel)).mpr ⟨_, (), vaultFields, rfl, rfl, ?_⟩
    exact .cons ⟨rfl, (hasType_meowObjectId_iff hframework).mpr ⟨7, rfl⟩⟩ (.cons ⟨rfl, rfl⟩ .nil)
  · exact ⟨by decide, rfl⟩

open Sample in
/-- Both verifiers accept a struct with two fields named `id`, and its objects lose the second. -/
theorem second_id_lost :
    Verifier.verify badgeModule objectDeps adapterNativeSigs compilerConfig = [] ∧
    Adapter.verify badgeModule objectDeps adapterNativeSigs = [] ∧
    badgeStruct ∈ badgeModule.structs ∧ isObjectStruct badgeStruct = true ∧
    HasType (besideObjects vaultAddr badgeModule) vaultAddr badge (.struct "Badge") ∧
    ∃ obj, vmObjectValueToObject platform badge (.address owner) 0 .one = .ok obj ∧
      objectToVmObjectValue platform obj =
        .ok (.struct () (qualify vaultAddr "Badge") [("id", meowObjectId 7)]) := by
  have hmodule : besideObjects vaultAddr badgeModule vaultAddr = some badgeModule := if_pos rfl
  have hframework : besideObjects vaultAddr badgeModule meowObjectModuleAddress =
      some meowObjectModule := by decide +kernel
  refine ⟨by decide +kernel, by decide +kernel, List.mem_cons_self, by decide +kernel, ?_, ?_⟩
  · refine (hasType_localStruct hmodule (by decide +kernel)).mpr ⟨badgeStruct, (), _, rfl, rfl, ?_⟩
    exact .cons ⟨rfl, (hasType_meowObjectId_iff hframework).mpr ⟨7, rfl⟩⟩ (.cons ⟨rfl, rfl⟩ .nil)
  · refine ⟨_, vmObjectValueToObject_eq_ok_iff.mpr ⟨_, _, ⟨vaultAddr, ⟨"Badge", by decide⟩⟩, 7, _,
      rfl, parseModuleRef_qualify _ _, objectAddress_of_id _ () _ _ _, rfl, rfl⟩, ?_⟩
    rfl

end MeowChain
