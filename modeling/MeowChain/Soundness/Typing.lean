import Mathlib.Data.List.Forall2
import MeowChain.Verifier.AbstractInterpretation

/-!
# Typing of values

`HasType W a v t` says that the value `v` inhabits the abstract type `t` as a function of the
module at address `a` reads it. A struct carries the resolved name of its type; when the defining
module is in the world `W`, its fields are those of the definition.
-/

set_option autoImplicit false

namespace MeowChain

open Verifier

variable {τ σ : Type}

/-- Which module is published at an address. -/
abbrev World := Address → Option Module

/-- A struct name as seen from the module at `a`. -/
def resolveName (a : Address) (name : String) : String :=
  if (parseModuleRef name).isSome then name else qualify a name

/-- What the world knows of a run-time type name. -/
inductive Declaration where
  | declared (owner : Address) (structDef : StructDef)
  /-- The module is in the world, but has no such struct. -/
  | undeclared
  /-- The module is not in the world. -/
  | outside

@[irreducible] def World.declaration (W : World) (typeName : String) : Declaration :=
  match parseModuleRef typeName with
  | some (b, name) =>
    match W b with
    | some module =>
      match module.getStruct name with
      | some structDef => .declared b structDef
      | none => .undeclared
    | none => .outside
  | none => .undeclared

-- Of a struct declared outside the world, only the names of its parts are known to be qualified.
mutual
def HasType (W : World) (a : Address) : Value τ → AbstractType → Prop
  | .bool _, t => t = .bool
  | .u64 _, t => t = .u64
  | .address _, t => t = .address
  | .str _, t => t = .str
  | .void, t => t = .void
  | .struct _ typeName fields, t =>
    (∃ name, t = .struct name ∧ resolveName a name = typeName) ∧
      match W.declaration typeName with
      | .declared b structDef => FieldsHaveType W b fields structDef.fields
      | .undeclared => False
      | .outside => checkFieldsQualified fields = true
  | .tuple vs, t => ∃ ts, t = .tuple ts ∧ ListHasType W a vs ts

def ListHasType (W : World) (a : Address) : List (Value τ) → List AbstractType → Prop
  | [], ts => ts = []
  | v :: vs, ts => ∃ u us, ts = u :: us ∧ HasType W a v u ∧ ListHasType W a vs us

def FieldsHaveType (W : World) (b : Address) : List (String × Value τ) → List FieldDef → Prop
  | [], ds => ds = []
  | (name, v) :: fs, ds =>
    ∃ d rest, ds = d :: rest ∧ name = d.name ∧ HasType W b v (fromType d.ty) ∧
      FieldsHaveType W b fs rest
end

variable {W : World} {a b : Address}

theorem listHasType_iff {vs : List (Value τ)} {ts : List AbstractType} :
    ListHasType W a vs ts ↔ List.Forall₂ (HasType W a) vs ts := by
  induction vs generalizing ts with
  | nil => simp [ListHasType, List.forall₂_nil_left_iff]
  | cons v vs ih =>
    simp only [ListHasType, ih, List.forall₂_cons_left_iff]
    constructor
    · rintro ⟨u, us, rfl, hu, hus⟩
      exact ⟨u, us, hu, hus, rfl⟩
    · rintro ⟨u, us, hu, hus, rfl⟩
      exact ⟨u, us, rfl, hu, hus⟩

def FieldHasType (W : World) (b : Address) (field : String × Value τ) (d : FieldDef) : Prop :=
  field.1 = d.name ∧ HasType W b field.2 (fromType d.ty)

theorem fieldsHaveType_iff {fs : List (String × Value τ)} {ds : List FieldDef} :
    FieldsHaveType W b fs ds ↔ List.Forall₂ (FieldHasType W b) fs ds := by
  induction fs generalizing ds with
  | nil => simp [FieldsHaveType, List.forall₂_nil_left_iff]
  | cons f fs ih =>
    obtain ⟨name, v⟩ := f
    simp only [FieldsHaveType, ih, List.forall₂_cons_left_iff, FieldHasType]
    constructor
    · rintro ⟨d, rest, rfl, hname, hv, hrest⟩
      exact ⟨d, rest, ⟨hname, hv⟩, hrest, rfl⟩
    · rintro ⟨d, rest, ⟨hname, hv⟩, hrest, rfl⟩
      exact ⟨d, rest, rfl, hname, hv, hrest⟩

/-! ## Canonical forms -/

theorem hasType_bool_iff {v : Value τ} : HasType W a v .bool ↔ ∃ b, v = .bool b := by
  cases v <;> simp [HasType]

theorem hasType_u64_iff {v : Value τ} : HasType W a v .u64 ↔ ∃ n, v = .u64 n := by
  cases v <;> simp [HasType]

theorem hasType_address_iff {v : Value τ} : HasType W a v .address ↔ ∃ x, v = .address x := by
  cases v <;> simp [HasType]

theorem hasType_void_iff {v : Value τ} : HasType W a v .void ↔ v = .void := by
  cases v <;> simp [HasType]

theorem hasType_tuple_iff {v : Value τ} {ts : List AbstractType} :
    HasType W a v (.tuple ts) ↔ ∃ vs, v = .tuple vs ∧ List.Forall₂ (HasType W a) vs ts := by
  cases v with
  | tuple vs => simp [HasType, listHasType_iff]
  | _ => simp [HasType]

theorem hasType_struct {v : Value τ} {name : String} (h : HasType W a v (.struct name)) :
    ∃ label fields, v = .struct label (resolveName a name) fields := by
  cases v with
  | struct label typeName fields =>
    obtain ⟨⟨n, hn, hname⟩, -⟩ := h
    obtain rfl := AbstractType.struct.inj hn
    exact ⟨label, fields, by rw [hname]⟩
  | tuple vs =>
    obtain ⟨ts, hts, -⟩ := h
    cases hts
  | _ => simp [HasType] at h

/-! ## Linear types -/

mutual
theorem isLinear_of_hasType : ∀ {v : Value τ} {t : AbstractType}, HasType W a v t →
    v.isLinear = t.isLinear
  | .bool _, _, h | .u64 _, _, h | .address _, _, h | .str _, _, h | .void, _, h => by
    simp only [HasType] at h
    subst h
    rfl
  | .struct _ _ _, _, h => by
    obtain ⟨⟨name, rfl, -⟩, -⟩ := h
    rfl
  | .tuple vs, _, h => by
    obtain ⟨ts, rfl, hts⟩ := h
    simpa [Value.isLinear, AbstractType.isLinear] using anyLinear_of_listHasType hts

theorem anyLinear_of_listHasType : ∀ {vs : List (Value τ)} {ts : List AbstractType},
    ListHasType W a vs ts → Value.anyLinear vs = AbstractType.anyLinear ts
  | [], _, h => by
    obtain rfl := h
    rfl
  | v :: vs, _, h => by
    obtain ⟨u, us, rfl, hu, hus⟩ := h
    simp [Value.anyLinear, AbstractType.anyLinear, isLinear_of_hasType hu,
      anyLinear_of_listHasType hus]
end

/-! ## Qualified names -/

mutual
theorem checkStructQualified_of_hasType : ∀ {v : Value τ} {a : Address} {t : AbstractType},
    HasType W a v t → checkStructQualified v = true
  | .bool _, _, _, _ | .u64 _, _, _, _ | .address _, _, _, _ | .str _, _, _, _ | .void, _, _, _
  | .tuple _, _, _, _ => rfl
  | .struct _ typeName fields, a, _, h => by
    obtain ⟨⟨name, -, hname⟩, hfields⟩ := h
    have hparse : (parseModuleRef typeName).isSome = true := by
      rw [← hname, resolveName]
      split
      · assumption
      · simp
    rw [checkStructQualified, hparse, Bool.true_and]
    revert hfields
    cases W.declaration typeName with
    | declared b structDef => exact checkFieldsQualified_of_fieldsHaveType
    | undeclared => exact False.elim
    | outside => exact id

theorem checkFieldsQualified_of_fieldsHaveType : ∀ {fs : List (String × Value τ)} {b : Address}
    {ds : List FieldDef}, FieldsHaveType W b fs ds → checkFieldsQualified fs = true
  | [], _, _, _ => rfl
  | (_, v) :: fs, _, _, h => by
    obtain ⟨d, rest, -, -, hv, hfs⟩ := h
    simp [checkFieldsQualified, checkStructQualified_of_hasType hv,
      checkFieldsQualified_of_fieldsHaveType hfs]
end

/-! ## The same type seen from another module -/

theorem resolveName_of_isNone {name : String} (h : parseModuleRef name = none) :
    resolveName a name = qualify a name := by
  simp [resolveName, h]

theorem resolveName_qualify (name : String) : resolveName a (qualify b name) = qualify b name := by
  simp [resolveName]

theorem declaration_qualify {module : Module} (hW : W a = some module) (name : String) :
    W.declaration (qualify a name)
      = match module.getStruct name with
        | some structDef => .declared a structDef
        | none => .undeclared := by
  simp [World.declaration, hW]

mutual
theorem hasType_qualifyType : ∀ (ty : Ty) {v : Value τ},
    HasType W a v (fromType (qualifyType b ty)) ↔ HasType W b v (fromType ty)
  | .bool, v | .u64, v | .address, v | .str, v => by
    cases v <;> simp [HasType, fromType, qualifyType]
  | .struct n, v => by
    obtain ⟨m, htype, hname⟩ : ∃ m, fromType (qualifyType b (.struct n)) = .struct m ∧
        resolveName a m = resolveName b n := by
      cases hparse : parseModuleRef n with
      | none => exact ⟨qualify b n, by simp [qualifyType, fromType, hparse],
          by simp [resolveName, hparse]⟩
      | some r => exact ⟨n, by simp [qualifyType, fromType, hparse], by simp [resolveName, hparse]⟩
    rw [htype]
    cases v with
    | struct label typeName fields => simp [HasType, fromType, hname]
    | _ => simp [HasType, fromType]
  | .tuple ts, v => by
    simp only [fromType, qualifyType, hasType_tuple_iff, forall₂_qualifyTypes ts]

theorem forall₂_qualifyTypes : ∀ (ts : List Ty) {vs : List (Value τ)},
    List.Forall₂ (HasType W a) vs (fromTypes (qualifyTypes b ts))
      ↔ List.Forall₂ (HasType W b) vs (fromTypes ts)
  | [], vs => by simp [fromTypes, qualifyTypes]
  | t :: ts, vs => by
    simp only [fromTypes, qualifyTypes, List.forall₂_cons_right_iff, hasType_qualifyType t,
      forall₂_qualifyTypes ts]
end

/-! ## Labels do not matter -/

mutual
theorem checkStructQualified_map (f : τ → σ) : ∀ v : Value τ,
    checkStructQualified (v.map f) = checkStructQualified v
  | .bool _ | .u64 _ | .address _ | .str _ | .void | .tuple _ => rfl
  | .struct _ typeName fields => by
    simp [Value.map, checkStructQualified, checkFieldsQualified_map f fields]

theorem checkFieldsQualified_map (f : τ → σ) : ∀ fs : List (String × Value τ),
    checkFieldsQualified (Value.mapFields f fs) = checkFieldsQualified fs
  | [] => rfl
  | (_, v) :: fs => by
    simp [Value.mapFields, checkFieldsQualified, checkStructQualified_map f v,
      checkFieldsQualified_map f fs]
end

mutual
theorem hasType_map (f : τ → σ) : ∀ {a : Address} (v : Value τ) {t : AbstractType},
    HasType W a (v.map f) t ↔ HasType W a v t
  | _, .bool _, _ | _, .u64 _, _ | _, .address _, _ | _, .str _, _ | _, .void, _ => Iff.rfl
  | _, .struct _ typeName fields, _ => by
    simp only [Value.map, HasType]
    refine and_congr_right fun _ => ?_
    cases W.declaration typeName with
    | declared b structDef => exact fieldsHaveType_map f fields
    | undeclared => exact Iff.rfl
    | outside => exact iff_of_eq (by rw [checkFieldsQualified_map])
  | _, .tuple vs, _ => by simp only [Value.map, HasType, listHasType_map f vs]

theorem listHasType_map (f : τ → σ) : ∀ {a : Address} (vs : List (Value τ))
    {ts : List AbstractType}, ListHasType W a (Value.mapList f vs) ts ↔ ListHasType W a vs ts
  | _, [], _ => Iff.rfl
  | _, v :: vs, _ => by
    simp only [Value.mapList, ListHasType, hasType_map f v, listHasType_map f vs]

theorem fieldsHaveType_map (f : τ → σ) : ∀ {b : Address} (fs : List (String × Value τ))
    {ds : List FieldDef}, FieldsHaveType W b (Value.mapFields f fs) ds ↔ FieldsHaveType W b fs ds
  | _, [], _ => Iff.rfl
  | _, (_, v) :: fs, _ => by
    simp only [Value.mapFields, FieldsHaveType, hasType_map f v, fieldsHaveType_map f fs]
end

theorem hasType_label {tok : ℕ → τ} {n : ℕ} {v : Value Unit} {t : AbstractType} :
    HasType W a (v.label tok n).1 t ↔ HasType W a v t := by
  conv_rhs => rw [← erase_label tok n v]
  exact (hasType_map _ _).symm

theorem forall₂_labelList {tok : ℕ → τ} {n : ℕ} {vs : List (Value Unit)}
    {ts : List AbstractType} :
    List.Forall₂ (HasType W a) (Value.labelList tok n vs).1 ts
      ↔ List.Forall₂ (HasType W a) vs ts := by
  rw [← listHasType_iff, ← listHasType_iff]
  conv_rhs => rw [← erase_labelList tok n vs]
  exact (listHasType_map _ _).symm

/-! ## Fields -/

section Fields

variable {fs : List (String × Value τ)} {ds : List FieldDef} {name : String}

theorem lookup_of_find (h : List.Forall₂ (FieldHasType W b) fs ds) {d : FieldDef}
    (hd : ds.find? (·.name == name) = some d) :
    ∃ v, Value.lookup name fs = some v ∧ HasType W b v (fromType d.ty) := by
  induction h with
  | nil => cases hd
  | @cons field e fs ds hfield _ ih =>
    simp only [Value.lookup, List.find?_cons, hfield.1] at hd ⊢
    cases hname : e.name == name with
    | true =>
      simp only [hname, Option.some.injEq] at hd ⊢
      subst hd
      exact ⟨field.2, rfl, hfield.2⟩
    | false =>
      simp only [hname] at hd ⊢
      exact ih hd

theorem find_of_lookup (h : List.Forall₂ (FieldHasType W b) fs ds) {v : Value τ}
    (hv : Value.lookup name fs = some v) :
    ∃ d, ds.find? (·.name == name) = some d ∧ HasType W b v (fromType d.ty) := by
  induction h with
  | nil => cases hv
  | @cons field e fs ds hfield _ ih =>
    simp only [Value.lookup, List.find?_cons, hfield.1] at hv ⊢
    cases hname : e.name == name with
    | true =>
      simp only [hname, Option.map_some, Option.some.injEq] at hv ⊢
      subst hv
      exact ⟨e, rfl, hfield.2⟩
    | false =>
      simp only [hname] at hv ⊢
      exact ih hv

theorem setField_hasType (h : List.Forall₂ (FieldHasType W b) fs ds) {d : FieldDef}
    (hd : ds.find? (·.name == name) = some d) {v : Value τ} (hv : HasType W b v (fromType d.ty)) :
    List.Forall₂ (FieldHasType W b) (setField name v fs) ds := by
  induction h with
  | nil => cases hd
  | @cons field e fs ds hfield hrest ih =>
    obtain ⟨n, w⟩ := field
    obtain rfl : n = e.name := hfield.1
    simp only [List.find?_cons] at hd
    cases hname : e.name == name with
    | true =>
      simp only [hname, Option.some.injEq] at hd
      subst hd
      simp only [setField, hname, if_true]
      exact .cons ⟨rfl, hv⟩ hrest
    | false =>
      simp only [hname] at hd
      simp only [setField, hname, Bool.false_eq_true, if_false]
      exact .cons hfield (ih hd)

theorem zip_hasType {vs : List (Value τ)}
    (h : List.Forall₂ (fun v d => HasType W b v (fromType d.ty)) vs ds) :
    List.Forall₂ (FieldHasType W b) ((ds.map (·.name)).zip vs) ds := by
  induction h with
  | nil => exact .nil
  | cons hv _ ih => exact .cons ⟨rfl, hv⟩ ih

theorem map_fst_of_hasType (h : List.Forall₂ (FieldHasType W b) fs ds) :
    fs.map (·.1) = ds.map (·.name) := by
  induction h with
  | nil => rfl
  | cons hfield _ ih => simp [hfield.1, ih]

theorem map_snd_hasType (h : List.Forall₂ (FieldHasType W b) fs ds) :
    List.Forall₂ (HasType W b) (fs.map (·.2)) (ds.map fun d => fromType d.ty) := by
  induction h with
  | nil => exact .nil
  | cons hfield _ ih => exact .cons hfield.2 ih

end Fields

/-! ## Local structs and field paths -/

section Paths

variable {module : Module} (hW : W a = some module)
include hW

theorem hasType_localStruct {name : String} (hparse : parseModuleRef name = none) {v : Value τ} :
    HasType W a v (.struct name) ↔ ∃ structDef label fields,
      module.getStruct name = some structDef ∧ v = .struct label (qualify a name) fields ∧
      List.Forall₂ (FieldHasType W a) fields structDef.fields := by
  have hdecl := declaration_qualify hW name
  constructor
  · intro h
    obtain ⟨label, fields, rfl⟩ := hasType_struct h
    rw [resolveName_of_isNone hparse] at h ⊢
    obtain ⟨-, hfields⟩ := h
    rw [hdecl] at hfields
    cases hdef : module.getStruct name with
    | none =>
      rw [hdef] at hfields
      exact hfields.elim
    | some structDef =>
      rw [hdef] at hfields
      exact ⟨structDef, label, fields, rfl, rfl, fieldsHaveType_iff.mp hfields⟩
  · rintro ⟨structDef, label, fields, hdef, rfl, hfields⟩
    refine ⟨⟨name, rfl, resolveName_of_isNone hparse⟩, ?_⟩
    rw [hdecl, hdef]
    exact fieldsHaveType_iff.mpr hfields

omit hW in
theorem resolveFieldType_eq_some {ty u : AbstractType} {field : String}
    (h : resolveFieldType ty field module = some u) :
    ∃ name structDef d, ty = .struct name ∧ parseModuleRef name = none ∧
      module.getStruct name = some structDef ∧
      structDef.fields.find? (·.name == field) = some d ∧ u = fromType d.ty := by
  unfold resolveFieldType at h
  split at h
  · rename_i name
    split at h
    · cases h
    · rename_i hparse
      split at h
      · cases h
      · rename_i structDef hdef
        obtain ⟨d, hd, rfl⟩ := Option.map_eq_some_iff.mp h
        exact ⟨name, structDef, d, rfl, by simpa using hparse, hdef, hd, rfl⟩
  · cases h

theorem field_of_resolveFieldType {ty u : AbstractType} {field : String} {v : Value τ}
    (hv : HasType W a v ty) (h : resolveFieldType ty field module = some u) :
    ∃ label name fields child, v = .struct label (qualify a name) fields ∧
      Value.lookup field fields = some child ∧ HasType W a child u ∧
      ∀ {child' : Value τ}, HasType W a child' u →
        HasType W a (.struct label (qualify a name) (setField field child' fields)) ty := by
  obtain ⟨name, structDef, d, rfl, hparse, hdef, hd, rfl⟩ := resolveFieldType_eq_some h
  obtain ⟨structDef', label, fields, hdef', rfl, hfields⟩ := (hasType_localStruct hW hparse).mp hv
  obtain rfl := Option.some.inj (hdef.symm.trans hdef')
  obtain ⟨child, hchild, htype⟩ := lookup_of_find hfields hd
  refine ⟨label, name, fields, child, rfl, hchild, htype, fun {child'} hchild' => ?_⟩
  exact (hasType_localStruct hW hparse).mpr
    ⟨structDef, label, _, hdef, rfl, setField_hasType hfields hd hchild'⟩

theorem readFieldPath_hasType {path : List String} {i : ℕ} {v : Value τ} {ty u : AbstractType}
    (hv : HasType W a v ty) (h : resolveFieldPathType module ty path = some u) :
    ∃ w, readFieldPath i v path = .ok w ∧ HasType W a w u := by
  induction path generalizing i v ty with
  | nil =>
    obtain rfl := Option.some.inj h
    cases v <;> exact ⟨_, rfl, hv⟩
  | cons field path ih =>
    simp only [resolveFieldPathType] at h
    split at h
    · rename_i next hnext
      obtain ⟨label, name, fields, child, rfl, hchild, htype, -⟩ :=
        field_of_resolveFieldType hW hv hnext
      obtain ⟨w, hw, hwtype⟩ := ih (i := i + 1) htype h
      exact ⟨w, by simp [readFieldPath, hchild, hw], hwtype⟩
    · cases h

theorem writeFieldPath_hasType {path : List String} (hpath : path ≠ []) {i : ℕ}
    {v val : Value τ} {ty u : AbstractType} (hv : HasType W a v ty)
    (h : resolveFieldPathType module ty path = some u) (hlinear : u.isLinear = false)
    (hval : HasType W a val u) :
    ∃ v', writeFieldPath val i v path = .ok v' ∧ HasType W a v' ty := by
  induction path generalizing i v ty with
  | nil => exact absurd rfl hpath
  | cons field path ih =>
    simp only [resolveFieldPathType] at h
    split at h
    · rename_i next hnext
      obtain ⟨label, name, fields, child, rfl, hchild, htype, hset⟩ :=
        field_of_resolveFieldType hW hv hnext
      cases path with
      | nil =>
        obtain rfl := Option.some.inj h
        have hold : child.isLinear = false := by rw [isLinear_of_hasType htype, hlinear]
        exact ⟨_, by simp [writeFieldPath, hchild, hold], hset hval⟩
      | cons field' path =>
        obtain ⟨child', hw, hwtype⟩ := ih (List.cons_ne_nil _ _) (i := i + 1) htype h
        exact ⟨_, by simp [writeFieldPath, hchild, hw, bind, Except.bind], hset hwtype⟩
    · cases h

end Paths

end MeowChain
