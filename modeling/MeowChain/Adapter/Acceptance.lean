import MeowChain.Adapter.Tracking

/-!
# Which correct modules the adapter accepts

A module whose objects are laid out well, get fresh ids and are the only structs to be transferred is
accepted, if the adapter is in step where it checks ids and transfers and where linear values are
stored. A field read while a value is on the stack brings it out of step.
-/

set_option autoImplicit false

namespace MeowChain

open Verifier (AbstractState AbstractType)
open Adapter

/-! ## Correct modules -/

/-- An id is the first field of its struct, and no field holds an object. -/
structure ValidLayouts (m : Module) (deps : DepMap) : Prop where
  idFirst : ∀ s ∈ m.structs, ∀ (i : ℕ) (field : FieldDef), s.fields[i]? = some field →
    field.ty = meowObjectIdType → i = 0
  noObject : ∀ s ∈ m.structs, ∀ field ∈ s.fields, ∀ typeName, field.ty = .struct typeName →
    isObjectType m deps typeName = false

def Adapter.PathState.operand (x : PathState) (fieldNames : List String) (field : String) :
    Option Mark :=
  (fieldNames.zip (x.stack.take fieldNames.length).reverse).lookup field

/-- On every path, objects are built with unused results of `meow_vm_fresh_id`. -/
def IdsFresh (m : Module) (deps : DepMap) : Prop :=
  ∀ f ∈ m.functions, ∀ (pc : ℕ) (x : PathState) (typeName : String) (fieldNames : List String)
    (structDef : StructDef), f.code[pc]? = some (.newStruct typeName fieldNames) →
    m.getStruct typeName = some structDef → isObjectStruct structDef = true →
    OnPath (chainScope m deps f) pc x →
    x.operand fieldNames meowObjectIdFieldName = some .freshId

def TransfersObjects (m : Module) (deps : DepMap) : Prop :=
  ∀ f ∈ m.functions, ∀ (pc : ℕ) (t : AbstractState),
    f.code[pc]? = some (.call nativeFnTransfer) →
    Verifier.stateAt (chainScope m deps f) pc = some t →
    ∃ typeName, t.stack[1]? = some (.struct typeName) ∧ isObjectType m deps typeName = true

structure CorrectModule (m : Module) (deps : DepMap) : Prop where
  language : Verifier.verify m deps adapterNativeSigs compilerConfig = []
  layouts : ValidLayouts m deps
  ids : IdsFresh m deps
  transfers : TransfersObjects m deps

/-! ## Where the adapter has to be in step -/

def Instruction.isChecked (m : Module) : Instruction → Bool
  | .newStruct typeName _ => (objectTypes m).contains typeName
  | .call name => name == nativeFnTransfer
  | _ => false

/-- A function with a checked instruction is out of step neither there nor where it stores a linear
value. -/
structure ChecksInStep (m : Module) (deps : DepMap) (f : Function) : Prop where
  checks : ∀ {pc : ℕ} {instr : Instruction} {x : PathState}, f.code[pc]? = some instr →
    instr.isChecked m = true → OnPath (chainScope m deps f) pc x → x.inStep = true
  stores : ∀ {pc i : ℕ} {x : PathState} {t : AbstractState} {ty : AbstractType},
    f.code[pc]? = some (.store i) → OnPath (chainScope m deps f) pc x →
    Verifier.stateAt (chainScope m deps f) pc = some t → t.stack[0]? = some ty →
    ty.isLinear = true → x.inStep = true

def InStep (m : Module) (deps : DepMap) : Prop :=
  ∀ f ∈ m.functions, f.code.any (·.isChecked m) = true → ChecksInStep m deps f

/-! ## Layouts -/

section Layouts

variable {m : Module} {deps : DepMap}

theorem checkFieldLayouts_eq_nil {s : StructDef} {fields : List FieldDef} {i : ℕ}
    (h : ∀ (j : ℕ) (field : FieldDef), fields[j]? = some field →
      checkFieldLayout m deps s (i + j) field = []) :
    checkFieldLayouts m deps s i fields = [] := by
  induction fields generalizing i with
  | nil => rfl
  | cons field fields ih =>
    refine List.append_eq_nil_iff.mpr ⟨h 0 field rfl, ih fun j field' hfield' => ?_⟩
    have hnext := h (j + 1) field' (by simpa using hfield')
    rwa [← Nat.add_assoc, Nat.add_right_comm] at hnext

theorem checkObjectLayouts_eq_nil (h : ValidLayouts m deps) : checkObjectLayouts m deps = [] := by
  refine List.flatMap_eq_nil_iff.mpr fun s hs => checkFieldLayouts_eq_nil fun i field hfield => ?_
  rw [Nat.zero_add]
  refine List.append_eq_nil_iff.mpr ⟨if_neg fun hid => ?_, ?_⟩
  · exact hid.2 (h.idFirst s hs i field hfield hid.1)
  · cases hty : field.ty with
    | struct typeName =>
      have hnot := h.noObject s hs field (List.mem_of_getElem? hfield) typeName hty
      simp only [hnot, Bool.false_eq_true, if_false]
    | _ => rfl

end Layouts

/-! ## Tags -/

def NotMistaken (tag ofType : StructTag) : Prop :=
  ∀ name, tag = .nonObject name → ofType ≠ .object

theorem notMistaken_laws : TagLaws NotMistaken where
  refl tag name htag := by
    rw [htag]
    simp
  unclassified tag name _ := by simp
  merge := by
    intro a b tag ha _ name hname
    unfold mergeTag at hname
    split at hname
    · exact ha name hname
    · cases hname

section Accepted

variable {m : Module} {deps : DepMap}

/-- A name in the list of object types is the name of an object struct. -/
theorem exists_object (hmodule : Verifier.checkModule m deps compilerConfig = []) {name : String}
    (h : (objectTypes m).contains name = true) :
    ∃ structDef, m.getStruct name = some structDef ∧ isObjectStruct structDef = true := by
  obtain ⟨structDef, hmem, rfl⟩ := List.mem_map.mp (List.contains_iff_mem.mp h)
  obtain ⟨hstruct, hobject⟩ := List.mem_filter.mp hmem
  exact ⟨structDef, getStruct_of_mem hmodule hstruct, hobject⟩

theorem isQualified_of_contains (hmodule : Verifier.checkModule m deps compilerConfig = [])
    {name : String} (h : (objectTypes m).contains name = true) : isQualified name = false := by
  obtain ⟨structDef, hdef, -⟩ := exists_object hmodule h
  exact isQualified_of_isValidIdentifier
    (isValidIdentifier_of_getStruct hmodule (by rw [hdef]; rfl))

theorem isObjectType_of_tag {name : String}
    (h : localStructTag (objectTypes m) name = .object) : isObjectType m deps name = true := by
  unfold localStructTag at h
  split at h
  · cases h
  · rename_i hqualified
    split at h
    · rename_i hcontains
      rw [isObjectType, parseModuleRef_eq_none (by simpa using hqualified)]
      exact hcontains
    · cases h

theorem fields_of_isObjectStruct {structDef : StructDef} (h : isObjectStruct structDef = true) :
    ∃ idField fields, structDef.fields = idField :: fields ∧
      idField.name = meowObjectIdFieldName ∧ idField.ty = meowObjectIdType := by
  unfold isObjectStruct at h
  cases hfields : structDef.fields with
  | nil =>
    rw [hfields] at h
    cases h
  | cons idField fields =>
    rw [hfields] at h
    simp only [List.head?_cons, Bool.and_eq_true, beq_iff_eq] at h
    exact ⟨idField, fields, rfl, h.1, h.2⟩

theorem nthFromTop_succ {s : VerifyState} {n : ℕ} (h : n < s.stack.length) :
    s.nthFromTop (n + 1) = s.stack[n]? := by
  rw [VerifyState.nthFromTop, List.getElem?_reverse (by omega)]
  congr 1
  omega

theorem operand_head {x : PathState} {name : String} {names : List String}
    (h : names.length < x.stack.length) :
    x.operand (name :: names) name = x.stack[names.length]? := by
  rw [PathState.operand, List.length_cons, List.take_add_one, List.getElem?_eq_getElem h,
    Option.toList_some, List.reverse_append, List.reverse_singleton, List.singleton_append,
    List.zip_cons_cons, List.lookup_cons_self]

theorem newStruct_idType {cfg : CompilerConfig} {sc : Verifier.Scope} {pc : ℕ} {t : AbstractState}
    {typeName : String} {fieldNames : List String} {structDef : StructDef} {idField : FieldDef}
    {fields : List FieldDef} (hchecked : Checked cfg sc pc t (.newStruct typeName fieldNames))
    (hdef : sc.module.getStruct typeName = some structDef)
    (hfields : structDef.fields = idField :: fields) (hty : idField.ty = meowObjectIdType) :
    t.stack[fields.length]? = some (.struct meowObjectIdTypeName) := by
  obtain ⟨hparse, -⟩ := checkStructAccess_eq_nil hchecked.structural
  have haccepted := hchecked.accepted
  simp only [Verifier.exec, Verifier.newStructInstr, hparse, Option.isSome_none,
    Bool.false_eq_true, if_false, hdef] at haccepted
  rw [popFields_eq_nil haccepted, hfields, List.reverse_cons, List.map_append, List.append_assoc,
    List.getElem?_append_right (by simp)]
  simp [hty, meowObjectIdType, Verifier.fromType]

variable (hverify : Verifier.verify m deps adapterNativeSigs compilerConfig = [])
variable {f : Function} (hf : f ∈ m.functions)
include hverify hf

theorem tracked_of_inStep (hlayouts : ValidLayouts m deps) (hstep : ChecksInStep m deps f) :
    Tracked NotMistaken (chainScope m deps f) where
  stores hinstr hx hout ht htop := by
    by_contra hlinear
    have hin := hstep.stores hinstr hx ht htop (by simpa using hlinear)
    exact absurd (hin.symm.trans hout) (by simp)
  fields := by
    intro pc typeName fieldNames structDef hinstr hdef
    have hstructural := checkInstr_of_checkModule (verify_eq_nil hverify).1 hf hinstr
    obtain ⟨-, structDef', hdef', rfl⟩ := checkStructAccess_eq_nil hstructural
    obtain rfl := Option.some.inj (hdef.symm.trans hdef')
    refine forall₂_of_length (by simp) fun tag ofType hofType name _ hobject => ?_
    obtain ⟨field, hfield, rfl⟩ := List.mem_map.mp hofType
    cases hty : field.ty with
    | struct typeName' =>
      rw [hty] at hobject
      have hnot := hlayouts.noObject structDef (List.mem_of_find?_eq_some hdef) field hfield
        typeName' hty
      exact absurd ((isObjectType_of_tag hobject).symm.trans hnot) (by simp)
    | _ =>
      rw [hty] at hobject
      cases hobject
  tuples _ _ := .inr fun _ _ _ _ name hname => by cases hname

end Accepted

/-- The adapter reports nothing at an instruction it does not check. -/
theorem exec_errors_of_unchecked {m : Module} {deps : DepMap} {f : Function} {pc : ℕ}
    {instr : Instruction} {s : VerifyState} (h : instr.isChecked m = false) :
    (Adapter.exec (chainScope m deps f) pc instr s).errors = [] := by
  cases instr with
  | newStruct typeName fieldNames =>
    have hobject : (objectTypes m).contains typeName = false := h
    simp only [Adapter.exec, newStructInstr, goOn, objects, functionScope, hobject,
      Bool.false_and, Bool.false_eq_true, if_false]
  | call name =>
    have hname : name ≠ nativeFnTransfer := by simpa [Instruction.isChecked] using h
    simp only [Adapter.exec, callInstr, goOn, checkTransfer, if_neg hname]
  | unpackTuple n =>
    simp only [Adapter.exec, unpackTupleInstr]
    split
    · split <;> rfl
    · rfl
  | _ => rfl

section Checks

variable {m : Module} {deps : DepMap} (hcorrect : CorrectModule m deps) {f : Function}
  (hf : f ∈ m.functions) (hstep : ChecksInStep m deps f) {pc : ℕ} {s : VerifyState}
  (hreach : s.reachable = true) (hgood : TrackGood NotMistaken (chainScope m deps f) pc s)
include hcorrect hf hstep hreach hgood

omit hcorrect hf in
/-- At a checked instruction the adapter's state describes the verifier's. -/
theorem matches_of_checked {instr : Instruction} (hinstr : f.code[pc]? = some instr)
    (hchecked : instr.isChecked m = true) :
    ∃ t, Verifier.Certified (chainScope m deps f) pc t ∧
      Matches NotMistaken (chainScope m deps f) (OnPath (chainScope m deps f) pc) s t := by
  obtain ⟨t, hcert, hfollowed⟩ := hgood hreach
  refine ⟨t, hcert, hfollowed.resolve_right fun hlost => ?_⟩
  obtain ⟨x, hx, hout⟩ := hlost.outOfStep
  exact absurd ((hstep.checks hinstr hchecked hx).symm.trans hout) (by simp)

/-- The slot of the id of a new object is known to be fresh. -/
theorem newStruct_errors {typeName : String} {fieldNames : List String}
    (hinstr : f.code[pc]? = some (.newStruct typeName fieldNames))
    (hobject : (objectTypes m).contains typeName = true) :
    (Adapter.exec (chainScope m deps f) pc (.newStruct typeName fieldNames) s).errors = [] := by
  obtain ⟨t, hcert, hmatches⟩ := matches_of_checked hstep hreach hgood hinstr hobject
  obtain ⟨-, hchecked⟩ := checked_of_certified hcorrect.language hf hcert hinstr
  obtain ⟨structDef, hdef, hisObject⟩ :=
    exists_object (verify_eq_nil hcorrect.language).1 hobject
  obtain ⟨-, structDef', hdef', rfl⟩ := checkStructAccess_eq_nil hchecked.structural
  obtain rfl := Option.some.inj (hdef.symm.trans hdef')
  obtain ⟨idField, fields, hfields, hname, hty⟩ := fields_of_isObjectStruct hisObject
  have htype := newStruct_idType hchecked hdef hfields hty
  have hlen := (List.getElem?_eq_some_iff.mp htype).1
  obtain ⟨slot, hslot⟩ : ∃ slot, s.stack[fields.length]? = some slot :=
    ⟨_, List.getElem?_eq_getElem (hmatches.stack.length ▸ hlen)⟩
  have hfresh : slot.fresh = .id := by
    by_contra hstale
    -- What the slot does not know, some path does not tell.
    obtain ⟨x, hx, hne⟩ := hmatches.stack.explained hslot htype rfl .freshId
      (by simpa [Slot.knows] using hstale)
    have hid := hcorrect.ids f hf pc x typeName _ structDef hinstr hdef hisObject hx
    rw [hfields, List.map_cons, hname, operand_head
      (by simpa [hx.height hcorrect.language hf hcert] using hlen), List.length_map] at hid
    exact hne hid
  have hnth : s.nthFromTop (structDef.fields.map (·.name)).length = some slot := by
    rw [hfields, List.map_cons, List.length_cons, List.length_map,
      nthFromTop_succ (hmatches.stack.length ▸ hlen), hslot]
  simp only [Adapter.exec, newStructInstr, goOn, hnth, Option.map_some, hfresh, ne_eq,
    not_true_eq_false, decide_false, Bool.and_false, Bool.false_eq_true, if_false]

/-- What is transferred is not taken for a plain struct. -/
theorem transfer_errors (hinstr : f.code[pc]? = some (.call nativeFnTransfer)) :
    (Adapter.exec (chainScope m deps f) pc (.call nativeFnTransfer) s).errors = [] := by
  obtain ⟨t, hcert, hmatches⟩ := matches_of_checked hstep hreach hgood hinstr rfl
  obtain ⟨-, hchecked⟩ := checked_of_certified hcorrect.language hf hcert hinstr
  obtain ⟨name, rest, hstack, hparse⟩ := transfer_types hcorrect.language hchecked
  obtain ⟨typeName, htop, hobject⟩ := hcorrect.transfers f hf pc t hinstr hcert.state
  have htype : t.stack[1]? = some (.struct name) := by
    rw [hstack]
    rfl
  obtain rfl : name = typeName := by simpa [htype] using htop
  rw [isObjectType, hparse] at hobject
  have hclass : typeClass (chainScope m deps f) (.struct name) = .object := by
    have hqualified := isQualified_of_contains (verify_eq_nil hcorrect.language).1 hobject
    have hcontains : (objects (chainScope m deps f)).contains name = true := hobject
    simp only [typeClass, localStructTag, hqualified, hcontains, Bool.false_eq_true, if_false,
      if_true]
  have hlen : 1 < s.stack.length := by
    rw [hmatches.stack.length, hstack]
    simp
  have hslot := List.getElem?_eq_getElem hlen
  have htag := (hmatches.stack.described hslot htype rfl).tag
  have harity : callEffect (chainScope m deps f) nativeFnTransfer = (2, false) :=
    callEffect_eq (getFunction_native hcorrect.language) (transfer_arity hcorrect.language)
  simp only [Adapter.exec, callInstr, goOn, harity, checkTransfer, if_true,
    nthFromTop_succ hlen, hslot, Option.map_some]
  split
  · rename_i structName htag'
    exact absurd hclass (htag structName (Option.some.inj htag'))
  · rfl

theorem exec_errors {instr : Instruction} (hinstr : f.code[pc]? = some instr) :
    (Adapter.exec (chainScope m deps f) pc instr s).errors = [] := by
  by_cases hchecked : instr.isChecked m = true
  · cases instr with
    | newStruct typeName fieldNames =>
      exact newStruct_errors hcorrect hf hstep hreach hgood hinstr hchecked
    | call name =>
      obtain rfl : name = nativeFnTransfer := beq_iff_eq.mp hchecked
      exact transfer_errors hcorrect hf hstep hreach hgood hinstr
    | _ => cases hchecked
  · exact exec_errors_of_unchecked (by simpa using hchecked)

end Checks

/-! ## Acceptance -/

/-- A correct module is accepted, if the adapter is in step where it matters. -/
theorem correct_modules_accepted {m : Module} {deps : DepMap} (hcorrect : CorrectModule m deps)
    (hstep : InStep m deps) : Adapter.verify m deps adapterNativeSigs = [] := by
  refine List.append_eq_nil_iff.mpr ⟨checkObjectLayouts_eq_nil hcorrect.layouts,
    List.flatMap_eq_nil_iff.mpr fun f hf => ?_⟩
  have hmerge : ∀ s t pc, ((pass (chainScope m deps f)).merge s t pc).2 = [] := fun _ _ _ => rfl
  by_cases hchecks : f.code.any (·.isChecked m) = true
  · have hinStep := hstep f hf hchecks
    have htracked := tracked_of_inStep hcorrect.language hf hcorrect.layouts hinStep
    exact ForwardFlow.Pass.errors_run_eq_nil
      (trackLaws hcorrect.language hf notMistaken_laws (callScope_chain hcorrect.language f)
        htracked)
      (fun hinstr hreach hgood => exec_errors hcorrect hf hinStep hreach hgood hinstr) hmerge
      (trackGood_initialState hcorrect.language hf notMistaken_laws)
  · refine ForwardFlow.Pass.errors_run_eq_nil_of_exec hmerge (fun s hinstr => ?_) _
    refine exec_errors_of_unchecked ?_
    by_contra hchecked
    exact hchecks (List.any_eq_true.mpr
      ⟨_, List.mem_of_getElem? hinstr, by simpa using hchecked⟩)

/-! ## Straight code -/

section Straight

variable {m : Module} {deps : DepMap} {f : Function}

/-- The state after the first `pc` instructions of code without jumps. -/
def Adapter.PathState.straight (sc : Verifier.Scope) (pc : ℕ) : PathState :=
  (sc.func.code.take pc).foldl (fun x instr => x.exec sc instr) (.entry sc.func)

theorem onPath_straight {sc : Verifier.Scope} {pc : ℕ} {x : PathState}
    (hstraight : ∀ instr ∈ sc.func.code, instr.jumpOffset = none) (h : OnPath sc pc x) :
    x = .straight sc pc := by
  induction h with
  | entry => rfl
  | next _ hinstr _ _ ih =>
    rw [PathState.straight, List.take_add_one, hinstr, Option.toList_some, List.foldl_append, ih]
    rfl
  | jump _ hinstr hoffset _ =>
    rw [hstraight _ (List.mem_of_getElem? hinstr)] at hoffset
    cases hoffset

/-- The conditions on the instruction at `pc`, for code without jumps. -/
def straightCorrect (m : Module) (deps : DepMap) (f : Function) (pc : ℕ) : Instruction → Bool
  | .newStruct typeName fieldNames =>
    !(m.getStruct typeName).any isObjectStruct ||
      (PathState.straight (chainScope m deps f) pc).operand fieldNames meowObjectIdFieldName
        == some .freshId
  | .call name =>
    name != nativeFnTransfer || (Verifier.stateAt (chainScope m deps f) pc).all fun t =>
      match (t.stack[1]? : Option AbstractType) with
      | some (.struct typeName) => isObjectType m deps typeName
      | _ => false
  | _ => true

theorem correctModule_of_straight (hlanguage : Verifier.verify m deps adapterNativeSigs
      compilerConfig = []) (hlayouts : ValidLayouts m deps)
    (h : ∀ f ∈ m.functions, (∀ instr ∈ f.code, instr.jumpOffset = none) ∧
      ∀ p ∈ f.code.zipIdx, straightCorrect m deps f p.2 p.1 = true) : CorrectModule m deps where
  language := hlanguage
  layouts := hlayouts
  ids := by
    intro f hf pc x typeName fieldNames structDef hinstr hdef hobject hx
    obtain ⟨hstraight, hcheck⟩ := h f hf
    obtain rfl := onPath_straight hstraight hx
    have hfresh := hcheck (_, pc) (List.mem_zipIdx_iff_getElem?.mpr hinstr)
    simpa [straightCorrect, hdef, hobject] using hfresh
  transfers := by
    intro f hf pc t hinstr ht
    have hcheck := (h f hf).2 (_, pc) (List.mem_zipIdx_iff_getElem?.mpr hinstr)
    simp only [straightCorrect, bne_self_eq_false, Bool.false_or, ht, Option.all_some] at hcheck
    split at hcheck
    · rename_i typeName htop
      exact ⟨typeName, htop, hcheck⟩
    · cases hcheck

end Straight

namespace Sample

/-- `Token { id: meow_vm_fresh_id(), value: t.value }`, next to the token that is read. -/
def twin : Function where
  name := "twin"
  isPublic := true
  params := [("t", .struct "Token")]
  returnType := some (.tuple [.struct "Token", .struct "Token"])
  localCount := 1
  code := [
    .call nativeFnFreshId, .loadField 0 ["value"], .newStruct "Token" ["id", "value"],
    .load 0, .makeTuple 2, .ret]

theorem token_layouts (f : Function) : ValidLayouts (tokenModule f) objectDeps where
  idFirst := by
    intro s hs i field hfield hty
    simp only [tokenModule, List.mem_cons, List.not_mem_nil, or_false] at hs
    rcases hs with rfl | rfl
    · match i, hfield with
      | 0, _ => rfl
      | 1, hfield =>
        obtain rfl := Option.some.inj hfield
        cases hty
    · match i, hfield with
      | 0, _ => rfl
  noObject := by
    intro s hs field hfield typeName hty
    simp only [tokenModule, List.mem_cons, List.not_mem_nil, or_false] at hs
    rcases hs with rfl | rfl
    · simp only [List.mem_cons, List.not_mem_nil, or_false] at hfield
      rcases hfield with rfl | rfl
      · obtain rfl := Ty.struct.inj hty
        have hparse : parseModuleRef meowObjectIdTypeName = some (meowObjectModuleAddress, "Id") :=
          parseModuleRef_qualify _ _
        have hdep : (objectDeps[meowObjectModuleAddress]?.bind (·.getStruct "Id")).map
            isObjectStruct = some false := by decide +kernel
        obtain ⟨structDef, hstruct, hplain⟩ := Option.map_eq_some_iff.mp hdep
        simp only [isObjectType, hparse, hstruct, hplain]
      · cases hty
    · obtain rfl := List.mem_singleton.mp hfield
      cases hty

end Sample

open Sample in
theorem correct_mint_accepted :
    CorrectModule (tokenModule mint) objectDeps ∧ InStep (tokenModule mint) objectDeps ∧
      Adapter.verify (tokenModule mint) objectDeps adapterNativeSigs = [] := by
  have hcorrect : CorrectModule (tokenModule mint) objectDeps :=
    correctModule_of_straight (by decide +kernel) (token_layouts mint) (by decide +kernel)
  have hinStep : ∀ p ∈ mint.code.zipIdx, p.1.isChecked (tokenModule mint) = true →
      (PathState.straight (chainScope (tokenModule mint) objectDeps mint) p.2).inStep = true := by
    decide +kernel
  have hstep : InStep (tokenModule mint) objectDeps := by
    intro f hf _
    obtain rfl := List.mem_singleton.mp hf
    refine ⟨fun {pc} {instr} {x} hinstr hchecked hx => ?_, fun hinstr => ?_⟩
    · obtain rfl := onPath_straight (by decide) hx
      exact hinStep (instr, pc) (List.mem_zipIdx_iff_getElem?.mpr hinstr) hchecked
    · have hmem := List.mem_of_getElem? hinstr
      simp [mint] at hmem
  exact ⟨hcorrect, hstep, correct_modules_accepted hcorrect hstep⟩

open Sample in
/-- A field is read while the id is on the stack, which the adapter takes off for it. -/
theorem correct_twin_rejected :
    CorrectModule (tokenModule twin) objectDeps ∧
      Adapter.verify (tokenModule twin) objectDeps adapterNativeSigs =
        [.objectIdNotFresh "twin" 2 "Token"] :=
  ⟨correctModule_of_straight (by decide +kernel) (token_layouts twin) (by decide +kernel),
    by decide +kernel⟩

end MeowChain
