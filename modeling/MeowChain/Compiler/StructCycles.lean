import Mathlib.Data.List.Nodup
import MeowChain.Compiler.Compile
import MeowChain.Compiler.CycleSearch
import MeowChain.Verifier.Structural

/-!
# Cycles of struct definitions

The compiler and the bytecode verifier both search the field types of structs for a cycle. The
compiler also walks the structs of dependencies, and takes the type names it finds there for names
of the module being compiled.
-/

set_option autoImplicit false

namespace MeowChain.Compiler

open Relation Graphs

/-! ## The compiler's search -/

section Detect

variable (localStructs depStructs : List StructDef)

/-- Field types as the compiler follows them: by name, in the structs of the module and of its
dependencies together. -/
abbrev NameEdge : String → String → Prop :=
  Edge (fieldStructs (localStructs ++ depStructs))

def structNodes (structs : List StructDef) : List String :=
  structs.map (·.name) ++ structs.flatMap fun decl => decl.fields.map fun field => field.ty.name

def detectFuel (structs : List StructDef) : ℕ :=
  structs.length + (structs.map (·.fields.length)).sum + 1

theorem detectStructCycles_eq : detectStructCycles localStructs depStructs =
    match ((localStructs.map (·.name)).foldl
      (searchFrom (fieldStructs (localStructs ++ depStructs))
        (detectFuel (localStructs ++ depStructs))) (none, {})).1 with
    | none => .ok ()
    | some name =>
      refuse ("struct cycle detected: '" ++ name ++ "' is part of a recursive struct definition") := by
  rw [List.foldl_map]
  rfl

theorem find?_name {structs : List StructDef} {name : String} {decl : StructDef}
    (h : structs.find? (·.name == name) = some decl) : decl ∈ structs ∧ decl.name = name :=
  ⟨List.mem_of_find?_eq_some h, by simpa using List.find?_some h⟩

theorem mem_fieldStructs {structs : List StructDef} {name target : String} :
    target ∈ fieldStructs structs name ↔ ∃ decl, structs.find? (·.name == name) = some decl ∧
      ∃ field ∈ decl.fields, field.ty = .struct target := by
  unfold fieldStructs
  cases structs.find? (·.name == name) with
  | none => simp
  | some decl =>
    simp only [List.mem_filterMap, Option.some.injEq, exists_eq_left']
    refine exists_congr fun field => and_congr_right fun _ => ?_
    cases field.ty <;> simp

theorem mem_structNodes {structs : List StructDef} {name target : String}
    (h : target ∈ fieldStructs structs name) : target ∈ structNodes structs := by
  obtain ⟨decl, hdecl, field, hfield, hty⟩ := mem_fieldStructs.mp h
  refine List.mem_append_right _ (List.mem_flatMap.mpr ⟨decl, List.mem_of_find?_eq_some hdecl, ?_⟩)
  exact List.mem_map.mpr ⟨field, hfield, by rw [hty]; rfl⟩

theorem length_structNodes (structs : List StructDef) :
    (structNodes structs).length < detectFuel structs := by
  simp [structNodes, detectFuel, List.length_flatMap]

def ReportsCycle (result : Result Unit) : Prop :=
  ∃ name, result = refuse
    ("struct cycle detected: '" ++ name ++ "' is part of a recursive struct definition")

/-- The search reports a cycle exactly when one can be reached from a struct of the module. -/
theorem reportsCycle_detectStructCycles :
    ReportsCycle (detectStructCycles localStructs depStructs) ↔
      ∃ decl ∈ localStructs, ∃ name,
        ReflTransGen (NameEdge localStructs depStructs) decl.name name ∧
          TransGen (NameEdge localStructs depStructs) name name := by
  have hstarts : ∀ name ∈ localStructs.map (·.name),
      name ∈ structNodes (localStructs ++ depStructs) := by
    intro name hname
    rw [structNodes, List.map_append]
    exact List.mem_append_left _ (List.mem_append_left _ hname)
  have hnodes : ∀ name, ∀ target ∈ fieldStructs (localStructs ++ depStructs) name,
      target ∈ structNodes (localStructs ++ depStructs) :=
    fun _ _ htarget => mem_structNodes htarget
  have hspec := sweep_spec hnodes (length_structNodes _) hstarts
  rw [detectStructCycles_eq]
  generalize ((localStructs.map (·.name)).foldl (searchFrom (fieldStructs (localStructs ++ depStructs))
    (detectFuel (localStructs ++ depStructs))) (none, {})).1 = result at hspec ⊢
  cases result with
  | some found =>
    obtain ⟨start, hstart, hfound⟩ := hspec
    obtain ⟨decl, hdecl, rfl⟩ := List.mem_map.mp hstart
    exact iff_of_true ⟨found, rfl⟩ ⟨decl, hdecl, found, hfound⟩
  | none =>
    refine iff_of_false ?_ ?_
    · rintro ⟨name, h⟩
      cases h
    · rintro ⟨decl, hdecl, name, hreached, hcycle⟩
      exact hspec decl.name (List.mem_map_of_mem hdecl) name hreached hcycle

end Detect

/-! ## The verifier's search -/

section Verifier

open Verifier

variable (module : Module)

/-- The field types of a struct that the verifier follows. -/
def localFieldStructs (name : String) : List String :=
  match module.getStruct name with
  | some structDef => structDef.fields.filterMap fun field =>
    match field.ty with
    | .struct tyName =>
      if (parseModuleRef tyName).isNone && (module.structs.map (·.name)).contains tyName then
        some tyName
      else none
    | _ => none
  | none => []

abbrev LocalEdge : String → String → Prop :=
  Edge (localFieldStructs module)

def dfsField (fuel : ℕ) (st : DfsState) (tyName : String) : DfsState :=
  if st.visiting.contains tyName then
    { st with errors := st.errors ++ [.cyclicStructDefinition tyName] }
  else if st.visited.contains tyName then st
  else structDfs module fuel tyName st

def enterStruct (st : DfsState) (name : String) : DfsState :=
  { st with visiting := name :: st.visiting }

def leaveStruct (st : DfsState) (name : String) : DfsState :=
  { st with
    visiting := st.visiting.filter (· != name)
    visited := name :: st.visited }

theorem structDfs_succ (fuel : ℕ) (name : String) (st : DfsState) :
    structDfs module (fuel + 1) name st =
      leaveStruct ((localFieldStructs module name).foldl (dfsField module fuel)
        (enterStruct st name)) name := by
  have hfields : ∀ (fields : List FieldDef) (st : DfsState),
      fields.foldl (fun st field =>
        match field.ty with
        | .struct tyName =>
          if (parseModuleRef tyName).isNone && (module.structs.map (·.name)).contains tyName then
            if st.visiting.contains tyName then
              { st with errors := st.errors ++ [.cyclicStructDefinition tyName] }
            else if st.visited.contains tyName then st
            else structDfs module fuel tyName st
          else st
        | _ => st) st =
      (fields.filterMap fun field =>
        match field.ty with
        | .struct tyName =>
          if (parseModuleRef tyName).isNone && (module.structs.map (·.name)).contains tyName then
            some tyName
          else none
        | _ => none).foldl (dfsField module fuel) st := by
    intro fields
    induction fields with
    | nil => exact fun st => rfl
    | cons field fields ih =>
      intro st
      rw [List.foldl_cons, ih, List.filterMap_cons]
      cases field.ty with
      | struct tyName =>
        dsimp only
        by_cases hown : ((parseModuleRef tyName).isNone &&
            (module.structs.map (·.name)).contains tyName) = true
        · rw [if_pos hown, if_pos hown]
          rfl
        · rw [if_neg hown, if_neg hown]
      | _ => rfl
  rw [structDfs, localFieldStructs]
  cases module.getStruct name with
  | none => rfl
  | some structDef =>
    exact congrArg (leaveStruct · name) (hfields structDef.fields (enterStruct st name))

variable {module} {st st' st'' : DfsState} {name : String} {nodes targets : List String}
  {fuel : ℕ} {path path' : String → Prop}

def freshStructs (st : DfsState) (nodes : List String) : ℕ :=
  (nodes.filter fun x => !(st.visiting.contains x || st.visited.contains x)).length

def ReportsCyclic (errors : List VerificationError) : Prop :=
  ∃ name, .cyclicStructDefinition name ∈ errors

/-- Between two steps of a search without errors. -/
structure Clean (module : Module) (st : DfsState) : Prop where
  settled : Settled (LocalEdge module) { x | x ∈ st.visited }
  apart : ∀ x ∈ st.visiting, x ∉ st.visited

/-- What a part of the search does that is to finish `targets`. The errors stand for a cycle if
the structs on the path are where `path` says. -/
structure DfsSpec (module : Module) (nodes : List String) (fuel : ℕ) (path : String → Prop)
    (targets : List String) (st st' : DfsState) : Prop where
  visiting : ∀ x, x ∈ st'.visiting ↔ x ∈ st.visiting
  sound : ReportsCyclic st'.errors → (∀ x ∈ st.visiting, path x) →
    ReportsCyclic st.errors ∨ ∃ c, TransGen (LocalEdge module) c c
  errors : ReportsCyclic st.errors → ReportsCyclic st'.errors
  clean : ¬ ReportsCyclic st'.errors → Clean module st → freshStructs st nodes < fuel →
    Clean module st' ∧ (∀ x ∈ st.visited, x ∈ st'.visited) ∧ ∀ x ∈ targets, x ∈ st'.visited

theorem DfsSpec.refl (h : ∀ x ∈ targets, x ∈ st.visited) :
    DfsSpec module nodes fuel path targets st st where
  visiting _ := .rfl
  sound herrors _ := .inl herrors
  errors := id
  clean _ hclean _ := ⟨hclean, fun _ hx => hx, h⟩

theorem freshStructs_le (hvisiting : ∀ x ∈ st.visiting, x ∈ st'.visiting)
    (hvisited : ∀ x ∈ st.visited, x ∈ st'.visited) :
    freshStructs st' nodes ≤ freshStructs st nodes := by
  refine length_filter_le fun x hx => ?_
  simp only [Bool.not_eq_true', Bool.or_eq_false_iff, List.contains_eq_mem,
    decide_eq_false_iff_not] at hx ⊢
  exact ⟨fun h => hx.1 (hvisiting x h), fun h => hx.2 (hvisited x h)⟩

theorem freshStructs_enter_lt (hname : name ∈ nodes) (hvisiting : name ∉ st.visiting)
    (hvisited : name ∉ st.visited) :
    freshStructs (enterStruct st name) nodes < freshStructs st nodes := by
  refine length_filter_lt hname ?_ ?_ fun x hx => ?_
  · simp [hvisiting, hvisited]
  · simp [enterStruct]
  · simp only [enterStruct, Bool.not_eq_true', Bool.or_eq_false_iff, List.contains_eq_mem,
      decide_eq_false_iff_not] at hx ⊢
    exact ⟨fun h => hx.1 (List.mem_cons_of_mem _ h), hx.2⟩

theorem DfsSpec.cons (h : DfsSpec module nodes fuel path' [name] st st')
    (hpath : ∀ x, path x → path' x) (h' : DfsSpec module nodes fuel path targets st' st'') :
    DfsSpec module nodes fuel path (name :: targets) st st'' where
  visiting x := (h'.visiting x).trans (h.visiting x)
  sound herrors hon := by
    rcases h'.sound herrors fun x hx => hon x ((h.visiting x).mp hx) with herrors | hcycle
    · exact h.sound herrors fun x hx => hpath x (hon x hx)
    · exact .inr hcycle
  errors herrors := h'.errors (h.errors herrors)
  clean herrors hclean hfuel := by
    obtain ⟨hclean', hmore, hname⟩ := h.clean (mt h'.errors herrors) hclean hfuel
    obtain ⟨hclean'', hmore', htargets⟩ := h'.clean herrors hclean'
      ((freshStructs_le (fun x hx => (h.visiting x).mpr hx) hmore).trans_lt hfuel)
    refine ⟨hclean'', fun x hx => hmore' x (hmore x hx), fun x hx => ?_⟩
    rcases List.mem_cons.mp hx with rfl | hx
    · exact hmore' x (hname x List.mem_cons_self)
    · exact htargets x hx

theorem dfsSpec_leave (hname : name ∈ nodes) (hvisiting : name ∉ st.visiting)
    (hvisited : name ∉ st.visited)
    (h : DfsSpec module nodes fuel (ReflTransGen (LocalEdge module) · name)
      (localFieldStructs module name) (enterStruct st name) st') :
    DfsSpec module nodes (fuel + 1) (TransGen (LocalEdge module) · name) [name] st
      (leaveStruct st' name) where
  visiting x := by
    simp only [leaveStruct, List.mem_filter, h.visiting, enterStruct, List.mem_cons, bne_iff_ne]
    constructor
    · rintro ⟨heq | hx, hne⟩
      · exact absurd heq hne
      · exact hx
    · exact fun hx => ⟨.inr hx, fun heq => hvisiting (heq ▸ hx)⟩
  sound herrors hon := by
    refine h.sound herrors fun x hx => ?_
    rcases List.mem_cons.mp hx with rfl | hx
    · exact .refl
    · exact (hon x hx).to_reflTransGen
  errors herrors := h.errors herrors
  clean herrors hclean hfuel := by
    have henter : Clean module (enterStruct st name) := by
      refine ⟨hclean.settled, fun x hx => ?_⟩
      rcases List.mem_cons.mp hx with rfl | hx
      · exact hvisited
      · exact hclean.apart x hx
    obtain ⟨hclean', hmore, htargets⟩ := h.clean herrors henter
      (Nat.lt_of_lt_of_le (freshStructs_enter_lt hname hvisiting hvisited)
        (Nat.le_of_lt_succ hfuel))
    have hnew : name ∉ st'.visited :=
      hclean'.apart name ((h.visiting name).mpr List.mem_cons_self)
    have hinsert : { x | x ∈ (leaveStruct st' name).visited } =
        insert name { x | x ∈ st'.visited } := by
      ext x
      exact List.mem_cons
    refine ⟨⟨?_, fun x hx => ?_⟩, fun x hx => List.mem_cons_of_mem _ (hmore x hx), fun x hx => ?_⟩
    · rw [hinsert]
      exact hclean'.settled.insert hnew htargets
    · obtain ⟨hx, hne⟩ := List.mem_filter.mp hx
      intro hmem
      rcases List.mem_cons.mp hmem with heq | hmem
      · exact bne_iff_ne.mp hne heq
      · exact hclean'.apart x hx hmem
    · exact List.mem_cons.mpr (.inl (List.mem_singleton.mp hx))

theorem dfsSpec_foldl
    (ih : ∀ {name : String} {st : DfsState}, name ∈ nodes → name ∉ st.visiting →
      name ∉ st.visited → DfsSpec module nodes fuel (TransGen (LocalEdge module) · name) [name] st
        (structDfs module fuel name st))
    (htargets : ∀ y ∈ targets, LocalEdge module name y ∧ y ∈ nodes) :
    DfsSpec module nodes fuel (ReflTransGen (LocalEdge module) · name) targets st
      (targets.foldl (dfsField module fuel) st) := by
  induction targets generalizing st with
  | nil => exact .refl nofun
  | cons y ys ihys =>
    obtain ⟨⟨hedge, hy⟩, hys⟩ := List.forall_mem_cons.mp htargets
    rw [List.foldl_cons]
    by_cases hvisiting : y ∈ st.visiting
    · -- The search is back on its own path.
      have hfield : dfsField module fuel st y =
          { st with errors := st.errors ++ [.cyclicStructDefinition y] } := by
        simp [dfsField, hvisiting]
      rw [hfield]
      have hback : DfsSpec module nodes fuel (ReflTransGen (LocalEdge module) · name) [y] st
          { st with errors := st.errors ++ [.cyclicStructDefinition y] } := by
        have hreports : ReportsCyclic (st.errors ++ [.cyclicStructDefinition y]) :=
          ⟨y, List.mem_append_right _ List.mem_cons_self⟩
        exact ⟨fun _ => .rfl, fun _ hon => .inr ⟨y, .tail' (hon y hvisiting) hedge⟩,
          fun _ => hreports, fun h => absurd hreports h⟩
      exact hback.cons (fun _ h => h) (ihys hys)
    · by_cases hvisited : y ∈ st.visited
      · have hfield : dfsField module fuel st y = st := by
          simp [dfsField, hvisiting, hvisited]
        rw [hfield]
        have hdone : DfsSpec module nodes fuel (ReflTransGen (LocalEdge module) · name) [y] st st :=
          .refl (by simpa using hvisited)
        exact hdone.cons (fun _ h => h) (ihys hys)
      · have hfield : dfsField module fuel st y = structDfs module fuel y st := by
          simp [dfsField, hvisiting, hvisited]
        rw [hfield]
        exact (ih hy hvisiting hvisited).cons (fun _ h => .tail' h hedge) (ihys hys)

theorem dfsSpec_structDfs (hnodes : ∀ x, ∀ y ∈ localFieldStructs module x, y ∈ nodes)
    (hname : name ∈ nodes) (hvisiting : name ∉ st.visiting) (hvisited : name ∉ st.visited) :
    DfsSpec module nodes fuel (TransGen (LocalEdge module) · name) [name] st
      (structDfs module fuel name st) := by
  induction fuel generalizing name st with
  | zero =>
    exact ⟨fun _ => .rfl, fun herrors _ => .inl herrors, id,
      fun _ _ h => absurd h (Nat.not_lt_zero _)⟩
  | succ fuel ih =>
    rw [structDfs_succ]
    exact dfsSpec_leave hname hvisiting hvisited
      (dfsSpec_foldl ih fun y hy => ⟨hy, hnodes name y hy⟩)

theorem mem_localFieldStructs {target : String} :
    target ∈ localFieldStructs module name ↔ ∃ structDef, module.getStruct name = some structDef ∧
      (∃ field ∈ structDef.fields, field.ty = .struct target) ∧
      parseModuleRef target = none ∧ target ∈ module.structs.map (·.name) := by
  unfold localFieldStructs
  cases module.getStruct name with
  | none => simp
  | some structDef =>
    simp only [List.mem_filterMap, Option.some.injEq, exists_eq_left']
    constructor
    · rintro ⟨field, hfield, hsome⟩
      cases hty : field.ty with
      | struct tyName =>
        rw [hty] at hsome
        dsimp only at hsome
        split_ifs at hsome with hown
        cases hsome
        rw [Bool.and_eq_true, Option.isNone_iff_eq_none, List.contains_iff_mem] at hown
        exact ⟨⟨field, hfield, hty⟩, hown⟩
      | _ =>
        rw [hty] at hsome
        cases hsome
    · rintro ⟨⟨field, hfield, hty⟩, href, hmem⟩
      refine ⟨field, hfield, ?_⟩
      rw [hty]
      dsimp only
      rw [if_pos]
      rw [Bool.and_eq_true, Option.isNone_iff_eq_none, List.contains_iff_mem]
      exact ⟨href, hmem⟩

/-- The verifier reports a cycle exactly when the module's own structs have one. -/
theorem reportsCyclic_checkStructCycles (module : Module) :
    ReportsCyclic (checkStructCycles module) ↔ ∃ c, TransGen (LocalEdge module) c c := by
  set nodes := module.structs.map (·.name) with hnodes
  have hnext : ∀ x, ∀ y ∈ localFieldStructs module x, y ∈ nodes := by
    intro x y hy
    obtain ⟨_, _, _, _, hmem⟩ := mem_localFieldStructs.mp hy
    exact hmem
  have hfold : ∀ (structs : List StructDef) (st : DfsState), (∀ x, x ∉ st.visiting) →
      (∀ s ∈ structs, s.name ∈ nodes) →
      DfsSpec module nodes (module.structs.length + 1) (fun _ => False) (structs.map (·.name)) st
        (structs.foldl (fun st s => if st.visited.contains s.name then st
          else structDfs module (module.structs.length + 1) s.name st) st) := by
    intro structs
    induction structs with
    | nil => exact fun st _ _ => .refl nofun
    | cons s structs ih =>
      intro st hempty hnames
      obtain ⟨hname, hrest⟩ := List.forall_mem_cons.mp hnames
      rw [List.foldl_cons, List.map_cons]
      by_cases hvisited : s.name ∈ st.visited
      · have hdone : DfsSpec module nodes (module.structs.length + 1) (fun _ => False) [s.name]
            st st := .refl (by simpa using hvisited)
        rw [if_pos (List.contains_iff_mem.mpr hvisited)]
        exact hdone.cons (fun _ h => h) (ih st hempty hrest)
      · have hspec : DfsSpec module nodes (module.structs.length + 1) _ [s.name] st _ :=
          dfsSpec_structDfs hnext hname (hempty _) hvisited
        rw [if_neg (mt List.contains_iff_mem.mp hvisited)]
        exact hspec.cons (fun _ h => h.elim)
          (ih _ (fun x hx => hempty x ((hspec.visiting x).mp hx)) hrest)
  have hspec := hfold module.structs {} nofun fun s hs => List.mem_map_of_mem hs
  constructor
  · intro herrors
    refine (hspec.sound herrors nofun).resolve_left ?_
    rintro ⟨_, hmem⟩
    cases hmem
  · rintro ⟨c, hcycle⟩
    by_contra herrors
    have hclean : Clean module {} := ⟨⟨nofun, nofun⟩, nofun⟩
    obtain ⟨hclean', -, hall⟩ := hspec.clean herrors hclean
      (Nat.lt_succ_of_le ((List.length_filter_le _ _).trans_eq (List.length_map _)))
    obtain ⟨y, hedge, -⟩ := TransGen.head'_iff.mp hcycle
    obtain ⟨structDef, hstruct, -⟩ := mem_localFieldStructs.mp hedge
    have hc : c ∈ module.structs.map (·.name) :=
      List.mem_map.mpr ⟨structDef, find?_name hstruct⟩
    exact hclean'.settled.acyclic c (hall c hc) hcycle

end Verifier

/-! ## The two searches -/

section Exact

variable (localStructs depStructs : List StructDef)

/-- Field types that are structs of the module itself, from every struct of a name. -/
def OwnEdge (a b : String) : Prop :=
  (∃ decl ∈ localStructs, decl.name = a ∧ ∃ field ∈ decl.fields, field.ty = .struct b) ∧
    b ∈ localStructs.map (·.name)

def OwnCycle : Prop :=
  ∃ name, TransGen (OwnEdge localStructs) name name

def ForeignCycle : Prop :=
  ∃ decl ∈ localStructs, ∃ name, name ∉ localStructs.map (·.name) ∧
    ReflTransGen (NameEdge localStructs depStructs) decl.name name ∧
      TransGen (NameEdge localStructs depStructs) name name

variable {localStructs depStructs}

theorem exists_of_mem_names {structs : List StructDef} {name : String}
    (h : name ∈ structs.map (·.name)) :
    ∃ decl ∈ structs, decl.name = name ∧ structs.find? (·.name == name) = some decl := by
  obtain ⟨decl, hdecl, rfl⟩ := List.mem_map.mp h
  cases hfind : structs.find? (·.name == decl.name) with
  | none => exact absurd (List.find?_eq_none.mp hfind decl hdecl) (by simp)
  | some found =>
    obtain ⟨hmem, hname⟩ := find?_name hfind
    exact ⟨found, hmem, hname, rfl⟩

/-- The structs of the module come first. -/
theorem fieldStructs_append {name : String} (h : name ∈ localStructs.map (·.name)) :
    fieldStructs (localStructs ++ depStructs) name = fieldStructs localStructs name := by
  obtain ⟨decl, -, -, hfind⟩ := exists_of_mem_names h
  rw [fieldStructs, fieldStructs, List.find?_append, hfind]
  rfl

/-- The searches know one struct of a name, which is the only one if names are not repeated. -/
theorem mem_fieldStructs_of_nodup {structs : List StructDef}
    (hnodup : (structs.map (·.name)).Nodup) {a b : String} :
    b ∈ fieldStructs structs a ↔
      ∃ decl ∈ structs, decl.name = a ∧ ∃ field ∈ decl.fields, field.ty = .struct b := by
  rw [mem_fieldStructs]
  constructor
  · rintro ⟨decl, hfind, hfield⟩
    obtain ⟨hdecl, hname⟩ := find?_name hfind
    exact ⟨decl, hdecl, hname, hfield⟩
  · rintro ⟨decl, hdecl, rfl, hfield⟩
    obtain ⟨found, hfound, hname, hfind⟩ := exists_of_mem_names (List.mem_map_of_mem hdecl)
    obtain rfl := List.inj_on_of_nodup_map hnodup hfound hdecl hname
    exact ⟨found, hfind, hfield⟩

theorem OwnEdge.mem_names {a b : String} (h : OwnEdge localStructs a b) :
    a ∈ localStructs.map (·.name) := by
  obtain ⟨⟨decl, hdecl, hname, -⟩, -⟩ := h
  exact List.mem_map.mpr ⟨decl, hdecl, hname⟩

theorem OwnEdge.nameEdge (hnodup : (localStructs.map (·.name)).Nodup) {a b : String}
    (h : OwnEdge localStructs a b) : NameEdge localStructs depStructs a b := by
  have hedge := (mem_fieldStructs_of_nodup hnodup).mpr h.1
  rw [← @fieldStructs_append localStructs depStructs a h.mem_names] at hedge
  exact hedge

theorem reportsCycle_iff (hnodup : (localStructs.map (·.name)).Nodup) :
    ReportsCycle (detectStructCycles localStructs depStructs) ↔
      OwnCycle localStructs ∨ ForeignCycle localStructs depStructs := by
  rw [reportsCycle_detectStructCycles]
  constructor
  · rintro ⟨decl, hdecl, name, hreached, hcycle⟩
    have hinside : ∀ {x y}, x ∈ { x | x ∈ localStructs.map (·.name) } →
        y ∈ { x | x ∈ localStructs.map (·.name) } → NameEdge localStructs depStructs x y →
        OwnEdge localStructs x y := by
      intro x y hx hy hedge
      have hedge : y ∈ fieldStructs (localStructs ++ depStructs) x := hedge
      rw [fieldStructs_append hx] at hedge
      exact ⟨(mem_fieldStructs_of_nodup hnodup).mp hedge, hy⟩
    rcases cycle_or_leaves hinside hcycle with hown | ⟨other, hother, hpath, hcycle'⟩
    · exact .inl ⟨name, hown⟩
    · exact .inr ⟨decl, hdecl, other, hother, hreached.trans hpath, hcycle'⟩
  · rintro (⟨name, hcycle⟩ | ⟨decl, hdecl, name, -, hreached, hcycle⟩)
    · obtain ⟨y, hedge, -⟩ := TransGen.head'_iff.mp hcycle
      obtain ⟨decl, hdecl, hname, -⟩ := exists_of_mem_names hedge.mem_names
      exact ⟨decl, hdecl, name, hname ▸ .refl,
        TransGen.mono (fun _ _ => OwnEdge.nameEdge hnodup) _ _ hcycle⟩
    · exact ⟨decl, hdecl, name, hreached, hcycle⟩

/-! ### Field types with addresses -/

section Translated

variable {config : CompilerConfig} {depAddresses : List (String × Address)}

theorem translateFieldType_eq_struct {ty : Ty} {name : String}
    (hname : isQualified name = false) (hcolon : ':' ∉ name.toList) :
    translateFieldType depAddresses ty = .struct name ↔ ty = .struct name := by
  cases ty with
  | struct other =>
    constructor
    · intro h
      rw [translateFieldType] at h
      cases hsplit : splitOnce other.toList with
      | none =>
        rw [hsplit] at h
        exact h
      | some parts =>
        rw [hsplit] at h
        dsimp only at h
        cases hlookup : depAddresses.lookup (String.ofList parts.1) with
        | none =>
          rw [hlookup] at h
          exact h
        | some addr =>
          rw [hlookup] at h
          have hqualify := Ty.struct.inj h
          rw [← hqualify, isQualified_qualify] at hname
          cases hname
    · intro h
      rw [h, translateFieldType, splitOnce_eq_none hcolon]
  | tuple types => simp [translateFieldType]
  | _ => simp [translateFieldType]

theorem mem_fieldStructs_translate {structs : List StructDef} {a b : String}
    (hqualified : isQualified b = false) (hcolon : ':' ∉ b.toList) :
    (∃ structDef, (translateStructFieldTypes depAddresses structs).find? (·.name == a) =
        some structDef ∧ ∃ field ∈ structDef.fields, field.ty = .struct b) ↔
      b ∈ fieldStructs structs a := by
  rw [mem_fieldStructs, translateStructFieldTypes, List.find?_map]
  have hcomp : ((fun s : StructDef => s.name == a) ∘ fun decl : StructDef => { decl with
      fields := decl.fields.map fun field =>
        { field with ty := translateFieldType depAddresses field.ty } }) = (·.name == a) := rfl
  rw [hcomp]
  cases structs.find? (·.name == a) with
  | none => simp
  | some decl =>
    simp only [Option.map_some, Option.some.injEq, exists_eq_left', List.mem_map,
      exists_exists_and_eq_and, translateFieldType_eq_struct hqualified hcolon]

/-- The verifier sees the same graph in the compiled structs. -/
theorem localEdge_iff {module : Module} {structs : List StructDef}
    (hstructs : module.structs = translateStructFieldTypes depAddresses structs)
    (hvalid : ∀ decl ∈ structs, isValidIdentifier decl.name config = true)
    (hnodup : (structs.map (·.name)).Nodup) (a b : String) :
    LocalEdge module a b ↔ OwnEdge structs a b := by
  have hnames : module.structs.map (·.name) = structs.map (·.name) := by
    rw [hstructs, translateStructFieldTypes, List.map_map]
    rfl
  have hfields : b ∈ structs.map (·.name) → isQualified b = false ∧ ':' ∉ b.toList := by
    intro hb
    obtain ⟨decl, hdecl, rfl⟩ := List.mem_map.mp hb
    have hname := hvalid decl hdecl
    exact ⟨isQualified_of_isValidIdentifier hname, colon_not_mem_of_isValidIdentifier hname⟩
  refine mem_localFieldStructs.trans ?_
  rw [hnames, OwnEdge, ← mem_fieldStructs_of_nodup hnodup]
  constructor
  · rintro ⟨structDef, hfind, hfield, -, hb⟩
    obtain ⟨hqualified, hcolon⟩ := hfields hb
    rw [Module.getStruct, hstructs] at hfind
    exact ⟨(mem_fieldStructs_translate hqualified hcolon).mp ⟨structDef, hfind, hfield⟩, hb⟩
  · rintro ⟨hedge, hb⟩
    obtain ⟨hqualified, hcolon⟩ := hfields hb
    obtain ⟨structDef, hfind, hfield⟩ :=
      (@mem_fieldStructs_translate depAddresses structs a b hqualified hcolon).mpr hedge
    rw [← hstructs] at hfind
    exact ⟨structDef, hfind, hfield, parseModuleRef_eq_none hqualified, hb⟩

end Translated

theorem isValidIdentifier_of_validate {config : CompilerConfig} {decl : AstStruct}
    (h : validateStructDef config decl = .ok ()) : isValidIdentifier decl.name config = true := by
  obtain ⟨_, hname, -⟩ := ok_of_bind h
  by_contra hnot
  rw [validateIdentifier, if_neg hnot] at hname
  cases hname

end Exact

namespace SharedName

def libSource : String :=
  "mod lib; struct A \x7b n: u64 \x7d pub struct S \x7b y: A \x7d"

def libItems : List AstItem :=
  [.moduleDecl "lib", .struct { isPublic := false, name := "A", fields := [("n", .u64)] },
    .struct { isPublic := true, name := "S", fields := [("y", .struct "A")] }]

def lib : Module where
  name := "lib"
  imports := []
  structs := localStructs libItems
  functions := []

def source : String :=
  "mod m; use lib@0x05; struct A \x7b x: lib::S \x7d"

def items : List AstItem :=
  [.moduleDecl "m", .use "lib" (Address.suffixed 0x05) none,
    .struct { isPublic := false, name := "A", fields := [("x", .struct "lib::S")] }]

def module : Module where
  name := "m"
  imports := [Address.suffixed 0x05]
  structs := translateStructFieldTypes [("lib", Address.suffixed 0x05)] (localStructs items)
  functions := []

theorem not_ownCycle {structs : List StructDef} (hnodup : (structs.map (·.name)).Nodup)
    (h : detectStructCycles structs [] = .ok ()) : ¬ OwnCycle structs := by
  intro hcycle
  obtain ⟨name, hreports⟩ := (@reportsCycle_iff structs [] hnodup).mpr (.inl hcycle)
  rw [h] at hreports
  cases hreports

end SharedName

/-! ### Two structs of one name -/

namespace Repeated

def source : String :=
  "mod m; struct A \x7b n: u64 \x7d struct A \x7b x: A \x7d"

def items : List AstItem :=
  [.moduleDecl "m", .struct { isPublic := false, name := "A", fields := [("n", .u64)] },
    .struct { isPublic := false, name := "A", fields := [("x", .struct "A")] }]

def module : Module where
  name := "m"
  imports := []
  structs := localStructs items
  functions := []

theorem ownCycle : OwnCycle (localStructs items) :=
  ⟨"A", .single ⟨⟨_, List.mem_cons_of_mem _ List.mem_cons_self, rfl, _, List.mem_cons_self, rfl⟩,
    by decide +kernel⟩⟩

end Repeated

/-! ### Two structs that contain each other -/

namespace Mutual

def items : List AstItem :=
  [.moduleDecl "m", .struct { isPublic := false, name := "A", fields := [("x", .struct "B")] },
    .struct { isPublic := false, name := "B", fields := [("y", .struct "A")] }]

def module : Module where
  name := "m"
  imports := []
  structs := localStructs items
  functions := []

theorem ownCycle : OwnCycle (localStructs items) := by
  have hedge : OwnEdge (localStructs items) "A" "B" :=
    ⟨⟨_, List.mem_cons_self, rfl, _, List.mem_cons_self, rfl⟩, by decide +kernel⟩
  have hback : OwnEdge (localStructs items) "B" "A" :=
    ⟨⟨_, List.mem_cons_of_mem _ List.mem_cons_self, rfl, _, List.mem_cons_self, rfl⟩,
      by decide +kernel⟩
  exact ⟨"A", .tail (.single hedge) hback⟩

theorem resolved : ∀ decl ∈ localStructs items, ∀ field ∈ decl.fields, ∀ name,
    field.ty = .struct name → isKnownStruct (localStructs items) [] name := by
  intro decl hdecl field hfield name hty
  have hnames : ∀ decl ∈ localStructs items, ∀ field ∈ decl.fields, ∃ n ∈ ["A", "B"],
      field.ty = .struct n := by decide +kernel
  obtain ⟨n, hn, hty'⟩ := hnames decl hdecl field hfield
  obtain rfl : name = n := Ty.struct.inj (hty.symm.trans hty')
  have hknown : ∀ n ∈ ["A", "B"], isKnownStruct (localStructs items) [] n = true := by
    decide +kernel
  exact hknown name hn

end Mutual

end MeowChain.Compiler
