import MeowChain.Compiler.CycleSearch
import MeowChain.Lib.Assoc

/-!
# Cycles of imports

`detect_module_dep_cycles` searches the imports among the provided modules. It goes over a module
once, whatever start the search came from, and begins every start with an empty path.
-/

set_option autoImplicit false

namespace MeowChain.Compiler

open Relation

variable (deps : List (Address × Module))

def ImportEdge (a b : Address) : Prop :=
  ∃ module, (a, module) ∈ deps ∧ b ∈ module.imports ∧ b ∈ deps.map (·.1)

def circularImport (name : String) (addr : Address) : String :=
  "circular module dependency detected: module '" ++ name ++ "' at "
    ++ String.ofList addr.toChars ++ " is part of a recursive import chain"

def reportModuleCycle : Option Address → Result Unit
  | none => .ok ()
  | some addr => refuse (circularImport (((deps.lookup addr).map (·.name)).getD "<unknown>") addr)

def moduleVisit (fuel : ℕ) (acc : Option Address × Visits Address) (dep : Address × Module) :
    Option Address × Visits Address :=
  if acc.1.isSome || acc.2.visited.contains dep.1 then acc
  else dfsCycle (importsProvided deps) fuel dep.1 { acc.2 with inStack := [] }

theorem detectModuleDepCycles_eq : detectModuleDepCycles deps =
    reportModuleCycle deps (deps.foldl (moduleVisit deps (deps.length + 1)) (none, {})).1 := by
  unfold detectModuleDepCycles reportModuleCycle
  rfl

/-- `moduleVisit`, but without a result when the search would go deeper than the fuel. -/
def moduleVisitWithin (fuel : ℕ) (acc : Option Address × Visits Address) (dep : Address × Module) :
    Option (Option Address × Visits Address) :=
  if acc.1.isSome || acc.2.visited.contains dep.1 then some acc
  else dfsCycleWithin (importsProvided deps) fuel dep.1 { acc.2 with inStack := [] }

def detectModuleDepCyclesWithin (fuel : ℕ) : Option (Result Unit) :=
  (deps.foldlM (moduleVisitWithin deps fuel) (none, {})).map fun acc =>
    reportModuleCycle deps acc.1

variable {deps}

theorem mem_importsProvided {a b : Address} : b ∈ importsProvided deps a ↔
    ∃ module, deps.lookup a = some module ∧ b ∈ module.imports ∧ b ∈ deps.map (·.1) := by
  have hprovided : (deps.lookup b).isSome = true ↔ b ∈ deps.map (·.1) := by
    constructor
    · intro h
      obtain ⟨module, hlookup⟩ := Option.isSome_iff_exists.mp h
      exact List.mem_map_of_mem (Assoc.mem_of_lookup hlookup)
    · intro h
      obtain ⟨dep, hdep, rfl⟩ := List.mem_map.mp h
      exact Assoc.lookup_isSome_of_mem hdep
  unfold importsProvided
  cases deps.lookup a with
  | none => simp
  | some module =>
    rw [List.mem_filter, hprovided]
    simp

theorem edge_iff_importEdge (hdistinct : (deps.map (·.1)).Nodup) (a b : Address) :
    Edge (importsProvided deps) a b ↔ ImportEdge deps a b := by
  refine mem_importsProvided.trans (exists_congr fun module => and_congr_left fun _ => ?_)
  exact Assoc.lookup_eq_some_iff hdistinct

section Search

variable {fuel : ℕ} {starts : List (Address × Module)} {acc : Option Address × Visits Address}
  {dep : Address × Module}

/-- Between two starts: the path is empty. -/
def AtStart (deps : List (Address × Module)) (acc : Option Address × Visits Address) : Prop :=
  acc.1 = none → acc.2.Sound (importsProvided deps) ∧ acc.2.inStack = []

theorem mem_of_mem_importsProvided (a : Address) : ∀ b ∈ importsProvided deps a,
    b ∈ deps.map (·.1) := by
  intro b hb
  obtain ⟨_, _, _, hprovided⟩ := mem_importsProvided.mp hb
  exact hprovided

theorem moduleVisit_eq (h : AtStart deps acc) :
    moduleVisit deps fuel acc dep = searchFrom (importsProvided deps) fuel acc dep.1 := by
  obtain ⟨r, st⟩ := acc
  cases r with
  | some found => rfl
  | none =>
    obtain ⟨-, hstack⟩ := h rfl
    unfold moduleVisit searchFrom
    rw [← hstack]

theorem moduleVisitWithin_eq (hfuel : deps.length < fuel) (hdep : dep ∈ deps)
    (h : AtStart deps acc) : moduleVisitWithin deps fuel acc dep =
      some (searchFrom (importsProvided deps) fuel acc dep.1) := by
  obtain ⟨r, st⟩ := acc
  cases r with
  | some found => rfl
  | none =>
    obtain ⟨hsound, hstack⟩ := h rfl
    unfold moduleVisitWithin searchFrom
    rw [← hstack]
    by_cases hvisited : dep.1 ∈ st.visited
    · simp [hvisited]
    · have hterminates := dfsCycleWithin_eq mem_of_mem_importsProvided hsound
        (List.mem_map_of_mem hdep) hvisited
        ((List.length_filter_le _ _).trans_lt ((List.length_map _).trans_lt hfuel))
      simpa [hvisited] using hterminates

theorem AtStart.searchFrom (hfuel : deps.length < fuel) (hdep : dep ∈ deps)
    (h : AtStart deps acc) :
    AtStart deps (searchFrom (importsProvided deps) fuel acc dep.1) := by
  obtain ⟨r, st⟩ := acc
  cases r with
  | some found => exact h
  | none =>
    obtain ⟨hsound, hstack⟩ := h rfl
    have hspec := sweepSpec_foldl mem_of_mem_importsProvided
      ((List.length_map _).trans_lt hfuel)
      (List.forall_mem_singleton.mpr (List.mem_map_of_mem hdep)) hsound
      (List.eq_nil_iff_forall_not_mem.mp hstack)
    intro hnone
    obtain ⟨hsound', hstack', -⟩ := hspec.none_spec hnone
    exact ⟨hsound', List.eq_nil_iff_forall_not_mem.mpr hstack'⟩

theorem foldl_moduleVisit (hfuel : deps.length < fuel) (hstarts : ∀ dep ∈ starts, dep ∈ deps)
    (h : AtStart deps acc) :
    starts.foldl (moduleVisit deps fuel) acc =
        (starts.map (·.1)).foldl (searchFrom (importsProvided deps) fuel) acc ∧
      starts.foldlM (moduleVisitWithin deps fuel) acc =
        some ((starts.map (·.1)).foldl (searchFrom (importsProvided deps) fuel) acc) := by
  induction starts generalizing acc with
  | nil => exact ⟨rfl, rfl⟩
  | cons dep starts ih =>
    obtain ⟨hdep, hrest⟩ := List.forall_mem_cons.mp hstarts
    rw [List.foldl_cons, List.foldlM_cons, moduleVisit_eq h, moduleVisitWithin_eq hfuel hdep h]
    exact ih hrest (h.searchFrom hfuel hdep)

theorem atStart_empty : AtStart deps (none, {}) :=
  fun _ => ⟨Visits.sound_empty, rfl⟩

end Search

theorem detectModuleDepCycles_within :
    detectModuleDepCyclesWithin deps (deps.length + 1) = some (detectModuleDepCycles deps) := by
  obtain ⟨hfold, hwithin⟩ :=
    foldl_moduleVisit (Nat.lt_succ_self deps.length) (fun _ h => h) atStart_empty
  rw [detectModuleDepCyclesWithin, hwithin, detectModuleDepCycles_eq, hfold]
  rfl

theorem detectModuleDepCycles_spec (hdistinct : (deps.map (·.1)).Nodup) :
    (detectModuleDepCycles deps = .ok () ∧ ∀ addr, ¬ TransGen (ImportEdge deps) addr addr) ∨
      ∃ addr module, (addr, module) ∈ deps ∧
        detectModuleDepCycles deps = refuse (circularImport module.name addr) ∧
        TransGen (ImportEdge deps) addr addr := by
  have hedges : Edge (importsProvided deps) = ImportEdge deps := by
    funext a b
    exact propext (edge_iff_importEdge hdistinct a b)
  have hprovided : ∀ {addr}, TransGen (ImportEdge deps) addr addr →
      ∃ module, (addr, module) ∈ deps := by
    intro addr hcycle
    obtain ⟨_, ⟨module, hmem, -⟩, -⟩ := TransGen.head'_iff.mp hcycle
    exact ⟨module, hmem⟩
  obtain ⟨hfold, -⟩ :=
    foldl_moduleVisit (Nat.lt_succ_self deps.length) (fun _ h => h) (@atStart_empty deps)
  have hspec := sweep_spec (@mem_of_mem_importsProvided deps)
    ((List.length_map _).trans_lt (Nat.lt_succ_self deps.length)) (fun _ h => h)
  rw [hedges] at hspec
  rw [detectModuleDepCycles_eq, hfold]
  generalize ((deps.map (·.1)).foldl (searchFrom (importsProvided deps) (deps.length + 1))
    (none, {})).1 = result at hspec ⊢
  cases result with
  | none =>
    refine .inl ⟨rfl, fun addr hcycle => ?_⟩
    obtain ⟨module, hmem⟩ := hprovided hcycle
    exact hspec addr (List.mem_map_of_mem hmem) addr .refl hcycle
  | some addr =>
    obtain ⟨-, -, -, hcycle⟩ := hspec
    obtain ⟨module, hmem⟩ := hprovided hcycle
    refine .inr ⟨addr, module, hmem, ?_, hcycle⟩
    rw [reportModuleCycle, (Assoc.lookup_eq_some_iff hdistinct).mpr hmem]
    rfl

/-- The search ends, reports an error exactly if the provided modules import each other in a
circle, and names a module on one. -/
theorem module_cycles_exact (deps : List (Address × Module))
    (hdistinct : (deps.map (·.1)).Nodup) :
    detectModuleDepCyclesWithin deps (deps.length + 1) = some (detectModuleDepCycles deps) ∧
      ((∃ e, detectModuleDepCycles deps = .error e) ↔
        ∃ addr, TransGen (ImportEdge deps) addr addr) ∧
      ∀ e, detectModuleDepCycles deps = .error e → ∃ addr module, (addr, module) ∈ deps ∧
        e = .message (circularImport module.name addr) ∧
        TransGen (ImportEdge deps) addr addr := by
  refine ⟨detectModuleDepCycles_within, ?_⟩
  rcases detectModuleDepCycles_spec hdistinct with
    ⟨hok, hacyclic⟩ | ⟨addr, module, hmem, herror, hcycle⟩
  · rw [hok]
    refine ⟨iff_of_false ?_ fun ⟨addr, hcycle⟩ => hacyclic addr hcycle, nofun⟩
    rintro ⟨e, he⟩
    cases he
  · rw [herror]
    refine ⟨iff_of_true ⟨_, rfl⟩ ⟨addr, hcycle⟩, fun e he => ?_⟩
    cases he
    exact ⟨addr, module, hmem, rfl, hcycle⟩

/-! ### A module that imports itself -/

namespace SelfImport

def modules : List (Address × Module) :=
  [(Address.suffixed 0x05,
    { name := "loop", imports := [Address.suffixed 0x05], structs := [], functions := [] })]

end SelfImport

theorem module_cycles_exact_selfImport :
    ∃ addr, TransGen (ImportEdge SelfImport.modules) addr addr := by
  obtain ⟨-, hiff, -⟩ := module_cycles_exact SelfImport.modules (by decide +kernel)
  refine hiff.mp ⟨.message (circularImport "loop" (Address.suffixed 0x05)), ?_⟩
  decide +kernel

end MeowChain.Compiler
