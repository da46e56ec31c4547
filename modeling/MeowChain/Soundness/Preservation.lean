import Mathlib.Data.List.Nodup
import MeowChain.Lib.Assoc
import MeowChain.Lib.Run
import MeowChain.Soundness.Frames

/-!
# Preservation over whole runs

Every module of the machine was accepted by the verifier, each against its own part of the
dependencies. Then every frame of every state of a run matches the state the verifier holds at
its position, as long as the field paths of the run resolve.
-/

set_option autoImplicit false

namespace MeowChain

open Verifier

variable {τ σ : Type}

/-! ## Accepted modules -/

section Accepted

variable {m : Module} {deps : DepMap} {sigs : List NativeSig} {cfg : CompilerConfig}

theorem verify_eq_nil (h : verify m deps sigs cfg = []) :
    checkModule m deps cfg = [] ∧ ∀ f ∈ m.functions,
      checkFunction { func := f, module := m, deps, natives := builtinNatives ++ sigs } = [] := by
  obtain ⟨hmodule, hfunctions⟩ := List.append_eq_nil_iff.mp h
  exact ⟨hmodule, List.flatMap_eq_nil_iff.mp hfunctions⟩

theorem fieldTypesValid_of_checkModule (h : checkModule m deps cfg = []) : FieldTypesValid m := by
  simp only [checkModule, List.append_eq_nil_iff] at h
  intro s hs field hfield
  obtain ⟨seen, hstruct⟩ := checkStruct_of_mem h.1.1.2 hs
  simp only [checkStruct, List.append_eq_nil_iff, List.flatMap_eq_nil_iff] at hstruct
  have hcheck := hstruct.2 field hfield
  simp only [checkField, List.append_eq_nil_iff, report_eq_nil] at hcheck
  simpa using hcheck.1.2

theorem checkStructs_nodup {seen : List String} {structs : List StructDef}
    (h : checkStructs m deps cfg seen structs = []) :
    (structs.map (·.name)).Nodup ∧ ∀ s ∈ structs, s.name ∉ seen := by
  induction structs generalizing seen with
  | nil => exact ⟨List.nodup_nil, fun s hs => absurd hs List.not_mem_nil⟩
  | cons s structs ih =>
    obtain ⟨hs, hrest⟩ := List.append_eq_nil_iff.mp h
    obtain ⟨hnodup, hnew⟩ := ih hrest
    simp only [checkStruct, List.append_eq_nil_iff, report_eq_nil] at hs
    have hfirst : s.name ∉ seen := by simpa using hs.1.1.1.2
    constructor
    · refine List.nodup_cons.mpr ⟨fun hmem => ?_, hnodup⟩
      obtain ⟨t, ht, hname⟩ := List.mem_map.mp hmem
      exact hnew t ht (hname ▸ List.mem_cons_self)
    · refine List.forall_mem_cons.mpr ⟨hfirst, fun t ht hseen => ?_⟩
      exact hnew t ht (List.mem_cons_of_mem _ hseen)

theorem getStruct_of_mem (h : checkModule m deps cfg = []) {s : StructDef} (hs : s ∈ m.structs) :
    m.getStruct s.name = some s := by
  simp only [checkModule, List.append_eq_nil_iff] at h
  have hnodup := (checkStructs_nodup h.1.1.2).1
  refine Assoc.find?_eq_some_of_unique hs (beq_self_eq_true _) fun t ht hname => ?_
  exact List.inj_on_of_nodup_map hnodup ht hs (by simpa using hname)

theorem isValidIdentifier_of_getStruct (h : checkModule m deps cfg = []) {name : String}
    (hstruct : (m.getStruct name).isSome = true) : isValidIdentifier name cfg = true := by
  obtain ⟨s, hs⟩ := Option.isSome_iff_exists.mp hstruct
  simp only [checkModule, List.append_eq_nil_iff] at h
  obtain ⟨seen, hchecked⟩ := checkStruct_of_mem h.1.1.2 (List.mem_of_find?_eq_some hs)
  simp only [checkStruct, List.append_eq_nil_iff, report_eq_nil] at hchecked
  have hname : s.name = name := by simpa using List.find?_some hs
  rw [← hname]
  simpa using hchecked.1.1.1.1

theorem checkFunctionDef_of_checkModule (h : checkModule m deps cfg = []) {f : Function}
    (hf : f ∈ m.functions) : ∃ seen, checkFunctionDef m deps cfg seen f = [] := by
  simp only [checkModule, List.append_eq_nil_iff] at h
  exact checkFunctionDef_of_mem h.2 hf

theorem isFunctionName_of_getFunction (h : checkModule m deps cfg = []) {name : String}
    {f : Function} (hget : m.getFunction name = some f) : isFunctionName cfg name = true := by
  obtain ⟨seen, hdef⟩ := checkFunctionDef_of_checkModule h (List.mem_of_find?_eq_some hget)
  have hname : f.name = name := by simpa using List.find?_some hget
  simp only [checkFunctionDef, List.append_eq_nil_iff, report_eq_nil] at hdef
  rw [← hname]
  simpa using hdef.1.1.1.1

theorem params_le_localCount (h : checkModule m deps cfg = []) {f : Function}
    (hf : f ∈ m.functions) : f.params.length ≤ f.localCount := by
  obtain ⟨seen, hdef⟩ := checkFunctionDef_of_checkModule h hf
  simp only [checkFunctionDef, checkFunctionLimits, List.append_eq_nil_iff, report_eq_nil] at hdef
  simpa using hdef.1.2.1.1.1

theorem checkInstr_of_checkModule (h : checkModule m deps cfg = []) {f : Function}
    (hf : f ∈ m.functions) {pc : ℕ} {instr : Instruction} (hinstr : f.code[pc]? = some instr) :
    checkInstr m deps cfg f pc instr = [] := by
  obtain ⟨seen, hdef⟩ := checkFunctionDef_of_checkModule h hf
  simp only [checkFunctionDef, List.append_eq_nil_iff] at hdef
  have hcode := checkInstr_of_checkCode hdef.2 hinstr
  rwa [Nat.zero_add] at hcode

theorem checkJump_of_checkInstr {f : Function} {pc : ℕ} {instr : Instruction} {offset : ℤ}
    (hoffset : instr.jumpOffset = some offset) (h : checkInstr m deps cfg f pc instr = []) :
    checkJump f pc offset = [] := by
  cases instr with
  | jump o | jumpIf o | jumpIfNot o =>
    obtain rfl := Option.some.inj hoffset
    exact h
  | _ => cases hoffset

end Accepted

/-! ## Linked machines -/

def Vm.world (vm : Vm σ) : World := fun a =>
  if a = vm.moduleAddr then some vm.module else vm.deps[a]?

/-- Every module of the machine is accepted against the dependencies `depsOf` its address, which
are dependencies of the machine, and calls to natives mean the same to the verifier and the
machine. -/
structure Linked (vm : Vm σ) (sigs : List NativeSig) (cfg : CompilerConfig)
    (depsOf : Address → DepMap) : Prop where
  main : ∀ {m : Module}, vm.deps[vm.moduleAddr]? = some m → m = vm.module
  accepted : ∀ {a : Address} {m : Module}, vm.world a = some m →
    verify m (depsOf a) sigs cfg = []
  depsOf_sub : ∀ {a b : Address} {m n : Module}, vm.world a = some m →
    (depsOf a)[b]? = some n → vm.deps[b]? = some n
  natives : ∀ name, (vm.getNative name).map (·.toNativeSig)
    = (builtinNatives ++ sigs).find? (·.name == name)

/-- Natives return values of their declared return type, whoever calls them. -/
def NativesTyped (vm : Vm σ) : Prop :=
  ∀ {name : String} {entry : NativeFnEntry σ} {ctx ctx' : σ} {args : List (Value Unit)}
    {v : Option (Value Unit)} (a : Address), vm.getNative name = some entry →
    entry.func ctx args = (.ret v, ctx') →
    HasType vm.world a (v.getD .void) (returnAbstract entry.returnType)

def Frame.scope (sigs : List NativeSig) (depsOf : Address → DepMap) (fr : Frame τ) : Scope where
  func := fr.function
  module := fr.context
  deps := depsOf fr.contextAddr
  natives := builtinNatives ++ sigs

structure FrameOk (vm : Vm σ) (sigs : List NativeSig) (depsOf : Address → DepMap)
    (fr : Frame τ) : Prop where
  world : vm.world fr.contextAddr = some fr.context
  function : fr.function ∈ fr.context.functions
  state : ∃ s, Certified (fr.scope sigs depsOf) fr.pc s ∧ FrameTyped vm.world fr s

/-- The caller goes on correctly once the callee has returned a value of its return type. -/
def Awaits (vm : Vm σ) (sigs : List NativeSig) (depsOf : Address → DepMap)
    (caller callee : Frame τ) : Prop :=
  ∀ v, HasType vm.world callee.contextAddr v (returnAbstract callee.function.returnType) →
    FrameOk vm sigs depsOf (caller.push v)

def ChainOk (vm : Vm σ) (sigs : List NativeSig) (depsOf : Address → DepMap) :
    Frame τ → List (Frame τ) → Prop
  | _, [] => True
  | callee, caller :: callers =>
    Awaits vm sigs depsOf caller callee ∧ ChainOk vm sigs depsOf caller callers

structure StateOk (vm : Vm σ) (sigs : List NativeSig) (depsOf : Address → DepMap)
    (s : State τ σ) : Prop where
  frame : FrameOk vm sigs depsOf s.frame
  chain : ChainOk vm sigs depsOf s.frame s.callers

def State.FieldPathsResolve (s : State τ σ) : Prop :=
  ∀ instr ∈ s.frame.current, s.frame.pathsResolve instr = true

instance (s : State τ σ) : Decidable s.FieldPathsResolve :=
  inferInstanceAs (Decidable (∀ instr ∈ s.frame.current, s.frame.pathsResolve instr = true))

/-- Errors that acceptance does not exclude. -/
def VmError.Dynamic (e : VmError) : Prop :=
  e.Arithmetic ∨ (∃ spent limit, e = .outOfGas spent limit) ∨ (∃ d, e = .callStackOverflow d) ∨
  (∃ code message, e = .aborted code message) ∨ ∃ message, e = .nativeError message

def StepOk (vm : Vm σ) (sigs : List NativeSig) (depsOf : Address → DepMap) (trap : Prop) :
    StepResult τ σ → Prop
  | .next s' => StateOk vm sigs depsOf s'
  | .done final =>
    (∃ v, final.outcome = .ok v) ∨ ∃ e, final.outcome = .err e ∧ (e.Dynamic ∨ trap)

theorem stepOk_fail {vm : Vm σ} {sigs : List NativeSig} {depsOf : Address → DepMap} {trap : Prop}
    {s : State τ σ} {e : VmError} (he : e.Dynamic) :
    StepOk vm sigs depsOf trap (s.fail e) :=
  .inr ⟨e, rfl, .inl he⟩

theorem StepOk.imp {vm : Vm σ} {sigs : List NativeSig} {depsOf : Address → DepMap}
    {trap trap' : Prop} {r : StepResult τ σ} (h : StepOk vm sigs depsOf trap r)
    (htrap : trap → trap') : StepOk vm sigs depsOf trap' r := by
  cases r with
  | next s' => exact h
  | done final =>
    rcases h with hok | ⟨e, he, hdynamic⟩
    · exact .inl hok
    · exact .inr ⟨e, he, hdynamic.imp_right htrap⟩

theorem charge_eq_some {gas gas' : GasMeter} {cost : ℕ} {e : VmError}
    (h : gas.charge cost = (gas', some e)) : e.Dynamic := by
  unfold GasMeter.charge at h
  dsimp only at h
  split at h
  · simp only [Prod.mk.injEq, Option.some.injEq] at h
    exact .inr (.inl ⟨_, _, h.2.symm⟩)
  · cases h

section Step

variable {vm : Vm σ} {sigs : List NativeSig} {cfg : CompilerConfig} {depsOf : Address → DepMap}
variable (hl : Linked vm sigs cfg depsOf)
include hl

theorem Linked.world_of_deps {a : Address} {m : Module} (h : vm.deps[a]? = some m) :
    vm.world a = some m := by
  unfold Vm.world
  split
  · rename_i ha
    subst ha
    rw [hl.main h]
  · exact h

/-- A matching frame stands at an instruction of its function, with everything the verifier
checked there. -/
theorem FrameOk.atInstr {fr : Frame τ} (h : FrameOk vm sigs depsOf fr) :
    ∃ instr s, fr.function.code[fr.pc]? = some instr ∧
      Certified (fr.scope sigs depsOf) fr.pc s ∧
      AtInstr vm.world cfg (fr.scope sigs depsOf) fr s instr := by
  obtain ⟨s, hcert, htyped⟩ := h.state
  obtain ⟨hmodule, hfunctions⟩ := verify_eq_nil (hl.accepted h.world)
  have hpc : fr.pc < fr.function.code.length := hcert.inCode
  have hinstr := List.getElem?_eq_getElem hpc
  obtain ⟨hslots, hreach, herrors⟩ := certified_exec (fr.scope sigs depsOf)
    (params_le_localCount hmodule h.function) (hfunctions _ h.function) hcert hinstr
  exact ⟨_, s, hinstr, hcert, h.world, rfl, htyped, hslots, hreach,
    fieldTypesValid_of_checkModule hmodule, checkInstr_of_checkModule hmodule h.function hinstr,
    herrors⟩

theorem FrameOk.of_flows {fr fr' : Frame τ} {s s' : AbstractState} {instr : Instruction}
    (h : FrameOk vm sigs depsOf fr) (hinstr : fr.function.code[fr.pc]? = some instr)
    (hcert : Certified (fr.scope sigs depsOf) fr.pc s) (hsame : fr.SameActivation fr')
    (hflows : Effect.Flows (exec (fr.scope sigs depsOf) fr.pc instr s) fr.pc fr'.pc s')
    (htyped : FrameTyped vm.world fr' s') : FrameOk vm sigs depsOf fr' := by
  obtain ⟨hcontext, haddr, hfunction⟩ := hsame
  have hscope : fr'.scope sigs depsOf = fr.scope sigs depsOf := by
    simp [Frame.scope, hcontext, haddr, hfunction]
  obtain ⟨hmodule, hfunctions⟩ := verify_eq_nil (hl.accepted h.world)
  have hparams := params_le_localCount hmodule h.function
  have haccepted := hfunctions _ h.function
  refine ⟨by rw [haddr, hcontext]; exact h.world, by rw [hfunction, hcontext]; exact h.function, ?_⟩
  rw [hscope]
  rcases hflows with ⟨hpc, rfl, hreach⟩ | ⟨hjump, -⟩
  · obtain ⟨t, ht, hle⟩ := certified_next (fr.scope sigs depsOf) hparams haccepted hcert
      hinstr hreach
    exact ⟨t, by rw [hpc]; exact ht, htyped.mono hle⟩
  · obtain ⟨-, -, offset, hoffset, hpos, htarget⟩ := exec_jump_eq_some hjump
    have hcheck := checkInstr_of_checkModule hmodule h.function hinstr
    have hlimit := (checkJump_eq_nil (checkJump_of_checkInstr hoffset hcheck)).2
    obtain ⟨t, ht, hle⟩ := certified_jump (fr.scope sigs depsOf) hparams haccepted hcert
      hinstr hjump (by omega) (by simp only [Frame.scope]; omega)
    exact ⟨t, ht, htyped.mono hle⟩

omit hl in
theorem ChainOk.of_same {fr fr' : Frame τ} {callers : List (Frame τ)}
    (h : ChainOk vm sigs depsOf fr callers) (hsame : fr.SameActivation fr') :
    ChainOk vm sigs depsOf fr' callers := by
  cases callers with
  | nil => trivial
  | cons caller callers =>
    refine ⟨fun v hv => h.1 v ?_, h.2⟩
    rwa [hsame.2.1, hsame.2.2] at hv

theorem step_local {s : State τ σ} (hs : StateOk vm sigs depsOf s) {instr : Instruction}
    (hinstr : s.frame.function.code[s.frame.pc]? = some instr) (hlocal : instr.isLocal = true)
    (hpath : s.frame.pathsResolve instr = true) (gas : GasMeter) (tok : ℕ → τ) :
    StepOk vm sigs depsOf (s.frame.FieldTrap instr)
      (vm.execInstr tok { s with gas, frame := s.frame.next } instr) := by
  obtain ⟨instr', t, hinstr', hcert, hat⟩ := hs.frame.atInstr hl
  obtain rfl := Option.some.inj (hinstr.symm.trans hinstr')
  have hsound := exec_sound vm.deps (tok s.nextLabel) hat hlocal hpath
  cases hres : Frame.exec vm.deps (tok s.nextLabel) s.frame.next instr with
  | ok fr' =>
    simp only [SoundStep, hres] at hsound
    obtain ⟨hsame, s', hflows, htyped⟩ := hsound
    rw [execInstr_ok hlocal hres]
    exact ⟨hs.frame.of_flows hl hinstr hcert hsame hflows htyped, hs.chain.of_same hsame⟩
  | error e =>
    simp only [SoundStep, hres] at hsound
    rw [execInstr_error hlocal hres]
    exact .inr ⟨e, rfl, hsound.imp_left .inl⟩

/-! ## Calls -/

omit hl in
theorem checkArgs_eq_nil {fnName : String} {pc : ℕ} {params : List Ty} {args : List AbstractType}
    (hlen : args.length = params.length) (h : checkArgs fnName pc params args = []) :
    args = params.map fromType := by
  induction params generalizing args with
  | nil => exact List.length_eq_zero_iff.mp hlen
  | cons p params ih =>
    cases args with
    | nil => cases hlen
    | cons t args =>
      obtain ⟨hhead, htail⟩ := List.append_eq_nil_iff.mp h
      have ht : t = fromType p := by
        by_contra hne
        simp [hne] at hhead
      rw [ht, ih (by simpa using hlen) htail]
      rfl

omit hl in
/-- The arguments of an accepted call have the parameter types, and the rest of the stack is kept. -/
theorem popAndCheckParams_eq_nil {fnName callee : String} {pc : ℕ} {params : List Ty}
    {stack : List AbstractType} (h : (popAndCheckParams fnName pc callee params stack).2 = []) :
    params.length ≤ stack.length ∧
    (stack.take params.length).reverse = params.map fromType ∧
    (popAndCheckParams fnName pc callee params stack).1 = stack.drop params.length := by
  unfold popAndCheckParams at h ⊢
  split at h
  · cases h
  · rename_i hlen
    have hle : params.length ≤ stack.length := Nat.not_lt.mp hlen
    refine ⟨hle, checkArgs_eq_nil (by simp [hle]) h, ?_⟩
    simp [hlen]

omit hl in
theorem frameTyped_new {W : World} {module : Module} {addr : Address} {callee : Function}
    {args : List (Value τ)}
    (hargs : List.Forall₂ (HasType W addr) args (callee.params.map fun p => fromType p.2)) :
    FrameTyped W (Frame.new module addr callee args) (initialState callee) := by
  refine ⟨.nil, ?_⟩
  have hlen : args.length = callee.params.length := by simpa using hargs.length_eq
  refine forall₂_append ?_ ?_
  · rw [List.forall₂_map_left_iff]
    have hpairs := List.forall₂_map_right_iff.mp hargs
    exact List.forall₂_map_right_iff.mpr hpairs
  · rw [hlen]
    exact forall₂_replicate trivial _

/-- A frame entered with arguments of the parameter types matches the verifier's first state. -/
theorem frameOk_new {addr : Address} {module : Module} {callee : Function}
    (hworld : vm.world addr = some module) (hcallee : callee ∈ module.functions)
    {args : List (Value τ)}
    (hargs : List.Forall₂ (HasType vm.world addr) args (callee.params.map fun p => fromType p.2)) :
    FrameOk vm sigs depsOf (Frame.new module addr callee args) := by
  obtain ⟨hmodule, hfunctions⟩ := verify_eq_nil (hl.accepted hworld)
  exact ⟨hworld, hcallee, _, certified_entry _ (params_le_localCount hmodule hcallee)
    (hfunctions _ hcallee), frameTyped_new hargs⟩

theorem invoke_sound (s : State τ σ) {addr : Address} {module : Module} {fnName : String}
    {callee : Function} (hworld : vm.world addr = some module)
    (hget : module.getFunction fnName = some callee) {args rest : List (Value τ)}
    (hpop : popArgs callee.params.length s.frame.stack = .ok (args, rest))
    (hargs : List.Forall₂ (HasType vm.world addr) args (callee.params.map fun p => fromType p.2))
    (hreturn : ∀ v, HasType vm.world addr v (returnAbstract callee.returnType) →
      FrameOk vm sigs depsOf (Frame.push { s.frame with stack := rest } v))
    (hchain : ChainOk vm sigs depsOf s.frame s.callers) {trap : Prop} :
    StepOk vm sigs depsOf trap (vm.invoke s module addr fnName callee.params.length) := by
  have hcallee : callee ∈ module.functions := List.mem_of_find?_eq_some hget
  have hlen : args.length = callee.params.length := by simpa using hargs.length_eq
  have hlocals : ¬ args.length > callee.localCount := by
    have := params_le_localCount (verify_eq_nil (hl.accepted hworld)).1 hcallee
    omega
  unfold Vm.invoke
  rw [hpop]
  simp only [Vm.enter]
  by_cases hdepth : s.callers.length + 1 ≥ vm.config.maxCallDepth
  · simp only [hdepth, if_true]
    exact stepOk_fail (.inr (.inr (.inl ⟨_, rfl⟩)))
  · simp only [hdepth, if_false, hget, hlocals]
    exact ⟨frameOk_new hl hworld hcallee hargs, hreturn, hchain.of_same ⟨rfl, rfl, rfl⟩⟩

/-- The rest of an accepted call, common to its three kinds: what the callee leaves on the stack
makes a matching frame of the caller. -/
theorem frameOk_return {fr : Frame τ} {s : AbstractState} {instr : Instruction}
    (h : FrameOk vm sigs depsOf fr) (hinstr : fr.function.code[fr.pc]? = some instr)
    (hcert : Certified (fr.scope sigs depsOf) fr.pc s) (hreach : s.reachable = true)
    (htyped : FrameTyped vm.world fr s) {ty : AbstractType} {n : ℕ} {errors : List VerificationError}
    (heffect : exec (fr.scope sigs depsOf) fr.pc instr s
      = goOn { s with stack := ty :: s.stack.drop n } errors)
    {v : Value τ} (hv : HasType vm.world fr.contextAddr v ty) :
    FrameOk vm sigs depsOf { fr.next with stack := v :: fr.stack.drop n } := by
  have hafter : FrameTyped vm.world { fr.next with stack := v :: fr.stack.drop n }
      { s with stack := ty :: s.stack.drop n } :=
    ⟨.cons hv (List.forall₂_drop n htyped.stack), htyped.locals⟩
  refine h.of_flows hl hinstr hcert ⟨rfl, rfl, rfl⟩ (.inl ?_) hafter
  rw [heffect]
  exact ⟨rfl, rfl, hreach⟩

omit hl in
theorem returnAbstract_qualify {W : World} {a b : Address} {ty : Option Ty} {v : Value τ} :
    HasType W a v (returnAbstract (ty.map (qualifyType b))) ↔ HasType W b v (returnAbstract ty) := by
  cases ty with
  | none => simp only [Option.map_none, returnAbstract, hasType_void_iff]
  | some ty => exact hasType_qualifyType ty

/-- A call of another function whose parameter and return types the verifier read as `params` and
`ret`. -/
theorem call_function_sound {s : State τ σ} (hs : StateOk vm sigs depsOf s) {name : String}
    (hinstr : s.frame.function.code[s.frame.pc]? = some (.call name)) {t : AbstractState}
    (hcert : Certified (s.frame.scope sigs depsOf) s.frame.pc t)
    (hat : AtInstr vm.world cfg (s.frame.scope sigs depsOf) s.frame t (.call name))
    {addr : Address} {module : Module} {fnName : String} {callee : Function}
    (hworld : vm.world addr = some module) (hget : module.getFunction fnName = some callee)
    (params : List Ty) (ret : AbstractType)
    (heffect : exec (s.frame.scope sigs depsOf) s.frame.pc (.call name) t
      = goOn { t with stack := ret ::
          (popAndCheckParams s.frame.function.name s.frame.pc name params t.stack).1 }
        (popAndCheckParams s.frame.function.name s.frame.pc name params t.stack).2)
    (hlen : params.length = callee.params.length)
    (hparams : ∀ {vs : List (Value τ)},
      List.Forall₂ (HasType vm.world s.frame.contextAddr) vs (params.map fromType) →
      List.Forall₂ (HasType vm.world addr) vs (callee.params.map fun p => fromType p.2))
    (hret : ∀ {v : Value τ}, HasType vm.world addr v (returnAbstract callee.returnType) →
      HasType vm.world s.frame.contextAddr v ret)
    (gas : GasMeter) {trap : Prop} :
    StepOk vm sigs depsOf trap
      (vm.invoke { s with gas, frame := s.frame.next } module addr fnName callee.params.length) := by
  have haccepted := hat.accepted
  rw [heffect] at haccepted
  obtain ⟨hle, htake, hdrop⟩ := popAndCheckParams_eq_nil haccepted
  rw [hdrop] at heffect
  obtain ⟨hpop, hargs, -⟩ := popArgs_typed hat.typed.stack hle
  rw [htake] at hargs
  rw [hlen] at hpop heffect
  refine invoke_sound hl { s with gas, frame := s.frame.next } hworld hget hpop
    (hlen ▸ hparams hargs) (fun v hv => ?_) (hs.chain.of_same ⟨rfl, rfl, rfl⟩)
  exact frameOk_return hl hs.frame hinstr hcert hat.reachable hat.typed heffect (hret hv)

theorem step_call_module {s : State τ σ} (hs : StateOk vm sigs depsOf s) {name : String}
    (hinstr : s.frame.function.code[s.frame.pc]? = some (.call name)) {depAddr : Address}
    {fnName : String} (hparse : parseModuleRef name = some (depAddr, fnName))
    (gas : GasMeter) (tok : ℕ → τ) {trap : Prop} :
    StepOk vm sigs depsOf trap (vm.execCall tok { s with gas, frame := s.frame.next } name) := by
  obtain ⟨instr, t, hinstr', hcert, hat⟩ := hs.frame.atInstr hl
  obtain rfl := Option.some.inj (hinstr.symm.trans hinstr')
  have haccepted := hat.accepted
  cases hbind : (depsOf s.frame.contextAddr)[depAddr]?.bind (·.getFunction fnName) with
  | none => simp [exec, callInstr, hparse, Frame.scope, hbind, goOn] at haccepted
  | some callee =>
    obtain ⟨module, hmodule, hget⟩ := Option.bind_eq_some_iff.mp hbind
    have hdeps := hl.depsOf_sub hs.frame.world hmodule
    have hpublic : callee.isPublic = true := by
      have hcheck := hat.structural
      simpa [checkInstr, hparse, Frame.scope, hbind] using hcheck
    simp only [Vm.execCall, hparse, hdeps, hget, hpublic, if_true]
    refine call_function_sound hl hs hinstr hcert hat (hl.world_of_deps hdeps) hget
      (callee.params.map fun p => qualifyType depAddr p.2)
      (returnAbstract (callee.returnType.map (qualifyType depAddr))) ?_ (by simp) ?_ ?_ gas
    · simp only [exec, callInstr, hparse, Frame.scope, hbind]
    · intro vs hvs
      rw [List.map_map, List.forall₂_map_right_iff] at hvs
      rw [List.forall₂_map_right_iff]
      exact hvs.imp fun v p h => (hasType_qualifyType p.2).mp h
    · exact returnAbstract_qualify.mpr

theorem step_call_local {s : State τ σ} (hs : StateOk vm sigs depsOf s) {name : String}
    (hinstr : s.frame.function.code[s.frame.pc]? = some (.call name))
    (hparse : parseModuleRef name = none) {callee : Function}
    (hget : s.frame.context.getFunction name = some callee) (gas : GasMeter) (tok : ℕ → τ)
    {trap : Prop} :
    StepOk vm sigs depsOf trap (vm.execCall tok { s with gas, frame := s.frame.next } name) := by
  obtain ⟨instr, t, hinstr', hcert, hat⟩ := hs.frame.atInstr hl
  obtain rfl := Option.some.inj (hinstr.symm.trans hinstr')
  have hget' : s.frame.next.context.getFunction name = some callee := hget
  simp only [Vm.execCall, hparse, hget']
  refine call_function_sound hl hs hinstr hcert hat hs.frame.world hget
    (callee.params.map (·.2)) (returnAbstract callee.returnType) ?_ (by simp) ?_ id gas
  · simp only [exec, callInstr, hparse, Frame.scope, hget]
  · intro vs hvs
    rwa [List.map_map] at hvs

omit hl in
theorem popNativeArgs_eq_nil {fnName : String} {pc : ℕ} {sig : NativeSig}
    {stack : List AbstractType} (h : (popNativeArgs fnName pc sig stack).2 = []) :
    sig.params.length ≤ stack.length ∧
    (popNativeArgs fnName pc sig stack).1 = stack.drop sig.params.length := by
  unfold popNativeArgs at h ⊢
  split at h
  · cases h
  · rename_i hlen
    exact ⟨Nat.not_lt.mp hlen, by simp [hlen]⟩

omit hl in
theorem checkNativeArgs_eq_nil {fnName callee : String} {pc i : ℕ} {params : List NativeParam}
    {args : List AbstractType} (h : checkNativeArgs fnName pc callee i params args = [])
    (hlen : args.length = params.length) :
    List.Forall₂ (fun ty param => nativeParamMatches param ty = true) args params := by
  induction params generalizing i args with
  | nil => rw [List.length_eq_zero_iff.mp hlen]; exact .nil
  | cons param params ih =>
    cases args with
    | nil => cases hlen
    | cons ty args =>
      obtain ⟨hty, hargs⟩ := List.append_eq_nil_iff.mp h
      exact .cons (by simpa using report_eq_nil.mp hty) (ih hargs (Nat.succ.inj hlen))

theorem step_call_native (hn : NativesTyped vm) {s : State τ σ} (hs : StateOk vm sigs depsOf s)
    {name : String} (hinstr : s.frame.function.code[s.frame.pc]? = some (.call name))
    (hparse : parseModuleRef name = none) (hget : s.frame.context.getFunction name = none)
    (gas : GasMeter) (tok : ℕ → τ) {trap : Prop} :
    StepOk vm sigs depsOf trap (vm.execCall tok { s with gas, frame := s.frame.next } name) := by
  obtain ⟨instr, t, hinstr', hcert, hat⟩ := hs.frame.atInstr hl
  obtain rfl := Option.some.inj (hinstr.symm.trans hinstr')
  have hget' : s.frame.next.context.getFunction name = none := hget
  have haccepted := hat.accepted
  have hnatives := hl.natives name
  cases hfind : (builtinNatives ++ sigs).find? (·.name == name) with
  | none => simp [exec, callInstr, hparse, Frame.scope, hget, hfind, goOn] at haccepted
  | some sig =>
    rw [hfind] at hnatives
    obtain ⟨entry, hentry, rfl⟩ := Option.map_eq_some_iff.mp hnatives
    have heffect : exec (s.frame.scope sigs depsOf) s.frame.pc (.call name) t
        = goOn { t with stack := returnAbstract entry.returnType ::
            (popNativeArgs s.frame.function.name s.frame.pc entry.toNativeSig t.stack).1 }
          (popNativeArgs s.frame.function.name s.frame.pc entry.toNativeSig t.stack).2 := by
      simp only [exec, callInstr, hparse, Frame.scope, hget, hfind]
    rw [heffect] at haccepted
    obtain ⟨hle, hdrop⟩ := popNativeArgs_eq_nil haccepted
    rw [hdrop] at heffect
    have hpop : popArgs entry.params.length s.frame.next.stack = _ :=
      (popArgs_typed hat.typed.stack hle).1
    simp only [Vm.execCall, hparse, hget', hentry, Vm.callNative, hpop]
    cases hcharge : gas.charge entry.gasCost with
    | mk gas' e =>
      cases e with
      | some e => exact stepOk_fail (charge_eq_some hcharge)
      | none =>
        simp only
        cases hcall : entry.func s.ctx
            (List.map Value.erase (List.take entry.params.length s.frame.stack).reverse) with
        | mk result ctx =>
          cases result with
          | abort code message => exact stepOk_fail (.inr (.inr (.inr (.inl ⟨_, _, rfl⟩))))
          | error message => exact stepOk_fail (.inr (.inr (.inr (.inr ⟨_, rfl⟩))))
          | ret v =>
            have hv := hn s.frame.contextAddr hentry hcall
            have hqualified : (v.map checkStructQualified).getD true = true := by
              cases v with
              | none => rfl
              | some w => exact checkStructQualified_of_hasType hv
            simp only [hqualified, if_true]
            exact ⟨frameOk_return hl hs.frame hinstr hcert hat.reachable hat.typed heffect
              (hasType_label.mpr hv), hs.chain.of_same ⟨rfl, rfl, rfl⟩⟩

/-! ## Returns -/

omit hl in
theorem checkReturnType_eq_nil {func : Function} {stack : List AbstractType}
    (h : checkReturnType func stack = []) :
    (func.returnType = none ∧ stack = []) ∨ ∃ rest, stack = returnAbstract func.returnType :: rest := by
  unfold checkReturnType at h
  split at h
  · exact .inl ⟨by assumption, rfl⟩
  · rename_i rest hret
    exact .inr ⟨rest, by rw [hret]; rfl⟩
  · cases h
  · cases h
  · rename_i declared actual rest hret
    have hty : actual = fromType declared := by
      by_contra hne
      simp [hne] at h
    exact .inr ⟨rest, by rw [hret, hty]; rfl⟩

omit hl in
theorem hasType_return {W : World} {fr : Frame τ} {s : AbstractState} (h : FrameTyped W fr s)
    (haccepted : checkReturnType fr.function s.stack = []) :
    HasType W fr.contextAddr (fr.stack.head?.getD .void) (returnAbstract fr.function.returnType) := by
  have htyped := h.stack
  rcases checkReturnType_eq_nil haccepted with ⟨hret, hstack⟩ | ⟨rest, hstack⟩
  · rw [hstack] at htyped
    rw [List.forall₂_nil_right_iff.mp htyped, hret]
    rfl
  · rw [hstack] at htyped
    obtain ⟨v, vs, hv, -, hfr⟩ := List.forall₂_cons_right_iff.mp htyped
    rw [hfr]
    exact hv

theorem step_return {s : State τ σ} (hs : StateOk vm sigs depsOf s)
    (hinstr : s.frame.function.code[s.frame.pc]? = some .ret) (gas : GasMeter) {trap : Prop} :
    StepOk vm sigs depsOf trap (Vm.leave { s with gas, frame := s.frame.next }) := by
  obtain ⟨instr, t, hinstr', hcert, hat⟩ := hs.frame.atInstr hl
  obtain rfl := Option.some.inj (hinstr.symm.trans hinstr')
  have haccepted := hat.accepted
  simp only [exec, returnInstr, goOn, checkReturn, List.append_eq_nil_iff] at haccepted
  have hv := hasType_return hat.typed haccepted.1.1
  unfold Vm.leave
  cases hcallers : s.callers with
  | nil => exact .inl ⟨_, rfl⟩
  | cons caller callers =>
    have hchain := hs.chain
    rw [hcallers] at hchain
    exact ⟨hchain.1 _ hv, hchain.2.of_same ⟨rfl, rfl, rfl⟩⟩

/-- One step from a matching state, along resolving field paths. -/
theorem step_sound (hn : NativesTyped vm) {s : State τ σ} (hs : StateOk vm sigs depsOf s)
    (hpaths : s.FieldPathsResolve) (tok : ℕ → τ) :
    StepOk vm sigs depsOf (∃ instr ∈ s.frame.current, s.frame.FieldTrap instr) (vm.step tok s) := by
  obtain ⟨instr, t, hinstr, hcert, hat⟩ := hs.frame.atInstr hl
  have hpath := hpaths instr hinstr
  unfold Vm.step
  simp only [hinstr]
  cases hcharge : s.gas.charge (vm.gasSchedule.costOf instr) with
  | mk gas e =>
    cases e with
    | some e => exact stepOk_fail (charge_eq_some hcharge)
    | none =>
      cases instr with
      | call name =>
        cases hparse : parseModuleRef name with
        | some r => exact step_call_module hl hs hinstr hparse gas tok
        | none =>
          cases hget : s.frame.context.getFunction name with
          | some callee => exact step_call_local hl hs hinstr hparse hget gas tok
          | none => exact step_call_native hl hn hs hinstr hparse hget gas tok
      | ret => exact step_return hl hs hinstr gas
      | _ =>
        exact (step_local hl hs hinstr rfl hpath gas tok).imp fun htrap => ⟨_, hinstr, htrap⟩

/-! ## Runs -/

/-- The arguments inhabit the parameter types of the function called. -/
def ArgsTyped (vm : Vm σ) (fnName : String) (args : List (Value Unit)) : Prop :=
  ∃ f, vm.module.getFunction fnName = some f ∧
    List.Forall₂ (HasType vm.world vm.moduleAddr) args (f.params.map fun p => fromType p.2)

omit hl in
theorem world_moduleAddr (vm : Vm σ) : vm.world vm.moduleAddr = some vm.module := by
  simp [Vm.world]

theorem start_sound {tok : ℕ → τ} {fnName : String} {args : List (Value Unit)} {gas : GasMeter}
    {ctx : σ} {s : State τ σ} (hargs : ArgsTyped vm fnName args)
    (h : vm.start tok fnName args gas ctx = .next s) : StateOk vm sigs depsOf s := by
  obtain ⟨f, hget, htyped⟩ := hargs
  obtain ⟨-, function, hfunction, -, rfl⟩ := start_eq_next h
  obtain rfl := Option.some.inj (hget.symm.trans hfunction)
  exact ⟨frameOk_new hl (world_moduleAddr vm) (List.mem_of_find?_eq_some hget)
    (forall₂_labelList.mpr htyped), trivial⟩

def Vm.Steps (vm : Vm σ) (tok : ℕ → τ) (s s' : State τ σ) : Prop :=
  vm.step tok s = .next s'

/-- Every state of a run along resolving field paths matches the verifier. -/
theorem run_sound (hn : NativesTyped vm) {tok : ℕ → τ} {fnName : String}
    {args : List (Value Unit)} {gas : GasMeter} {ctx : σ} {s₀ s : State τ σ}
    (hargs : ArgsTyped vm fnName args) (hstart : vm.start tok fnName args gas ctx = .next s₀)
    (hrun : GuardedRun State.FieldPathsResolve (vm.Steps tok) s₀ s) :
    StateOk vm sigs depsOf s := by
  refine hrun.invariant (fun {t u} ht hguard hstep => ?_) (start_sound hl hargs hstart)
  have hsound := step_sound hl hn ht hguard tok
  rw [show vm.step tok t = .next u from hstep] at hsound
  exact hsound

end Step

end MeowChain
