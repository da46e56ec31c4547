import MeowChain.Executor.Arguments
import MeowChain.Executor.Dependencies
import MeowChain.Lib.Maps
import MeowChain.Soundness.StackEffect
import MeowChain.Soundness.TypeSafety

/-!
# Private functions

Names of callees are resolved while the code runs, in modules nobody may have verified. Still a
function that is not public is entered only from its own module, and the coins of the framework are
minted by no call that a transaction makes.
-/

set_option autoImplicit false

namespace MeowChain

variable {τ σ : Type}

/-! ## The call stack -/

def State.frames (s : State τ σ) : List (Frame τ) :=
  s.frame :: s.callers

def Frame.EnteredFrom (callee caller : Frame τ) : Prop :=
  callee.function.isPublic = false →
    callee.contextAddr = caller.contextAddr ∧ callee.context = caller.context

structure PrivacyKept (frames : List (Frame τ)) : Prop where
  entered : frames.IsChain Frame.EnteredFrom
  outermost : ∀ outer ∈ frames.getLast?, outer.function.isPublic = true

theorem Frame.EnteredFrom.of_same {callee callee' caller caller' : Frame τ}
    (h : callee.EnteredFrom caller) (hcallee : callee.SameActivation callee')
    (hcaller : caller.SameActivation caller') : callee'.EnteredFrom caller' := by
  intro hprivate
  obtain ⟨hcontext, haddr, hfunction⟩ := hcallee
  obtain ⟨haddress, hmodule⟩ := h (hfunction ▸ hprivate)
  exact ⟨by rw [haddr, haddress, hcaller.2.1], by rw [hcontext, hmodule, hcaller.1]⟩

theorem Frame.SameActivation.refl (fr : Frame τ) : fr.SameActivation fr :=
  ⟨rfl, rfl, rfl⟩

theorem PrivacyKept.of_same {fr fr' : Frame τ} {callers : List (Frame τ)}
    (h : PrivacyKept (fr :: callers)) (hsame : fr.SameActivation fr') :
    PrivacyKept (fr' :: callers) := by
  cases callers with
  | nil =>
    refine ⟨.singleton _, ?_⟩
    intro outer houter
    obtain rfl : fr' = outer := by simpa using houter
    rw [hsame.2.2]
    exact h.outermost fr (by simp)
  | cons caller callers =>
    obtain ⟨hentered, hrest⟩ := List.isChain_cons_cons.mp h.entered
    refine ⟨List.isChain_cons_cons.mpr ⟨hentered.of_same hsame (.refl caller), hrest⟩, ?_⟩
    intro outer houter
    exact h.outermost outer (by simpa using houter)

theorem PrivacyKept.tail {fr caller : Frame τ} {callers : List (Frame τ)}
    (h : PrivacyKept (fr :: caller :: callers)) : PrivacyKept (caller :: callers) := by
  refine ⟨(List.isChain_cons_cons.mp h.entered).2, ?_⟩
  intro outer houter
  exact h.outermost outer (by simpa using houter)

section Machine

variable {vm : Vm σ} {tok : ℕ → τ} {fnName : String} {args : List (Value Unit)} {gas : GasMeter}
  {ctx : σ} {s₀ s s' : State τ σ}

theorem PrivacyKept.step (h : PrivacyKept s.frames) (hstep : vm.step tok s = .next s') :
    PrivacyKept s'.frames := by
  cases moves_of_step hstep with
  | exec hinstr hlocal hexec =>
    have hsame : s.frame.next.SameActivation _ := sameActivation_exec hexec
    exact h.of_same hsame
  | @call name context contextAddr callee gas hinstr hcalls =>
    have hcaller : PrivacyKept ({ s.frame.next with
        stack := s.frame.stack.drop callee.params.length } :: s.callers) := h.of_same ⟨rfl, rfl, rfl⟩
    refine ⟨List.isChain_cons_cons.mpr ⟨?_, hcaller.entered⟩, ?_⟩
    · intro hprivate
      have hprivate : callee.isPublic = false := hprivate
      rcases hcalls.resolved with ⟨-, -, -, hpublic, -⟩ | ⟨-, rfl, rfl, -⟩
      · rw [hprivate] at hpublic
        cases hpublic
      · exact ⟨rfl, rfl⟩
    · intro outer houter
      exact hcaller.outermost outer (by simpa [State.frames] using houter)
  | native => exact h.of_same ⟨rfl, rfl, rfl⟩
  | @ret caller callers gas hinstr hcallers =>
    unfold State.frames at h
    rw [hcallers] at h
    exact h.tail.of_same ⟨rfl, rfl, rfl⟩

theorem run_eq_next {fuel : ℕ} (h : vm.run tok fuel s = .next s') : vm.Run tok s s' := by
  induction fuel generalizing s with
  | zero =>
    cases h
    exact .refl
  | succ fuel ih =>
    unfold Vm.run at h
    split at h
    · rename_i next hnext
      exact .head ⟨trivial, hnext⟩ (ih h)
    · cases h

theorem start_public (hconfig : vm.config.enableCallPrivateFunctions = false)
    (h : vm.start tok fnName args gas ctx = .next s) : s.frame.function.isPublic = true := by
  obtain ⟨-, function, hget, -, rfl⟩ := start_eq_next h
  show function.isPublic = true
  by_contra hprivate
  have hrefused : (!function.isPublic && !vm.config.enableCallPrivateFunctions) = true := by
    rw [hconfig, Bool.eq_false_of_not_eq_true hprivate]
    rfl
  unfold Vm.start at h
  simp only [hget] at h
  split at h
  · cases h
  · split at h
    · cases h
    · cases h

theorem privacyKept_run (hconfig : vm.config.enableCallPrivateFunctions = false)
    (hstart : vm.start tok fnName args gas ctx = .next s₀) (hrun : vm.Run tok s₀ s) :
    PrivacyKept s.frames := by
  refine GuardedRun.invariant (I := fun s : State τ σ => PrivacyKept s.frames)
    (fun h _ hstep => h.step hstep) hrun ?_
  have hpublic := start_public hconfig hstart
  obtain ⟨-, function, -, -, rfl⟩ := start_eq_next hstart
  refine ⟨.singleton _, ?_⟩
  intro outer houter
  obtain rfl := by simpa [State.frames] using houter
  exact hpublic

/-! ## Minting -/

/-- Wherever the machine has a module at the address of `meow_coin`, it is that module. -/
structure Vm.GenuineCoin (vm : Vm σ) : Prop where
  main : vm.moduleAddr = meowCoinModuleAddress → vm.module = meowCoinModule
  dep : ∀ m, vm.deps[meowCoinModuleAddress]? = some m → m = meowCoinModule

/-- A frame at the address of `meow_coin` runs one of its functions, but not `mint`. -/
def Frame.NotMinting (fr : Frame τ) : Prop :=
  fr.contextAddr = meowCoinModuleAddress →
    fr.context = meowCoinModule ∧ fr.function ∈ meowCoinModule.functions ∧
      fr.function.name ≠ meowCoinMintFunctionName

theorem meowCoinModule_public :
    ∀ f ∈ meowCoinModule.functions, f.isPublic = true → f.name ≠ meowCoinMintFunctionName := by
  decide

/-- No function of the module calls `mint`. -/
theorem meowCoinModule_calls :
    ∀ f ∈ meowCoinModule.functions, .call meowCoinMintFunctionName ∉ f.code := by
  decide

theorem getFunction_eq_some {m : Module} {name : String} {f : Function}
    (h : m.getFunction name = some f) : f ∈ m.functions ∧ f.name = name :=
  ⟨List.mem_of_find?_eq_some h, by simpa using List.find?_some h⟩

theorem Frame.NotMinting.of_same {fr fr' : Frame τ} (h : fr.NotMinting)
    (hsame : fr.SameActivation fr') : fr'.NotMinting := by
  obtain ⟨hcontext, haddr, hfunction⟩ := hsame
  unfold Frame.NotMinting
  rwa [hcontext, haddr, hfunction]

/-- A callee at the address is public, or called by a function of the module. -/
theorem Vm.Calls.notMinting (hvm : vm.GenuineCoin) {fr : Frame τ} {name : String}
    {context : Module} {contextAddr : Address} {callee : Function}
    (hinstr : fr.current = some (.call name))
    (hcalls : vm.Calls fr name context contextAddr callee) (h : fr.NotMinting)
    (args : List (Value τ)) : (Frame.new context contextAddr callee args).NotMinting := by
  intro haddr
  have haddr : contextAddr = meowCoinModuleAddress := haddr
  rcases hcalls.resolved with ⟨fnName, -, hdep, hpublic, hget⟩ | ⟨-, rfl, rfl, hget⟩
  · rw [haddr] at hdep
    obtain rfl := hvm.dep context hdep
    obtain ⟨hmem, -⟩ := getFunction_eq_some hget
    exact ⟨rfl, hmem, meowCoinModule_public callee hmem hpublic⟩
  · obtain ⟨hcontext, hfunction, -⟩ := h haddr
    rw [hcontext] at hget
    obtain ⟨hmem, hname⟩ := getFunction_eq_some hget
    refine ⟨hcontext, hmem, ?_⟩
    rintro hmint
    obtain rfl := hname.symm.trans hmint
    exact meowCoinModule_calls fr.function hfunction (List.mem_of_getElem? hinstr)

theorem notMinting_step (hvm : vm.GenuineCoin) (h : ∀ fr ∈ s.frames, fr.NotMinting)
    (hstep : vm.step tok s = .next s') : ∀ fr ∈ s'.frames, fr.NotMinting := by
  obtain ⟨hframe, hcallers⟩ := List.forall_mem_cons.mp h
  cases moves_of_step hstep with
  | exec hinstr hlocal hexec =>
    have hsame : s.frame.next.SameActivation _ := sameActivation_exec hexec
    exact List.forall_mem_cons.mpr ⟨hframe.of_same hsame, hcallers⟩
  | call hinstr hcalls =>
    refine List.forall_mem_cons.mpr ⟨hcalls.notMinting hvm hinstr hframe _, ?_⟩
    exact List.forall_mem_cons.mpr ⟨hframe.of_same ⟨rfl, rfl, rfl⟩, hcallers⟩
  | native => exact List.forall_mem_cons.mpr ⟨hframe.of_same ⟨rfl, rfl, rfl⟩, hcallers⟩
  | ret hinstr hcallers' =>
    rw [hcallers'] at hcallers
    obtain ⟨hcaller, hrest⟩ := List.forall_mem_cons.mp hcallers
    exact List.forall_mem_cons.mpr ⟨hcaller.of_same ⟨rfl, rfl, rfl⟩, hrest⟩

theorem notMinting_run (hvm : vm.GenuineCoin)
    (hconfig : vm.config.enableCallPrivateFunctions = false)
    (hstart : vm.start tok fnName args gas ctx = .next s₀) (hrun : vm.Run tok s₀ s) :
    ∀ fr ∈ s.frames, fr.NotMinting := by
  refine GuardedRun.invariant (I := fun s : State τ σ => ∀ fr ∈ s.frames, fr.NotMinting)
    (fun h _ hstep => notMinting_step hvm h hstep) hrun ?_
  have hpublic := start_public hconfig hstart
  obtain ⟨-, function, hget, -, rfl⟩ := start_eq_next hstart
  refine List.forall_mem_cons.mpr ⟨?_, by simp⟩
  intro haddr
  obtain ⟨hmem, -⟩ := getFunction_eq_some hget
  have hmodule := hvm.main haddr
  rw [hmodule] at hmem
  exact ⟨hmodule, hmem, meowCoinModule_public _ hmem hpublic⟩

end Machine

/-! ## Calls of transactions -/

section Transactions

variable {B : Type} {P : Platform B} {inputs : List (Object B)}

/-- The module object at the address of `meow_coin` holds that module. -/
def GenuineCoinInput (P : Platform B) (inputs : List (Object B)) : Prop :=
  ∀ obj ∈ inputs, obj.type = .module → obj.address = meowCoinModuleAddress →
    P.decodeModule obj.content = .ok meowCoinModule

theorem callVm_genuineCoin {sender : Address} {call : Call B} {prepared : PreparedCall B}
    (hinputs : GenuineCoinInput P inputs)
    (hprepared : prepareCall P sender call inputs = .ok prepared) (config : VmConfig) :
    (callVm P call.module prepared config).GenuineCoin := by
  have hfrom := prepareCall_eq_ok hprepared
  refine ⟨?_, ?_⟩
  · intro haddr
    obtain ⟨obj, hobj, hmodule, haddress, hdecode⟩ := resolveModule_eq_ok hfrom.module
    have hcoin := hinputs obj hobj hmodule (haddress.trans haddr)
    exact Except.ok.inj (hdecode.symm.trans hcoin)
  · intro m hm
    obtain ⟨obj, hobj, hmodule, haddress, hdecode⟩ :=
      (searching_of_resolveDepModules hfrom.deps).found _ m hm
    exact Except.ok.inj (hdecode.symm.trans (hinputs obj hobj hmodule haddress))

end Transactions

/-- In every state of a call without the privilege, whatever the modules are, a private function
runs in a frame that was entered from its own module; and no call of a transaction runs the `mint`
of `meow_coin`. -/
theorem private_functions_stay_private {τ σ B : Type} :
    (∀ (vm : Vm σ) (tok : ℕ → τ) (fnName : String) (args : List (Value Unit)) (gas : GasMeter)
      (ctx : σ) (s₀ s : State τ σ), vm.config.enableCallPrivateFunctions = false →
      vm.start tok fnName args gas ctx = .next s₀ → vm.Run tok s₀ s →
        s.frames.IsChain Frame.EnteredFrom ∧
        ∀ outer ∈ s.frames.getLast?, outer.function.isPublic = true) ∧
    ∀ (P : Platform B) (sender : Address) (call : Call B) (inputs : List (Object B))
      (prepared : PreparedCall B) (gas : GasMeter) (ctx : Context) (s₀ s : State Unit Context),
      GenuineCoinInput P inputs → prepareCall P sender call inputs = .ok prepared →
      (callVm P call.module prepared vmConfig).start (fun _ => ()) call.function.name prepared.args
        gas ctx = .next s₀ →
      (callVm P call.module prepared vmConfig).Run (fun _ => ()) s₀ s →
        ∀ fr ∈ s.frames, ¬ (fr.contextAddr = meowCoinModuleAddress ∧
          fr.function.name = meowCoinMintFunctionName) := by
  constructor
  · intro vm tok fnName args gas ctx s₀ s hconfig hstart hrun
    have hkept := privacyKept_run hconfig hstart hrun
    exact ⟨hkept.entered, hkept.outermost⟩
  · intro P sender call inputs prepared gas ctx s₀ s hinputs hprepared hstart hrun fr hfr hmint
    have hvm := callVm_genuineCoin hinputs hprepared vmConfig
    exact (notMinting_run hvm rfl hstart hrun fr hfr hmint.1).2.2 hmint.2

/-! ## A split of a coin -/

namespace Sample

def coinInputs : List (Object Blob) := [
  .freshModule meowObjectModuleAddress 0 (.module meowObjectModule),
  .freshModule meowCoinModuleAddress 0 (.module meowCoinModule),
  coinObject]

def splitCall : Call Blob where
  module := meowCoinModuleAddress
  function := ⟨"split", by decide⟩
  arguments := [.object (objectRef coinObject), .raw (.u64 3)]

theorem coinInputs_genuine : GenuineCoinInput platform coinInputs := by
  intro obj hobj hmodule haddress
  simp only [coinInputs, List.mem_cons, List.not_mem_nil, or_false] at hobj
  rcases hobj with rfl | rfl | rfl
  · exact absurd haddress (by decide)
  · rfl
  · cases hmodule

end Sample

open Sample in
/-- Four steps into `split` the frame of `split_and_transfer` is active, above that of `split`. -/
theorem private_functions_stay_private_split :
    ∃ (prepared : PreparedCall Blob) (s₀ s : State Unit Context),
      (callVm platform splitCall.module prepared vmConfig).Run (fun _ => ()) s₀ s ∧
      s.frames.map (·.function.name) = ["split_and_transfer", "split"] ∧
      s.frames.IsChain Frame.EnteredFrom ∧
      ∀ fr ∈ s.frames, ¬ (fr.contextAddr = meowCoinModuleAddress ∧
        fr.function.name = meowCoinMintFunctionName) := by
  obtain ⟨prepared, hprepared, hstarts⟩ := okHolds_exists
    (x := prepareCall platform owner splitCall coinInputs)
    (p := fun prepared => decide (((callVm platform splitCall.module prepared vmConfig).start
      (fun _ => ()) splitCall.function.name prepared.args (GasMeter.new 1000)
      (Context.new platform.toNativeCrypto owner 0 0 0)).Next fun s₀ =>
        ((callVm platform splitCall.module prepared vmConfig).run (fun _ => ()) 4 s₀).Next fun s =>
          s.frames.map (·.function.name) = ["split_and_transfer", "split"])) (by decide +kernel)
  obtain ⟨s₀, hstart, hnext⟩ := StepResult.Next.exists (of_decide_eq_true hstarts)
  obtain ⟨s, hsteps, hnames⟩ := hnext.exists
  have hrun := run_eq_next hsteps
  refine ⟨prepared, s₀, s, hrun, hnames, ?_, ?_⟩
  · exact (private_functions_stay_private (B := Blob).1 _ _ _ _ _ _ _ _ rfl hstart hrun).1
  · exact private_functions_stay_private (τ := Unit) (σ := Context).2 _ _ _ _ _ _ _ _ _
      coinInputs_genuine hprepared hstart hrun

end MeowChain
