import MeowChain.Adapter.Framework
import MeowChain.Adapter.Shadow
import MeowChain.Soundness.TypeSafety

/-!
# Object ids are fresh

A run is traced by the labels of the ids that `meow_vm_fresh_id` returned to each activation. In a
module accepted by both verifiers, an object is built with an id of the activation that builds it,
as long as the functions that build objects keep the adapter's shadow stack at its height.
-/

set_option autoImplicit false

namespace MeowChain

open Verifier (Scope AbstractState Certified)
open Adapter (VerifyState Slot)

/-! ## Traced runs -/

/-- A state with the labels of the ids drawn so far by each activation, the current one first. -/
structure Traced where
  state : State ℕ Context
  drawn : List (List ℕ)

def Frame.topLabel {τ : Type} (fr : Frame τ) : Option τ :=
  fr.stack.head?.bind Value.topLabel

/-- What a step from `s` to `s'` does to the trace: a call of `meow_vm_fresh_id` adds the label of
its result, entering a function starts an empty list and returning drops one. -/
def drawnAfter (vm : Vm Context) (s s' : State ℕ Context) (drawn : List (List ℕ)) :
    List (List ℕ) :=
  match vm.nativeCall s.frame with
  | some entry =>
    if entry.name = nativeFnFreshId then
      (s'.frame.topLabel.toList ++ drawn.headD []) :: drawn.tail
    else drawn
  | none =>
    if s.callers.length < s'.callers.length then [] :: drawn
    else if s'.callers.length < s.callers.length then drawn.tail
    else drawn

def Traced.Steps (vm : Vm Context) (x y : Traced) : Prop :=
  vm.step id x.state = .next y.state ∧ y.drawn = drawnAfter vm x.state y.state x.drawn

/-- When the current instruction builds an object, the value it puts into the `id` field is an id
that `meow_vm_fresh_id` returned to the current activation. -/
def Traced.BuildsWithFreshId (x : Traced) : Prop :=
  ∀ (typeName : String) (fieldNames : List String) (structDef : StructDef),
    x.state.frame.current = some (.newStruct typeName fieldNames) →
    x.state.frame.context.getStruct typeName = some structDef →
    isObjectStruct structDef = true →
    ∃ v, Value.lookup meowObjectIdFieldName
        (fieldNames.zip (x.state.frame.args fieldNames.length)) = some v ∧
      ∃ label ∈ x.drawn.headD [], v.topLabel = some label

def Traced.after (vm : Vm Context) : ℕ → Traced → Option Traced
  | 0, x => some x
  | n + 1, x =>
    match vm.step id x.state with
    | .next s => Traced.after vm n ⟨s, drawnAfter vm x.state s x.drawn⟩
    | .done _ => none

theorem Traced.run_of_after {vm : Vm Context} {n : ℕ} {x y : Traced}
    (h : Traced.after vm n x = some y) : GuardedRun (fun _ => True) (Traced.Steps vm) x y := by
  induction n generalizing x with
  | zero =>
    obtain rfl := Option.some.inj h
    exact .refl
  | succ n ih =>
    rw [Traced.after] at h
    split at h
    · rename_i s hstep
      exact .head ⟨trivial, hstep, rfl⟩ (ih h)
    · cases h

/-! ## Accepted modules -/

/-- The module was accepted by both verifiers, as a publisher's transaction requires, and the
machine runs with the adapter's natives and at least the module's dependencies. -/
structure ObjectModule (vm : Vm Context) (crypto : NativeCrypto) (m : Module) (deps : DepMap) :
    Prop where
  natives : vm.natives = chainNatives crypto
  language : Verifier.verify m deps adapterNativeSigs compilerConfig = []
  adapter : Adapter.verify m deps adapterNativeSigs = []
  deps_sub : ∀ {a : Address} {n : Module}, deps[a]? = some n → vm.deps[a]? = some n

abbrev chainScope (m : Module) (deps : DepMap) (f : Function) : Scope :=
  functionScope m deps adapterNativeSigs f

def Function.buildsObject (m : Module) (f : Function) : Bool :=
  f.code.any fun
    | .newStruct typeName _ => (Adapter.objectTypes m).contains typeName
    | _ => false

/-- In every function that builds objects, fields are loaded onto an empty stack and a call without
a result stands alone, its `Void` taken off by the next instruction. -/
def countsAlike (m : Module) (deps : DepMap) : Bool :=
  m.functions.all fun f => !f.buildsObject m || f.code.zipIdx.all fun (instr, pc) =>
    Adapter.countedAlike (chainScope m deps f) pc instr

section Accepted

variable {m : Module} {deps : DepMap}

theorem countedAlike_of_countsAlike (h : countsAlike m deps = true) {f : Function}
    (hf : f ∈ m.functions) (hbuilds : f.buildsObject m = true) {pc : ℕ} {instr : Instruction}
    (hinstr : f.code[pc]? = some instr) :
    Adapter.countedAlike (chainScope m deps f) pc instr = true := by
  have hfun := List.all_eq_true.mp h f hf
  simp only [hbuilds, Bool.not_true, Bool.false_or] at hfun
  exact List.all_eq_true.mp hfun (instr, pc) (List.mem_zipIdx_iff_getElem?.mpr hinstr)

theorem getFunction_native (h : Verifier.verify m deps adapterNativeSigs compilerConfig = []) :
    ∀ sig ∈ builtinNatives ++ adapterNativeSigs, m.getFunction sig.name = none := by
  intro sig hsig
  cases hget : m.getFunction sig.name with
  | none => rfl
  | some f =>
    have hreserved := isFunctionName_of_getFunction (verify_eq_nil h).1 hget
    simp only [builtinNatives, adapterNativeSigs, List.cons_append, List.nil_append,
      List.mem_cons, List.not_mem_nil, or_false] at hsig
    rcases hsig with rfl | rfl | rfl | rfl | rfl | rfl | rfl <;>
      exact absurd hreserved (by decide)

theorem checkFunctionBody_of_verify (h : Adapter.verify m deps adapterNativeSigs = [])
    {f : Function} (hf : f ∈ m.functions) :
    Adapter.checkFunctionBody (chainScope m deps f) = [] := by
  obtain ⟨-, hfunctions⟩ := List.append_eq_nil_iff.mp h
  exact List.flatMap_eq_nil_iff.mp hfunctions f hf

end Accepted

/-! ## What the shadow knows of a frame -/

/-- A slot known to be fresh stands for a struct with one of the labels. -/
def HoldsDrawn (drawn : List ℕ) (v : Value ℕ) (slot : Slot) : Prop :=
  slot.fresh = .id → ∃ label ∈ drawn, v.topLabel = some label

def SlotDrawn (drawn : List ℕ) (o : Option (Value ℕ)) (slot : Slot) : Prop :=
  ∀ v ∈ o, HoldsDrawn drawn v slot

/-- The shadow describes the slots of the frame and the bottom of its stack. -/
structure Tracks (drawn : List ℕ) (fr : Frame ℕ) (s : VerifyState) : Prop where
  stack : List.Forall₂ (HoldsDrawn drawn) (fr.stack.drop (fr.stack.length - s.stack.length)) s.stack
  locals : List.Forall₂ (SlotDrawn drawn) fr.locals s.locals

section Tracks

variable {drawn : List ℕ} {fr fr' : Frame ℕ} {s t : VerifyState} {instr : Instruction}
variable {sc : Scope} {pc : ℕ}

theorem Tracks.mono {drawn' : List ℕ} (h : Tracks drawn fr s) (hsub : drawn ⊆ drawn') :
    Tracks drawn' fr s := by
  have hholds : ∀ (v : Value ℕ) (slot : Slot), HoldsDrawn drawn v slot →
      HoldsDrawn drawn' v slot := by
    intro v slot hv hid
    obtain ⟨label, hlabel, htop⟩ := hv hid
    exact ⟨label, hsub hlabel, htop⟩
  exact ⟨h.stack.imp hholds, h.locals.imp fun o slot ho v hv => hholds v slot (ho v hv)⟩

theorem Tracks.height_le (h : Tracks drawn fr s) : s.stack.length ≤ fr.stack.length := by
  have hlen := h.stack.length_eq
  rw [List.length_drop] at hlen
  omega

/-- Joins keep what is known, by forgetting some of it. -/
theorem Tracks.of_le (h : Tracks drawn fr s) (hle : s.Le t) : Tracks drawn fr t where
  stack := by
    have hdrop := List.forall₂_drop (s.stack.length - t.stack.length) h.stack
    rw [List.drop_drop] at hdrop
    have hsum : fr.stack.length - s.stack.length + (s.stack.length - t.stack.length)
        = fr.stack.length - t.stack.length := by
      have := h.height_le
      have := hle.height
      omega
    rw [hsum] at hdrop
    exact forall₂_comp (fun hv hslot hid => hv (hslot hid)) hdrop hle.stack
  locals := forall₂_comp (fun ho hslot v hv hid => ho v hv (hslot hid)) h.locals hle.locals

theorem Tracks.stack_of_height (h : Tracks drawn fr s)
    (hheight : s.stack.length = fr.stack.length) :
    List.Forall₂ (HoldsDrawn drawn) fr.stack s.stack := by
  have hstack := h.stack
  rwa [hheight, Nat.sub_self, List.drop_zero] at hstack

theorem tracks_of_stack (hstack : List.Forall₂ (HoldsDrawn drawn) fr.stack s.stack)
    (hlocals : List.Forall₂ (SlotDrawn drawn) fr.locals s.locals) : Tracks drawn fr s where
  stack := by rwa [hstack.length_eq, Nat.sub_self, List.drop_zero]
  locals := hlocals

theorem tracks_of_nil (hnil : s.stack = [])
    (hlocals : List.Forall₂ (SlotDrawn drawn) fr.locals s.locals) : Tracks drawn fr s where
  stack := by
    rw [hnil, List.length_nil, Nat.sub_zero, List.drop_length]
    exact .nil
  locals := hlocals

theorem holdsDrawn_other {v : Value ℕ} {slot : Slot} (hslot : slot.fresh = .other) :
    HoldsDrawn drawn v slot := by
  intro hid
  rw [hslot] at hid
  cases hid

theorem slotsDrawn_kept {now before : List (Option (Value ℕ))} {slots : List Slot}
    (hkept : List.Forall₂ SlotKept now before)
    (h : List.Forall₂ (SlotDrawn drawn) before slots) :
    List.Forall₂ (SlotDrawn drawn) now slots := by
  refine forall₂_comp (fun hkept hslot v hv hid => ?_) hkept h
  obtain ⟨w, hw, htop⟩ := hkept v hv
  rw [htop]
  exact hslot w hw hid

theorem tracks_plain (h : Tracks drawn fr s) (hheight : s.stack.length = fr.stack.length)
    (hexec : fr.Executed fr' instr) (hplain : Adapter.isPlain instr = true) :
    Tracks drawn fr' (Adapter.exec sc pc instr s).state := by
  obtain ⟨us, hus, hother, hstack, hlocals⟩ := Adapter.plain_exec sc pc s hplain
  obtain ⟨vs, hvs, hfr⟩ := hexec.stack
  refine tracks_of_stack ?_ ?_
  · rw [hstack, hfr]
    exact forall₂_append
      (forall₂_of_length (hvs.trans hus.symm) fun v u hu => holdsDrawn_other (hother u hu))
      (List.forall₂_drop _ (h.stack_of_height hheight))
  · rw [hlocals]
    refine slotsDrawn_kept (hexec.slots ?_) h.locals
    rintro slot rfl
    cases hplain

theorem tracks_load {deps : DepMap} {label slot : ℕ} (h : Tracks drawn fr s)
    (hheight : s.stack.length = fr.stack.length)
    (hexec : Frame.exec deps label fr (.load slot) = .ok fr') :
    Tracks drawn fr' (Adapter.exec sc pc (.load slot) s).state := by
  obtain ⟨v, hslot, hstack⟩ := load_eq_ok hexec
  have hexecuted := executed_exec rfl (by simp) hexec
  refine tracks_of_stack ?_ (slotsDrawn_kept (hexecuted.slots (by simp)) h.locals)
  rw [hstack]
  refine .cons ?_ (h.stack_of_height hheight)
  obtain ⟨x, hx, hdrawn⟩ := forall₂_getElem? h.locals.flip hslot
  rw [hx]
  exact hdrawn v rfl

theorem tracks_dup {deps : DepMap} {label : ℕ} (h : Tracks drawn fr s)
    (hheight : s.stack.length = fr.stack.length)
    (hexec : Frame.exec deps label fr .dup = .ok fr') :
    Tracks drawn fr' (Adapter.exec sc pc .dup s).state := by
  obtain ⟨v, rest, hfr, hstack⟩ := dup_eq_ok hexec
  have hexecuted := executed_exec rfl (by simp) hexec
  have hall := h.stack_of_height hheight
  refine tracks_of_stack ?_ (slotsDrawn_kept (hexecuted.slots (by simp)) h.locals)
  rw [hstack]
  refine .cons ?_ hall
  rw [hfr] at hall
  obtain ⟨u, us, hu, -, hs⟩ := List.forall₂_cons_left_iff.mp hall
  rw [hs]
  exact hu

theorem tracks_loadField {slot : ℕ} {path : List String} (h : Tracks drawn fr s)
    (hheight : s.stack.length = fr.stack.length) (hnil : fr.stack = [])
    (hexec : fr.Executed fr' (.loadField slot path)) :
    Tracks drawn fr' (Adapter.exec sc pc (.loadField slot path) s).state := by
  obtain ⟨vs, hvs, hfr⟩ := hexec.stack
  obtain ⟨v, rfl⟩ := List.length_eq_one_iff.mp hvs
  have hs : s.stack = [] := List.length_eq_zero_iff.mp (by simp [hheight, hnil])
  refine tracks_of_stack ?_ (slotsDrawn_kept (hexec.slots (by simp)) h.locals)
  rw [hfr, hnil]
  simp only [Adapter.exec, Adapter.goOn, VerifyState.push, VerifyState.pop, hs]
  exact .cons (holdsDrawn_other rfl) .nil

/-- `Store` moves what is known of the top of the stack into the slot; a `Void` that the shadow
does not have leaves nothing known. -/
theorem tracks_store {deps : DepMap} {label slot : ℕ} (h : Tracks drawn fr s)
    (hheight : s.stack.length = fr.stack.length ∨ s.stack = []) (hslot : slot < fr.locals.length)
    (hexec : Frame.exec deps label fr (.store slot) = .ok fr') :
    Tracks drawn fr' (Adapter.exec sc pc (.store slot) s).state := by
  obtain ⟨v, hfr, hlocals⟩ := store_eq_ok hslot hexec
  rcases hheight with hheight | hnil
  · have hall := h.stack_of_height hheight
    rw [hfr] at hall
    obtain ⟨u, us, hu, hus, hs⟩ := List.forall₂_cons_left_iff.mp hall
    refine tracks_of_stack ?_ ?_
    · simp only [Adapter.exec, Adapter.goOn, VerifyState.pop, hs]
      exact hus
    · rw [hlocals]
      simp only [Adapter.exec, Adapter.goOn, VerifyState.pop, hs]
      refine forall₂_set h.locals slot ?_
      intro w hw
      obtain rfl := Option.some.inj hw
      exact hu
  · refine tracks_of_nil ?_ ?_
    · simp only [Adapter.exec, Adapter.goOn, VerifyState.pop, hnil]
      rfl
    · rw [hlocals]
      simp only [Adapter.exec, Adapter.goOn, VerifyState.pop, hnil]
      exact forall₂_set h.locals slot fun w _ => holdsDrawn_other rfl

end Tracks

/-! ## Frames of functions that build objects -/

/-- The frame stands where both verifiers come by, at the height the language verifier holds there,
and the adapter's state there describes it. -/
def Shadowed (m : Module) (deps : DepMap) (drawn : List ℕ) (fr : Frame ℕ) : Prop :=
  ∃ t s, Certified (chainScope m deps fr.function) fr.pc t ∧
    fr.stack.length = t.stack.length ∧
    Adapter.stateAt (chainScope m deps fr.function) fr.pc = some s ∧ Tracks drawn fr s

section Shadowed

variable {vm : Vm Context} {crypto : NativeCrypto} {m : Module} {deps : DepMap}
variable (hm : ObjectModule vm crypto m deps) (hcounts : countsAlike m deps = true)
variable {f : Function} (hf : f ∈ m.functions) (hbuilds : f.buildsObject m = true)
include hm hcounts hf hbuilds

def chainLaws : (Adapter.pass (chainScope m deps f)).Laws f.code :=
  Adapter.shadowLaws hm.language (getFunction_native hm.language) hf
    fun hinstr => countedAlike_of_countsAlike hcounts hf hbuilds hinstr

omit hcounts hbuilds in
theorem initialState_shadowGood :
    Adapter.ShadowGood (chainScope m deps f) 0 (Adapter.initialState (chainScope m deps f)) := by
  intro _
  obtain ⟨hmodule, hfunctions⟩ := verify_eq_nil hm.language
  have hparams := params_le_localCount hmodule hf
  refine ⟨_, Verifier.certified_entry _ hparams (hfunctions f hf), ?_, .inl rfl⟩
  simp only [Adapter.initialState, functionScope, List.length_append, List.length_take,
    List.length_map, List.length_replicate]
  omega

/-- Everything that holds where a shadowed frame stands. -/
theorem stateAt_chain {pc : ℕ} {instr : Instruction} {s : VerifyState}
    (hinstr : f.code[pc]? = some instr)
    (hs : Adapter.stateAt (chainScope m deps f) pc = some s) {t : AbstractState}
    (hcert : Certified (chainScope m deps f) pc t) :
    Adapter.Aligned (chainScope m deps f) pc s t ∧ s.reachable = true ∧
    (Adapter.exec (chainScope m deps f) pc instr s).errors = [] := by
  obtain ⟨hgood, hreach, herrors, -⟩ := ForwardFlow.Pass.stateAt_spec
    (chainLaws hm hcounts hf hbuilds) (initialState_shadowGood hm hf)
    (checkFunctionBody_of_verify hm.adapter hf) hinstr hs
  obtain ⟨t', hcert', haligned⟩ := hgood hreach
  obtain rfl := Option.some.inj (hcert.state.symm.trans hcert'.state)
  exact ⟨haligned, hreach, herrors⟩

theorem stateAt_next {pc : ℕ} {instr : Instruction} {s : VerifyState}
    (hinstr : f.code[pc]? = some instr)
    (hs : Adapter.stateAt (chainScope m deps f) pc = some s) (hreach : s.reachable = true)
    (hret : instr ≠ .ret) (hjump : ∀ offset, instr ≠ .jump offset) (hlen : pc + 1 < f.code.length) :
    ∃ s', Adapter.stateAt (chainScope m deps f) (pc + 1) = some s' ∧
      (Adapter.exec (chainScope m deps f) pc instr s).state.Le s' := by
  obtain ⟨s', hs', -, hle⟩ := ForwardFlow.Pass.below_stateAt_succ
    (chainLaws hm hcounts hf hbuilds) (initialState_shadowGood hm hf)
    (checkFunctionBody_of_verify hm.adapter hf) hinstr hs hlen
    ((Adapter.exec_reachable hret hjump).trans hreach)
  exact ⟨s', hs', hle⟩

theorem stateAt_target {pc : ℕ} {instr : Instruction} {s : VerifyState} {offset : ℤ}
    (hinstr : f.code[pc]? = some instr)
    (hs : Adapter.stateAt (chainScope m deps f) pc = some s)
    (hoffset : instr.jumpOffset = some offset) (hforward : pc < Adapter.jumpTarget pc offset)
    (hlen : Adapter.jumpTarget pc offset < f.code.length) :
    ∃ s' s'' : VerifyState,
      Adapter.stateAt (chainScope m deps f) (Adapter.jumpTarget pc offset) = some s'' ∧
      s'.Le s'' ∧ s'.stack = (Adapter.exec (chainScope m deps f) pc instr s).state.stack ∧
      s'.locals = s.locals := by
  obtain ⟨s', hjump, hstack, hlocals, -⟩ := Adapter.exec_jump_eq (chainScope m deps f)
    pc s hoffset
  obtain ⟨s'', hs'', -, hle⟩ := ForwardFlow.Pass.below_stateAt_jump
    (chainLaws hm hcounts hf hbuilds) (initialState_shadowGood hm hf)
    (checkFunctionBody_of_verify hm.adapter hf) hinstr hs hjump hforward hlen
  exact ⟨s', s'', hs'', hle, hstack, hlocals⟩

omit hm in
theorem tracks_exec {drawn : List ℕ} {fr fr' : Frame ℕ} {s : VerifyState} {t : AbstractState}
    {instr : Instruction} {vmDeps : DepMap} {label : ℕ} (htracks : Tracks drawn fr s)
    (hinstr : f.code[fr.pc]? = some instr) (hlocal : instr.isLocal = true)
    (hcert : Certified (chainScope m deps f) fr.pc t) (hheight : fr.stack.length = t.stack.length)
    (haligned : Adapter.Aligned (chainScope m deps f) fr.pc s t)
    (hslot : ∀ slot, instr = .store slot → slot < fr.next.locals.length)
    (hexec : Frame.exec vmDeps label fr.next instr = .ok fr') :
    Tracks drawn fr' (Adapter.exec (chainScope m deps f) fr.pc instr s).state := by
  have hnext : Tracks drawn fr.next s := ⟨htracks.stack, htracks.locals⟩
  have hexecuted := executed_exec hlocal hslot hexec
  have heights : s.stack.length = fr.next.stack.length ∨ s.stack = [] := by
    rcases haligned.stack with heq | ⟨hnil, -, -⟩
    · exact .inl (heq.trans hheight.symm)
    · exact .inr hnil
  by_cases htakes : Adapter.takesOff instr = true
  · cases instr with
    | pop =>
      rcases heights with heq | hnil
      · exact tracks_plain hnext heq hexecuted rfl
      · refine tracks_of_nil ?_ (slotsDrawn_kept (hexecuted.slots (by simp)) hnext.locals)
        simp [Adapter.exec, Adapter.goOn, VerifyState.pop, hnil]
    | store slot => exact tracks_store hnext heights (hslot slot rfl) hexec
    | ret => cases hlocal
    | _ => cases htakes
  · have heq : s.stack.length = fr.next.stack.length :=
      (haligned.height hinstr (by simpa using htakes)).trans hheight.symm
    by_cases hplain : Adapter.isPlain instr = true
    · exact tracks_plain hnext heq hexecuted hplain
    · cases instr with
      | load slot => exact tracks_load hnext heq hexec
      | dup => exact tracks_dup hnext heq hexec
      | loadField slot path =>
        have hcounted := countedAlike_of_countsAlike hcounts hf hbuilds hinstr
        simp only [Adapter.countedAlike, hcert.state, List.isEmpty_iff] at hcounted
        refine tracks_loadField hnext heq (List.length_eq_zero_iff.mp ?_) hexecuted
        rw [show fr.next.stack.length = _ from hheight, hcounted, List.length_nil]
      | call name | ret => cases hlocal
      | store slot => exact absurd rfl htakes
      | _ => exact absurd rfl hplain

omit hf hbuilds in
theorem shadowed_exec {drawn : List ℕ} {fr fr' : Frame ℕ} {instr : Instruction} {vmDeps : DepMap}
    {label : ℕ} (hf : fr.function ∈ m.functions) (hbuilds : fr.function.buildsObject m = true)
    (h : Shadowed m deps drawn fr) (hinstr : fr.current = some instr)
    (hlocal : instr.isLocal = true) (hexec : Frame.exec vmDeps label fr.next instr = .ok fr') :
    Shadowed m deps drawn fr' := by
  obtain ⟨t, s, hcert, hheight, hs, htracks⟩ := h
  obtain ⟨haligned, hreach, -⟩ := stateAt_chain hm hcounts hf hbuilds hinstr hs hcert
  obtain ⟨htreach, hchecked⟩ := checked_of_certified hm.language hf hcert hinstr
  obtain ⟨hmodule, hfunctions⟩ := verify_eq_nil hm.language
  have hparams := params_le_localCount hmodule hf
  have hslot : ∀ slot, instr = .store slot → slot < fr.next.locals.length := by
    rintro slot rfl
    have hcheck : Verifier.checkSlot fr.function fr.pc slot = [] := hchecked.structural
    have hslots : fr.next.locals.length = fr.function.localCount :=
      htracks.locals.length_eq.trans haligned.locals
    rw [hslots]
    simpa [Verifier.checkSlot] using hcheck
  have hexecuted := executed_exec hlocal hslot hexec
  have htracks' := tracks_exec hcounts hf hbuilds htracks hinstr hlocal hcert hheight haligned
    hslot hexec
  have hheight' : fr'.stack.length
      = (Verifier.exec (chainScope m deps fr.function) fr.pc instr t).state.stack.length := by
    obtain ⟨vs, hvs, hstack⟩ := hexecuted.stack
    obtain ⟨hpops, hlen⟩ : HeightOk instr t
        (Verifier.exec (chainScope m deps fr.function) fr.pc instr t) := hchecked.heightOk hlocal
    have hsame : fr.next.stack.length = fr.stack.length := rfl
    rw [hstack, List.length_append, List.length_drop, hvs]
    omega
  obtain ⟨-, -, hfunction⟩ := hexecuted.same
  have hfunction' : fr'.function = fr.function := hfunction
  -- Control falls through, or goes to the target of a jump.
  have hfall : fr'.pc = fr.pc + 1 → instr ≠ .ret → (∀ offset, instr ≠ .jump offset) →
      Shadowed m deps drawn fr' := by
    intro hpc hret hjump
    obtain ⟨t', hcert', hle⟩ := Verifier.certified_next (chainScope m deps fr.function) hparams
      (hfunctions _ hf) hcert hinstr ((Verifier.exec_reachable _ _ hret hjump t).trans htreach)
    obtain ⟨s', hs', hle'⟩ := stateAt_next hm hcounts hf hbuilds hinstr hs hreach hret hjump
      hcert'.inCode
    refine ⟨t', s', ?_, ?_, ?_, htracks'.of_le hle'⟩
    · rw [hfunction', hpc]
      exact hcert'
    · rw [hheight', hle.1]
    · rw [hfunction', hpc]
      exact hs'
  have hret : instr ≠ .ret := by
    rintro rfl
    cases hlocal
  cases hoffset : instr.jumpOffset with
  | none =>
    refine hfall (hexecuted.stays hoffset) hret ?_
    rintro offset rfl
    cases hoffset
  | some offset =>
    rcases hexecuted.jumps offset hoffset with ⟨hpc, hcond⟩ | htarget
    · refine hfall hpc hret ?_
      rintro offset' rfl
      obtain rfl := Option.some.inj hoffset
      exact hcond rfl
    · obtain ⟨hpos, hbound⟩ :=
        checkJump_eq_nil (checkJump_of_checkInstr hoffset hchecked.structural)
      have hedge := (Verifier.exec_jump (chainScope m deps fr.function) fr.pc hoffset t).2
      rw [Verifier.jumpEdge, if_pos hpos] at hedge
      have hpc : fr'.pc = Adapter.jumpTarget fr.pc offset := by
        have hnonneg : ¬ ((fr.next.pc : ℤ) - 1 + offset < 0) := by
          simp only [Frame.next]
          omega
        simp only [jumpTarget, hnonneg, if_false] at htarget
        rw [← Except.ok.inj htarget, Adapter.jumpTarget, Frame.next]
        congr 1
        push_cast
        ring
      have hforward : fr.pc < Adapter.jumpTarget fr.pc offset := by
        simp only [Adapter.jumpTarget]
        omega
      obtain ⟨t', hcert', hle⟩ := Verifier.certified_jump (chainScope m deps fr.function) hparams
        (hfunctions _ hf) hcert hinstr hedge hforward
        (by simp only [functionScope] at hbound ⊢; omega)
      obtain ⟨s', s'', hs'', hle', hstack, hlocals⟩ := stateAt_target hm hcounts hf hbuilds hinstr
        hs hoffset hforward hcert'.inCode
      have hkeeps : (Adapter.exec (chainScope m deps fr.function) fr.pc instr s).state.locals
          = s.locals := by
        cases instr with
        | jump o | jumpIf o | jumpIfNot o => rfl
        | _ => cases hoffset
      have htracks'' : Tracks drawn fr' s' :=
        ⟨hstack ▸ htracks'.stack, by rw [hlocals, ← hkeeps]; exact htracks'.locals⟩
      refine ⟨t', s'', ?_, ?_, ?_, htracks''.of_le hle'⟩
      · rw [hfunction', hpc]
        exact hcert'
      · rw [hheight', ← hle.1]
      · rw [hfunction', hpc]
        exact hs''

omit hf hbuilds in
theorem shadowed_call {drawn drawn' : List ℕ} {fr : Frame ℕ} {name : String} {n : ℕ} {result : Bool}
    (hf : fr.function ∈ m.functions) (hbuilds : fr.function.buildsObject m = true)
    (h : Shadowed m deps drawn fr) (hinstr : fr.current = some (.call name))
    (harity : calleeArity (chainScope m deps fr.function) name = some (n, result))
    (hsub : drawn ⊆ drawn') {v : Value ℕ}
    (hv : name = nativeFnFreshId → ∃ label ∈ drawn', v.topLabel = some label) :
    Shadowed m deps drawn' { fr.next with stack := v :: fr.stack.drop n } := by
  obtain ⟨t, s, hcert, hheight, hs, htracks⟩ := h
  obtain ⟨haligned, hreach, -⟩ := stateAt_chain hm hcounts hf hbuilds hinstr hs hcert
  obtain ⟨htreach, hchecked⟩ := checked_of_certified hm.language hf hcert hinstr
  obtain ⟨hmodule, hfunctions⟩ := verify_eq_nil hm.language
  have hnative := getFunction_native hm.language
  obtain ⟨n', result', ty, harity', hle, heq, -⟩ := hchecked.call
  obtain ⟨rfl, rfl⟩ : n = n' ∧ result = result' := by
    have := harity.symm.trans harity'
    simpa using this
  have heights : s.stack.length = fr.stack.length :=
    (haligned.height hinstr rfl).trans hheight.symm
  have hgoes : (Verifier.exec (chainScope m deps fr.function) fr.pc (.call name) t).state.reachable
      = true :=
    (Verifier.exec_reachable _ _ (by simp) (by simp) t).trans htreach
  obtain ⟨t', hcert', hle'⟩ := Verifier.certified_next (chainScope m deps fr.function)
    (params_le_localCount hmodule hf) (hfunctions _ hf) hcert hinstr hgoes
  obtain ⟨s', hs', hles⟩ := stateAt_next hm hcounts hf hbuilds hinstr hs hreach (by simp) (by simp)
    hcert'.inCode
  refine ⟨t', s', hcert', ?_, hs', Tracks.of_le ?_ hles⟩
  · have hstack := hle'.1
    rw [show Verifier.exec (chainScope m deps fr.function) fr.pc (.call name) t = _ from heq] at hstack
    simp only [← hstack, Verifier.goOn, List.length_cons, List.length_drop, hheight]
  · have hmono := htracks.mono hsub
    have heffect := Adapter.callEffect_eq hnative harity
    cases result with
    | true =>
      refine tracks_of_stack ?_ ?_
      · simp only [Adapter.exec, Adapter.callInstr, Adapter.goOn, heffect, if_true,
          VerifyState.push, VerifyState.popN]
        refine .cons ?_ (List.forall₂_drop n (hmono.stack_of_height heights))
        intro hid
        rw [Adapter.fresh_returnSlot] at hid
        split at hid
        · rename_i hname
          exact hv hname
        · cases hid
      · simp only [Adapter.exec, Adapter.callInstr, Adapter.goOn, heffect, if_true]
        exact hmono.locals
    | false =>
      have haligned' := Adapter.aligned_call hm.language hnative hf
        (fun hinstr => countedAlike_of_countsAlike hcounts hf hbuilds hinstr) hinstr hcert haligned
      have hlocals : (Adapter.exec (chainScope m deps fr.function) fr.pc (.call name) s).state.locals
          = s.locals := by
        simp [Adapter.exec, Adapter.callInstr, Adapter.goOn, heffect, VerifyState.popN]
      refine tracks_of_nil ?_ (hlocals ▸ hmono.locals)
      rcases haligned'.stack with hlen | ⟨hnil, -, -⟩
      · simp only [heq, Adapter.exec, Adapter.callInstr, Adapter.goOn, heffect,
          Bool.false_eq_true, if_false, VerifyState.popN, Verifier.goOn, List.length_cons,
          List.length_drop] at hlen
        omega
      · exact hnil

omit hcounts hbuilds in
theorem shadowed_new {addr : Address} {args : List (Value ℕ)} (hargs : args.length ≤ f.localCount) :
    Shadowed m deps [] (Frame.new m addr f args) := by
  obtain ⟨hmodule, hfunctions⟩ := verify_eq_nil hm.language
  have hparams := params_le_localCount hmodule hf
  refine ⟨_, _, Verifier.certified_entry _ hparams (hfunctions f hf), rfl,
    ForwardFlow.Pass.stateAt_zero rfl, tracks_of_stack .nil ?_⟩
  refine forall₂_of_length ?_ ?_
  · simp only [Frame.new, Adapter.initialState, functionScope, List.length_append,
      List.length_map, List.length_replicate, List.length_take]
    omega
  · intro o slot hslot v _
    refine holdsDrawn_other ?_
    simp only [Adapter.initialState, List.mem_append] at hslot
    rcases hslot with hslot | hslot
    · obtain ⟨param, -, rfl⟩ := List.mem_map.mp (List.mem_of_mem_take hslot)
      rfl
    · rw [List.eq_of_mem_replicate hslot]
      rfl

end Shadowed

/-! ## Runs -/

def FreshFrame (m : Module) (deps : DepMap) (drawn : List ℕ) (fr : Frame ℕ) : Prop :=
  fr.context = m →
    fr.function ∈ m.functions ∧ (fr.function.buildsObject m = true → Shadowed m deps drawn fr)

/-- The current frame, and every caller once it has its result, are as the shadow knows them. -/
structure FreshState (m : Module) (deps : DepMap) (x : Traced) : Prop where
  frame : FreshFrame m deps (x.drawn.headD []) x.state.frame
  callers : List.Forall₂ (fun fr drawn => ∀ v, FreshFrame m deps drawn (fr.push v))
    x.state.callers x.drawn.tail
  current : x.drawn ≠ []

section Run

variable {vm : Vm Context} {crypto : NativeCrypto} {m : Module} {deps : DepMap}
variable (hm : ObjectModule vm crypto m deps) (hcounts : countsAlike m deps = true)
include hm

theorem nativeCall_eq_some {fr : Frame ℕ} {entry : NativeFnEntry Context} (hcontext : fr.context = m)
    (h : vm.nativeCall fr = some entry) :
    fr.current = some (.call entry.name) ∧
    calleeArity (chainScope m deps fr.function) entry.name
      = some (entry.params.length, entry.returnType.isSome) := by
  unfold Vm.nativeCall at h
  split at h
  · rename_i name hinstr
    split at h
    · rename_i hlookup
      obtain ⟨hparse, hget⟩ := Bool.and_eq_true_iff.mp hlookup
      have hname : entry.name = name := by simpa using List.find?_some h
      subst hname
      refine ⟨hinstr, ?_⟩
      have hfind : (builtinNatives ++ adapterNativeSigs).find? (·.name == entry.name)
          = some entry.toNativeSig := by
        rw [Vm.getNative, hm.natives] at h
        rw [← chainNatives_sigs crypto, List.find?_map]
        exact congrArg (Option.map _) h
      rw [hcontext] at hget
      simp [calleeArity, Option.isNone_iff_eq_none.mp hparse, functionScope,
        Option.isNone_iff_eq_none.mp hget, hfind]
    · cases h
  · cases h

theorem topLabel_freshId {fr : Frame ℕ} {entry : NativeFnEntry Context}
    (h : vm.nativeCall fr = some entry) (hname : entry.name = nativeFnFreshId) {ctx ctx' : Context}
    {args : List (Value Unit)} {v : Option (Value Unit)} (hfunc : entry.func ctx args = (.ret v, ctx'))
    (n : ℕ) : ((v.getD .void).label id n).1.topLabel = some n := by
  have hentry : entry = freshIdEntry crypto := by
    unfold Vm.nativeCall at h
    split at h
    · rename_i name _
      split at h
      · have hfound : entry.name = name := by simpa using List.find?_some h
        rw [← hfound, hname, Vm.getNative, hm.natives] at h
        exact (Option.some.inj h).symm
      · cases h
    · cases h
  subst hentry
  obtain rfl := NativeResult.ret.inj (Prod.mk.inj hfunc).1
  rfl

theorem calleeArity_calls {fr : Frame ℕ} (hcontext : fr.context = m) {name : String} {n : ℕ}
    {result : Bool} {context : Module} {contextAddr : Address} {callee : Function}
    (harity : calleeArity (chainScope m deps fr.function) name = some (n, result))
    (hcalls : vm.Calls fr name context contextAddr callee) : n = callee.params.length := by
  unfold calleeArity at harity
  rcases hcalls.resolved with ⟨fnName, hparse, hdep, -, hget⟩ | ⟨hparse, rfl, -, hget⟩
  · simp only [hparse] at harity
    obtain ⟨callee', hbind, heq⟩ := Option.map_eq_some_iff.mp harity
    obtain ⟨module, hmodule, hget'⟩ := Option.bind_eq_some_iff.mp hbind
    obtain rfl := Option.some.inj (hdep.symm.trans (hm.deps_sub hmodule))
    obtain rfl := Option.some.inj (hget.symm.trans hget')
    exact (Prod.mk.inj heq).1.symm
  · rw [hcontext] at hget
    simp only [hparse, functionScope, hget, Option.some.injEq, Prod.mk.injEq] at harity
    exact harity.1.symm

theorem freshFrame_new {context : Module} {contextAddr : Address} {fnName : String}
    {callee : Function} (hget : context.getFunction fnName = some callee) {args : List (Value ℕ)}
    (hargs : context = m → args.length ≤ callee.localCount) :
    FreshFrame m deps [] (Frame.new context contextAddr callee args) := by
  intro hcontext
  obtain rfl : context = m := hcontext
  have hcallee := List.mem_of_find?_eq_some hget
  exact ⟨hcallee, fun _ => shadowed_new hm hcallee (hargs rfl)⟩

include hcounts

theorem freshFrame_call {drawn : List ℕ} {fr : Frame ℕ} {name : String} {context : Module}
    {contextAddr : Address} {callee : Function} (h : FreshFrame m deps drawn fr)
    (hinstr : fr.current = some (.call name))
    (hcalls : vm.Calls fr name context contextAddr callee) (v : Value ℕ) :
    FreshFrame m deps drawn
      (Frame.push { fr.next with stack := fr.stack.drop callee.params.length } v) := by
  intro hsame
  have hcontext : fr.context = m := hsame
  obtain ⟨hf, hshadowed⟩ := h hcontext
  refine ⟨hf, fun hbuilds => ?_⟩
  have hshadow := hshadowed hbuilds
  obtain ⟨t, s, hcert, -⟩ := hshadow
  obtain ⟨-, hchecked⟩ := checked_of_certified hm.language hf hcert hinstr
  obtain ⟨n, result, ty, harity, -⟩ := hchecked.call
  have hn := calleeArity_calls hm hcontext harity hcalls
  subst hn
  refine shadowed_call hm hcounts hf hbuilds (hshadowed hbuilds) hinstr harity
    (List.Subset.refl _) ?_
  -- The name of a native is never the name of a function.
  rintro rfl
  exfalso
  rcases hcalls.resolved with ⟨fnName, hparse, -⟩ | ⟨-, rfl, -, hget⟩
  · cases (show parseModuleRef nativeFnFreshId = none by decide +kernel).symm.trans hparse
  · have hnone := getFunction_native hm.language freshIdSig (by simp [adapterNativeSigs])
    rw [← hcontext] at hnone
    cases hget.symm.trans hnone

theorem freshFrame_exec {drawn : List ℕ} {fr fr' : Frame ℕ} {instr : Instruction} {vmDeps : DepMap}
    {label : ℕ} (h : FreshFrame m deps drawn fr) (hinstr : fr.current = some instr)
    (hlocal : instr.isLocal = true) (hexec : Frame.exec vmDeps label fr.next instr = .ok fr') :
    FreshFrame m deps drawn fr' := by
  obtain ⟨hcontext, -, hfunction⟩ := sameActivation_exec hexec
  intro hcontext'
  obtain ⟨hf, hshadowed⟩ := h (hcontext.symm.trans hcontext')
  rw [hfunction]
  exact ⟨hf, fun hbuilds => shadowed_exec hm hcounts hf hbuilds (hshadowed hbuilds) hinstr hlocal
    hexec⟩

theorem freshFrame_native {drawn drawn' : List ℕ} {fr : Frame ℕ} {entry : NativeFnEntry Context}
    (h : FreshFrame m deps drawn fr) (hnative : vm.nativeCall fr = some entry)
    (hsub : drawn ⊆ drawn') {v : Value ℕ}
    (hv : entry.name = nativeFnFreshId → ∃ label ∈ drawn', v.topLabel = some label) :
    FreshFrame m deps drawn' (fr.replaceArgs entry.params.length v) := by
  intro hsame
  have hcontext : fr.context = m := hsame
  obtain ⟨hf, hshadowed⟩ := h hcontext
  obtain ⟨hinstr, harity⟩ := nativeCall_eq_some hm hcontext hnative
  exact ⟨hf, fun hbuilds =>
    shadowed_call hm hcounts hf hbuilds (hshadowed hbuilds) hinstr harity hsub hv⟩

theorem FreshState.step {x y : Traced} (h : FreshState m deps x) (hstep : x.Steps vm y) :
    FreshState m deps y := by
  obtain ⟨s, drawn⟩ := x
  obtain ⟨s', drawn'⟩ := y
  obtain ⟨hvm, hdrawn⟩ := hstep
  obtain ⟨hframe, hcallers, hcurrent⟩ := h
  simp only at hvm hdrawn hframe hcallers hcurrent
  obtain ⟨g, gs, rfl⟩ := List.exists_cons_of_ne_nil hcurrent
  subst hdrawn
  cases moves_of_step hvm with
  | @exec instr fr' gas hinstr hlocal hexec =>
    have hnone : vm.nativeCall s.frame = none := nativeCall_of_isLocal hinstr hlocal
    simp only [drawnAfter, hnone, Nat.lt_irrefl, if_false]
    exact ⟨freshFrame_exec hm hcounts hframe hinstr hlocal hexec, hcallers, hcurrent⟩
  | @call name context contextAddr callee gas hinstr hcalls _ =>
    have hnone : vm.nativeCall s.frame = none := hcalls.nativeCall_eq_none hinstr
    simp only [drawnAfter, hnone, List.length_cons, Nat.lt_succ_self, if_true]
    refine ⟨?_, .cons (freshFrame_call hm hcounts hframe hinstr hcalls) hcallers, by simp⟩
    obtain ⟨fnName, hget⟩ : ∃ fnName, context.getFunction fnName = some callee := by
      rcases hcalls.resolved with ⟨fnName, -, -, -, hget⟩ | ⟨-, -, -, hget⟩
      · exact ⟨fnName, hget⟩
      · exact ⟨name, hget⟩
    refine freshFrame_new hm hget ?_
    rintro rfl
    have hparams := params_le_localCount (verify_eq_nil hm.language).1
      (List.mem_of_find?_eq_some hget)
    simp only [Frame.args, List.length_reverse, List.length_take]
    omega
  | @native entry v gas ctx hnative hargs hfunc hqualified =>
    by_cases hname : entry.name = nativeFnFreshId
    · have htop := topLabel_freshId hm hnative hname hfunc s.nextLabel
      simp only [drawnAfter, hnative, hname, if_true]
      refine ⟨?_, hcallers, by simp⟩
      refine freshFrame_native hm hcounts hframe hnative ?_ fun _ => ?_
      · exact List.subset_append_right _ _
      · refine ⟨s.nextLabel, ?_, htop⟩
        simp [Frame.topLabel, Frame.replaceArgs, htop]
    · simp only [drawnAfter, hnative, hname, if_false]
      exact ⟨freshFrame_native hm hcounts hframe hnative (List.Subset.refl _)
        fun heq => absurd heq hname, hcallers, hcurrent⟩
  | @ret caller callers gas hinstr hsuspended =>
    have hnone : vm.nativeCall s.frame = none := by
      rcases hinstr with hinstr | hinstr <;> simp [Vm.nativeCall, hinstr]
    rw [hsuspended] at hcallers
    obtain ⟨g', gs', hcaller, hrest, hgs⟩ := List.forall₂_cons_left_iff.mp hcallers
    simp only [List.tail_cons] at hgs
    subst hgs
    have hlen : ¬ s.callers.length < callers.length := by
      rw [hsuspended, List.length_cons]
      omega
    have hlen' : callers.length < s.callers.length := by
      rw [hsuspended, List.length_cons]
      omega
    simp only [drawnAfter, hnone, hlen, hlen', if_false, if_true]
    exact ⟨hcaller _, hrest, by simp⟩

omit hcounts in
theorem freshState_start {fnName : String} {args : List (Value Unit)} {gas : GasMeter}
    {ctx : Context} {s₀ : State ℕ Context} (hstart : vm.start id fnName args gas ctx = .next s₀) :
    FreshState m deps ⟨s₀, [[]]⟩ := by
  obtain ⟨-, function, hget, hlen, rfl⟩ := start_eq_next hstart
  exact ⟨freshFrame_new hm hget fun _ => hlen, .nil, by simp⟩

omit hm hcounts in
theorem contains_objectTypes {typeName : String} {structDef : StructDef}
    (hdef : m.getStruct typeName = some structDef) (hobject : isObjectStruct structDef = true) :
    (Adapter.objectTypes m).contains typeName = true := by
  have hname : structDef.name = typeName := by simpa using List.find?_some hdef
  rw [List.contains_iff_mem, ← hname]
  exact List.mem_map_of_mem (List.mem_filter.mpr ⟨List.mem_of_find?_eq_some hdef, hobject⟩)

omit hm hcounts in
theorem head_args {fr : Frame ℕ} {n : ℕ} (hn : 0 < n) (hlen : n ≤ fr.stack.length) :
    (fr.args n).head? = fr.stack[n - 1]? := by
  rw [Frame.args, List.head?_reverse, List.getLast?_eq_getElem?, List.length_take,
    Nat.min_eq_left hlen, List.getElem?_take, if_pos (by omega)]

/-- What the adapter checked where an object is built. -/
theorem buildsWithFreshId_of_freshState {x : Traced} (h : FreshState m deps x)
    (hcontext : x.state.frame.context = m) : x.BuildsWithFreshId := by
  intro typeName fieldNames structDef hinstr hdef hobject
  rw [hcontext] at hdef
  have hcontains := contains_objectTypes hdef hobject
  obtain ⟨hf, hshadowed⟩ := h.frame hcontext
  have hbuilds : x.state.frame.function.buildsObject m = true :=
    List.any_eq_true.mpr ⟨_, List.mem_of_getElem? hinstr, hcontains⟩
  obtain ⟨t, s, hcert, hheight, hs, htracks⟩ := hshadowed hbuilds
  obtain ⟨haligned, -, herrors⟩ := stateAt_chain hm hcounts hf hbuilds hinstr hs hcert
  obtain ⟨-, hchecked⟩ := checked_of_certified hm.language hf hcert hinstr
  have heights : s.stack.length = x.state.frame.stack.length :=
    (haligned.height hinstr rfl).trans hheight.symm
  have henough : fieldNames.length ≤ x.state.frame.stack.length :=
    hheight ▸ (hchecked.heightOk rfl).1
  -- The first field name is `id`.
  obtain ⟨names, rfl⟩ : ∃ names, fieldNames = meowObjectIdFieldName :: names := by
    obtain ⟨-, structDef', hdef', rfl⟩ := checkStructAccess_eq_nil hchecked.structural
    obtain rfl := Option.some.inj (hdef.symm.trans hdef')
    unfold isObjectStruct at hobject
    split at hobject
    · rename_i field hfield
      obtain ⟨fields, hfields⟩ := List.head?_eq_some_iff.mp hfield
      have hname : field.name = meowObjectIdFieldName := by
        simpa using (Bool.and_eq_true_iff.mp hobject).1
      exact ⟨fields.map (·.name), by rw [hfields, List.map_cons, hname]⟩
    · cases hobject
  generalize hn : (meowObjectIdFieldName :: names).length = n at henough
  have hpos : 0 < n := hn ▸ Nat.succ_pos _
  -- The shadow slot that the adapter looks at is the one of the first argument.
  obtain ⟨slot, hnth, hid⟩ :=
    Adapter.fresh_of_newStruct hcontains (hn.symm ▸ hpos) herrors
  have hslot : s.stack[n - 1]? = some slot := by
    rw [hn, VerifyState.nthFromTop, List.getElem?_reverse (by omega)] at hnth
    rwa [show s.stack.length - 1 - (s.stack.length - n) = n - 1 by omega] at hnth
  obtain ⟨v, hv, hdrawn⟩ := forall₂_getElem? (htracks.stack_of_height heights) hslot
  have hhead := head_args hpos henough
  rw [hv] at hhead
  obtain ⟨rest, hrest⟩ := List.head?_eq_some_iff.mp hhead
  refine ⟨v, ?_, hdrawn hid⟩
  rw [hrest, List.zip_cons_cons]
  simp [Value.lookup]

/-- In every state of every run, an object of the module is built with an id drawn by the
activation that builds it. -/
theorem id_freshness {fnName : String} {args : List (Value Unit)} {gas : GasMeter} {ctx : Context}
    {s₀ : State ℕ Context} (hstart : vm.start id fnName args gas ctx = .next s₀) {x : Traced}
    (hrun : GuardedRun (fun _ => True) (Traced.Steps vm) ⟨s₀, [[]]⟩ x)
    (hcontext : x.state.frame.context = m) : x.BuildsWithFreshId := by
  have hfresh : FreshState m deps x :=
    hrun.invariant (fun hy _ hstep => hy.step hm hcounts hstep) (freshState_start hm hstart)
  exact buildsWithFreshId_of_freshState hm hcounts hfresh hcontext

end Run

/-! ## A token that takes its id from elsewhere -/

namespace Sample

def tokenModule (f : Function) : Module where
  name := "token"
  imports := [meowObjectModuleAddress]
  structs := [
    { name := "Token", fields := [⟨"id", meowObjectIdType⟩, ⟨"value", .u64⟩], isPublic := true },
    { name := "Note", fields := [⟨"value", .u64⟩], isPublic := true }]
  functions := [f]

def mint : Function where
  name := "mint"
  isPublic := true
  params := []
  returnType := none
  localCount := 0
  code := [
    .call nativeFnFreshId, .pushU64 5, .newStruct "Token" ["id", "value"],
    .call nativeFnSender, .call nativeFnTransfer, .pop, .ret]

/-- Draws an id, builds the token with the `old` one and destroys the drawn id. The adapter takes
the `LoadField` for an instruction that replaces the top of the stack, which hides the `old` id
from it. -/
def reissue : Function where
  name := "reissue"
  isPublic := true
  params := [("old", meowObjectIdType), ("note", .struct "Note")]
  returnType := none
  localCount := 2
  code := [
    .call nativeFnFreshId, .load 0, .loadField 1 ["value"], .newStruct "Token" ["id", "value"],
    .call nativeFnSender, .call nativeFnTransfer, .pop, .call nativeFnDestroy, .pop,
    .load 1, .unpackStruct "Note" ["value"], .pop, .ret]

def tokenCrypto : NativeCrypto where
  derive _ _ n := BitVec.ofNat 256 (100 + n)
  seed d _ := d
  random _ _ := 0
  bcs := bcsLayout

def tokenVm (f : Function) : Vm Context where
  module := tokenModule f
  moduleAddr := 1
  deps := objectDeps
  natives := chainNatives tokenCrypto
  gasSchedule := {}
  config := vmConfig

def tokenGas : GasMeter where
  limit := 1000
  spent := 0

def tokenContext : Context :=
  Context.new tokenCrypto 9 0 0 0

def note : Value Unit :=
  .struct () (qualify 1 "Note") [("value", .u64 5)]

theorem mint_objectModule :
    ObjectModule (tokenVm mint) tokenCrypto (tokenModule mint) objectDeps where
  natives := rfl
  language := by decide +kernel
  adapter := by decide +kernel
  deps_sub h := h

theorem reissue_objectModule :
    ObjectModule (tokenVm reissue) tokenCrypto (tokenModule reissue) objectDeps where
  natives := rfl
  language := by decide +kernel
  adapter := by decide +kernel
  deps_sub h := h

end Sample

open Sample in
theorem id_freshness_mint :
    ∃ (s₀ : State ℕ Context) (x : Traced),
      (tokenVm mint).start id "mint" [] tokenGas tokenContext = .next s₀ ∧
      GuardedRun (fun _ => True) (Traced.Steps (tokenVm mint)) ⟨s₀, [[]]⟩ x ∧
      x.state.frame.current = some (.newStruct "Token" ["id", "value"]) ∧
      x.BuildsWithFreshId := by
  obtain ⟨s₀, hstart, hafter⟩ := StepResult.Next.exists
    (r := (tokenVm mint).start id "mint" [] tokenGas tokenContext)
    (P := fun s₀ => ((Traced.after (tokenVm mint) 2 ⟨s₀, [[]]⟩).any fun x =>
      decide (x.state.frame.context = tokenModule mint) &&
      decide (x.state.frame.current = some (.newStruct "Token" ["id", "value"]))) = true)
    (by decide +kernel)
  obtain ⟨x, hx, hbuilds⟩ := (Option.any_eq_true _ _).mp hafter
  obtain ⟨hcontext, hinstr⟩ := Bool.and_eq_true_iff.mp hbuilds
  have hrun := Traced.run_of_after hx
  exact ⟨s₀, x, hstart, hrun, of_decide_eq_true hinstr, id_freshness mint_objectModule
    (by decide +kernel) hstart hrun (of_decide_eq_true hcontext)⟩

open Sample in
theorem id_freshness_fails :
    ObjectModule (tokenVm reissue) tokenCrypto (tokenModule reissue) objectDeps ∧
    ∃ (s₀ : State ℕ Context) (x : Traced),
      (tokenVm reissue).start id "reissue" [meowObjectId 7, note] tokenGas tokenContext
        = .next s₀ ∧
      GuardedRun (fun _ => True) (Traced.Steps (tokenVm reissue)) ⟨s₀, [[]]⟩ x ∧
      x.state.frame.context = tokenModule reissue ∧ ¬ x.BuildsWithFreshId := by
  refine ⟨reissue_objectModule, ?_⟩
  obtain ⟨s₀, hstart, hafter⟩ := StepResult.Next.exists
    (r := (tokenVm reissue).start id "reissue" [meowObjectId 7, note] tokenGas tokenContext)
    (P := fun s₀ => ((Traced.after (tokenVm reissue) 3 ⟨s₀, [[]]⟩).any fun x =>
      decide (x.state.frame.context = tokenModule reissue) &&
      (decide (x.state.frame.current = some (.newStruct "Token" ["id", "value"])) &&
      (x.drawn.headD []).all fun label =>
        decide ((Value.lookup meowObjectIdFieldName
          (["id", "value"].zip (x.state.frame.args 2))).bind Value.topLabel ≠ some label))) = true)
    (by decide +kernel)
  obtain ⟨x, hx, hstate⟩ := (Option.any_eq_true _ _).mp hafter
  obtain ⟨hcontext, hstate⟩ := Bool.and_eq_true_iff.mp hstate
  obtain ⟨hinstr, hstale⟩ := Bool.and_eq_true_iff.mp hstate
  have hmodule := of_decide_eq_true hcontext
  refine ⟨s₀, x, hstart, Traced.run_of_after hx, hmodule, fun hbuilds => ?_⟩
  obtain ⟨v, hv, label, hlabel, htop⟩ := hbuilds "Token" ["id", "value"] _
    (of_decide_eq_true hinstr) (by rw [hmodule]; rfl) (by decide +kernel)
  refine of_decide_eq_true (List.all_eq_true.mp hstale label hlabel) ?_
  rw [show (["id", "value"] : List String).length = 2 from rfl] at hv
  rw [hv, Option.bind_some, htop]

end MeowChain
