import MeowChain.Soundness.Preservation

/-!
# What acceptance guarantees of a run

Type preservation, field encapsulation and the absence of static traps, for runs whose field paths
resolve through the definitions of the executing module. The verifier does not establish that
condition: a path into a struct of another module, or to a field nobody declared, is accepted, and
the wallet below shows what such a path breaks.
-/

set_option autoImplicit false

namespace MeowChain

open Verifier

variable {τ σ : Type}

/-! ## Evaluating runs -/

def StepResult.Holds (P : State τ σ → Prop) (Q : Final τ σ → Prop) : StepResult τ σ → Prop
  | .next s => P s
  | .done final => Q final

instance StepResult.decidableHolds (P : State τ σ → Prop) (Q : Final τ σ → Prop) [DecidablePred P]
    [DecidablePred Q] : (r : StepResult τ σ) → Decidable (r.Holds P Q)
  | .next s => inferInstanceAs (Decidable (P s))
  | .done final => inferInstanceAs (Decidable (Q final))

abbrev StepResult.Next (P : State τ σ → Prop) (r : StepResult τ σ) : Prop :=
  r.Holds P fun _ => False

theorem StepResult.Next.exists {P : State τ σ → Prop} {r : StepResult τ σ} (h : r.Next P) :
    ∃ s, r = .next s ∧ P s := by
  cases r with
  | next s => exact ⟨s, rfl, h⟩
  | done final => exact h.elim

abbrev Vm.Run (vm : Vm σ) (tok : ℕ → τ) : State τ σ → State τ σ → Prop :=
  GuardedRun (fun _ => True) (vm.Steps tok)

/-- The call ends with `final`, and every state it steps from meets the guard. -/
inductive Vm.Ends (vm : Vm σ) (tok : ℕ → τ) (Guard : State τ σ → Prop) (fnName : String)
    (args : List (Value Unit)) (gas : GasMeter) (ctx : σ) (final : Final τ σ) : Prop
  | atStart (h : vm.start tok fnName args gas ctx = .done final)
  | afterRun (s₀ s : State τ σ) (hstart : vm.start tok fnName args gas ctx = .next s₀)
      (hrun : GuardedRun Guard (vm.Steps tok) s₀ s) (hguard : Guard s)
      (hstep : vm.step tok s = .done final)

/-- At most `fuel` turns, each from a state that meets the guard, end with a `final` of which `P`
holds. -/
def Vm.EndsWithin (vm : Vm σ) (tok : ℕ → τ) (Guard : State τ σ → Prop) (P : Final τ σ → Prop) :
    ℕ → State τ σ → Prop
  | 0, _ => False
  | fuel + 1, s => Guard s ∧ (vm.step tok s).Holds (vm.EndsWithin tok Guard P fuel) P

instance Vm.decidableEndsWithin (vm : Vm σ) (tok : ℕ → τ) (Guard : State τ σ → Prop)
    [DecidablePred Guard] (P : Final τ σ → Prop) [DecidablePred P] :
    (fuel : ℕ) → DecidablePred (vm.EndsWithin tok Guard P fuel)
  | 0, _ => isFalse not_false
  | fuel + 1, s =>
    have := Vm.decidableEndsWithin vm tok Guard P fuel
    inferInstanceAs (Decidable (Guard s ∧ (vm.step tok s).Holds (vm.EndsWithin tok Guard P fuel) P))

theorem Vm.EndsWithin.exists {vm : Vm σ} {tok : ℕ → τ} {Guard : State τ σ → Prop}
    {P : Final τ σ → Prop} {fuel : ℕ} {s : State τ σ} (h : vm.EndsWithin tok Guard P fuel s) :
    ∃ s' final, GuardedRun Guard (vm.Steps tok) s s' ∧ Guard s' ∧ vm.step tok s' = .done final ∧
      P final := by
  induction fuel generalizing s with
  | zero => exact h.elim
  | succ fuel ih =>
    obtain ⟨hguard, hrest⟩ := h
    cases hstep : vm.step tok s with
    | next t =>
      rw [hstep] at hrest
      obtain ⟨s', final, hrun, hdone⟩ := ih hrest
      exact ⟨s', final, .head ⟨hguard, hstep⟩ hrun, hdone⟩
    | done final =>
      rw [hstep] at hrest
      exact ⟨s, final, .refl, hguard, hstep, hrest⟩

/-! ## A wallet holding a coin of another module -/

namespace Sample

def coinAddr : Address := 2

def walletAddr : Address := 1

def coinModule : Module where
  name := "coin"
  imports := []
  structs := [
    { name := "Seal", fields := [⟨"serial", .u64⟩], isPublic := true },
    { name := "Coin", fields := [⟨"amount", .u64⟩, ⟨"seal", .struct "Seal"⟩], isPublic := true }]
  functions := []

/-- Runs `code` on a wallet in slot 0 and returns the wallet. -/
def walletFunction (name : String) (code : List Instruction) : Function where
  name
  isPublic := true
  params := [("wallet", .struct "Wallet")]
  returnType := some (.struct "Wallet")
  localCount := 1
  code := code ++ [.load 0, .ret]

def walletModule : Module where
  name := "wallet"
  imports := [coinAddr]
  structs := [{
    name := "Wallet"
    fields := [⟨"coin", .struct (qualify coinAddr "Coin")⟩, ⟨"tag", .u64⟩]
    isPublic := true }]
  functions := [
    walletFunction "read_tag" [.loadField 0 ["tag"], .pop],
    walletFunction "peek" [.loadField 0 ["coin", "amount"], .pop],
    walletFunction "inflate" [.pushU64 1000000, .storeField 0 ["coin", "amount"]],
    walletFunction "copy_seal" [.loadField 0 ["coin", "seal"], .pop],
    walletFunction "read_missing" [.loadField 0 ["name"], .pop]]

def walletDeps : DepMap :=
  (∅ : DepMap).insert coinAddr coinModule

def walletVm : Vm Unit where
  module := walletModule
  moduleAddr := walletAddr
  deps := walletDeps
  natives := [meowVmAbortEntry Unit]
  gasSchedule := {}
  config := {}

/-- Each module was verified against its own dependencies. -/
def walletDepsOf (a : Address) : DepMap :=
  if a = walletAddr then walletDeps else ∅

def sealValue : Value Unit :=
  .struct () (qualify coinAddr "Seal") [("serial", .u64 1)]

def wallet : Value Unit :=
  .struct () (qualify walletAddr "Wallet")
    [("coin", .struct () (qualify coinAddr "Coin") [("amount", .u64 5), ("seal", sealValue)]),
      ("tag", .u64 7)]

def walletGas : GasMeter where
  limit := 1000
  spent := 0

theorem walletVm_deps {a : Address} {m : Module} (h : walletVm.deps[a]? = some m) :
    a = coinAddr ∧ m = coinModule := by
  have hinsert : (if compare coinAddr a = .eq then some coinModule else (∅ : DepMap)[a]?) = some m := by
    rw [← Std.ExtTreeMap.getElem?_insert]
    exact h
  split at hinsert
  · rename_i hcompare
    exact ⟨(Std.LawfulEqOrd.eq_of_compare hcompare).symm, (Option.some.inj hinsert).symm⟩
  · simp at hinsert

theorem walletVm_linked : Linked walletVm [] {} walletDepsOf where
  main h := absurd (walletVm_deps h).1 (by decide)
  accepted {a m} h := by
    unfold Vm.world at h
    split at h
    · rename_i ha
      obtain rfl := Option.some.inj h
      rw [ha]
      decide +kernel
    · obtain ⟨rfl, rfl⟩ := walletVm_deps h
      decide +kernel
  depsOf_sub {a b m n} _ hb := by
    unfold walletDepsOf at hb
    split at hb
    · exact hb
    · simp at hb
  natives name := by
    by_cases hname : meowVmAbort = name
    · subst hname
      rfl
    · have hne : (meowVmAbort == name) = false := by simpa using hname
      simp [Vm.getNative, walletVm, builtinNatives, meowVmAbortEntry, meowVmAbortSig, hne]

theorem walletVm_nativesTyped : NativesTyped walletVm := by
  intro name entry ctx ctx' args v a hentry hcall
  have hmem : entry ∈ [meowVmAbortEntry Unit] := List.mem_of_find?_eq_some hentry
  obtain rfl := List.mem_singleton.mp hmem
  simp only [meowVmAbortEntry] at hcall
  split at hcall
  · obtain rfl := NativeResult.ret.inj (Prod.mk.inj hcall).1
    rfl
  · cases hcall
  · cases hcall

theorem wallet_typed (fnName : String)
    (h : (walletModule.getFunction fnName).map (·.params) = some [("wallet", .struct "Wallet")]) :
    ArgsTyped walletVm fnName [wallet] := by
  obtain ⟨f, hf, hparams⟩ := Option.map_eq_some_iff.mp h
  refine ⟨f, hf, ?_⟩
  rw [hparams]
  have hcoin : walletVm.world coinAddr = some coinModule := by decide +kernel
  have hwallet : walletVm.world walletAddr = some walletModule := by decide +kernel
  have hseal : HasType walletVm.world coinAddr sealValue (.struct "Seal") :=
    (hasType_localStruct hcoin (by decide +kernel)).mpr
      ⟨_, (), _, rfl, rfl, .cons ⟨rfl, rfl⟩ .nil⟩
  have hcoinValue : HasType walletVm.world coinAddr
      (.struct () (qualify coinAddr "Coin") [("amount", .u64 5), ("seal", sealValue)])
      (.struct "Coin") :=
    (hasType_localStruct hcoin (by decide +kernel)).mpr
      ⟨_, (), _, rfl, rfl, .cons ⟨rfl, rfl⟩ (.cons ⟨rfl, hseal⟩ .nil)⟩
  refine .cons ?_ .nil
  refine (hasType_localStruct hwallet (by decide +kernel)).mpr
    ⟨_, (), _, rfl, rfl, .cons ⟨rfl, ?_⟩ (.cons ⟨rfl, rfl⟩ .nil)⟩
  exact (hasType_qualifyType (.struct "Coin")).mpr hcoinValue

end Sample

/-! ## Type preservation -/

/-- The frame agrees with the state `check_function` holds at its position: same height of the
stack, every value of its abstract type, every live slot filled with a value of its type, nothing
linear in a dead slot. -/
def Frame.MatchesVerifier (vm : Vm σ) (sigs : List NativeSig) (depsOf : Address → DepMap)
    (fr : Frame τ) : Prop :=
  ∃ t, stateAt (fr.scope sigs depsOf) fr.pc = some t ∧
    fr.stack.length = t.stack.length ∧
    List.Forall₂ (HasType vm.world fr.contextAddr) fr.stack t.stack ∧
    List.Forall₂ (SlotOk vm.world fr.contextAddr) fr.locals t.locals

section Guarantees

variable {vm : Vm σ} {sigs : List NativeSig} {cfg : CompilerConfig} {depsOf : Address → DepMap}
variable {tok : ℕ → τ} {fnName : String} {args : List (Value Unit)} {gas : GasMeter} {ctx : σ}
variable {s₀ s : State τ σ}

theorem type_preservation (hl : Linked vm sigs cfg depsOf) (hn : NativesTyped vm)
    (hargs : ArgsTyped vm fnName args) (hstart : vm.start tok fnName args gas ctx = .next s₀)
    (hrun : GuardedRun State.FieldPathsResolve (vm.Steps tok) s₀ s) :
    s.frame.MatchesVerifier vm sigs depsOf := by
  obtain ⟨t, hcert, htyped⟩ := (run_sound hl hn hargs hstart hrun).frame.state
  exact ⟨t, hcert.state, htyped.stack.length_eq, htyped.stack, htyped.locals⟩

open Sample in
theorem type_preservation_readTag :
    ∃ s₀ s : State Unit Unit,
      walletVm.start (fun _ => ()) "read_tag" [wallet] walletGas () = .next s₀ ∧
      GuardedRun State.FieldPathsResolve (walletVm.Steps fun _ => ()) s₀ s ∧
      s.frame.pc = 1 ∧ s.frame.MatchesVerifier walletVm [] walletDepsOf := by
  obtain ⟨s₀, hstart, hpath, hnext⟩ := StepResult.Next.exists
    (r := walletVm.start (fun _ => ()) "read_tag" [wallet] walletGas ())
    (P := fun s₀ => s₀.FieldPathsResolve ∧ (walletVm.step (fun _ => ()) s₀).Next fun s =>
      s.frame.pc = 1) (by decide +kernel)
  obtain ⟨s, hstep, hpc⟩ := hnext.exists
  have hrun : GuardedRun State.FieldPathsResolve (walletVm.Steps fun _ => ()) s₀ s :=
    .single ⟨hpath, hstep⟩
  exact ⟨s₀, s, hstart, hrun, hpc, type_preservation walletVm_linked walletVm_nativesTyped
    (wallet_typed _ (by decide +kernel)) hstart hrun⟩

open Sample in
/-- `peek` reads the amount of the foreign coin: the verifier holds an `Address`, the machine a
number. -/
theorem type_preservation_fails :
    Linked walletVm [] {} walletDepsOf ∧ NativesTyped walletVm ∧
    ArgsTyped walletVm "peek" [wallet] ∧
    ∃ s₀ s : State Unit Unit,
      walletVm.start (fun _ => ()) "peek" [wallet] walletGas () = .next s₀ ∧
      walletVm.Run (fun _ => ()) s₀ s ∧ ¬ s.frame.MatchesVerifier walletVm [] walletDepsOf := by
  refine ⟨walletVm_linked, walletVm_nativesTyped, wallet_typed _ (by decide +kernel), ?_⟩
  obtain ⟨s₀, hstart, hnext⟩ := StepResult.Next.exists
    (r := walletVm.start (fun _ => ()) "peek" [wallet] walletGas ())
    (P := fun s₀ => (walletVm.step (fun _ => ()) s₀).Next fun s =>
      s.frame.stack.map Value.asU64 = [some 5] ∧
      (stateAt (s.frame.scope [] walletDepsOf) s.frame.pc).map (·.stack) = some [.address])
    (by decide +kernel)
  obtain ⟨s, hstep, hstack, hstate⟩ := hnext.exists
  refine ⟨s₀, s, hstart, .single ⟨trivial, hstep⟩, ?_⟩
  rintro ⟨t, ht, -, htyped, -⟩
  rw [ht] at hstate
  have habstract : t.stack = [.address] := Option.some.inj hstate
  rw [habstract] at htyped
  obtain ⟨v, vs, hv, -, hfr⟩ := List.forall₂_cons_right_iff.mp htyped
  rw [hfr] at hstack
  have hu64 : v.asU64 = some 5 := (List.cons.inj hstack).1
  cases v with
  | u64 n => cases hv
  | _ => cases hu64

end Guarantees

/-! ## Field encapsulation -/

/-- The type names of the structs a walk along `path` looks into. -/
def pathTypeNames : Value τ → List String → List String
  | .struct _ typeName fields, field :: path =>
    typeName :: match Value.lookup field fields with
      | some child => pathTypeNames child path
      | none => []
  | _, _ => []

/-- The run-time type names of the structs that the instruction builds, opens, reads or writes. -/
def Frame.accessedTypeNames (deps : DepMap) (fr : Frame τ) : Instruction → List String
  | .newStruct typeName _ => (Frame.structTypeName deps fr typeName).toOption.toList
  | .unpackStruct _ _ | .getField _ =>
    match fr.stack with
    | .struct _ typeName _ :: _ => [typeName]
    | _ => []
  | .loadField slot path | .storeField slot path =>
    match fr.locals[slot]? with
    | some (some root) => pathTypeNames root path
    | _ => []
  | _ => []

section Encapsulation

variable {W : World} {cfg : CompilerConfig} {sc : Scope} {fr : Frame τ} {t : AbstractState}
variable {instr : Instruction}

/-- Every struct along a path that resolves belongs to the module at `a`. -/
theorem pathTypeNames_local {a : Address} {module : Module} (hW : W a = some module)
    {path : List String} {v : Value τ} {ty u : AbstractType} (hv : HasType W a v ty)
    (h : resolveFieldPathType module ty path = some u) :
    ∀ n ∈ pathTypeNames v path, ∃ name, n = qualify a name := by
  induction path generalizing v ty with
  | nil => cases v <;> simp [pathTypeNames]
  | cons field path ih =>
    simp only [resolveFieldPathType] at h
    split at h
    · rename_i next hnext
      obtain ⟨label, name, fields, child, rfl, hchild, htype, -⟩ :=
        field_of_resolveFieldType hW hv hnext
      intro n hn
      simp only [pathTypeNames, hchild, List.mem_cons] at hn
      rcases hn with rfl | hn
      · exact ⟨name, rfl⟩
      · exact ih htype h n hn
    · cases h

theorem accessed_newStruct {deps : DepMap} {typeName : String} {fieldNames : List String}
    (h : AtInstr W cfg sc fr t (.newStruct typeName fieldNames)) :
    fr.accessedTypeNames deps (.newStruct typeName fieldNames)
      = [qualify fr.contextAddr typeName] := by
  obtain ⟨hparse, structDef, hdef, -⟩ := checkStructAccess_eq_nil h.structural
  simp only [Frame.accessedTypeNames, Frame.structTypeName, hparse, h.context, hdef]
  rfl

theorem AtInstr.accessed_local {deps : DepMap} (h : AtInstr W cfg sc fr t instr)
    (hpath : fr.pathsResolve instr = true) :
    ∀ n ∈ fr.accessedTypeNames deps instr, ∃ name, n = qualify fr.contextAddr name := by
  intro n hn
  cases instr with
  | newStruct typeName fieldNames =>
    rw [accessed_newStruct h, List.mem_singleton] at hn
    exact ⟨typeName, hn⟩
  | getField field =>
    obtain ⟨typeName, _, _, _, _, _, _, _, _, _, hfr, _⟩ := h.getField
    simp only [Frame.accessedTypeNames, hfr, List.mem_singleton] at hn
    exact ⟨typeName, hn⟩
  | unpackStruct typeName fieldNames =>
    obtain ⟨_, _, _, _, _, _, hfr, _⟩ := h.unpackStruct
    simp only [Frame.accessedTypeNames, hfr, List.mem_singleton] at hn
    exact ⟨typeName, hn⟩
  | loadField slot path =>
    obtain ⟨v, root, u, hroot, -, hv, hu, -⟩ := h.loadField hpath
    simp only [Frame.accessedTypeNames, hroot] at hn
    exact pathTypeNames_local h.world hv hu n hn
  | storeField slot path =>
    obtain ⟨v, root, u, -, hroot, -, hv, hu, -⟩ := h.storeField hpath
    simp only [Frame.accessedTypeNames, hroot] at hn
    exact pathTypeNames_local h.world hv hu n hn
  | _ => simp [Frame.accessedTypeNames] at hn

end Encapsulation

section Guarantees

variable {vm : Vm σ} {sigs : List NativeSig} {cfg : CompilerConfig} {depsOf : Address → DepMap}
variable {tok : ℕ → τ} {fnName : String} {args : List (Value Unit)} {gas : GasMeter} {ctx : σ}
variable {s₀ s : State τ σ}

theorem field_encapsulation (hl : Linked vm sigs cfg depsOf) (hn : NativesTyped vm)
    (hargs : ArgsTyped vm fnName args) (hstart : vm.start tok fnName args gas ctx = .next s₀)
    (hrun : GuardedRun State.FieldPathsResolve (vm.Steps tok) s₀ s) (hpaths : s.FieldPathsResolve)
    {instr : Instruction} (hinstr : instr ∈ s.frame.current) :
    ∀ n ∈ s.frame.accessedTypeNames vm.deps instr, ∃ name, n = qualify s.frame.contextAddr name := by
  obtain ⟨instr', t, hinstr', -, hat⟩ := (run_sound hl hn hargs hstart hrun).frame.atInstr hl
  obtain rfl := Option.some.inj (hinstr.symm.trans hinstr')
  exact hat.accessed_local (hpaths _ hinstr)

open Sample in
theorem field_encapsulation_readTag :
    ∃ s₀ : State Unit Unit,
      walletVm.start (fun _ => ()) "read_tag" [wallet] walletGas () = .next s₀ ∧
      s₀.frame.accessedTypeNames walletVm.deps (.loadField 0 ["tag"])
        = [qualify walletAddr "Wallet"] ∧
      ∀ n ∈ s₀.frame.accessedTypeNames walletVm.deps (.loadField 0 ["tag"]),
        ∃ name, n = qualify s₀.frame.contextAddr name := by
  obtain ⟨s₀, hstart, hpath, hinstr, hnames⟩ := StepResult.Next.exists
    (r := walletVm.start (fun _ => ()) "read_tag" [wallet] walletGas ())
    (P := fun s₀ => s₀.FieldPathsResolve ∧ s₀.frame.current = some (.loadField 0 ["tag"]) ∧
      s₀.frame.accessedTypeNames walletVm.deps (.loadField 0 ["tag"])
        = [qualify walletAddr "Wallet"]) (by decide +kernel)
  exact ⟨s₀, hstart, hnames, field_encapsulation walletVm_linked walletVm_nativesTyped
    (wallet_typed _ (by decide +kernel)) hstart .refl hpath hinstr⟩

open Sample in
/-- `inflate` writes the amount of the foreign coin inside the wallet. -/
theorem field_encapsulation_fails :
    Linked walletVm [] {} walletDepsOf ∧ NativesTyped walletVm ∧
    ArgsTyped walletVm "inflate" [wallet] ∧
    ∃ s₀ s s' : State Unit Unit,
      walletVm.start (fun _ => ()) "inflate" [wallet] walletGas () = .next s₀ ∧
      walletVm.Run (fun _ => ()) s₀ s ∧
      s.frame.current = some (.storeField 0 ["coin", "amount"]) ∧
      walletVm.Steps (fun _ => ()) s s' ∧
      qualify coinAddr "Coin"
        ∈ s.frame.accessedTypeNames walletVm.deps (.storeField 0 ["coin", "amount"]) ∧
      ∀ name, qualify coinAddr "Coin" ≠ qualify s.frame.contextAddr name := by
  refine ⟨walletVm_linked, walletVm_nativesTyped, wallet_typed _ (by decide +kernel), ?_⟩
  obtain ⟨s₀, hstart, hnext⟩ := StepResult.Next.exists
    (r := walletVm.start (fun _ => ()) "inflate" [wallet] walletGas ())
    (P := fun s₀ => (walletVm.step (fun _ => ()) s₀).Next fun s =>
      s.frame.current = some (.storeField 0 ["coin", "amount"]) ∧
      s.frame.contextAddr = walletAddr ∧ qualify coinAddr "Coin"
        ∈ s.frame.accessedTypeNames walletVm.deps (.storeField 0 ["coin", "amount"]) ∧
      (walletVm.step (fun _ => ()) s).Next fun _ => True) (by decide +kernel)
  obtain ⟨s, hstep, hinstr, haddr, hmem, hnext'⟩ := hnext.exists
  obtain ⟨s', hstep', -⟩ := hnext'.exists
  refine ⟨s₀, s, s', hstart, .single ⟨trivial, hstep⟩, hinstr, hstep', hmem, ?_⟩
  intro name heq
  rw [haddr] at heq
  exact absurd (qualify_inj heq).1 (by decide)

end Guarantees

/-! ## Static traps -/

/-- A field read off a struct is declared, and a struct taken apart has no field name twice. -/
def Frame.opensDeclared (fr : Frame τ) : Instruction → Bool
  | .getField field =>
    match fr.stack with
    | .struct _ typeName _ :: _ =>
      match localStructName fr.contextAddr typeName with
      | some name => (resolveFieldType (.struct name) field fr.context).isSome
      | none => true
    | _ => true
  | .unpackStruct typeName _ =>
    match fr.context.getStruct typeName with
    | some structDef => decide (structDef.fields.map (·.name)).Nodup
    | none => true
  | _ => true

/-- The step out of `s` names declared fields only. -/
def State.FieldsDeclared (s : State τ σ) : Prop :=
  s.FieldPathsResolve ∧ ∀ instr ∈ s.frame.current, s.frame.opensDeclared instr = true

instance (s : State τ σ) : Decidable s.FieldsDeclared :=
  inferInstanceAs (Decidable (s.FieldPathsResolve ∧
    ∀ instr ∈ s.frame.current, s.frame.opensDeclared instr = true))

def VmError.Permitted (e : VmError) : Prop :=
  e.Dynamic ∨ ∃ limit, e = .tooManyDepModules limit

theorem AtInstr.not_fieldTrap {W : World} {cfg : CompilerConfig} {sc : Scope} {fr : Frame τ}
    {t : AbstractState} {instr : Instruction} (h : AtInstr W cfg sc fr t instr)
    (hopens : fr.opensDeclared instr = true) : ¬ fr.FieldTrap instr := by
  intro htrap
  cases instr with
  | getField field =>
    obtain ⟨label, typeName', fields', rest', hstack, hnone⟩ := htrap
    obtain ⟨typeName, rest, structDef, label', fields, vs, -, hparse, -, hdef, hfr, hfields, -⟩ :=
      h.getField
    obtain ⟨heq, -⟩ := List.cons.inj (hstack.symm.trans hfr)
    obtain ⟨-, -, rfl⟩ := Value.struct.inj heq
    simp only [Frame.opensDeclared, hfr, localStructName, parseModuleRef_qualify, if_true,
      resolveFieldType, hparse, Option.isSome_none, Bool.false_eq_true, if_false, h.context, hdef,
      Option.isSome_map] at hopens
    obtain ⟨d, hd⟩ := Option.isSome_iff_exists.mp hopens
    obtain ⟨v, hv, -⟩ := lookup_of_find hfields hd
    rw [hnone] at hv
    cases hv
  | unpackStruct typeName fieldNames =>
    obtain ⟨label, typeName', fields', rest', hstack, hdup⟩ := htrap
    obtain ⟨structDef, label', fields, vs, rest, hdef, hfr, -, hfields, -⟩ := h.unpackStruct
    obtain ⟨heq, -⟩ := List.cons.inj (hstack.symm.trans hfr)
    obtain ⟨-, -, rfl⟩ := Value.struct.inj heq
    simp only [Frame.opensDeclared, h.context, hdef, decide_eq_true_eq] at hopens
    rw [map_fst_of_hasType hfields] at hdup
    exact hdup hopens
  | _ => exact htrap

section Guarantees

variable {vm : Vm σ} {sigs : List NativeSig} {cfg : CompilerConfig} {depsOf : Address → DepMap}
variable {tok : ℕ → τ} {fnName : String} {args : List (Value Unit)} {gas : GasMeter} {ctx : σ}

theorem start_permitted (hl : Linked vm sigs cfg depsOf) {f : Function}
    (hget : vm.module.getFunction fnName = some f) (hpublic : f.isPublic = true)
    (hargs : List.Forall₂ (HasType vm.world vm.moduleAddr) args
      (f.params.map fun p => fromType p.2))
    (hnative : vm.getNative fnName = none) {final : Final τ σ}
    (h : vm.start tok fnName args gas ctx = .done final) :
    ∃ e, final.outcome = .err e ∧ e.Permitted := by
  have hqualified : args.all checkStructQualified = true := by
    rw [List.all_eq_true]
    intro v hv
    obtain ⟨i, hi⟩ := List.getElem?_of_mem hv
    obtain ⟨ty, -, hty⟩ := forall₂_getElem? hargs.flip hi
    exact checkStructQualified_of_hasType hty
  have hlen : ¬ (Value.labelList tok 0 args).1.length > f.localCount := by
    have hlabels : List.Forall₂ _ (Value.labelList tok 0 args).1 _ := forall₂_labelList.mpr hargs
    have hcount := params_le_localCount (verify_eq_nil (hl.accepted (world_moduleAddr vm))).1
      (List.mem_of_find?_eq_some hget)
    have hparams := hlabels.length_eq
    rw [List.length_map] at hparams
    omega
  simp only [Vm.start, hnative, hget, hpublic, hqualified, Vm.enter, hlen] at h
  split at h
  · obtain rfl := StepResult.done.inj h
    exact ⟨_, rfl, .inr ⟨_, rfl⟩⟩
  · by_cases hdepth : 0 ≥ vm.config.maxCallDepth
    · simp only [hdepth, if_true, Option.isSome_none, Bool.false_eq_true, if_false, Bool.not_true,
        Bool.false_and] at h
      obtain rfl := StepResult.done.inj h
      exact ⟨_, rfl, .inl (.inr (.inr (.inl ⟨_, rfl⟩)))⟩
    · simp [hdepth] at h

theorem no_static_trap (hl : Linked vm sigs cfg depsOf) (hn : NativesTyped vm) {f : Function}
    (hget : vm.module.getFunction fnName = some f) (hpublic : f.isPublic = true)
    (hargs : List.Forall₂ (HasType vm.world vm.moduleAddr) args
      (f.params.map fun p => fromType p.2))
    (hnative : vm.getNative fnName = none) {final : Final τ σ}
    (hends : vm.Ends tok State.FieldsDeclared fnName args gas ctx final) :
    (∃ v, final.outcome = .ok v) ∨ ∃ e, final.outcome = .err e ∧ e.Permitted := by
  cases hends with
  | atStart h => exact .inr (start_permitted hl hget hpublic hargs hnative h)
  | afterRun s₀ s hstart hrun hguard hstep =>
    have hok := run_sound hl hn ⟨f, hget, hargs⟩ hstart (hrun.mono fun _ h => h.1)
    have hsound := step_sound hl hn hok hguard.1 tok
    rw [hstep] at hsound
    rcases hsound with hdone | ⟨e, he, hdynamic | ⟨instr, hinstr, htrap⟩⟩
    · exact .inl hdone
    · exact .inr ⟨e, he, .inl hdynamic⟩
    · obtain ⟨instr', t, hinstr', -, hat⟩ := hok.frame.atInstr hl
      obtain rfl := Option.some.inj (hinstr.symm.trans hinstr')
      exact absurd htrap (hat.not_fieldTrap (hguard.2 _ hinstr))

open Sample in
theorem no_static_trap_readTag :
    ∃ final : Final Unit Unit,
      walletVm.Ends (fun _ => ()) State.FieldsDeclared "read_tag" [wallet] walletGas () final ∧
      ((∃ v, final.outcome = .ok v) ∨ ∃ e, final.outcome = .err e ∧ e.Permitted) := by
  obtain ⟨s₀, hstart, hends⟩ := StepResult.Next.exists
    (r := walletVm.start (fun _ => ()) "read_tag" [wallet] walletGas ())
    (P := walletVm.EndsWithin (fun _ => ()) State.FieldsDeclared (fun _ => True) 4)
    (by decide +kernel)
  obtain ⟨s, final, hrun, hguard, hstep, -⟩ := hends.exists
  obtain ⟨f, hget, hargs⟩ := wallet_typed "read_tag" (by decide +kernel)
  exact ⟨final, .afterRun s₀ s hstart hrun hguard hstep,
    no_static_trap walletVm_linked walletVm_nativesTyped hget
      (Option.some.inj (hget.symm.trans rfl) ▸ rfl) hargs (by decide +kernel)
      (.afterRun s₀ s hstart hrun hguard hstep)⟩

open Sample in
/-- `read_missing` reads a field nobody declared. -/
theorem no_static_trap_fails :
    Linked walletVm [] {} walletDepsOf ∧ NativesTyped walletVm ∧
    ArgsTyped walletVm "read_missing" [wallet] ∧
    (walletModule.getFunction "read_missing").map (·.isPublic) = some true ∧
    ∃ final : Final Unit Unit,
      walletVm.Ends (fun _ => ()) (fun _ => True) "read_missing" [wallet] walletGas () final ∧
      final.outcome = .err (.undefinedField (qualify walletAddr "Wallet") "name") := by
  refine ⟨walletVm_linked, walletVm_nativesTyped, wallet_typed _ (by decide +kernel),
    by decide +kernel, ?_⟩
  obtain ⟨s₀, hstart, hends⟩ := StepResult.Next.exists
    (r := walletVm.start (fun _ => ()) "read_missing" [wallet] walletGas ())
    (P := walletVm.EndsWithin (fun _ => ()) (fun _ => True) (fun final => final.outcome.error?
      = some (.undefinedField (qualify walletAddr "Wallet") "name")) 1)
    (by decide +kernel)
  obtain ⟨s, final, hrun, -, hstep, herr⟩ := hends.exists
  exact ⟨final, .afterRun s₀ s hstart hrun trivial hstep, Outcome.error?_eq_some.mp herr⟩

end Guarantees

end MeowChain
