import MeowChain.Vm.Call

/-!
# Where the machine could panic

`Vm.step` has the guards of `call_inner` built into its case splits. Here the places where the Rust
code indexes a vector, unwraps an option, meets `unreachable!` or computes with machine integers
are written out, each with its panic, and `stepChecked_eq` shows that none of them is reached: the
machine written this way is the machine of `Vm.step`.
-/

set_option autoImplicit false

namespace MeowChain

variable {τ σ : Type}

/-! ## Rust -/

section Rust

variable {ε α : Type}

def index (xs : List α) (i : ℕ) : Outcome ε α :=
  Outcome.expect "index out of bounds" xs[i]?

def indexSet (xs : List α) (i : ℕ) (x : α) : Outcome ε (List α) :=
  if i < xs.length then .ok (xs.set i x) else .panic "index out of bounds"

def unwrap (x : Option α) : Outcome ε α :=
  Outcome.expect "unwrap of None" x

/-- The result of `u64` and `usize` arithmetic. -/
def checkedNat (n : ℕ) : Outcome ε ℕ :=
  if n < 2 ^ 64 then .ok n else .panic "arithmetic overflow"

/-- The result of `i64` arithmetic. -/
def checkedInt (n : ℤ) : Outcome ε ℤ :=
  if -2 ^ 63 ≤ n ∧ n < 2 ^ 63 then .ok n else .panic "arithmetic overflow"

def Outcome.ofExcept : Except ε α → Outcome ε α
  | .ok a => .ok a
  | .error e => .err e

theorem index_eq {xs : List α} {i : ℕ} {x : α} (h : xs[i]? = some x) :
    index (ε := ε) xs i = .ok x := by
  rw [index, h]
  rfl

theorem indexSet_eq {xs : List α} {i : ℕ} (h : i < xs.length) (x : α) :
    indexSet (ε := ε) xs i x = .ok (xs.set i x) :=
  if_pos h

theorem checkedNat_eq {n : ℕ} (h : n < 2 ^ 64) : checkedNat (ε := ε) n = .ok n :=
  if_pos h

theorem checkedInt_eq {n : ℤ} (h : -2 ^ 63 ≤ n) (h' : n < 2 ^ 63) :
    checkedInt (ε := ε) n = .ok n :=
  if_pos ⟨h, h'⟩

end Rust

/-! ## Values that Rust can hold -/

/-- A `Vec` takes at most `isize::MAX` bytes; a `String` takes 24 of them, an instruction no less. -/
def vecFits {α : Type} (xs : List α) : Bool :=
  24 * xs.length < 2 ^ 63

/-- Slots and tuple sizes are `u8`, offsets `i32`. -/
def Instruction.representable : Instruction → Bool
  | .load slot | .store slot => slot < 2 ^ 8
  | .loadField slot path | .storeField slot path => slot < 2 ^ 8 && vecFits path
  | .newStruct _ fieldNames | .unpackStruct _ fieldNames => vecFits fieldNames
  | .jump offset | .jumpIf offset | .jumpIfNot offset => -2 ^ 31 ≤ offset && offset < 2 ^ 31
  | .makeTuple n | .unpackTuple n => n < 2 ^ 8
  | _ => true

def Function.representable (f : Function) : Bool :=
  vecFits f.code && f.code.all Instruction.representable

def Vm.representable (vm : Vm σ) : Bool :=
  vm.modules.all (·.functions.all Function.representable) && vm.config.maxCallDepth < 2 ^ 64

/-! ## Instructions -/

def GasSchedule.costOfChecked (g : GasSchedule) : Instruction → Outcome VmError ℕ
  | .newStruct _ fieldNames =>
    (checkedNat (fieldNames.length * g.newStructPerField)).bind fun perFields =>
      checkedNat (g.newStructBase + perFields)
  | .makeTuple n => checkedNat (n * g.makeTuplePerElement)
  | .unpackTuple n => checkedNat (n * g.unpackTuplePerElement)
  | .unpackStruct _ fieldNames => checkedNat (fieldNames.length * g.unpackStructPerField)
  | instr => .ok (g.costOf instr)

def linearTypeNameChecked (l r : Value τ) : Outcome VmError String :=
  match if l.isLinear then l else r with
  | .struct _ typeName _ => .ok typeName
  | .tuple _ => .ok "tuple"
  | _ => .panic "internal error: entered unreachable code"

def eqOpChecked (negate : Bool) (l r : Value τ) : Outcome VmError (Value τ) :=
  if l.isLinear || r.isLinear then
    (linearTypeNameChecked l r).bind fun typeName => .err (.eqOnLinearType typeName)
  else .ok (.bool (l.beq r != negate))

/-- `pc as i64 - 1 + offset as i64`. -/
def jumpTargetChecked (pc : ℕ) (offset : ℤ) : Outcome VmError ℕ :=
  (checkedInt ((pc : ℤ) - 1)).bind fun before =>
  (checkedInt (before + offset)).bind fun target =>
  if target < 0 then .err (.invalidJumpTarget pc offset) else .ok target.toNat

namespace Frame

def fillLocals : ℕ → List (Value τ) → List (Option (Value τ)) →
    Outcome VmError (List (Option (Value τ)))
  | _, [], locals => .ok locals
  | i, v :: args, locals => (indexSet locals i (some v)).bind (fillLocals (i + 1) args)

def newChecked (context : Module) (contextAddr : Address) (function : Function)
    (args : List (Value τ)) : Outcome VmError (Frame τ) :=
  (fillLocals 0 args (List.replicate function.localCount none)).bind fun locals =>
  .ok { context, contextAddr, function, locals, stack := [], pc := 0 }

def loadChecked (frame : Frame τ) (slot : ℕ) : Outcome VmError (Frame τ) :=
  if slot ≥ frame.locals.length then .err (.undefinedVariable slot)
  else
    (index frame.locals slot).bind fun
      | some v =>
        if v.isLinear then
          (index frame.locals slot).bind fun taken =>
          (indexSet frame.locals slot none).bind fun locals =>
          (unwrap taken).bind fun v =>
          .ok { frame with locals, stack := v :: frame.stack }
        else .ok (frame.push v)
      | none => .err (.useAfterMove (movedMessage slot))

def storeChecked (frame : Frame τ) (slot : ℕ) : Outcome VmError (Frame τ) :=
  match frame.stack with
  | [] => .err .stackUnderflow
  | v :: rest =>
    let locals :=
      if slot ≥ frame.locals.length then
        frame.locals ++ List.replicate (slot + 1 - frame.locals.length) none
      else frame.locals
    (index locals slot).bind fun existing =>
      if existing.any Value.isLinear then .err (.slotOverwrite slot)
      else (indexSet locals slot (some v)).bind fun locals => .ok { frame with locals, stack := rest }

def eqChecked (negate : Bool) (frame : Frame τ) : Outcome VmError (Frame τ) :=
  match frame.stack with
  | r :: l :: rest => (eqOpChecked negate l r).bind fun w => .ok { frame with stack := w :: rest }
  | _ => .err .stackUnderflow

def jumpChecked (frame : Frame τ) (offset : ℤ) : Outcome VmError (Frame τ) :=
  (jumpTargetChecked frame.pc offset).bind fun pc => .ok { frame with pc }

def jumpWhenChecked (expected : Bool) (frame : Frame τ) (offset : ℤ) : Outcome VmError (Frame τ) :=
  match frame.stack with
  | [] => .err .stackUnderflow
  | v :: rest =>
    (Outcome.ofExcept (expectBool v)).bind fun cond =>
      let frame := { frame with stack := rest }
      if cond = expected then frame.jumpChecked offset else .ok frame

/-- The other instructions have nothing in them that could panic. -/
def execChecked (deps : DepMap) (label : τ) (frame : Frame τ) :
    Instruction → Outcome VmError (Frame τ)
  | .load slot => frame.loadChecked slot
  | .store slot => frame.storeChecked slot
  | .eq => frame.eqChecked false
  | .ne => frame.eqChecked true
  | .jump offset => frame.jumpChecked offset
  | .jumpIf offset => frame.jumpWhenChecked true offset
  | .jumpIfNot offset => frame.jumpWhenChecked false offset
  | instr => Outcome.ofExcept (Frame.exec deps label frame instr)

end Frame

/-! ## The machine -/

/-- Go on with the result of a computation that may end the call. -/
def State.andThen {α : Type} (s : State τ σ) (x : Outcome VmError α) (next : α → StepResult τ σ) :
    StepResult τ σ :=
  match x with
  | .ok a => next a
  | .err e => s.fail e
  | .panic message => .done { outcome := .panic message, gas := s.gas, ctx := s.ctx }
  | .diverge => .done { outcome := .diverge, gas := s.gas, ctx := s.ctx }

namespace Vm

def enterChecked (maxCallDepth depth : ℕ) (context : Module) (contextAddr : Address)
    (fnName : String) (args : List (Value τ)) : Outcome VmError (Frame τ) :=
  if depth ≥ maxCallDepth then .err (.callStackOverflow maxCallDepth)
  else
    match context.getFunction fnName with
    | none => .err (.undefinedFunction fnName)
    | some function =>
      if args.length > function.localCount then
        .err (.arityMismatch fnName args.length function.localCount)
      else Frame.newChecked context contextAddr function args

def invokeChecked (vm : Vm σ) (s : State τ σ) (context : Module) (contextAddr : Address)
    (fnName : String) (argCount : ℕ) : StepResult τ σ :=
  match popArgs argCount s.frame.stack with
  | .error e => s.fail e
  | .ok (args, rest) =>
    s.andThen ((checkedNat (s.callers.length + 1)).bind fun depth =>
        enterChecked vm.config.maxCallDepth depth context contextAddr fnName args) fun frame =>
      .next { s with frame, callers := { s.frame with stack := rest } :: s.callers }

/-- `callNative` has the assertion on the returned value. -/
def execCallChecked (vm : Vm σ) (tok : ℕ → τ) (s : State τ σ) (name : String) : StepResult τ σ :=
  match parseModuleRef name with
  | some (depAddr, fnName) =>
    match vm.deps[depAddr]? with
    | none => s.fail (.undefinedFunction name)
    | some dep =>
      match dep.getFunction fnName with
      | none => s.fail (.undefinedFunction name)
      | some callee =>
        if callee.isPublic then vm.invokeChecked s dep depAddr fnName callee.params.length
        else s.fail (.privateFunction name)
  | none =>
    match s.frame.context.getFunction name with
    | some callee =>
      vm.invokeChecked s s.frame.context s.frame.contextAddr name callee.params.length
    | none =>
      match vm.getNative name with
      | some entry => Vm.callNative tok s entry
      | none => s.fail (.undefinedFunction name)

def execInstrChecked (vm : Vm σ) (tok : ℕ → τ) (s : State τ σ) : Instruction → StepResult τ σ
  | .call name => vm.execCallChecked tok s name
  | .ret => Vm.leave s
  | instr =>
    s.andThen (Frame.execChecked vm.deps (tok s.nextLabel) s.frame instr) fun frame =>
      .next { s with frame, nextLabel := s.nextLabel + 1 }

def stepChecked (vm : Vm σ) (tok : ℕ → τ) (s : State τ σ) : StepResult τ σ :=
  match s.frame.function.code[s.frame.pc]? with
  | none => Vm.leave s
  | some instr =>
    s.andThen (vm.gasSchedule.costOfChecked instr) fun cost =>
      match s.gas.charge cost with
      | (gas, some e) => State.fail { s with gas } e
      | (gas, none) =>
        State.andThen { s with gas } (checkedNat (s.frame.pc + 1)) fun pc =>
          vm.execInstrChecked tok { s with gas, frame := { s.frame with pc } } instr

def runChecked (vm : Vm σ) (tok : ℕ → τ) : ℕ → State τ σ → StepResult τ σ
  | 0, s => .next s
  | fuel + 1, s =>
    match vm.stepChecked tok s with
    | .next s' => vm.runChecked tok fuel s'
    | .done final => .done final

def startChecked (vm : Vm σ) (tok : ℕ → τ) (fnName : String) (args : List (Value Unit))
    (gas : GasMeter) (ctx : σ) : StepResult τ σ :=
  let fail e : StepResult τ σ := .done { outcome := .err e, gas, ctx }
  if vm.deps.size > vm.config.maxDepModules then
    fail (.tooManyDepModules vm.config.maxDepModules)
  else if (vm.getNative fnName).isSome then fail (.nativeFunctionCallDirect fnName)
  else
    match vm.module.getFunction fnName with
    | none => fail (.undefinedFunction fnName)
    | some function =>
      if !function.isPublic && !vm.config.enableCallPrivateFunctions then
        fail (.privateFunction fnName)
      else if !args.all checkStructQualified then
        .done { outcome := .panic ("struct argument has unqualified type name; all struct "
          ++ "values passed to the VM must use @0xHEX::Name format"), gas, ctx }
      else
        let r := Value.labelList tok 0 args
        match enterChecked vm.config.maxCallDepth 0 vm.module vm.moduleAddr fnName r.1 with
        | .ok frame => .next { frame, callers := [], gas, ctx, nextLabel := r.2 }
        | .err e => fail e
        | .panic message => .done { outcome := .panic message, gas, ctx }
        | .diverge => .done { outcome := .diverge, gas, ctx }

def callChecked (vm : Vm σ) (tok : ℕ → τ) (fuel : ℕ) (fnName : String)
    (args : List (Value Unit)) (gas : GasMeter) (ctx : σ) : StepResult τ σ :=
  match vm.startChecked tok fnName args gas ctx with
  | .next s => vm.runChecked tok fuel s
  | .done final => .done final

end Vm

/-! ## No panic is reached -/

section Equal

theorem costOfChecked_eq {instr : Instruction} (h : instr.representable = true) :
    ({} : GasSchedule).costOfChecked instr = .ok (({} : GasSchedule).costOf instr) := by
  cases instr with
  | newStruct typeName fieldNames =>
    simp only [Instruction.representable, vecFits, decide_eq_true_eq] at h
    show (checkedNat (fieldNames.length * 2)).bind (fun perFields => checkedNat (10 + perFields)) = _
    rw [checkedNat_eq (by omega)]
    exact checkedNat_eq (by omega)
  | unpackStruct typeName fieldNames =>
    simp only [Instruction.representable, vecFits, decide_eq_true_eq] at h
    exact checkedNat_eq (n := fieldNames.length * 1) (by omega)
  | makeTuple n | unpackTuple n =>
    simp only [Instruction.representable, decide_eq_true_eq] at h
    exact checkedNat_eq (n := n * 1) (by omega)
  | _ => rfl

theorem linearTypeNameChecked_eq {l r : Value τ} (h : (l.isLinear || r.isLinear) = true) :
    linearTypeNameChecked l r = .ok (linearTypeName l r) := by
  have hname : ∀ v : Value τ, v.isLinear = true → (match v with
      | .struct _ typeName _ => Outcome.ok typeName
      | .tuple _ => .ok "tuple"
      | _ => .panic "internal error: entered unreachable code") = (.ok v.typeName :
        Outcome VmError String) := by
    intro v hv
    cases v with
    | struct label typeName fields | tuple vs => rfl
    | _ => cases hv
  unfold linearTypeNameChecked linearTypeName
  by_cases hl : l.isLinear = true
  · rw [if_pos hl, if_pos hl]
    exact hname l hl
  · rw [if_neg hl, if_neg hl]
    rw [Bool.not_eq_true] at hl
    rw [hl, Bool.false_or] at h
    exact hname r h

theorem eqOpChecked_eq (negate : Bool) (l r : Value τ) :
    eqOpChecked negate l r = Outcome.ofExcept (eqOp negate l r) := by
  unfold eqOpChecked eqOp
  split
  · rename_i h
    rw [linearTypeNameChecked_eq h]
    rfl
  · rfl

theorem jumpTargetChecked_eq {pc : ℕ} {offset : ℤ} (hpc : pc < 2 ^ 62) (hlow : -2 ^ 31 ≤ offset)
    (hhigh : offset < 2 ^ 31) :
    jumpTargetChecked pc offset = Outcome.ofExcept (jumpTarget pc offset) := by
  unfold jumpTargetChecked jumpTarget
  rw [checkedInt_eq (by omega) (by omega)]
  show (checkedInt ((pc : ℤ) - 1 + offset)).bind _ = _
  rw [checkedInt_eq (by omega) (by omega)]
  dsimp only [Outcome.bind]
  split <;> rfl

variable {fr : Frame τ} {instr : Instruction}

theorem fillLocals_eq (front : List (Option (Value τ))) {args : List (Value τ)} {n : ℕ}
    (h : args.length ≤ n) :
    Frame.fillLocals front.length args (front ++ List.replicate n none)
      = .ok (front ++ (args.map some ++ List.replicate (n - args.length) none)) := by
  induction args generalizing front n with
  | nil => rfl
  | cons v args ih =>
    rw [List.length_cons] at h
    obtain ⟨n, rfl⟩ : ∃ m, n = m + 1 := ⟨n - 1, by omega⟩
    rw [Frame.fillLocals, indexSet_eq (by simp), List.replicate_succ,
      List.set_append_right _ _ (Nat.le_refl _), Nat.sub_self]
    show Frame.fillLocals (front.length + 1) args (front ++ some v :: List.replicate n none) = _
    have hrest := ih (front ++ [some v]) (n := n) (by omega)
    rw [List.length_append, List.length_singleton, List.append_assoc, List.append_assoc] at hrest
    simpa using hrest

theorem newChecked_eq {context : Module} {contextAddr : Address} {function : Function}
    {args : List (Value τ)} (h : args.length ≤ function.localCount) :
    Frame.newChecked context contextAddr function args
      = .ok (Frame.new context contextAddr function args) := by
  have hfill := fillLocals_eq [] h
  rw [List.length_nil, List.nil_append, List.nil_append] at hfill
  rw [Frame.newChecked, hfill]
  rfl

theorem loadChecked_eq (slot : ℕ) : fr.loadChecked slot = Outcome.ofExcept (fr.load slot) := by
  unfold Frame.loadChecked Frame.load
  split
  · rename_i h
    rw [List.getElem?_eq_none h]
    rfl
  · rename_i h
    rw [ge_iff_le, Nat.not_le] at h
    have hget : fr.locals[slot]? = some fr.locals[slot] := List.getElem?_eq_getElem h
    rw [index_eq hget, hget]
    cases fr.locals[slot] with
    | none => rfl
    | some v =>
      dsimp only [Outcome.bind]
      split
      · rw [indexSet_eq h]
        rfl
      · rfl

theorem storeChecked_eq (slot : ℕ) : fr.storeChecked slot = Outcome.ofExcept (fr.store slot) := by
  unfold Frame.storeChecked Frame.store
  cases fr.stack with
  | nil => rfl
  | cons v rest =>
    have hgrown : (if slot ≥ fr.locals.length then
          fr.locals ++ List.replicate (slot + 1 - fr.locals.length) none
        else fr.locals)
        = fr.locals ++ List.replicate (slot + 1 - fr.locals.length) none := by
      split
      · rfl
      · rename_i h
        rw [show slot + 1 - fr.locals.length = 0 by omega]
        simp
    rw [hgrown]
    generalize hlocals : fr.locals ++ List.replicate (slot + 1 - fr.locals.length) none = locals
    have hlt : slot < locals.length := by
      rw [← hlocals, List.length_append, List.length_replicate]
      omega
    have hget : locals[slot]? = some locals[slot] := List.getElem?_eq_getElem hlt
    dsimp only
    rw [index_eq hget, hget]
    cases locals[slot] with
    | none =>
      dsimp only [Outcome.bind, Option.any]
      rw [indexSet_eq hlt]
      rfl
    | some old =>
      dsimp only [Outcome.bind, Option.any]
      split
      · rfl
      · rw [indexSet_eq hlt]
        rfl

theorem eqChecked_eq (negate : Bool) :
    fr.eqChecked negate = Outcome.ofExcept (fr.binary (eqOp negate)) := by
  unfold Frame.eqChecked Frame.binary
  rcases fr.stack with _ | ⟨r, _ | ⟨l, rest⟩⟩
  · rfl
  · rfl
  · dsimp only
    rw [eqOpChecked_eq]
    cases eqOp negate l r <;> rfl

theorem jumpChecked_eq {offset : ℤ} (hpc : fr.pc < 2 ^ 62) (hlow : -2 ^ 31 ≤ offset)
    (hhigh : offset < 2 ^ 31) : fr.jumpChecked offset = Outcome.ofExcept (fr.jump offset) := by
  unfold Frame.jumpChecked Frame.jump
  rw [jumpTargetChecked_eq hpc hlow hhigh]
  cases jumpTarget fr.pc offset <;> rfl

theorem jumpWhenChecked_eq (expected : Bool) {offset : ℤ} (hpc : fr.pc < 2 ^ 62)
    (hlow : -2 ^ 31 ≤ offset) (hhigh : offset < 2 ^ 31) :
    fr.jumpWhenChecked expected offset = Outcome.ofExcept (fr.jumpWhen expected offset) := by
  unfold Frame.jumpWhenChecked Frame.jumpWhen
  cases fr.stack with
  | nil => rfl
  | cons v rest =>
    dsimp only
    cases expectBool v with
    | error e => rfl
    | ok cond =>
      show (if cond = expected then Frame.jumpChecked { fr with stack := rest } offset else _) =
        Outcome.ofExcept (if cond = expected then Frame.jump { fr with stack := rest } offset else _)
      split
      · exact jumpChecked_eq hpc hlow hhigh
      · rfl

theorem execChecked_eq (deps : DepMap) (label : τ) (hpc : fr.pc < 2 ^ 62)
    (h : instr.representable = true) :
    fr.execChecked deps label instr = Outcome.ofExcept (fr.exec deps label instr) := by
  cases instr with
  | load slot => exact loadChecked_eq slot
  | store slot => exact storeChecked_eq slot
  | eq => exact eqChecked_eq false
  | ne => exact eqChecked_eq true
  | jump offset =>
    simp only [Instruction.representable, Bool.and_eq_true, decide_eq_true_eq] at h
    exact jumpChecked_eq hpc h.1 h.2
  | jumpIf offset =>
    simp only [Instruction.representable, Bool.and_eq_true, decide_eq_true_eq] at h
    exact jumpWhenChecked_eq true hpc h.1 h.2
  | jumpIfNot offset =>
    simp only [Instruction.representable, Bool.and_eq_true, decide_eq_true_eq] at h
    exact jumpWhenChecked_eq false hpc h.1 h.2
  | _ => rfl

theorem enterChecked_eq (maxCallDepth depth : ℕ) (context : Module) (contextAddr : Address)
    (fnName : String) (args : List (Value τ)) :
    Vm.enterChecked maxCallDepth depth context contextAddr fnName args
      = Outcome.ofExcept (Vm.enter maxCallDepth depth context contextAddr fnName args) := by
  unfold Vm.enterChecked Vm.enter
  split
  · rfl
  · cases context.getFunction fnName with
    | none => rfl
    | some function =>
      dsimp only
      split
      · rfl
      · rename_i h
        exact newChecked_eq (Nat.not_lt.mp h)

variable {vm : Vm σ} {tok : ℕ → τ} {s : State τ σ}

theorem invokeChecked_eq (hdepth : s.callers.length + 1 < 2 ^ 64) (context : Module)
    (contextAddr : Address) (fnName : String) (argCount : ℕ) :
    vm.invokeChecked s context contextAddr fnName argCount
      = vm.invoke s context contextAddr fnName argCount := by
  unfold Vm.invokeChecked Vm.invoke
  cases popArgs argCount s.frame.stack with
  | error e => rfl
  | ok r =>
    dsimp only
    rw [checkedNat_eq hdepth]
    dsimp only [Outcome.bind]
    rw [enterChecked_eq]
    cases Vm.enter vm.config.maxCallDepth (s.callers.length + 1) context contextAddr fnName r.1 <;>
      rfl

theorem execCallChecked_eq (hdepth : s.callers.length + 1 < 2 ^ 64) (name : String) :
    vm.execCallChecked tok s name = vm.execCall tok s name := by
  unfold Vm.execCallChecked Vm.execCall
  cases parseModuleRef name with
  | some r =>
    dsimp only
    cases vm.deps[r.1]? with
    | none => rfl
    | some dep =>
      dsimp only
      cases dep.getFunction r.2 with
      | none => rfl
      | some callee =>
        dsimp only
        rw [invokeChecked_eq hdepth]
  | none =>
    dsimp only
    cases s.frame.context.getFunction name with
    | some callee => exact invokeChecked_eq hdepth _ _ _ _
    | none => rfl

theorem execInstrChecked_eq (hdepth : s.callers.length + 1 < 2 ^ 64) (hpc : s.frame.pc < 2 ^ 62)
    (h : instr.representable = true) : vm.execInstrChecked tok s instr = vm.execInstr tok s instr := by
  cases hlocal : instr.isLocal with
  | true =>
    have hchecked : vm.execInstrChecked tok s instr
        = s.andThen (Frame.execChecked vm.deps (tok s.nextLabel) s.frame instr) fun frame =>
          .next { s with frame, nextLabel := s.nextLabel + 1 } := by
      cases instr with
      | call name | ret => cases hlocal
      | _ => rfl
    rw [hchecked, execChecked_eq _ _ hpc h]
    cases hexec : Frame.exec vm.deps (tok s.nextLabel) s.frame instr with
    | ok fr' => exact (execInstr_ok hlocal hexec).symm
    | error e => exact (execInstr_error hlocal hexec).symm
  | false =>
    cases instr with
    | call name => exact execCallChecked_eq hdepth name
    | ret => rfl
    | _ => cases hlocal

theorem stepChecked_eq (hschedule : vm.gasSchedule = {}) (hdepth : s.callers.length + 1 < 2 ^ 64)
    (h : s.frame.function.representable = true) : vm.stepChecked tok s = vm.step tok s := by
  unfold Vm.stepChecked Vm.step
  cases hcurrent : s.frame.function.code[s.frame.pc]? with
  | none => rfl
  | some instr =>
    simp only [Function.representable, vecFits, Bool.and_eq_true, decide_eq_true_eq,
      List.all_eq_true] at h
    have hpc := (List.getElem?_eq_some_iff.mp hcurrent).1
    have hinstr := h.2 instr (List.mem_of_getElem? hcurrent)
    rw [hschedule]
    dsimp only
    rw [costOfChecked_eq hinstr]
    dsimp only [State.andThen]
    rcases s.gas.charge (({} : GasSchedule).costOf instr) with ⟨gas, e | _⟩
    · rw [checkedNat_eq (by omega)]
      exact execInstrChecked_eq hdepth (by dsimp only; omega) hinstr
    · rfl

theorem startChecked_eq (fnName : String) (args : List (Value Unit)) (gas : GasMeter) (ctx : σ) :
    vm.startChecked tok fnName args gas ctx = vm.start tok fnName args gas ctx := by
  unfold Vm.startChecked Vm.start
  simp only [enterChecked_eq]
  cases vm.module.getFunction fnName with
  | none => rfl
  | some function =>
    cases Vm.enter vm.config.maxCallDepth 0 vm.module vm.moduleAddr fnName
        (Value.labelList tok 0 args).1 <;> rfl

end Equal

/-! ## How a call ends -/

def Final.Returned (final : Final τ σ) : Prop :=
  (∃ v, final.outcome = .ok v) ∨ ∃ e, final.outcome = .err e

/-- Natives return structs with qualified names. -/
def Vm.NativesQualified (vm : Vm σ) : Prop :=
  ∀ entry ∈ vm.natives, ∀ ctx args v ctx', entry.func ctx args = (.ret (some v), ctx') →
    checkStructQualified v = true

section Returned

variable {vm : Vm σ} {tok : ℕ → τ} {s : State τ σ} {final : Final τ σ}

theorem returned_fail {e : VmError} (h : s.fail e = .done final) : final.Returned := by
  obtain rfl := StepResult.done.inj h
  exact .inr ⟨e, rfl⟩

theorem returned_leave (h : Vm.leave s = .done final) : final.Returned := by
  unfold Vm.leave at h
  split at h
  · obtain rfl := StepResult.done.inj h
    exact .inl ⟨_, rfl⟩
  · cases h

theorem returned_invoke {context : Module} {contextAddr : Address} {fnName : String} {n : ℕ}
    (h : vm.invoke s context contextAddr fnName n = .done final) : final.Returned := by
  unfold Vm.invoke at h
  split at h
  · exact returned_fail h
  · split at h
    · exact returned_fail h
    · cases h

theorem returned_callNative (hnatives : vm.NativesQualified) {entry : NativeFnEntry σ}
    (hentry : entry ∈ vm.natives) (h : Vm.callNative tok s entry = .done final) :
    final.Returned := by
  unfold Vm.callNative at h
  split at h
  · exact returned_fail h
  · split at h
    · exact returned_fail h
    · split at h
      · rename_i v ctx hfunc
        split at h
        · cases h
        · rename_i hqualified
          cases v with
          | none => exact absurd rfl hqualified
          | some v => exact absurd (hnatives entry hentry _ _ v ctx hfunc) hqualified
      · exact returned_fail h
      · exact returned_fail h

theorem returned_execCall (hnatives : vm.NativesQualified) {name : String}
    (h : vm.execCall tok s name = .done final) : final.Returned := by
  unfold Vm.execCall at h
  split at h
  · split at h
    · exact returned_fail h
    · split at h
      · exact returned_fail h
      · split at h
        · exact returned_invoke h
        · exact returned_fail h
  · split at h
    · exact returned_invoke h
    · split at h
      · rename_i entry hentry
        exact returned_callNative hnatives (List.mem_of_find?_eq_some hentry) h
      · exact returned_fail h

theorem returned_step (hnatives : vm.NativesQualified) (h : vm.step tok s = .done final) :
    final.Returned := by
  unfold Vm.step at h
  split at h
  · exact returned_leave h
  · split at h
    · exact returned_fail h
    · unfold Vm.execInstr at h
      split at h
      · exact returned_execCall hnatives h
      · exact returned_leave h
      · split at h
        · cases h
        · exact returned_fail h

theorem returned_run (hnatives : vm.NativesQualified) {fuel : ℕ}
    (h : vm.run tok fuel s = .done final) : final.Returned := by
  induction fuel generalizing s with
  | zero => cases h
  | succ fuel ih =>
    rw [Vm.run] at h
    split at h
    · exact ih h
    · rename_i final' hstep
      obtain rfl := StepResult.done.inj h
      exact returned_step hnatives hstep

theorem returned_start {fnName : String} {args : List (Value Unit)} {gas : GasMeter} {ctx : σ}
    (hargs : args.all checkStructQualified = true)
    (h : vm.start tok fnName args gas ctx = .done final) : final.Returned := by
  have hfail : ∀ {e : VmError}, StepResult.done { outcome := .err e, gas, ctx } = .done final →
      final.Returned := by
    intro e h
    obtain rfl := StepResult.done.inj h
    exact .inr ⟨e, rfl⟩
  unfold Vm.start at h
  dsimp only at h
  split at h
  · exact hfail h
  · split at h
    · exact hfail h
    · split at h
      · exact hfail h
      · split at h
        · exact hfail h
        · rw [hargs] at h
          split at h
          · rename_i hfalse
            cases hfalse
          · split at h
            · exact hfail h
            · cases h

end Returned

end MeowChain
