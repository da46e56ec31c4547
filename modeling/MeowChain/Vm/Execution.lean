import MeowChain.Vm.Steps

/-!
# What an instruction does to its frame

The instructions that stay within their frame, by what they take and leave: everything that is said
of executed instructions elsewhere follows from these cases.
-/

set_option autoImplicit false

namespace MeowChain

variable {τ : Type}

def Instruction.literal : Instruction → Option (Value τ)
  | .pushBool b => some (.bool b)
  | .pushU64 n => some (.u64 n)
  | .pushAddress a => some (.address a)
  | .pushStr s => some (.str s)
  | _ => none

def Instruction.operator : Instruction → Option (Value τ → Value τ → Except VmError (Value τ))
  | .add => some (arithOp checkedAdd)
  | .sub => some (arithOp checkedSub)
  | .mul => some (arithOp checkedMul)
  | .div => some (divOp checkedDiv)
  | .mod => some (divOp checkedRem)
  | .eq => some (eqOp false)
  | .ne => some (eqOp true)
  | .lt => some fun l r => do .ok (.bool (← cmpValues l r))
  | .le => some fun l r => do .ok (.bool (!(← cmpValues r l)))
  | .gt => some fun l r => do .ok (.bool (← cmpValues r l))
  | .ge => some fun l r => do .ok (.bool (!(← cmpValues l r)))
  | .and => some (boolOp (· && ·))
  | .or => some (boolOp (· || ·))
  | _ => none

def Instruction.branch : Instruction → Option (Bool × ℤ)
  | .jumpIf offset => some (true, offset)
  | .jumpIfNot offset => some (false, offset)
  | _ => none

/-- The slots of a frame, with room for `slot`. -/
def Frame.roomFor (fr : Frame τ) (slot : ℕ) : List (Option (Value τ)) :=
  fr.locals ++ List.replicate (slot + 1 - fr.locals.length) none

/-- What `instr` does to the frame; `Call` and `Return` leave it as it is. -/
inductive Frame.Does (deps : DepMap) (label : τ) (fr : Frame τ) : Instruction → Frame τ → Prop
  | push {instr : Instruction} {v : Value τ} (hv : instr.literal = some v) :
      Does deps label fr instr (fr.push v)
  | move {slot : ℕ} {v : Value τ} (hslot : fr.locals[slot]? = some (some v))
      (hlinear : v.isLinear = true) : Does deps label fr (.load slot)
        { fr with locals := fr.locals.set slot none, stack := v :: fr.stack }
  | copy {slot : ℕ} {v : Value τ} (hslot : fr.locals[slot]? = some (some v))
      (hplain : v.isLinear = false) : Does deps label fr (.load slot) (fr.push v)
  | store {slot : ℕ} {v : Value τ} {rest : List (Value τ)} (hstack : fr.stack = v :: rest)
      (hold : ∀ old, (fr.roomFor slot)[slot]? = some (some old) → old.isLinear = false) :
      Does deps label fr (.store slot)
        { fr with locals := (fr.roomFor slot).set slot (some v), stack := rest }
  | loadField {slot : ℕ} {path : List String} {root v : Value τ}
      (hslot : fr.locals[slot]? = some (some root)) (hread : readFieldPath 0 root path = .ok v) :
      Does deps label fr (.loadField slot path) (fr.push v)
  | storeField {slot : ℕ} {path : List String} {v root root' : Value τ} {rest : List (Value τ)}
      (hstack : fr.stack = v :: rest) (hslot : fr.locals[slot]? = some (some root))
      (hwrite : writeFieldPath v 0 root path = .ok root') : Does deps label fr (.storeField slot path)
        { fr with locals := fr.locals.set slot (some root'), stack := rest }
  | operate {instr : Instruction} {op : Value τ → Value τ → Except VmError (Value τ)}
      {l r v : Value τ} {rest : List (Value τ)} (hop : instr.operator = some op)
      (hstack : fr.stack = r :: l :: rest) (hv : op l r = .ok v) :
      Does deps label fr instr { fr with stack := v :: rest }
  | not {b : Bool} {rest : List (Value τ)} (hstack : fr.stack = .bool b :: rest) :
      Does deps label fr .not { fr with stack := .bool (!b) :: rest }
  | newStruct {typeName qualified : String} {fieldNames : List String}
      (hname : fr.structTypeName deps typeName = .ok qualified)
      (hlen : fieldNames.length ≤ fr.stack.length) :
      Does deps label fr (.newStruct typeName fieldNames) { fr with
        stack := .struct label qualified (fieldNames.zip (fr.args fieldNames.length)) ::
          fr.stack.drop fieldNames.length }
  | getField {field typeName : String} {label' : τ} {fields : List (String × Value τ)} {v : Value τ}
      {rest : List (Value τ)} (hstack : fr.stack = .struct label' typeName fields :: rest)
      (hlookup : Value.lookup field fields = some v) :
      Does deps label fr (.getField field) { fr with stack := v :: rest }
  | unpackStruct {typeName name : String} {fieldNames : List String} {label' : τ}
      {fields : List (String × Value τ)} {rest stack : List (Value τ)}
      (hstack : fr.stack = .struct label' name fields :: rest)
      (hunpack : unpackFields name fieldNames.reverse fields rest = .ok stack) :
      Does deps label fr (.unpackStruct typeName fieldNames) { fr with stack }
  | pop {v : Value τ} {rest : List (Value τ)} (hstack : fr.stack = v :: rest) :
      Does deps label fr .pop { fr with stack := rest }
  | dup {v : Value τ} {rest : List (Value τ)} (hstack : fr.stack = v :: rest) :
      Does deps label fr .dup (fr.push v)
  | jump {offset : ℤ} {pc : ℕ} (htarget : jumpTarget fr.pc offset = .ok pc) :
      Does deps label fr (.jump offset) { fr with pc }
  | taken {instr : Instruction} {b : Bool} {offset : ℤ} {pc : ℕ} {rest : List (Value τ)}
      (hbranch : instr.branch = some (b, offset)) (hstack : fr.stack = .bool b :: rest)
      (htarget : jumpTarget fr.pc offset = .ok pc) :
      Does deps label fr instr { fr with stack := rest, pc }
  | passed {instr : Instruction} {b b' : Bool} {offset : ℤ} {rest : List (Value τ)}
      (hbranch : instr.branch = some (b, offset)) (hstack : fr.stack = .bool b' :: rest) :
      Does deps label fr instr { fr with stack := rest }
  | makeTuple {n : ℕ} (hlen : n ≤ fr.stack.length) :
      Does deps label fr (.makeTuple n) { fr with stack := .tuple (fr.args n) :: fr.stack.drop n }
  | unpackTuple {values rest : List (Value τ)} (hstack : fr.stack = .tuple values :: rest) :
      Does deps label fr (.unpackTuple values.length) { fr with stack := values ++ rest }
  | leave {instr : Instruction} (hleaves : instr.isLocal = false) : Does deps label fr instr fr

section Inversion

variable {deps : DepMap} {label : τ} {fr fr' : Frame τ} {instr : Instruction}

theorem expectU64_eq_ok {v : Value τ} {n : UInt64} (h : expectU64 v = .ok n) : v = .u64 n := by
  cases v with
  | u64 m =>
    obtain rfl : m = n := Except.ok.inj h
    rfl
  | _ => cases h

theorem expectBool_eq_ok {v : Value τ} {b : Bool} (h : expectBool v = .ok b) : v = .bool b := by
  cases v with
  | bool c =>
    obtain rfl : c = b := Except.ok.inj h
    rfl
  | _ => cases h

/-- A write along a path changes the fields of the struct it starts at and nothing else. -/
theorem writeFieldPath_eq_ok {val : Value τ} {path : List String} {i : ℕ} {v v' : Value τ}
    (h : writeFieldPath val i v path = .ok v') :
    ∃ label typeName fields fields',
      v = .struct label typeName fields ∧ v' = .struct label typeName fields' := by
  unfold writeFieldPath at h
  split at h
  · cases h
  · split at h
    · split at h
      · cases h
      · exact ⟨_, _, _, _, rfl, (Except.ok.inj h).symm⟩
    · cases h
  · cases h
  · split at h
    · obtain ⟨child', -, hresult⟩ := ok_of_bind h
      exact ⟨_, _, _, _, rfl, (Except.ok.inj hresult).symm⟩
    · cases h
  · cases h

theorem does_binary {op : Value τ → Value τ → Except VmError (Value τ)}
    (hop : instr.operator = some op) (h : fr.binary op = .ok fr') : fr.Does deps label instr fr' := by
  unfold Frame.binary at h
  split at h
  · rename_i r l rest hstack
    obtain ⟨v, hv, h⟩ := ok_of_bind h
    obtain rfl := Except.ok.inj h
    exact .operate hop hstack hv
  · cases h

theorem does_load {slot : ℕ} (h : fr.load slot = .ok fr') :
    fr.Does deps label (.load slot) fr' := by
  unfold Frame.load at h
  split at h
  · cases h
  · cases h
  · rename_i v hslot
    split at h
    · rename_i hlinear
      obtain rfl := Except.ok.inj h
      exact .move hslot hlinear
    · rename_i hplain
      obtain rfl := Except.ok.inj h
      exact .copy hslot (Bool.not_eq_true _ ▸ hplain)

theorem does_store {slot : ℕ} (h : fr.store slot = .ok fr') :
    fr.Does deps label (.store slot) fr' := by
  unfold Frame.store at h
  split at h
  · cases h
  · rename_i v rest hstack
    dsimp only at h
    split at h
    · rename_i old hold
      split at h
      · cases h
      · rename_i hplain
        obtain rfl := Except.ok.inj h
        refine .store hstack fun old' hold' => ?_
        obtain rfl := Option.some.inj (Option.some.inj (hold.symm.trans hold'))
        exact Bool.not_eq_true _ ▸ hplain
    · rename_i hvacant
      obtain rfl := Except.ok.inj h
      exact .store hstack fun old hold => absurd hold (hvacant old)

theorem does_storeField {slot : ℕ} {path : List String} (h : fr.storeField slot path = .ok fr') :
    fr.Does deps label (.storeField slot path) fr' := by
  unfold Frame.storeField at h
  split at h
  · cases h
  · rename_i v rest hstack
    split at h
    · rename_i root hslot
      obtain ⟨root', hwrite, h⟩ := ok_of_bind h
      obtain rfl := Except.ok.inj h
      exact .storeField hstack hslot hwrite
    · cases h

theorem does_unary {op : Value τ → Except VmError (Value τ)}
    (hop : ∀ v w rest, fr.stack = v :: rest → op v = .ok w →
      fr.Does deps label instr { fr with stack := w :: rest })
    (h : fr.unary op = .ok fr') : fr.Does deps label instr fr' := by
  unfold Frame.unary at h
  split at h
  · rename_i v rest hstack
    obtain ⟨w, hw, h⟩ := ok_of_bind h
    obtain rfl := Except.ok.inj h
    exact hop v w rest hstack hw
  · cases h

theorem does_unpackStruct {typeName : String} {fieldNames : List String}
    (h : fr.unpackStruct fieldNames = .ok fr') :
    fr.Does deps label (.unpackStruct typeName fieldNames) fr' := by
  unfold Frame.unpackStruct at h
  split at h
  · cases h
  · rename_i label' name fields rest hstack
    obtain ⟨stack, hunpack, h⟩ := ok_of_bind h
    obtain rfl := Except.ok.inj h
    exact .unpackStruct hstack hunpack
  · cases h

theorem does_jumpWhen {expected : Bool} {offset : ℤ}
    (hbranch : instr.branch = some (expected, offset))
    (h : fr.jumpWhen expected offset = .ok fr') : fr.Does deps label instr fr' := by
  unfold Frame.jumpWhen at h
  split at h
  · cases h
  · rename_i v rest hstack
    obtain ⟨b, hv, hjump⟩ := ok_of_bind h
    obtain rfl := expectBool_eq_ok hv
    dsimp only at hjump
    split at hjump
    · rename_i hb
      obtain rfl := hb
      obtain ⟨pc, htarget, hpc⟩ := ok_of_bind hjump
      obtain rfl := Except.ok.inj hpc
      exact .taken hbranch hstack htarget
    · obtain rfl := Except.ok.inj hjump
      exact .passed hbranch hstack

theorem does_unpackTuple {n : ℕ} (h : fr.unpackTuple n = .ok fr') :
    fr.Does deps label (.unpackTuple n) fr' := by
  unfold Frame.unpackTuple at h
  split at h
  · cases h
  · rename_i values rest hstack
    split at h
    · rename_i hlen
      subst hlen
      obtain rfl := Except.ok.inj h
      exact .unpackTuple hstack
    · cases h
  · cases h

/-- Every instruction, by cases. -/
theorem does_of_exec (h : Frame.exec deps label fr instr = .ok fr') :
    fr.Does deps label instr fr' := by
  cases instr with
  | pushBool b | pushU64 n | pushAddress a | pushStr s =>
    obtain rfl := Except.ok.inj h
    exact .push rfl
  | load slot => exact does_load h
  | store slot => exact does_store h
  | loadField slot path =>
    simp only [Frame.exec, Frame.loadField] at h
    split at h
    · rename_i root hslot
      obtain ⟨v, hread, h⟩ := ok_of_bind h
      obtain rfl := Except.ok.inj h
      exact .loadField hslot hread
    · cases h
  | storeField slot path => exact does_storeField h
  | add | sub | mul | div | mod | eq | ne | lt | le | gt | ge | and | or =>
    exact does_binary rfl h
  | not =>
    refine does_unary (fun v w rest hstack hw => ?_) h
    obtain ⟨b, hb, hw⟩ := ok_of_bind hw
    obtain rfl := expectBool_eq_ok hb
    obtain rfl := Except.ok.inj hw
    exact .not hstack
  | newStruct typeName fieldNames =>
    obtain ⟨qualified, hname, h⟩ := ok_of_bind h
    obtain ⟨r, hpop, h⟩ := ok_of_bind h
    obtain ⟨hlen, rfl⟩ := popArgs_eq_ok hpop
    obtain rfl := Except.ok.inj h
    exact .newStruct hname hlen
  | getField field =>
    refine does_unary (fun v w rest hstack hw => ?_) h
    split at hw
    · split at hw
      · rename_i hlookup
        obtain rfl := Except.ok.inj hw
        exact .getField hstack hlookup
      · cases hw
    · cases hw
  | unpackStruct typeName fieldNames => exact does_unpackStruct h
  | pop =>
    simp only [Frame.exec] at h
    split at h
    · cases h
    · rename_i hstack
      obtain rfl := Except.ok.inj h
      exact .pop hstack
  | dup =>
    simp only [Frame.exec] at h
    split at h
    · cases h
    · rename_i hstack
      obtain rfl := Except.ok.inj h
      exact .dup hstack
  | jump offset =>
    obtain ⟨pc, htarget, h⟩ := ok_of_bind h
    obtain rfl := Except.ok.inj h
    exact .jump htarget
  | jumpIf offset | jumpIfNot offset => exact does_jumpWhen rfl h
  | call name | ret =>
    obtain rfl := Except.ok.inj h
    exact .leave rfl
  | makeTuple n =>
    obtain ⟨r, hpop, h⟩ := ok_of_bind h
    obtain ⟨hlen, rfl⟩ := popArgs_eq_ok hpop
    obtain rfl := Except.ok.inj h
    exact .makeTuple hlen
  | unpackTuple n => exact does_unpackTuple h

end Inversion

/-! ## Operands and results -/

/-- The results of operators. -/
def Value.IsScalar (v : Value τ) : Prop :=
  (∃ b, v = .bool b) ∨ ∃ n, v = .u64 n

section Operators

variable {l r v : Value τ}

theorem arithOp_scalar {op : UInt64 → UInt64 → Option UInt64} (h : arithOp op l r = .ok v) :
    l.isLinear = false ∧ r.isLinear = false ∧ v.IsScalar := by
  obtain ⟨a, ha, hright⟩ := ok_of_bind h
  obtain ⟨b, hb, hresult⟩ := ok_of_bind hright
  obtain rfl := expectU64_eq_ok ha
  obtain rfl := expectU64_eq_ok hb
  split at hresult
  · obtain rfl := Except.ok.inj hresult
    exact ⟨rfl, rfl, .inr ⟨_, rfl⟩⟩
  · cases hresult

theorem divOp_scalar {op : UInt64 → UInt64 → Option UInt64} (h : divOp op l r = .ok v) :
    l.isLinear = false ∧ r.isLinear = false ∧ v.IsScalar := by
  unfold divOp at h
  split at h
  · cases h
  · exact arithOp_scalar h

theorem eqOp_scalar {negate : Bool} (h : eqOp negate l r = .ok v) :
    l.isLinear = false ∧ r.isLinear = false ∧ v.IsScalar := by
  unfold eqOp at h
  split at h
  · cases h
  · rename_i hplain
    simp only [Bool.not_eq_true, Bool.or_eq_false_iff] at hplain
    obtain rfl := Except.ok.inj h
    exact ⟨hplain.1, hplain.2, .inl ⟨_, rfl⟩⟩

theorem boolOp_scalar {op : Bool → Bool → Bool} (h : boolOp op l r = .ok v) :
    l.isLinear = false ∧ r.isLinear = false ∧ v.IsScalar := by
  obtain ⟨a, ha, hright⟩ := ok_of_bind h
  obtain ⟨b, hb, hresult⟩ := ok_of_bind hright
  obtain rfl := expectBool_eq_ok ha
  obtain rfl := expectBool_eq_ok hb
  obtain rfl := Except.ok.inj hresult
  exact ⟨rfl, rfl, .inl ⟨_, rfl⟩⟩

theorem cmpValues_scalar {f : Bool → Value τ} (hf : ∀ b, (f b).IsScalar)
    (h : (cmpValues l r >>= fun b => .ok (f b)) = .ok v) :
    l.isLinear = false ∧ r.isLinear = false ∧ v.IsScalar := by
  obtain ⟨c, hc, hresult⟩ := ok_of_bind h
  obtain ⟨a, ha, hright⟩ := ok_of_bind hc
  obtain ⟨b, hb, -⟩ := ok_of_bind hright
  rw [expectU64_eq_ok ha, expectU64_eq_ok hb]
  obtain rfl := Except.ok.inj hresult
  exact ⟨rfl, rfl, hf c⟩

theorem operator_scalar {instr : Instruction}
    {op : Value τ → Value τ → Except VmError (Value τ)} (hop : instr.operator = some op)
    (h : op l r = .ok v) : l.isLinear = false ∧ r.isLinear = false ∧ v.IsScalar := by
  have hbool : ∀ b : Bool, (Value.bool b : Value τ).IsScalar := fun b => .inl ⟨b, rfl⟩
  cases instr with
  | add | sub | mul =>
    obtain rfl := Option.some.inj hop
    exact arithOp_scalar h
  | div | mod =>
    obtain rfl := Option.some.inj hop
    exact divOp_scalar h
  | eq | ne =>
    obtain rfl := Option.some.inj hop
    exact eqOp_scalar h
  | lt | ge =>
    obtain rfl := Option.some.inj hop
    exact cmpValues_scalar (fun _ => hbool _) h
  | le | gt =>
    obtain rfl := Option.some.inj hop
    obtain ⟨hr, hl, hv⟩ := cmpValues_scalar (fun _ => hbool _) h
    exact ⟨hl, hr, hv⟩
  | and | or =>
    obtain rfl := Option.some.inj hop
    exact boolOp_scalar h
  | _ => cases hop

end Operators

end MeowChain
