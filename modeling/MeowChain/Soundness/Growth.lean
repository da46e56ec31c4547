import MeowChain.Soundness.Accounting
import MeowChain.Vm.Execution
import MeowChain.Vm.GasLimit

/-!
# What values cost

Every node of a value that a run makes is paid for, as long as the run copies small values only.
Prices do not depend on the values, so a copy of a large one is as cheap as that of a small one, and
an empty tuple is for free.
-/

set_option autoImplicit false

namespace MeowChain

variable {τ σ : Type}

/-! ## Nodes -/

namespace Value

-- Primitives, structs and tuples of a value, nested ones included.
mutual
def nodes : Value τ → ℕ
  | .struct _ _ fields => 1 + nodesFields fields
  | .tuple vs => 1 + nodesList vs
  | _ => 1

def nodesList : List (Value τ) → ℕ
  | [] => 0
  | v :: vs => nodes v + nodesList vs

def nodesFields : List (String × Value τ) → ℕ
  | [] => 0
  | (_, v) :: fields => nodes v + nodesFields fields
end

theorem nodesList_eq_sum (vs : List (Value τ)) : nodesList vs = (vs.map nodes).sum := by
  induction vs with
  | nil => rfl
  | cons v vs ih => rw [nodesList, ih, List.map_cons, List.sum_cons]

@[simp] theorem nodesList_append (us vs : List (Value τ)) :
    nodesList (us ++ vs) = nodesList us + nodesList vs := by
  simp [nodesList_eq_sum]

@[simp] theorem nodesList_reverse (vs : List (Value τ)) : nodesList vs.reverse = nodesList vs := by
  rw [nodesList_eq_sum, nodesList_eq_sum, List.map_reverse]
  exact (List.reverse_perm _).sum_eq

theorem nodesList_take_drop (n : ℕ) (vs : List (Value τ)) :
    nodesList (vs.take n) + nodesList (vs.drop n) = nodesList vs := by
  rw [← nodesList_append, List.take_append_drop]

theorem nodesFields_zip_le (names : List String) (vs : List (Value τ)) :
    nodesFields (names.zip vs) ≤ nodesList vs := by
  induction names generalizing vs with
  | nil => exact Nat.zero_le _
  | cons name names ih =>
    cases vs with
    | nil => exact Nat.zero_le _
    | cons v vs => exact Nat.add_le_add_left (ih vs) _

theorem nodes_pos (v : Value τ) : 1 ≤ v.nodes := by
  cases v with
  | struct label typeName fields => exact Nat.le_add_right _ _
  | tuple vs => exact Nat.le_add_right _ _
  | _ => exact le_rfl

theorem mem_of_lookup_eq_some {name : String} {fields : List (String × Value τ)} {v : Value τ}
    (h : lookup name fields = some v) : (name, v) ∈ fields := by
  obtain ⟨field, hfind, rfl⟩ := Option.map_eq_some_iff.mp h
  have hname : field.1 = name := by simpa using List.find?_some hfind
  rw [← hname]
  exact List.mem_of_find?_eq_some hfind

theorem nodesFields_filter_le (p : String × Value τ → Bool) (fields : List (String × Value τ)) :
    nodesFields (fields.filter p) ≤ nodesFields fields := by
  induction fields with
  | nil => exact le_rfl
  | cons field fields ih =>
    rw [List.filter_cons, nodesFields]
    split
    · exact Nat.add_le_add_left ih _
    · exact ih.trans (Nat.le_add_left _ _)

theorem nodesFields_filter {name : String} {fields : List (String × Value τ)} {v : Value τ}
    (h : (name, v) ∈ fields) :
    v.nodes + nodesFields (fields.filter (·.1 != name)) ≤ nodesFields fields := by
  induction fields with
  | nil => cases h
  | cons field fields ih =>
    obtain ⟨n, u⟩ := field
    rcases List.mem_cons.mp h with heq | hmem
    · obtain ⟨rfl, rfl⟩ := Prod.mk.inj heq
      rw [List.filter_cons_of_neg (by simp), nodesFields]
      exact Nat.add_le_add_left (nodesFields_filter_le _ fields) _
    · have hrest := ih hmem
      rw [List.filter_cons, nodesFields]
      split
      · rw [nodesFields]
        omega
      · omega

theorem nodes_le_of_lookup {name : String} {fields : List (String × Value τ)} {v : Value τ}
    (h : lookup name fields = some v) : v.nodes ≤ nodesFields fields :=
  (Nat.le_add_right _ _).trans (nodesFields_filter (mem_of_lookup_eq_some h))

theorem nodesFields_setField {name : String} {fields : List (String × Value τ)} {old : Value τ}
    (v : Value τ) (h : lookup name fields = some old) :
    nodesFields (setField name v fields) + old.nodes = nodesFields fields + v.nodes := by
  induction fields with
  | nil => cases h
  | cons field fields ih =>
    obtain ⟨n, u⟩ := field
    simp only [lookup, List.find?_cons] at h
    cases hname : n == name with
    | true =>
      simp only [hname, Option.map_some, Option.some.injEq] at h
      subst h
      simp only [setField, hname, if_true, nodesFields]
      omega
    | false =>
      simp only [hname] at h
      have hrest := ih h
      simp only [setField, hname, Bool.false_eq_true, if_false, nodesFields]
      omega

-- Labels are not nodes.
mutual
theorem nodes_label (tok : ℕ → τ) : ∀ (n : ℕ) (v : Value Unit), (v.label tok n).1.nodes = v.nodes
  | _, .bool _ | _, .u64 _ | _, .address _ | _, .str _ | _, .void => rfl
  | n, .struct _ _ fields => congrArg (1 + ·) (nodesFields_labelFields tok (n + 1) fields)
  | n, .tuple vs => congrArg (1 + ·) (nodesList_labelList tok n vs)

theorem nodesList_labelList (tok : ℕ → τ) : ∀ (n : ℕ) (vs : List (Value Unit)),
    nodesList (labelList tok n vs).1 = nodesList vs
  | _, [] => rfl
  | n, v :: vs => by
    simp only [labelList, nodesList]
    rw [nodes_label tok n v, nodesList_labelList tok _ vs]

theorem nodesFields_labelFields (tok : ℕ → τ) : ∀ (n : ℕ) (fields : List (String × Value Unit)),
    nodesFields (labelFields tok n fields).1 = nodesFields fields
  | _, [] => rfl
  | n, (name, v) :: fields => by
    simp only [labelFields, nodesFields]
    rw [nodes_label tok n v, nodesFields_labelFields tok _ fields]
end

end Value

open Value

def slotNodes : Option (Value τ) → ℕ
  | some v => v.nodes
  | none => 0

def Frame.nodes (fr : Frame τ) : ℕ :=
  nodesList fr.stack + (fr.locals.map slotNodes).sum

def State.nodes (s : State τ σ) : ℕ :=
  s.frame.nodes + (s.callers.map Frame.nodes).sum

/-! ## Instructions -/

def Frame.copied (fr : Frame τ) : Instruction → Option (Value τ)
  | .load slot =>
    match fr.locals[slot]? with
    | some (some v) => if v.isLinear then none else some v
    | _ => none
  | .loadField slot path =>
    match fr.locals[slot]? with
    | some (some root) => (readFieldPath 0 root path).toOption
    | _ => none
  | .dup => fr.stack.head?
  | _ => none

/-- The next instruction copies a value of at most `K` nodes, if any, and makes no empty tuple. -/
def State.CopiesAtMost (K : ℕ) (s : State τ σ) : Prop :=
  ∀ instr, s.frame.current = some instr →
    (∀ v, s.frame.copied instr = some v → v.nodes ≤ K) ∧ instr ≠ .makeTuple 0

section Frames

variable {deps : DepMap} {label : τ} {fr fr' : Frame τ}

theorem Frame.nodes_push (fr : Frame τ) (v : Value τ) :
    (fr.push v).nodes = v.nodes + fr.nodes := by
  simp only [Frame.nodes, Frame.push, nodesList]
  omega

theorem Frame.nodes_stack {stack : List (Value τ)} (h : nodesList stack ≤ nodesList fr.stack) :
    Frame.nodes { fr with stack } ≤ fr.nodes :=
  Nat.add_le_add_right h _

theorem nodes_writeFieldPath {val : Value τ} {path : List String} {i : ℕ} {v v' : Value τ}
    (h : writeFieldPath val i v path = .ok v') : v'.nodes ≤ v.nodes + val.nodes := by
  induction path generalizing i v v' with
  | nil => cases v <;> cases h
  | cons field path ih =>
    cases v with
    | struct label' typeName fields =>
      cases path with
      | nil =>
        simp only [writeFieldPath] at h
        split at h
        · rename_i old hold
          split at h
          · cases h
          · obtain rfl := Except.ok.inj h
            have hset := nodesFields_setField val hold
            simp only [Value.nodes]
            omega
        · cases h
      | cons field' path =>
        simp only [writeFieldPath] at h
        split at h
        · rename_i child hchild
          cases hwrite : writeFieldPath val (i + 1) child (field' :: path) with
          | error e => simp [hwrite, bind, Except.bind] at h
          | ok child' =>
            simp only [hwrite, bind, Except.bind] at h
            obtain rfl := Except.ok.inj h
            have hle := ih hwrite
            have hset := nodesFields_setField child' hchild
            simp only [Value.nodes]
            omega
        · cases h
    | _ => cases path <;> cases h

/-- The operator returns a primitive. -/
def Primitive (op : Value τ → Value τ → Except VmError (Value τ)) : Prop :=
  ∀ l r v, op l r = .ok v → v.nodes = 1

theorem primitive_operator {instr : Instruction}
    {op : Value τ → Value τ → Except VmError (Value τ)} (hop : instr.operator = some op) :
    Primitive op := by
  intro l r v h
  obtain ⟨-, -, ⟨b, rfl⟩ | ⟨n, rfl⟩⟩ := operator_scalar hop h <;> rfl

theorem nodes_literal {instr : Instruction} {v : Value τ} (h : instr.literal = some v) :
    v.nodes = 1 ∧ 1 ≤ ({} : GasSchedule).costOf instr := by
  cases instr with
  | pushBool b | pushU64 n | pushAddress a =>
    obtain rfl := Option.some.inj h
    exact ⟨rfl, le_rfl⟩
  | pushStr x =>
    obtain rfl := Option.some.inj h
    exact ⟨rfl, show 1 ≤ 2 by decide⟩
  | _ => cases h

theorem nodes_unpackFields {typeName : String} {names : List String}
    {fields : List (String × Value τ)} {stack stack' : List (Value τ)}
    (h : unpackFields typeName names fields stack = .ok stack') :
    nodesList stack' ≤ nodesFields fields + nodesList stack := by
  induction names generalizing fields stack with
  | nil =>
    obtain rfl := Except.ok.inj h
    exact Nat.le_add_left _ _
  | cons name names ih =>
    unfold unpackFields at h
    split at h
    · rename_i v hlookup
      have hmem : (name, v) ∈ fields := List.mem_reverse.mp (mem_of_lookup_eq_some hlookup)
      have hfilter := nodesFields_filter hmem
      have hrest := ih h
      rw [nodesList] at hrest
      omega
    · cases h

theorem nodes_store {slot : ℕ} {v : Value τ} {rest : List (Value τ)} (hstack : fr.stack = v :: rest) :
    Frame.nodes { fr with locals := (fr.roomFor slot).set slot (some v), stack := rest } ≤
      fr.nodes := by
  have hsum : ((fr.roomFor slot).map slotNodes).sum = (fr.locals.map slotNodes).sum := by
    simp [Frame.roomFor, slotNodes]
  have hlt : slot < (fr.roomFor slot).length := by
    simp only [Frame.roomFor, List.length_append, List.length_replicate]
    omega
  have hset := sum_map_set slotNodes (some v) (List.getElem?_eq_getElem hlt)
  simp only [Frame.nodes, hstack, nodesList, slotNodes] at hset ⊢
  omega

theorem nodes_exec {K : ℕ} {instr : Instruction} (hK : 1 ≤ K)
    (hcopy : ∀ v, fr.copied instr = some v → v.nodes ≤ K) (hne : instr ≠ .makeTuple 0)
    (h : Frame.exec deps label fr instr = .ok fr') :
    fr'.nodes ≤ fr.nodes + K * ({} : GasSchedule).costOf instr := by
  -- All that is needed of a price is that it covers one node, or one copy.
  have hpaid : ∀ {m n : ℕ}, n ≤ K → 1 ≤ m → fr'.nodes ≤ n + fr.nodes →
      fr'.nodes ≤ fr.nodes + K * m := by
    intro m n hn hm hle
    have hcost : K ≤ K * m := Nat.le_mul_of_pos_right K hm
    omega
  have hkept : ∀ {m : ℕ}, fr'.nodes ≤ fr.nodes → fr'.nodes ≤ fr.nodes + K * m :=
    fun hle => hle.trans (Nat.le_add_right _ _)
  cases does_of_exec h with
  | push hv =>
    obtain ⟨hone, hcost⟩ := nodes_literal hv
    exact hpaid (hone.trans_le hK) hcost (Frame.nodes_push _ _).le
  | move hslot _ =>
    have hset := sum_map_set slotNodes none hslot
    refine hkept ?_
    simp only [slotNodes, add_zero] at hset
    simp only [Frame.nodes, nodesList]
    omega
  | copy hslot hplain =>
    refine hpaid (hcopy _ ?_) le_rfl (Frame.nodes_push _ _).le
    simp [Frame.copied, hslot, hplain]
  | store hstack _ => exact hkept (nodes_store hstack)
  | loadField hslot hread =>
    refine hpaid (hcopy _ ?_) (show 1 ≤ 2 by decide) (Frame.nodes_push _ _).le
    simp [Frame.copied, hslot, hread, Except.toOption]
  | @storeField _ _ _ _ root' _ hstack hslot hwrite =>
    have hle := nodes_writeFieldPath hwrite
    have hset := sum_map_set slotNodes (some root') hslot
    refine hkept ?_
    simp only [Frame.nodes, hstack, nodesList, slotNodes] at hset ⊢
    omega
  | @operate _ _ l r _ _ hop hstack hv =>
    have hone := primitive_operator hop _ _ _ hv
    have hpos := nodes_pos r
    refine hkept (Frame.nodes_stack ?_)
    simp only [hstack, nodesList]
    omega
  | not hstack => exact hkept (Frame.nodes_stack (by rw [hstack]; rfl))
  | @newStruct _ _ fieldNames hname hlen =>
    have hzip := nodesFields_zip_le fieldNames (fr.args fieldNames.length)
    have hsplit := nodesList_take_drop fieldNames.length fr.stack
    refine hpaid hK (show 1 ≤ 10 + fieldNames.length * 2 by omega) ?_
    simp only [Frame.args, nodesList_reverse] at hzip
    simp only [Frame.nodes, nodesList, Value.nodes, Frame.args]
    omega
  | getField hstack hlookup =>
    have hle := nodes_le_of_lookup hlookup
    refine hkept (Frame.nodes_stack ?_)
    simp only [hstack, nodesList, Value.nodes]
    omega
  | unpackStruct hstack hunpack =>
    have hle := nodes_unpackFields hunpack
    refine hkept (Frame.nodes_stack ?_)
    simp only [hstack, nodesList, Value.nodes]
    omega
  | pop hstack => exact hkept (Frame.nodes_stack (by rw [hstack]; exact Nat.le_add_left _ _))
  | dup hstack =>
    exact hpaid (hcopy _ (by simp [Frame.copied, hstack])) le_rfl (Frame.nodes_push _ _).le
  | jump _ => exact hkept le_rfl
  | taken _ hstack _ | passed _ hstack =>
    exact hkept (Frame.nodes_stack (by rw [hstack]; exact Nat.le_add_left _ _))
  | @makeTuple n hlen =>
    have hpos : 1 ≤ n := Nat.pos_of_ne_zero fun hzero => hne (by rw [hzero])
    have hsplit := nodesList_take_drop n fr.stack
    refine hpaid hK (show 1 ≤ n * 1 by omega) ?_
    simp only [Frame.nodes, nodesList, Value.nodes, Frame.args, nodesList_reverse]
    omega
  | unpackTuple hstack =>
    refine hkept (Frame.nodes_stack ?_)
    simp only [hstack, nodesList, nodesList_append, Value.nodes]
    omega
  | leave _ => exact hkept le_rfl

end Frames

/-! ## Runs -/

section Runs

variable {vm : Vm σ} {tok : ℕ → τ} {K : ℕ} {s s' : State τ σ}

/-- Nodes of the value that the native function called next returns. -/
def Vm.returnedNodes (vm : Vm σ) (s : State τ σ) : ℕ :=
  match vm.nativeCall s.frame with
  | none => 0
  | some entry =>
    match entry.func s.ctx ((s.frame.args entry.params.length).map Value.erase) with
    | (.ret (some v), _) => v.nodes
    | _ => 0

def Vm.Grows (vm : Vm σ) (tok : ℕ → τ) (K n : ℕ) (s s' : State τ σ) : Prop :=
  s.CopiesAtMost K ∧ vm.step tok s = .next s' ∧ n = vm.returnedNodes s

theorem nodes_new (context : Module) (contextAddr : Address) (function : Function)
    (args : List (Value τ)) :
    (Frame.new context contextAddr function args).nodes = nodesList args := by
  have hslots : (args.map (slotNodes ∘ some)).sum = nodesList args := (nodesList_eq_sum args).symm
  simp [Frame.nodes, Frame.new, nodesList, slotNodes, hslots]

theorem nodes_head (fr : Frame τ) : (fr.stack.head?.getD .void).nodes ≤ fr.nodes + 1 := by
  cases hstack : fr.stack with
  | nil => exact Nat.le_add_left _ _
  | cons v rest =>
    simp only [List.head?_cons, Option.getD_some, Frame.nodes, hstack, nodesList]
    omega

/-- Each suspended caller stands for the `Void` it may be left. -/
theorem grows_step (hK : 1 ≤ K) (hschedule : vm.gasSchedule = {}) {n : ℕ}
    (h : vm.Grows tok K n s s') (hspent : s'.gas.spent < u64Max) :
    s'.nodes + s'.callers.length + K * s.gas.spent
      ≤ s.nodes + s.callers.length + n + K * s'.gas.spent := by
  obtain ⟨hcopies, hstep, hn⟩ := h
  obtain ⟨cost, hprice, -, -, hpaid⟩ := pays_of_step hstep
  rw [hschedule] at hprice
  have hpaid : K * s.gas.spent + K * cost ≤ K * s'.gas.spent := by
    rw [← Nat.mul_add]
    exact Nat.mul_le_mul_left K (by omega)
  have hcall : ∀ {name}, s.frame.current = some (.call name) → 20 ≤ K * cost := by
    intro name hinstr
    have hcost : 20 ≤ cost := hprice _ hinstr
    calc 20 ≤ 1 * cost := by omega
      _ ≤ K * cost := Nat.mul_le_mul_right _ hK
  cases moves_of_step hstep with
  | @exec instr fr' gas hinstr hlocal hexec =>
    obtain ⟨hcopy, hne⟩ := hcopies instr hinstr
    have hle : fr'.nodes ≤ s.frame.next.nodes + _ := nodes_exec hK hcopy hne hexec
    have hcost := Nat.mul_le_mul_left K (hprice instr hinstr)
    have hnext : s.frame.next.nodes = s.frame.nodes := rfl
    simp only [State.nodes]
    dsimp only at hpaid
    omega
  | @call name context contextAddr callee gas hinstr hcalls hdepth =>
    have hpaidCall := hcall hinstr
    have hsplit := nodesList_take_drop callee.params.length s.frame.stack
    have hcaller : Frame.nodes { s.frame.next with stack := s.frame.stack.drop callee.params.length }
        = nodesList (s.frame.stack.drop callee.params.length)
          + (s.frame.locals.map slotNodes).sum := rfl
    simp only [State.nodes, nodes_new, Frame.args, nodesList_reverse, List.map_cons, List.sum_cons,
      hcaller, List.length_cons]
    dsimp only at hpaid
    simp only [Frame.nodes]
    omega
  | @native entry v gas ctx hnative hargs hfunc hqualified =>
    obtain ⟨name, hinstr⟩ := exists_current_of_nativeCall hnative
    have hpaidCall := hcall hinstr
    have hsplit := nodesList_take_drop entry.params.length s.frame.stack
    have hreturned : ((v.getD .void).label tok s.nextLabel).1.nodes ≤ n + 1 := by
      rw [nodes_label, hn, Vm.returnedNodes, hnative]
      dsimp only
      rw [hfunc]
      cases v with
      | none => exact Nat.le_add_left _ _
      | some v => exact Nat.le_add_right _ _
    simp only [State.nodes, Frame.replaceArgs, Frame.nodes, Frame.next, nodesList]
    dsimp only at hpaid
    omega
  | @ret caller callers gas hinstr hcallers =>
    have hhead := nodes_head s.frame
    simp only [State.nodes, hcallers, Frame.nodes_push, List.map_cons, List.sum_cons,
      List.length_cons]
    dsimp only at hpaid
    omega

theorem spent_le_of_trace {returned : List ℕ} (h : Trace (vm.Grows tok K) s returned s')
    (hspent : s'.gas.spent < u64Max) : s.gas.spent ≤ s'.gas.spent := by
  induction h with
  | nil => exact le_rfl
  | cons hstep _ ih =>
    have hrest := ih hspent
    obtain ⟨cost, -, -, -, hpaid⟩ := pays_of_step hstep.2.1
    omega

theorem grows_run (hK : 1 ≤ K) (hschedule : vm.gasSchedule = {}) {returned : List ℕ}
    (h : Trace (vm.Grows tok K) s returned s') (hspent : s'.gas.spent < u64Max) :
    s'.nodes + s'.callers.length + K * s.gas.spent
      ≤ s.nodes + s.callers.length + returned.sum + K * s'.gas.spent := by
  induction h with
  | nil => simp
  | cons hstep hrest ih =>
    have hfirst := grows_step hK hschedule hstep
      ((spent_le_of_trace hrest hspent).trans_lt hspent)
    have hlast := ih hspent
    rw [List.sum_cons]
    omega

/-- A run that copies at most `K` nodes at a time holds no more nodes than it was given, was
returned by natives and paid for, at `K` nodes for a unit of gas. Past the largest number the meter
does not show what was paid. -/
theorem growth_paid {limit : ℕ} (hK : 1 ≤ K) (hschedule : vm.gasSchedule = {}) {fnName : String}
    {args : List (Value Unit)} {ctx : σ} {s₀ : State τ σ} {returned : List ℕ}
    (hstart : vm.start tok fnName args ⟨limit, 0⟩ ctx = .next s₀)
    (hrun : Trace (vm.Grows tok K) s₀ returned s) (hspent : s.gas.spent < u64Max) :
    s.nodes ≤ nodesList args + returned.sum + K * s.gas.spent := by
  obtain ⟨-, function, -, -, hs₀⟩ := start_eq_next hstart
  have hle := grows_run hK hschedule hrun hspent
  have hfirst : s₀.nodes = nodesList args := by
    rw [hs₀, State.nodes, nodes_new, nodesList_labelList]
    rfl
  have hzero : s₀.gas.spent = 0 := by rw [hs₀]
  have hcallers : s₀.callers.length = 0 := by rw [hs₀]; rfl
  rw [hfirst, hzero, hcallers] at hle
  omega

end Runs

/-! ## Growth that is not paid for -/

namespace Sample

def copyFunction (n : ℕ) : Function where
  name := "copy"
  isPublic := true
  params := [("numbers", .tuple (List.replicate n .u64))]
  returnType := none
  localCount := 1
  code := [.load 0, .pop, .ret]

def unitFunction : Function where
  name := "unit"
  isPublic := true
  params := []
  returnType := none
  localCount := 0
  code := [.makeTuple 0, .pop, .ret]

def moduleOf (f : Function) : Module where
  name := "m"
  imports := []
  structs := []
  functions := [f]

def vmOf (f : Function) : Vm Unit where
  module := moduleOf f
  moduleAddr := 1
  deps := ∅
  natives := []
  gasSchedule := {}
  config := {}

def numbers (n : ℕ) : Value Unit :=
  .tuple (List.replicate n (.u64 0))

theorem unit_accepted : Verifier.verify (moduleOf unitFunction) ∅ [] {} = [] := by
  decide +kernel

theorem validateTypeRefs_numbers (m : Module) (deps : DepMap) (context : String) (n : ℕ) :
    Verifier.validateTypeRefs m deps context (List.replicate n .u64) = [] := by
  induction n with
  | zero => rfl
  | succ n ih => exact ih

theorem anyLinear_numbers (n : ℕ) :
    Verifier.AbstractType.anyLinear (Verifier.fromTypes (List.replicate n .u64)) = false := by
  induction n with
  | zero => rfl
  | succ n ih => exact ih

theorem copy_flow (n : ℕ) {sc : Verifier.Scope} (hfunc : sc.func = copyFunction n) :
    Verifier.checkFunction sc = [] := by
  have hlinear := anyLinear_numbers n
  simp [Verifier.checkFunction, hfunc, copyFunction, Verifier.initialState, ForwardFlow.Pass.run,
    ForwardFlow.Pass.runFrom, ForwardFlow.Pass.advance, ForwardFlow.Pass.arrive,
    ForwardFlow.Pass.depart, ForwardFlow.Pass.start, Verifier.pass, Verifier.exec,
    Verifier.loadInstr, Verifier.popInstr, Verifier.returnInstr, Verifier.goOn, Verifier.fromType,
    Verifier.AbstractType.isLinear, hlinear, Verifier.checkReturn, Verifier.checkReturnType,
    Verifier.report, Verifier.unconsumedStructs, Verifier.checkEnd, Verifier.SlotState.isLinear,
    Verifier.AbstractType.anyLinear]

open Verifier in
theorem copy_checked (n : ℕ) : checkModule (moduleOf (copyFunction n)) ∅ {} = [] := by
  have hmodule : isValidIdentifier "m" {} = true := by decide +kernel
  have hname : isFunctionName {} "copy" = true := by decide +kernel
  have hsignature : checkSignature (moduleOf (copyFunction n)) ∅ {} (copyFunction n) = [] := by
    simp [checkSignature, copyFunction, validateTypeRef, validateTypeRefs_numbers]
  have hdef : checkFunctionDef (moduleOf (copyFunction n)) ∅ {} [] (copyFunction n) = [] := by
    unfold checkFunctionDef
    rw [hsignature, show (copyFunction n).name = "copy" from rfl, hname]
    rfl
  unfold checkModule
  rw [show (moduleOf (copyFunction n)).name = "m" from rfl, hmodule,
    show (moduleOf (copyFunction n)).functions = [copyFunction n] from rfl, checkFunctions, hdef]
  rfl

theorem copy_accepted (n : ℕ) : Verifier.verify (moduleOf (copyFunction n)) ∅ [] {} = [] := by
  unfold Verifier.verify
  rw [copy_checked, show (moduleOf (copyFunction n)).functions = [copyFunction n] from rfl,
    List.flatMap_singleton, copy_flow n rfl]
  rfl
theorem nodes_numbers (n : ℕ) : (numbers n).nodes = n + 1 := by
  have hlist : nodesList (List.replicate n (.u64 0 : Value Unit)) = n := by
    induction n with
    | zero => rfl
    | succ n ih => rw [List.replicate_succ, nodesList, ih, show (u64 0 : Value Unit).nodes = 1 from rfl,
        Nat.add_comm]
  rw [numbers, Value.nodes, hlist, Nat.add_comm]

theorem label_numbers (n : ℕ) : ((numbers n).label (fun _ => ()) 0).1 = numbers n := by
  have hlist : (Value.labelList (fun _ => ()) 0 (List.replicate n (.u64 0 : Value Unit))).1
      = List.replicate n (.u64 0) := by
    induction n with
    | zero => rfl
    | succ n ih => exact congrArg (.u64 0 :: ·) ih
  exact congrArg Value.tuple hlist

theorem numbers_isLinear (n : ℕ) : (numbers n).isLinear = false := by
  show Value.anyLinear (List.replicate n (.u64 0 : Value Unit)) = false
  induction n with
  | zero => rfl
  | succ n ih => exact ih

/-- After `f` was accepted and its first instruction executed, more nodes are held than `c` of them
for every unit of gas can explain. -/
def Unpaid (c : ℕ) (f : Function) (args : List (Value Unit)) : Prop :=
  Verifier.verify (moduleOf f) ∅ [] {} = [] ∧
  ∃ s₀ s, (vmOf f).start (fun _ => ()) f.name args ⟨100, 0⟩ () = .next s₀ ∧
    (vmOf f).step (fun _ => ()) s₀ = .next s ∧ nodesList args + c * s.gas.spent < s.nodes

theorem copy_step (n : ℕ) : ∃ s₀ s : State Unit Unit,
    (vmOf (copyFunction n)).start (fun _ => ()) "copy" [numbers n] ⟨100, 0⟩ () = .next s₀ ∧
    (vmOf (copyFunction n)).step (fun _ => ()) s₀ = .next s ∧
    s.gas.spent = 1 ∧ s.nodes = (n + 1) + (n + 1) := by
  let fr : Frame Unit := Frame.new (moduleOf (copyFunction n)) 1 (copyFunction n) [numbers n]
  have hexec : Frame.exec ∅ () fr.next (.load 0) = .ok (fr.next.push (numbers n)) := by
    show (if (numbers n).isLinear = true then _ else _) = _
    rw [numbers_isLinear]
    rfl
  have hargs : (Value.labelList (fun _ => ()) 0 [numbers n]).1 = [numbers n] :=
    congrArg (· :: []) (label_numbers n)
  let m := (Value.labelList (fun _ => ()) 0 [numbers n]).2
  refine ⟨⟨fr, [], ⟨100, 0⟩, (), m⟩, ⟨fr.next.push (numbers n), [], ⟨100, 1⟩, (), m + 1⟩, ?_, ?_,
    rfl, ?_⟩
  · have hstart : (vmOf (copyFunction n)).start (fun _ => ()) "copy" [numbers n] ⟨100, 0⟩ ()
        = .next ⟨Frame.new (moduleOf (copyFunction n)) 1 (copyFunction n)
          (Value.labelList (fun _ => ()) 0 [numbers n]).1, [], ⟨100, 0⟩, (), m⟩ := rfl
    rwa [hargs] at hstart
  · show (vmOf (copyFunction n)).execInstr (fun _ => ()) ⟨fr.next, [], ⟨100, 1⟩, (), m⟩ (.load 0) = _
    exact execInstr_ok rfl hexec
  · have hnext : fr.next.nodes = fr.nodes := rfl
    simp only [State.nodes, Frame.nodes_push, hnext, fr, nodes_new, nodesList, nodes_numbers,
      List.map_nil, List.sum_nil, Nat.add_zero]

end Sample

open Sample in
/-- Three numbers are copied. -/
theorem growth_paid_copy : ∃ s₀ s : State Unit Unit,
    (vmOf (copyFunction 3)).start (fun _ => ()) "copy" [numbers 3] ⟨100, 0⟩ () = .next s₀ ∧
    Trace ((vmOf (copyFunction 3)).Grows (fun _ => ()) 4) s₀ [0] s ∧
    s.nodes ≤ nodesList [numbers 3] + [0].sum + 4 * s.gas.spent := by
  let s₀ : State Unit Unit :=
    ⟨Frame.new (moduleOf (copyFunction 3)) 1 (copyFunction 3) [numbers 3], [], ⟨100, 0⟩, (), 0⟩
  let s : State Unit Unit :=
    ⟨s₀.frame.next.push (numbers 3), [], ⟨100, 1⟩, (), 1⟩
  have hstart : (vmOf (copyFunction 3)).start (fun _ => ()) "copy" [numbers 3] ⟨100, 0⟩ ()
      = .next s₀ := rfl
  have hcopies : s₀.CopiesAtMost 4 := by
    intro instr hinstr
    obtain rfl : Instruction.load 0 = instr := Option.some.inj hinstr
    refine ⟨fun v hv => ?_, fun heq => by cases heq⟩
    obtain rfl : numbers 3 = v := Option.some.inj hv
    exact le_rfl
  have hrun : Trace ((vmOf (copyFunction 3)).Grows (fun _ => ()) 4) s₀ [0] s :=
    .single ⟨hcopies, rfl, rfl⟩
  exact ⟨s₀, s, hstart, hrun, growth_paid (by decide) rfl hstart hrun (by decide)⟩

open Sample in
/-- No price for a node holds for all programs: copies of wide tuples cost as much as those of
narrow ones, and an empty tuple is for free. -/
theorem growth_unpaid :
    (∀ c, Unpaid c (copyFunction c) [numbers c]) ∧ ∀ c, Unpaid c unitFunction [] := by
  constructor
  · intro c
    obtain ⟨s₀, s, hstart, hstep, hspent, hnodes⟩ := copy_step c
    refine ⟨copy_accepted c, s₀, s, hstart, hstep, ?_⟩
    rw [hspent, hnodes, nodesList, nodesList, nodes_numbers]
    omega
  · intro c
    refine ⟨unit_accepted, _, _, rfl, rfl, ?_⟩
    show 0 + c * 0 < 1
    omega

end MeowChain
