import MeowChain.Adapter.Freshness
import MeowChain.Adapter.Knowledge

/-!
# The adapter's walk and the paths

What the adapter knows at a position is explained by the paths that lead there, for every function in
which it stores no linear value while it is out of step.
-/

set_option autoImplicit false

namespace MeowChain.Adapter

open Verifier (Scope AbstractState AbstractType SlotState Certified fromType fromTypes_eq_map
  returnAbstract)

variable {T : StructTag → StructTag → Prop} {sc : Scope} {paths : PathState → Prop}
  {s : VerifyState} {t : AbstractState} {cfg : CompilerConfig} {pc : ℕ} {instr : Instruction}

/-! ## What instructions push -/

/-- The instruction leaves values on the stack that are no structs and of which nothing is known. -/
def isScalar : Instruction → Bool
  | .load _ | .store _ | .dup | .call _ | .ret | .newStruct _ _ | .unpackStruct _ _ | .makeTuple _
  | .unpackTuple _ => false
  | _ => true

theorem scalar_types {instr : Instruction} (hscalar : isScalar instr = true)
    (h : Checked cfg sc pc t instr) :
    ∃ types, types.length = instr.pushes ∧ (∀ ty ∈ types, ty.isStruct = false) ∧
      (Verifier.exec sc pc instr t).state.stack = types ++ t.stack.drop instr.pops := by
  have haccepted := h.accepted
  cases instr with
  | load slot | store slot | dup | call name | ret | newStruct typeName fieldNames
  | unpackStruct typeName fieldNames | makeTuple n | unpackTuple n => cases hscalar
  | pushBool b => exact ⟨[.bool], rfl, by simp [AbstractType.isStruct], rfl⟩
  | pushU64 n => exact ⟨[.u64], rfl, by simp [AbstractType.isStruct], rfl⟩
  | pushAddress a => exact ⟨[.address], rfl, by simp [AbstractType.isStruct], rfl⟩
  | pushStr str => exact ⟨[.str], rfl, by simp [AbstractType.isStruct], rfl⟩
  | jump offset => exact ⟨[], rfl, by simp, rfl⟩
  | jumpIf offset | jumpIfNot offset =>
    obtain ⟨rest, hstack, hrest⟩ := popExpect_eq_nil haccepted
    refine ⟨[], rfl, by simp, ?_⟩
    rw [hstack]
    exact hrest
  | add | sub | mul | div | mod =>
    obtain ⟨rest, hstack, heq⟩ := binaryOp_eq_nil haccepted
    refine ⟨[.u64], rfl, by simp [AbstractType.isStruct], ?_⟩
    simp [Verifier.exec, heq, hstack, Verifier.goOn, Instruction.pops]
  | lt | le | gt | ge | and | or =>
    obtain ⟨rest, hstack, heq⟩ := binaryOp_eq_nil haccepted
    refine ⟨[.bool], rfl, by simp [AbstractType.isStruct], ?_⟩
    simp [Verifier.exec, heq, hstack, Verifier.goOn, Instruction.pops]
  | eq | ne =>
    refine ⟨[.bool], rfl, by simp [AbstractType.isStruct], ?_⟩
    simp only [Verifier.exec, Verifier.eqInstr] at haccepted ⊢
    split at haccepted
    · rename_i r l rest hstack
      simp [hstack, Verifier.goOn, Instruction.pops]
    · cases haccepted
  | not =>
    obtain ⟨rest, hstack, hrest⟩ := popExpect_eq_nil haccepted
    refine ⟨[.bool], rfl, by simp [AbstractType.isStruct], ?_⟩
    rw [hstack]
    exact congrArg _ hrest
  | pop =>
    simp only [Verifier.exec, Verifier.popInstr] at haccepted ⊢
    split at haccepted
    · cases haccepted
    · rename_i ty rest hstack
      exact ⟨[], rfl, by simp, by simp [hstack, Verifier.goOn, Instruction.pops]⟩
  | getField field =>
    simp only [Verifier.exec, Verifier.getFieldInstr] at haccepted ⊢
    split at haccepted
    · cases haccepted
    · rename_i typeName rest hstack
      have hnot : ((Verifier.resolveFieldType (.struct typeName) field sc.module).getD
          .address).isStruct = false := by
        by_contra hstruct
        rw [Bool.not_eq_false] at hstruct
        simp only [Verifier.goOn, hstruct, if_true, List.append_eq_nil_iff] at haccepted
        cases haccepted.2
      refine ⟨[_], rfl, by simpa using hnot, ?_⟩
      simp [hstack, Verifier.goOn, Instruction.pops]
    · cases haccepted
  | loadField slot path =>
    obtain ⟨hslot, hpath⟩ := List.append_eq_nil_iff.mp h.structural
    obtain ⟨x, hx⟩ := h.slot hslot
    simp only [Verifier.exec, Verifier.loadFieldInstr, hx] at haccepted ⊢
    cases x with
    | dead => cases haccepted
    | live root =>
      cases path with
      | nil => simp at hpath
      | cons field path =>
        obtain ⟨-, hnot⟩ := List.append_eq_nil_iff.mp haccepted
        rw [Verifier.report_eq_nil] at hnot
        exact ⟨[_], rfl, by simpa using hnot, rfl⟩
  | storeField slot path =>
    obtain ⟨hslot, -⟩ := List.append_eq_nil_iff.mp h.structural
    obtain ⟨x, hx⟩ := h.slot hslot
    simp only [Verifier.exec, Verifier.storeFieldInstr, hx] at haccepted ⊢
    split at haccepted
    · cases haccepted
    · rename_i val rest hstack
      have hresult : ∀ errors, ∃ types : List AbstractType,
          types.length = (Instruction.storeField slot path).pushes ∧
          (∀ ty ∈ types, ty.isStruct = false) ∧
          (Verifier.goOn { t with stack := rest } errors).state.stack =
            types ++ (val :: rest).drop (Instruction.storeField slot path).pops :=
        fun errors => ⟨[], rfl, by simp, rfl⟩
      rw [hstack]
      split
      · exact hresult _
      · exact hresult _
      · split
        · split
          · exact hresult _
          · exact hresult _
        · exact hresult _

theorem scalar_slots {instr : Instruction} (hscalar : isScalar instr = true)
    (hload : ∀ slot path, instr = .loadField slot path → s.stack = []) :
    (exec sc pc instr s).state.stack =
      List.replicate instr.pushes Slot.other ++ s.stack.drop instr.pops := by
  cases instr with
  | load slot | store slot | dup | call name | ret | newStruct typeName fieldNames
  | unpackStruct typeName fieldNames | makeTuple n | unpackTuple n => cases hscalar
  | loadField slot path =>
    have hnil := hload slot path rfl
    simp [exec, goOn, VerifyState.push, VerifyState.pop, hnil, Instruction.pushes,
      Instruction.pops]
  | _ =>
    simp [exec, goOn, VerifyState.push, VerifyState.pop, VerifyState.popN, Instruction.pushes,
      Instruction.pops]


theorem describes_other (hT : TagLaws T) {ty : AbstractType} (hty : ty.isStruct = false) :
    Slot.other.Describes T sc ty where
  tag := by
    cases ty with
    | struct name => cases hty
    | _ => exact hT.unclassified _
  tuple tags h := by cases h

theorem describes_scalar {fresh : Fresh} {tag : StructTag} {ty : AbstractType}
    (h : T tag (typeClass sc ty)) : (Slot.scalar fresh tag).Describes T sc ty where
  tag := h
  tuple tags htags := by cases htags

theorem knows_others {us : List Slot} {n : ℕ} (hlen : us.length = n) :
    List.Forall₂ (fun slot mark => Slot.knows slot mark = true) us
      (List.replicate n Mark.other) := by
  refine forall₂_of_length (by simp [hlen]) fun slot mark hmark => ?_
  rw [List.eq_of_mem_replicate hmark]
  rfl

theorem StackKnown.replace {k : ℕ} (h : StackKnown T sc paths s t k) (hpath : ∃ x, paths x)
    {s' : VerifyState} {t' : AbstractState} (us : List Slot) (tys : List AbstractType)
    (ms : List Mark) (hs : s'.stack = us ++ s.stack.drop k) (ht : t'.stack = tys ++ t.stack.drop k)
    (hstep : ∀ x : PathState, x.stackAfter sc instr = ms ++ x.stack.drop k)
    (htypes : List.Forall₂ (fun slot ty => ty.isLinear = true → Slot.Describes T sc slot ty) us tys)
    (hknows : List.Forall₂ (fun slot mark => Slot.knows slot mark = true) us ms) :
    StackKnown T sc (After (PathState.exec sc instr) paths) s' t' 0 := by
  rw [StackKnown, List.drop_zero, List.drop_zero, hs, ht, List.map_append]
  exact Known.append h hpath htypes hknows hstep

theorem stackKnown_scalar (hT : TagLaws T) (hscalar : isScalar instr = true)
    (hchecked : Checked cfg sc pc t instr) (hpath : ∃ x, paths x)
    (hload : ∀ slot path, instr = .loadField slot path → s.stack = [])
    (h : StackKnown T sc paths s t instr.pops) :
    StackKnown T sc (After (PathState.exec sc instr) paths) (exec sc pc instr s).state
      (Verifier.exec sc pc instr t).state 0 := by
  obtain ⟨types, hlen, hnot, hstack⟩ := scalar_types hscalar hchecked
  refine h.replace hpath _ types (List.replicate instr.pushes .other) (scalar_slots hscalar hload)
    hstack (fun x => ?_)
    (forall₂_replicate_left hlen.symm fun ty hty _ => describes_other hT (hnot ty hty))
    (forall₂_replicate (by rfl) _)
  cases instr with
  | load slot | store slot | dup | call name | ret | newStruct typeName fieldNames
  | unpackStruct typeName fieldNames | makeTuple n | unpackTuple n => cases hscalar
  | _ => rfl

/-! ### Structs and tuples -/

theorem stackKnown_newStruct (hT : TagLaws T) {typeName : String} {fieldNames : List String}
    (hchecked : Checked cfg sc pc t (.newStruct typeName fieldNames)) (hpath : ∃ x, paths x)
    (h : StackKnown T sc paths s t fieldNames.length) :
    StackKnown T sc (After (PathState.exec sc (.newStruct typeName fieldNames)) paths)
      (exec sc pc (.newStruct typeName fieldNames) s).state
      (Verifier.exec sc pc (.newStruct typeName fieldNames) t).state 0 := by
  obtain ⟨hparse, structDef, hdef, rfl⟩ := checkStructAccess_eq_nil hchecked.structural
  have haccepted := hchecked.accepted
  simp only [Verifier.exec, Verifier.newStructInstr, hparse, Option.isSome_none,
    Bool.false_eq_true, if_false, hdef] at haccepted ⊢
  have hdrop := congrArg (List.drop structDef.fields.length) (popFields_eq_nil haccepted)
  rw [List.drop_left' (by simp)] at hdrop
  refine h.replace hpath [_] [.struct typeName] [.other] rfl ?_ (fun x => rfl)
    (.cons (fun _ => describes_scalar (hT.refl _)) .nil) (.cons rfl .nil)
  simp only [Verifier.goOn, List.length_map, List.cons_append, List.nil_append]
  rw [← hdrop]

theorem stackKnown_unpackStruct {typeName : String} {fieldNames : List String}
    (hchecked : Checked cfg sc pc t (.unpackStruct typeName fieldNames)) (hpath : ∃ x, paths x)
    (hfields : ∀ structDef, sc.module.getStruct typeName = some structDef →
      List.Forall₂ T (fieldNames.map (fieldTag sc typeName)).reverse
        (structDef.fields.map fun field => typeTag (objects sc) field.ty))
    (h : StackKnown T sc paths s t 1) :
    StackKnown T sc (After (PathState.exec sc (.unpackStruct typeName fieldNames)) paths)
      (exec sc pc (.unpackStruct typeName fieldNames) s).state
      (Verifier.exec sc pc (.unpackStruct typeName fieldNames) t).state 0 := by
  obtain ⟨hparse, structDef, hdef, rfl⟩ := checkStructAccess_eq_nil hchecked.structural
  have haccepted := hchecked.accepted
  have htags := hfields structDef hdef
  simp only [Verifier.exec, Verifier.unpackStructInstr, hparse, Option.isSome_none,
    Bool.false_eq_true, if_false, hdef] at haccepted ⊢
  cases hstack : t.stack with
  | nil =>
    rw [hstack] at haccepted
    cases haccepted
  | cons ty rest =>
    simp only [hstack] at haccepted ⊢
    split at haccepted
    · rename_i hty
      simp only [if_pos hty]
      have hslots : (exec sc pc (.unpackStruct typeName (structDef.fields.map (·.name)))
          s).state.stack = ((structDef.fields.map (·.name)).map
            (fieldTag sc typeName)).reverse.map (Slot.scalar .other) ++ s.stack.drop 1 := by
        simp [exec, unpackStructInstr, goOn, VerifyState.pushAll, VerifyState.pop,
          List.map_reverse, Function.comp_def]
      have htypes : (Verifier.goOn { t with
          stack := structDef.fields.map (fun field => fromType field.ty) ++ rest } []).state.stack =
          structDef.fields.map (fun field => fromType field.ty) ++ t.stack.drop 1 := by
        simp [hstack, Verifier.goOn]
      refine h.replace hpath _ _ _ hslots htypes (fun x => rfl) ?_
        (knows_others (by simp [Instruction.pushes]))
      rw [List.forall₂_map_left_iff, List.forall₂_map_right_iff]
      rw [List.forall₂_map_right_iff] at htags
      refine htags.imp fun tag field htag _ => describes_scalar ?_
      rwa [typeClass_fromType]
    · cases haccepted

theorem stackKnown_makeTuple (hT : TagLaws T) {n : ℕ} (hchecked : Checked cfg sc pc t (.makeTuple n))
    (hpath : ∃ x, paths x) (h : StackKnown T sc paths s t 0) :
    StackKnown T sc (After (PathState.exec sc (.makeTuple n)) paths)
      (exec sc pc (.makeTuple n) s).state (Verifier.exec sc pc (.makeTuple n) t).state 0 := by
  have haccepted := hchecked.accepted
  simp only [Verifier.exec, Verifier.makeTupleInstr] at haccepted ⊢
  split at haccepted
  · cases haccepted
  · rename_i hlen
    simp only [if_neg hlen]
    have hlen' : n - s.stack.length = 0 := by
      have := h.length
      omega
    refine (h.below n).replace hpath [_] [_] [.tuple] rfl rfl (fun x => rfl)
      (.cons (fun _ => ⟨hT.unclassified _, ?_⟩) .nil) (.cons rfl .nil)
    rintro tags htags
    obtain rfl := Option.some.inj htags
    refine ⟨_, rfl, ?_⟩
    rw [hlen', List.replicate_zero, List.append_nil, ← List.map_reverse,
      List.forall₂_map_left_iff, List.forall₂_map_right_iff]
    exact forall₂_take_reverse (h.tags hT) n

variable (pc) in
/-- The slots of the elements, the first on top. The elements of a tuple that is not known to be one
are not tagged. -/
theorem unpackTuple_described {n : ℕ} {slot : Slot} {types : List AbstractType}
    (hlen : types.length = n) (hslot : s.stack[0]? = some slot)
    (hdescribed : (AbstractType.tuple types).isLinear = true → slot.Describes T sc (.tuple types))
    (hplace : (AbstractType.tuple types).isLinear = true →
      Explained paths (fun x => x.stack[0]?) slot)
    (htracked : (∀ x, paths x → x.stack[0]? = some .tuple) ∨
      ∀ ty ∈ types, T .other (typeClass sc ty)) :
    ∃ us, (exec sc pc (.unpackTuple n) s).state.stack = us ++ s.stack.drop 1 ∧
      List.Forall₂ (fun slot ty => ty.isLinear = true → Slot.Describes T sc slot ty) us types := by
  have hpop : s.pop.1 = slot := by
    simp only [VerifyState.pop, List.head?_eq_getElem?, hslot, Option.getD_some]
  simp only [exec, unpackTupleInstr, hpop]
  by_cases hlinear : (AbstractType.tuple types).isLinear = true
  · cases htuple : slot.tuple with
    | none =>
      have hplain : ∀ ty ∈ types, T .other (typeClass sc ty) := by
        refine htracked.resolve_left fun hall => ?_
        obtain ⟨x, hx, hne⟩ := hplace hlinear .tuple (by simp [Slot.knows, htuple])
        exact hne (hall x hx)
      refine ⟨List.replicate n .other, ?_, ?_⟩
      · simp [goOn, VerifyState.pushAll, VerifyState.pop]
      · exact forall₂_replicate_left hlen.symm fun ty hty _ => describes_scalar (hplain ty hty)
    | some tags =>
      obtain ⟨types', heq, htags⟩ := (hdescribed hlinear).tuple tags htuple
      obtain rfl := AbstractType.tuple.inj heq
      have hlen' : tags.length = n := by
        rw [htags.length_eq, List.length_map, hlen]
      simp only [if_pos hlen']
      refine ⟨tags.map (.scalar .other), ?_, ?_⟩
      · simp [goOn, VerifyState.pushAll, VerifyState.pop, List.map_reverse]
      · rw [List.forall₂_map_left_iff]
        rw [List.forall₂_map_right_iff] at htags
        exact htags.imp fun _ _ htag _ => describes_scalar htag
  · -- Nothing is asked of the elements of a tuple that is not linear.
    have hnone : ∀ (us : List Slot), us.length = n →
        List.Forall₂ (fun slot ty => ty.isLinear = true → Slot.Describes T sc slot ty) us types := by
      intro us hus
      refine forall₂_of_length (hus.trans hlen.symm) fun slot ty hty hlinear' => ?_
      refine absurd ?_ hlinear
      rw [AbstractType.isLinear, AbstractType.anyLinear_eq_any]
      exact List.any_eq_true.mpr ⟨ty, hty, hlinear'⟩
    have hplain : isPlain (.unpackTuple n) = true := rfl
    obtain ⟨us, hus, -, hstack, -⟩ := plain_exec sc pc s hplain
    simp only [exec, unpackTupleInstr, hpop] at hstack
    exact ⟨us, hstack, hnone us hus⟩

theorem stackKnown_unpackTuple {n : ℕ} (hchecked : Checked cfg sc pc t (.unpackTuple n))
    (hpath : ∃ x, paths x)
    (htracked : (∀ x, paths x → x.stack[0]? = some .tuple) ∨
      ∀ types, t.stack[0]? = some (.tuple types) → ∀ ty ∈ types, T .other (typeClass sc ty))
    (h : StackKnown T sc paths s t 0) :
    StackKnown T sc (After (PathState.exec sc (.unpackTuple n)) paths)
      (exec sc pc (.unpackTuple n) s).state (Verifier.exec sc pc (.unpackTuple n) t).state 0 := by
  have haccepted := hchecked.accepted
  simp only [Verifier.exec, Verifier.unpackTupleInstr] at haccepted ⊢
  split at haccepted
  · cases haccepted
  · rename_i types rest hstack
    split at haccepted
    · rename_i hlen
      have htop : t.stack[0]? = some (.tuple types) := by
        rw [hstack]
        rfl
      obtain ⟨slot, hslot, -⟩ := forall₂_getElem? (forall₂_of_length h.length fun _ _ _ => trivial)
        htop
      obtain ⟨us, hstack', hdescribes⟩ := unpackTuple_described pc hlen hslot
        (h.described hslot htop) (h.explained hslot htop) (htracked.imp_right fun hplain =>
          hplain types htop)
      simp only [if_pos hlen]
      refine (h.below 1).replace hpath us types (List.replicate n .other) hstack' ?_ (fun x => rfl)
        hdescribes (knows_others (hdescribes.length_eq.trans hlen))
      rw [hstack]
      rfl
    · cases haccepted
  · cases haccepted

/-! ### Calls -/

/-- What calls rely on: names of functions are not qualified, natives have names of their own and
return no struct of the module. -/
structure CallScope (sc : Scope) : Prop where
  functions : ∀ {name callee}, sc.module.getFunction name = some callee → isQualified name = false
  natives : ∀ sig ∈ sc.natives, sc.module.getFunction sig.name = none
  results : ∀ sig ∈ sc.natives, typeClass sc (returnAbstract sig.returnType) = .other
  freshId : calleeArity sc nativeFnFreshId = some (0, true)

theorem typeClass_qualifyType (sc : Scope) (addr : Address) (ty : Ty) :
    typeClass sc (fromType (Verifier.qualifyType addr ty)) = .other := by
  rw [typeClass_fromType]
  cases ty with
  | struct name =>
    have hqualified : ∀ name', isQualified name' = true →
        typeTag (objects sc) (.struct name') = .other := by
      intro name' h
      simp only [typeTag, localStructTag, h, if_true]
    rw [Verifier.qualifyType]
    cases hparse : parseModuleRef name with
    | none => exact hqualified _ (isQualified_qualify addr name)
    | some r => exact hqualified _ (isQualified_of_parseModuleRef hparse)
  | _ => rfl

theorem describes_returnSlot_local (hT : TagLaws T) {name : String} {fresh : Fresh}
    {callee : Function} (hqualified : isQualified name = false)
    (hget : sc.module.getFunction name = some callee) :
    (returnSlot sc name fresh).Describes T sc (returnAbstract callee.returnType) := by
  simp only [returnSlot, hqualified, Bool.false_eq_true, if_false, hget, Option.bind_some]
  cases hreturn : callee.returnType with
  | none => exact describes_scalar (hT.refl _)
  | some ty =>
    cases ty with
    | tuple types =>
      refine ⟨hT.refl _, fun tags htags => ?_⟩
      obtain rfl := Option.some.inj htags
      refine ⟨_, rfl, ?_⟩
      rw [fromTypes_eq_map, List.map_map, List.forall₂_map_left_iff, List.forall₂_map_right_iff]
      refine List.forall₂_same.mpr fun ty _ => ?_
      rw [Function.comp_apply, typeClass_fromType]
      exact hT.refl _
    | _ => exact describes_scalar (hT.refl _)

/-- The result of a call is what the adapter takes it for. -/
theorem describes_returnSlot (hT : TagLaws T) (hsc : CallScope sc) {name : String} {n : ℕ}
    {ty : AbstractType} (fresh : Fresh)
    (h : Verifier.exec sc pc (.call name) t =
      Verifier.goOn { t with stack := ty :: t.stack.drop n } []) :
    (returnSlot sc name fresh).Describes T sc ty := by
  have hunclassified : (returnSlot sc name fresh) = .scalar fresh .other →
      typeClass sc ty = .other → (returnSlot sc name fresh).Describes T sc ty := by
    intro hslot hty
    rw [hslot]
    refine describes_scalar ?_
    rw [hty]
    exact hT.refl _
  have hhead := congrArg (fun e => e.state.stack.head?) h
  have herrors := congrArg (fun e => e.errors) h
  simp only [Verifier.exec, Verifier.callInstr] at hhead herrors
  cases hparse : parseModuleRef name with
  | some r =>
    obtain ⟨depAddr, fnName⟩ := r
    simp only [hparse] at hhead herrors
    cases hbind : sc.deps[depAddr]?.bind (·.getFunction fnName) with
    | none =>
      rw [hbind] at herrors
      cases herrors
    | some callee =>
      simp only [hbind, Verifier.goOn, List.head?_cons, Option.some.injEq] at hhead
      refine hunclassified ?_ ?_
      · simp only [returnSlot, isQualified_of_parseModuleRef hparse, if_true]
      · rw [← hhead]
        cases callee.returnType with
        | none => rfl
        | some ty => exact typeClass_qualifyType sc depAddr ty
  | none =>
    simp only [hparse] at hhead herrors
    cases hget : sc.module.getFunction name with
    | some callee =>
      simp only [hget, Verifier.goOn, List.head?_cons, Option.some.injEq] at hhead
      rw [← hhead]
      exact describes_returnSlot_local hT (hsc.functions hget) hget
    | none =>
      simp only [hget] at hhead herrors
      cases hfind : sc.natives.find? (·.name == name) with
      | none =>
        rw [hfind] at herrors
        cases herrors
      | some sig =>
        simp only [hfind, Verifier.goOn, List.head?_cons, Option.some.injEq] at hhead
        refine hunclassified ?_ ?_
        · simp only [returnSlot, hget, Option.bind_none]
          split <;> rfl
        · rw [← hhead]
          exact hsc.results sig (List.mem_of_find?_eq_some hfind)

theorem knows_callMark (hsc : CallScope sc) (name : String) :
    (returnSlot sc name (if name = nativeFnFreshId then .id else .other)).knows
      (callMark sc name) = true := by
  by_cases hname : name = nativeFnFreshId
  · simp only [callMark, hname, if_true, Slot.knows, fresh_returnSlot, BEq.rfl]
  · simp only [callMark, hname, if_false]
    cases hreturn : (sc.module.getFunction name).bind (·.returnType) with
    | none => rfl
    | some ty =>
      cases ty with
      | tuple types =>
        obtain ⟨callee, hget, -⟩ := Option.bind_eq_some_iff.mp hreturn
        simp only [returnSlot, hsc.functions hget, Bool.false_eq_true, if_false, hreturn, Slot.knows,
          Option.isSome_some]
      | _ => rfl

theorem stackKnown_call (hT : TagLaws T) (hsc : CallScope sc) {name : String}
    (hchecked : Checked cfg sc pc t (.call name)) (hpath : ∃ x, paths x)
    (hresult : (callArity sc name).2 = true)
    (h : StackKnown T sc paths s t (callArity sc name).1) :
    StackKnown T sc (After (PathState.exec sc (.call name)) paths) (exec sc pc (.call name) s).state
      (Verifier.exec sc pc (.call name) t).state 0 := by
  obtain ⟨n, result, ty, harity, hle, heq, -⟩ := hchecked.call
  have hcall : callArity sc name = (n, result) := by rw [callArity, harity, Option.getD_some]
  rw [hcall] at hresult h
  obtain rfl : result = true := hresult
  refine h.replace hpath [returnSlot sc name (if name = nativeFnFreshId then .id else .other)] [ty]
    [callMark sc name] ?_ (by rw [heq]; rfl) (fun x => ?_)
    (.cons (fun _ => describes_returnSlot hT hsc _ heq) .nil) (.cons (knows_callMark hsc name) .nil)
  · simp only [exec, callInstr, callEffect_eq hsc.natives harity, goOn, if_true, VerifyState.push,
      VerifyState.popN, List.cons_append, List.nil_append]
  · simp only [PathState.stackAfter, hcall, List.cons_append, List.nil_append]

/-! ### Copies -/

theorem stackKnown_load {i : ℕ} (hchecked : Checked cfg sc pc t (.load i))
    (hlocals : LocalsKnown T sc paths s t) (h : StackKnown T sc paths s t 0) :
    StackKnown T sc (After (PathState.exec sc (.load i)) paths) (exec sc pc (.load i) s).state
      (Verifier.exec sc pc (.load i) t).state 0 := by
  obtain ⟨x, hx⟩ := hchecked.slot hchecked.structural
  have haccepted := hchecked.accepted
  simp only [Verifier.exec, Verifier.loadInstr, hx] at haccepted ⊢
  cases x with
  | dead => cases haccepted
  | live ty =>
    have hslot : ∃ slot, s.locals[i]? = some slot :=
      ⟨_, List.getElem?_eq_getElem (hlocals.length ▸ (List.getElem?_eq_some_iff.mp hx).1)⟩
    obtain ⟨slot, hslot⟩ := hslot
    have hpush : (exec sc pc (.load i) s).state.stack = slot :: s.stack := by
      simp only [exec, goOn, VerifyState.push, hslot, Option.getD_some]
    rw [StackKnown, List.drop_zero, hpush]
    exact Known.cons h _ (hlocals.described i slot ty hslot hx)
      (hlocals.explained i slot ty hslot hx) fun x => rfl

theorem stackKnown_dup (hchecked : Checked cfg sc pc t .dup) (h : StackKnown T sc paths s t 0) :
    StackKnown T sc (After (PathState.exec sc .dup) paths) (exec sc pc .dup s).state
      (Verifier.exec sc pc .dup t).state 0 := by
  have haccepted := hchecked.accepted
  simp only [Verifier.exec, Verifier.dupInstr] at haccepted ⊢
  cases hstack : t.stack with
  | nil =>
    rw [hstack] at haccepted
    cases haccepted
  | cons ty rest =>
    simp only [hstack] at haccepted
    split at haccepted
    · cases haccepted
    · rename_i hlinear
      simp only [if_neg hlinear]
      -- Only a value that nothing is asked of is copied.
      exact Known.cons h (fun x => x.stack.head?) (fun h => absurd h hlinear)
        (fun h => absurd h hlinear) fun x => rfl

theorem stackKnown_store {i : ℕ} (hchecked : Checked cfg sc pc t (.store i)) (hpath : ∃ x, paths x)
    (h : StackKnown T sc paths s t 1) :
    StackKnown T sc (After (PathState.exec sc (.store i)) paths) (exec sc pc (.store i) s).state
      (Verifier.exec sc pc (.store i) t).state 0 := by
  obtain ⟨x, hx⟩ := hchecked.slot hchecked.structural
  have haccepted := hchecked.accepted
  simp only [Verifier.exec, Verifier.storeInstr, hx] at haccepted ⊢
  cases hstack : t.stack with
  | nil =>
    rw [hstack] at haccepted
    cases haccepted
  | cons ty rest =>
    refine h.replace hpath [] [] [] ?_ ?_ (fun x => rfl) .nil .nil
    · simp [exec, goOn, VerifyState.pop]
    · simp [hstack, Verifier.goOn]

/-! ## Slots -/

theorem exec_locals (hstore : ∀ i, instr ≠ .store i) :
    (exec sc pc instr s).state.locals = s.locals := by
  cases instr with
  | store i => exact absurd rfl (hstore i)
  | call name =>
    simp only [exec, callInstr, goOn]
    split <;> rfl
  | unpackTuple n =>
    simp only [exec, unpackTupleInstr]
    split
    · split <;> rfl
    · rfl
  | _ => rfl

theorem verifier_exec_locals (hload : ∀ i, instr ≠ .load i) (hstore : ∀ i, instr ≠ .store i) :
    (Verifier.exec sc pc instr t).state.locals = t.locals := by
  cases instr with
  | load i => exact absurd rfl (hload i)
  | store i => exact absurd rfl (hstore i)
  | loadField slot path =>
    simp only [Verifier.exec, Verifier.loadFieldInstr]
    split <;> rfl
  | storeField slot path =>
    simp only [Verifier.exec, Verifier.storeFieldInstr]
    repeat' first | rfl | split
  | newStruct typeName fieldNames =>
    simp only [Verifier.exec, Verifier.newStructInstr]
    repeat' first | rfl | split
  | getField field =>
    simp only [Verifier.exec, Verifier.getFieldInstr]
    split <;> rfl
  | unpackStruct typeName fieldNames =>
    simp only [Verifier.exec, Verifier.unpackStructInstr]
    repeat' first | rfl | split
  | makeTuple n =>
    simp only [Verifier.exec, Verifier.makeTupleInstr]
    split <;> rfl
  | unpackTuple n =>
    simp only [Verifier.exec, Verifier.unpackTupleInstr]
    repeat' first | rfl | split
  | pop =>
    simp only [Verifier.exec, Verifier.popInstr]
    split <;> rfl
  | dup =>
    simp only [Verifier.exec, Verifier.dupInstr]
    repeat' first | rfl | split
  | eq | ne =>
    simp only [Verifier.exec, Verifier.eqInstr]
    split <;> rfl
  | call name =>
    simp only [Verifier.exec, Verifier.callInstr]
    repeat' first | rfl | split
  | _ => rfl

/-- What is in the slots after an instruction. A linear value that is stored has to be known. -/
theorem localsKnown_exec (hchecked : Checked cfg sc pc t instr) (h : LocalsKnown T sc paths s t)
    (hstore : ∀ i ty, instr = .store i → t.stack[0]? = some ty → ty.isLinear = true →
      StackKnown T sc paths s t 0) :
    LocalsKnown T sc (After (PathState.exec sc instr) paths) (exec sc pc instr s).state
      (Verifier.exec sc pc instr t).state := by
  cases instr with
  | load i =>
    obtain ⟨x, hx⟩ := hchecked.slot hchecked.structural
    have haccepted := hchecked.accepted
    simp only [Verifier.exec, Verifier.loadInstr, hx] at haccepted ⊢
    cases x with
    | dead => cases haccepted
    | live ty =>
      refine Known.kill (Known.after h fun x => rfl) ?_
      have hsame : List.Forall₂ (fun a b => a = b ∨ b = SlotState.dead) t.locals t.locals :=
        List.forall₂_same.mpr fun _ _ => .inl rfl
      simp only [Verifier.goOn]
      split
      · have hset := forall₂_set hsame i (x := .live ty) (y := .dead) (.inr rfl)
        rwa [set_eq_self hx] at hset
      · exact hsame
  | store i =>
    obtain ⟨x, hx⟩ := hchecked.slot hchecked.structural
    have haccepted := hchecked.accepted
    simp only [Verifier.exec, Verifier.storeInstr, hx] at haccepted ⊢
    cases hstack : t.stack with
    | nil =>
      rw [hstack] at haccepted
      cases haccepted
    | cons ty rest =>
      have htop : t.stack[0]? = some ty := by
        rw [hstack]
        rfl
      have hpop : ty.isLinear = true → s.stack[0]? = some s.pop.1 := by
        intro hlinear
        have hlen := (hstore i ty rfl htop hlinear).length
        rw [hstack] at hlen
        cases hs : s.stack with
        | nil =>
          rw [hs] at hlen
          cases hlen
        | cons slot slots => simp [VerifyState.pop, hs]
      exact Known.set h (fun x => x.stack.head?)
        (fun hlinear => (hstore i ty rfl htop hlinear).described (hpop hlinear) htop hlinear)
        (fun hlinear => by
          simp only [List.head?_eq_getElem?]
          exact (hstore i ty rfl htop hlinear).explained (hpop hlinear) htop hlinear)
        fun x => rfl
  | _ =>
    rw [LocalsKnown, exec_locals (by simp), verifier_exec_locals (by simp) (by simp)]
    exact Known.after h fun x => rfl

/-! ## One instruction -/

/-- The adapter never has more values than the verifier. -/
theorem height_exec_le (hnative : ∀ sig ∈ sc.natives, sc.module.getFunction sig.name = none)
    (hret : instr ≠ .ret) (hchecked : Checked cfg sc pc t instr)
    (h : s.stack.length ≤ t.stack.length) :
    (exec sc pc instr s).state.stack.length
      ≤ (Verifier.exec sc pc instr t).state.stack.length := by
  by_cases hlocal : instr.isLocal = true
  · obtain ⟨hpops, hlen⟩ := hchecked.heightOk hlocal
    by_cases hplain : isPlain instr = true
    · obtain ⟨us, hus, -, hstack, -⟩ := plain_exec sc pc s hplain
      rw [hstack, List.length_append, List.length_drop, hus]
      omega
    · cases instr with
      | load slot | store slot | dup | loadField slot path =>
        simp only [Instruction.pops, Instruction.pushes] at hpops hlen
        simp only [exec, goOn, VerifyState.push, VerifyState.pop, List.length_cons,
          List.length_tail]
        omega
      | call name | ret => cases hlocal
      | _ => exact absurd rfl hplain
  · cases instr with
    | call name =>
      obtain ⟨n, result, ty, harity, hle, heq, -⟩ := hchecked.call
      simp only [heq, Verifier.goOn, exec, callInstr, goOn, callEffect_eq hnative harity,
        List.length_cons, List.length_drop]
      cases result with
      | true =>
        simp only [if_true, VerifyState.push, VerifyState.popN, List.length_cons, List.length_drop]
        omega
      | false =>
        simp only [Bool.false_eq_true, if_false, VerifyState.popN, List.length_drop]
        omega
    | ret => exact absurd rfl hret
    | _ => exact absurd rfl hlocal

def takes (sc : Scope) : Instruction → ℕ
  | .call name => (callArity sc name).1
  | instr => instr.pops

/-- What the instruction pushes depends on what it takes off. -/
def passesOn : Instruction → Bool
  | .dup | .makeTuple _ | .unpackTuple _ => true
  | _ => false

theorem stackKnown_exec (hT : TagLaws T) (hsc : CallScope sc) (hchecked : Checked cfg sc pc t instr)
    (hret : instr ≠ .ret) (hpath : ∃ x, paths x)
    (hfields : ∀ typeName fieldNames structDef, instr = .unpackStruct typeName fieldNames →
      sc.module.getStruct typeName = some structDef →
      List.Forall₂ T (fieldNames.map (fieldTag sc typeName)).reverse
        (structDef.fields.map fun field => typeTag (objects sc) field.ty))
    (htuples : ∀ n, instr = .unpackTuple n → (∀ x, paths x → x.stack[0]? = some .tuple) ∨
      ∀ types, t.stack[0]? = some (.tuple types) → ∀ ty ∈ types, T .other (typeClass sc ty))
    (hload : ∀ slot path, instr = .loadField slot path → s.stack = [])
    (hresult : ∀ name, instr = .call name → (callArity sc name).2 = true)
    (hlocals : LocalsKnown T sc paths s t) (h : StackKnown T sc paths s t (takes sc instr))
    (hfull : passesOn instr = true → StackKnown T sc paths s t 0) :
    StackKnown T sc (After (PathState.exec sc instr) paths) (exec sc pc instr s).state
      (Verifier.exec sc pc instr t).state 0 := by
  by_cases hscalar : isScalar instr = true
  · refine stackKnown_scalar hT hscalar hchecked hpath hload ?_
    cases instr with
    | call name => cases hscalar
    | _ => exact h
  · cases instr with
    | load i => exact stackKnown_load hchecked hlocals h
    | store i => exact stackKnown_store hchecked hpath h
    | dup => exact stackKnown_dup hchecked (hfull rfl)
    | newStruct typeName fieldNames => exact stackKnown_newStruct hT hchecked hpath h
    | unpackStruct typeName fieldNames =>
      exact stackKnown_unpackStruct hchecked hpath (fun d => hfields typeName fieldNames d rfl) h
    | makeTuple n => exact stackKnown_makeTuple hT hchecked hpath (hfull rfl)
    | unpackTuple n => exact stackKnown_unpackTuple hchecked hpath (htuples n rfl) (hfull rfl)
    | call name => exact stackKnown_call hT hsc hchecked hpath (hresult name rfl) h
    | ret => exact absurd rfl hret
    | _ => exact absurd rfl hscalar

/-- A path that gets in step again has only values on its stack that the instruction takes off. -/
theorem takes_all_of_inStepAfter {x : PathState} (hret : instr ≠ .ret) (hout : x.inStep = false)
    (h : x.inStepAfter sc instr = true) :
    x.stack.length ≤ takes sc instr ∧ passesOn instr = false := by
  cases instr with
  | dup | makeTuple n | unpackTuple n => exact absurd (h.symm.trans hout) (by simp)
  | loadField slot path =>
    rw [PathState.inStepAfter, List.isEmpty_iff] at h
    exact ⟨by simp [h], rfl⟩
  | call name =>
    simp only [PathState.inStepAfter, hout, Bool.false_or, Bool.and_eq_true,
      List.isEmpty_iff] at h
    exact ⟨List.drop_eq_nil_iff.mp h.2, rfl⟩
  | ret => exact absurd rfl hret
  | _ =>
    simp only [PathState.inStepAfter, hout, Bool.false_or, List.isEmpty_iff] at h
    exact ⟨List.drop_eq_nil_iff.mp h, rfl⟩

/-- The adapter follows one instruction, if a linear value is only stored in step. -/
theorem followed_exec (hT : TagLaws T) (hsc : CallScope sc) (hchecked : Checked cfg sc pc t instr)
    (hret : instr ≠ .ret) (hheight : ∀ x, paths x → x.stack.length = t.stack.length)
    (hstores : ∀ x i ty, paths x → x.inStep = false → instr = .store i → t.stack[0]? = some ty →
      ty.isLinear = false)
    (hfields : ∀ typeName fieldNames structDef, instr = .unpackStruct typeName fieldNames →
      sc.module.getStruct typeName = some structDef →
      List.Forall₂ T (fieldNames.map (fieldTag sc typeName)).reverse
        (structDef.fields.map fun field => typeTag (objects sc) field.ty))
    (htuples : ∀ n, instr = .unpackTuple n → (∀ x, paths x → x.stack[0]? = some .tuple) ∨
      ∀ types, t.stack[0]? = some (.tuple types) → ∀ ty ∈ types, T .other (typeClass sc ty))
    (h : Followed T sc paths s t) :
    Followed T sc (After (PathState.exec sc instr) paths) (exec sc pc instr s).state
      (Verifier.exec sc pc instr t).state := by
  have hlocals := localsKnown_exec hchecked h.locals fun i ty hinstr htop hlinear => by
    rcases h with h | h
    · exact h.stack
    · obtain ⟨x, hx, hout⟩ := h.outOfStep
      exact absurd (hlinear.symm.trans (hstores x i ty hx hout hinstr htop)) (by simp)
  by_cases hlost : ∃ x, paths x ∧ x.inStepAfter sc instr = false
  · obtain ⟨x, hx, hout⟩ := hlost
    exact .inr ⟨⟨_, ⟨x, hx, rfl⟩, hout⟩, hlocals, height_exec_le hsc.natives hret hchecked h.height⟩
  · have hin : ∀ x, paths x → x.inStepAfter sc instr = true := by
      intro x hx
      by_contra hout
      exact hlost ⟨x, hx, by simpa using hout⟩
    obtain ⟨x, hx⟩ : ∃ x, paths x := by
      rcases h with h | h
      · exact h.inhabited
      · exact h.outOfStep.imp fun x hx => hx.1
    have hload : ∀ slot path, instr = .loadField slot path → s.stack = [] := by
      rintro slot path rfl
      have hempty := hin x hx
      rw [PathState.inStepAfter, List.isEmpty_iff] at hempty
      have hle := h.height
      rw [← hheight x hx, hempty] at hle
      exact List.length_eq_zero_iff.mp (Nat.le_zero.mp hle)
    have hresult : ∀ name, instr = .call name → (callArity sc name).2 = true := by
      rintro name rfl
      exact (Bool.and_eq_true_iff.mp (hin x hx)).1
    refine .inl ⟨⟨_, x, hx, rfl⟩, hlocals, ?_⟩
    rcases h with h | h
    · exact stackKnown_exec hT hsc hchecked hret ⟨x, hx⟩ hfields htuples hload hresult h.locals
        (h.stack.below _) fun _ => h.stack
    · obtain ⟨y, hy, hout⟩ := h.outOfStep
      obtain ⟨htakes, hpasses⟩ := takes_all_of_inStepAfter hret hout (hin y hy)
      exact stackKnown_exec hT hsc hchecked hret ⟨x, hx⟩ hfields htuples hload hresult h.locals
        (stackKnown_of_height h.height (hheight y hy ▸ htakes))
        fun hpasses' => absurd (hpasses'.symm.trans hpasses) (by simp)

/-! ## The walk over a function -/

section Walk

variable (T sc) in
structure Tracked : Prop where
  stores : ∀ {pc i : ℕ} {x : PathState} {t : AbstractState} {ty : AbstractType},
    sc.func.code[pc]? = some (.store i) → OnPath sc pc x → x.inStep = false →
    Verifier.stateAt sc pc = some t → t.stack[0]? = some ty → ty.isLinear = false
  fields : ∀ {pc : ℕ} {typeName : String} {fieldNames : List String} {structDef : StructDef},
    sc.func.code[pc]? = some (.unpackStruct typeName fieldNames) →
    sc.module.getStruct typeName = some structDef →
    List.Forall₂ T (fieldNames.map (fieldTag sc typeName)).reverse
      (structDef.fields.map fun field => typeTag (objects sc) field.ty)
  tuples : ∀ {pc n : ℕ} {t : AbstractState}, sc.func.code[pc]? = some (.unpackTuple n) →
    Verifier.stateAt sc pc = some t →
    (∀ x, OnPath sc pc x → x.stack[0]? = some .tuple) ∨
      ∀ types, t.stack[0]? = some (.tuple types) → ∀ ty ∈ types, T .other (typeClass sc ty)

variable (T sc) in
def TrackGood (pc : ℕ) (s : VerifyState) : Prop :=
  s.reachable = true → ∃ t, Certified sc pc t ∧ Followed T sc (OnPath sc pc) s t

variable {m : Module} {deps : DepMap} {sigs : List NativeSig}
  (hverify : Verifier.verify m deps sigs cfg = []) {f : Function} (hf : f ∈ m.functions)
  (hT : TagLaws T) (hsc : CallScope (functionScope m deps sigs f))
  (htracked : Tracked T (functionScope m deps sigs f))
include hverify hf hT hsc htracked

theorem followed_certified (hinstr : f.code[pc]? = some instr) (hret : instr ≠ .ret)
    (hcert : Certified (functionScope m deps sigs f) pc t)
    (h : Followed T (functionScope m deps sigs f) (OnPath (functionScope m deps sigs f) pc) s t) :
    Followed T (functionScope m deps sigs f)
      (After (PathState.exec (functionScope m deps sigs f) instr)
        (OnPath (functionScope m deps sigs f) pc))
      (exec (functionScope m deps sigs f) pc instr s).state
      (Verifier.exec (functionScope m deps sigs f) pc instr t).state := by
  obtain ⟨-, hchecked⟩ := checked_of_certified hverify hf hcert hinstr
  refine followed_exec hT hsc hchecked hret (fun x hx => hx.height hverify hf hcert) ?_ ?_ ?_ h
  · rintro x i ty hx hout rfl htop
    exact htracked.stores hinstr hx hout hcert.state htop
  · rintro typeName fieldNames structDef rfl hdef
    exact htracked.fields hinstr hdef
  · rintro n rfl
    exact htracked.tuples hinstr hcert.state

theorem trackGood_exec (hinstr : f.code[pc]? = some instr) (hreach : s.reachable = true)
    (hgood : TrackGood T (functionScope m deps sigs f) pc s) :
    TrackGood T (functionScope m deps sigs f) (pc + 1)
      (exec (functionScope m deps sigs f) pc instr s).state := by
  intro hreach'
  obtain ⟨t, hcert, h⟩ := hgood hreach
  have hret : instr ≠ .ret := by
    rintro rfl
    cases hreach'
  have hjump : ∀ offset, instr ≠ .jump offset := by
    rintro offset rfl
    cases hreach'
  obtain ⟨t', hcert', hle⟩ := certified_succ hverify hf hcert hinstr hret hjump
  refine ⟨t', hcert',
    (followed_certified hverify hf hT hsc htracked hinstr hret hcert h).mono ?_ hle⟩
  rintro _ ⟨x, hx, rfl⟩
  exact .next hx hinstr hret hjump

theorem trackGood_jump {target : ℕ} {s' : VerifyState} (hinstr : f.code[pc]? = some instr)
    (hreach : s.reachable = true) (hgood : TrackGood T (functionScope m deps sigs f) pc s)
    (hjump : (exec (functionScope m deps sigs f) pc instr s).jump = some (target, s')) :
    TrackGood T (functionScope m deps sigs f) target s' ∧ s'.reachable = true := by
  cases hoffset : instr.jumpOffset with
  | none =>
    rw [exec_jump_none hoffset] at hjump
    cases hjump
  | some offset =>
    have hret : instr ≠ .ret := by
      rintro rfl
      cases hoffset
    have hstore : ∀ i, instr ≠ .store i := by
      rintro i rfl
      cases hoffset
    obtain ⟨s'', heq, hstack, hlocals, hsame⟩ := exec_jump_eq (functionScope m deps sigs f)
      pc s hoffset
    rw [heq, Option.some.injEq, Prod.mk.injEq] at hjump
    obtain ⟨rfl, rfl⟩ := hjump
    refine ⟨fun _ => ?_, hsame.trans hreach⟩
    obtain ⟨t, hcert, h⟩ := hgood hreach
    obtain ⟨-, t', hcert', hle⟩ := certified_target hverify hf hcert hinstr hoffset
    have hfollowed := followed_certified hverify hf hT hsc htracked hinstr hret hcert h
    refine ⟨t', hcert', ((hfollowed.of_state hstack ?_).mono ?_ hle)⟩
    · rw [hlocals, exec_locals hstore]
    · rintro _ ⟨x, hx, rfl⟩
      exact .jump hx hinstr hoffset

omit hverify hf hsc htracked in
theorem trackGood_merge {t u : VerifyState} (hs : TrackGood T (functionScope m deps sigs f) pc s)
    (ht : TrackGood T (functionScope m deps sigs f) pc t) (hreach : t.reachable = true)
    (h : merge s t pc = (some u, [])) : TrackGood T (functionScope m deps sigs f) pc u := by
  intro _
  rcases merge_cases pc h with ⟨hsreach, rfl⟩ | ⟨-, rfl⟩
  · obtain ⟨a, ha, hsa⟩ := hs hsreach
    obtain ⟨b, hb, htb⟩ := ht hreach
    obtain rfl := Option.some.inj (ha.state.symm.trans hb.state)
    exact ⟨a, ha, hsa.merge hT htb⟩
  · exact ht hreach

omit hverify hf hT hsc htracked in
theorem reachable_merge (pc : ℕ) {t u : VerifyState} (hreach : t.reachable = true)
    (h : merge s t pc = (some u, [])) : u.reachable = true := by
  rcases merge_cases pc h with ⟨hsreach, rfl⟩ | ⟨-, rfl⟩
  · exact hsreach
  · exact hreach

def trackLaws : (pass (functionScope m deps sigs f)).Laws f.code where
  Good := TrackGood T (functionScope m deps sigs f)
  le _ _ := True
  le_refl _ := trivial
  le_trans _ _ := trivial
  merge_good hs ht hreach h := trackGood_merge hT hs ht hreach h
  merge_left {_ _ _ pc} _ _ hreach h _ := ⟨reachable_merge pc hreach h, trivial⟩
  merge_right {_ _ _ pc} _ _ hreach h := ⟨reachable_merge pc hreach h, trivial⟩
  merge_none := merge_ne_none
  exec_good hinstr hreach hgood _ :=
    trackGood_exec hverify hf hT hsc htracked hinstr hreach hgood
  jump_good hinstr hreach hgood _ hjump :=
    trackGood_jump hverify hf hT hsc htracked hinstr hreach hgood hjump
  dead_good hdead _ hlive := absurd (hdead.symm.trans hlive) Bool.false_ne_true

omit hsc htracked in
theorem trackGood_initialState :
    TrackGood T (functionScope m deps sigs f) 0 (initialState (functionScope m deps sigs f)) := by
  intro _
  obtain ⟨hmodule, hfunctions⟩ := verify_eq_nil hverify
  have hparams := params_le_localCount hmodule hf
  refine ⟨_, Verifier.certified_entry _ hparams (hfunctions f hf), .inl ⟨⟨_, .entry⟩, ?_, Known.nil⟩⟩
  have hslots : (initialState (functionScope m deps sigs f)).locals =
      f.params.map (fun param => Slot.scalar .other
        (typeTag (objects (functionScope m deps sigs f)) param.2))
      ++ List.replicate (f.localCount - f.params.length) .other := by
    simp only [initialState, functionScope]
    rw [List.take_of_length_le (by simpa using hparams)]
  have hlen : (initialState (functionScope m deps sigs f)).locals.length = f.localCount := by
    rw [hslots, List.length_append, List.length_map, List.length_replicate]
    omega
  refine ⟨?_, fun i slot ty hslot hty _ => ?_, fun i slot ty hslot hty _ => ?_⟩
  · exact hlen.trans (Verifier.initialState_good hparams).symm
  · rw [hslots] at hslot
    simp only [Verifier.initialState, functionScope] at hty
    by_cases hi : i < f.params.length
    · rw [List.getElem?_append_left (by simpa using hi), List.getElem?_map,
        List.getElem?_eq_getElem hi] at hslot hty
      obtain rfl := Option.some.inj hslot
      obtain rfl := SlotState.live.inj (Option.some.inj hty)
      refine describes_scalar ?_
      rw [typeClass_fromType]
      exact hT.refl _
    · rw [List.getElem?_append_right (by simpa using hi), List.getElem?_replicate] at hty
      split at hty
      · cases hty
      · cases hty
  · have hi : i < f.localCount := hlen ▸ (List.getElem?_eq_some_iff.mp hslot).1
    have hplace : (PathState.entry f).locals[i]? = some .other := by
      simp [PathState.entry, hi]
    exact explained_new .entry hplace rfl

end Walk

/-! ## Modules of the chain -/

section Chain

variable {m : Module} {deps : DepMap}
  (hverify : Verifier.verify m deps adapterNativeSigs compilerConfig = [])
include hverify

theorem callScope_chain (f : Function) : CallScope (chainScope m deps f) where
  functions hget := by
    have hname := isFunctionName_of_getFunction (verify_eq_nil hverify).1 hget
    simp only [Verifier.isFunctionName, Bool.and_eq_true] at hname
    exact isQualified_of_isValidIdentifier hname.1.1
  natives := getFunction_native hverify
  results := by
    intro sig hsig
    simp only [functionScope, builtinNatives, adapterNativeSigs, List.cons_append,
      List.nil_append, List.mem_cons, List.not_mem_nil, or_false] at hsig
    rcases hsig with rfl | rfl | rfl | rfl | rfl | rfl | rfl
    · rfl
    · have hqualified : isQualified meowObjectIdTypeName = true := isQualified_qualify _ _
      simp only [freshIdSig, returnAbstract, meowObjectIdType, fromType, typeClass, localStructTag,
        hqualified, if_true]
    all_goals rfl
  freshId := by
    have hparse : parseModuleRef nativeFnFreshId = none := by decide
    have hget : m.getFunction nativeFnFreshId = none :=
      getFunction_native hverify freshIdSig (by simp [adapterNativeSigs])
    simp only [calleeArity, hparse, functionScope, hget]
    rfl

theorem transfer_arity {f : Function} :
    calleeArity (chainScope m deps f) nativeFnTransfer = some (2, false) := by
  have hparse : parseModuleRef nativeFnTransfer = none := by decide
  have hget : m.getFunction nativeFnTransfer = none :=
    getFunction_native hverify transferSig (by simp [adapterNativeSigs])
  simp only [calleeArity, hparse, functionScope, hget]
  rfl

/-- The types of the arguments of `meow_vm_transfer`. -/
theorem transfer_types {f : Function} {pc : ℕ} {t : AbstractState}
    (hchecked : Checked compilerConfig (chainScope m deps f) pc t (.call nativeFnTransfer)) :
    ∃ name rest, t.stack = .address :: .struct name :: rest ∧ parseModuleRef name = none := by
  have hparse : parseModuleRef nativeFnTransfer = none := by decide
  have hget : m.getFunction nativeFnTransfer = none :=
    getFunction_native hverify transferSig (by simp [adapterNativeSigs])
  have hfind : (builtinNatives ++ adapterNativeSigs).find? (·.name == nativeFnTransfer) =
      some transferSig := by decide
  have haccepted := hchecked.accepted
  simp only [Verifier.exec, Verifier.callInstr, hparse, functionScope, hget, hfind,
    Verifier.goOn] at haccepted
  obtain ⟨hle, -⟩ := popNativeArgs_eq_nil haccepted
  rw [Verifier.popNativeArgs, if_neg (Nat.not_lt.mpr hle)] at haccepted
  have htypes := checkNativeArgs_eq_nil haccepted (by simp [hle])
  rcases hstack : t.stack with _ | ⟨owner, _ | ⟨obj, rest⟩⟩
  · rw [hstack] at hle
    simp [transferSig] at hle
  · rw [hstack] at hle
    simp [transferSig] at hle
  · rw [hstack] at htypes
    obtain ⟨hobj, howner⟩ := List.forall₂_cons.mp htypes
    obtain ⟨howner, -⟩ := List.forall₂_cons.mp howner
    obtain rfl : AbstractType.address = owner := of_decide_eq_true howner
    cases obj with
    | struct name => exact ⟨name, rest, rfl, by simpa [Verifier.nativeParamMatches] using hobj⟩
    | _ => cases hobj

end Chain

end MeowChain.Adapter
