import MeowChain.Compiler.Accesses
import MeowChain.Lib.Assoc

/-!
# Privacy of fields

The type checker refuses to read a field of a struct of another module. It does not look at the
rest of the path of an assignment once the path has met such a struct, and the code generator only
looks at the type that it has for the variable, so an assignment can go through a field of a struct
of the module into an imported one.
-/

set_option autoImplicit false

namespace MeowChain.Compiler

theorem splitOnce_isSome_append (front back : List Char) :
    (splitOnce (front ++ ':' :: ':' :: back)).isSome = true := by
  induction front with
  | nil => rfl
  | cons c front ih =>
    rw [List.cons_append]
    cases front with
    | nil =>
      by_cases hc : c = ':'
      · subst hc
        rfl
      · rw [splitOnce_cons_of_ne hc, Option.isSome_map]
        exact ih
    | cons d front =>
      by_cases hc : c = ':'
      · subst hc
        by_cases hd : d = ':'
        · subst hd
          rfl
        · have hstep : splitOnce (':' :: (d :: front ++ ':' :: ':' :: back))
              = (splitOnce (d :: front ++ ':' :: ':' :: back)).map
                fun parts => (':' :: parts.1, parts.2) := by
            rw [List.cons_append, splitOnce]
            intro _ _ h
            exact absurd (List.cons.inj h).1 hd
          rw [hstep, Option.isSome_map]
          exact ih
      · rw [splitOnce_cons_of_ne hc, Option.isSome_map]
        exact ih

theorem isQualified_append (alias_ name : String) :
    isQualified (alias_ ++ "::" ++ name) = true := by
  have hlist : (alias_ ++ "::" ++ name).toList = alias_.toList ++ ':' :: ':' :: name.toList := by
    simp [String.toList_append]
  rw [isQualified, hlist]
  exact splitOnce_isSome_append _ _

namespace TypeChecker

variable {tc : TypeChecker}

/-! ## What a successful check says -/

theorem requireTyped_ok {r : Result (Option Ty)} {context : String} {ty : Ty}
    (h : tc.requireTyped r context = .ok ty) : r = .ok (some ty) := by
  obtain ⟨found, rfl, h⟩ := ok_of_bind h
  cases found with
  | none => cases h
  | some found =>
    cases h
    rfl

theorem fieldOf_ok {name field : String} {ty : Ty} (h : tc.fieldOf name field = .ok ty) :
    (tc.sourceStructs.lookup name).isSome = true ∧ tc.stepType (.struct name) field = some ty := by
  unfold fieldOf at h
  split at h
  · cases h
  · rename_i fields hfields
    split at h
    · cases h
    · rename_i found hfound
      cases h
      refine ⟨by rw [hfields]; rfl, ?_⟩
      rw [stepType, hfields, Option.bind_some, hfound]
      rfl

theorem accessField_ok {base ty : Ty} {field : String} (h : tc.accessField base field = .ok ty) :
    ∃ name, base = .struct name ∧ isQualified name = false ∧
      (tc.sourceStructs.lookup name).isSome = true ∧ tc.stepType base field = some ty := by
  unfold accessField at h
  split at h
  · rename_i name
    split at h
    · cases h
    · rename_i hqualified
      obtain ⟨hsome, hstep⟩ := fieldOf_ok h
      exact ⟨name, rfl, Bool.not_eq_true _ ▸ hqualified, hsome, hstep⟩
  · cases h

theorem checkBinop_ok {op : BinOp} {l r ty : Ty} (h : tc.checkBinop op l r = .ok ty) :
    ty = binType op := by
  cases op
  case eq | ne =>
    simp only [checkBinop] at h
    split at h
    · cases h
    · obtain ⟨_, _, h⟩ := ok_of_bind h
      cases h
      rfl
  all_goals
    simp only [checkBinop] at h
    obtain ⟨_, _, h⟩ := ok_of_bind h
    obtain ⟨_, _, h⟩ := ok_of_bind h
    cases h
    rfl

theorem checkCall_ok {name : String} {args : List Ty} {ret : Option Ty}
    (h : tc.checkCall name args = .ok ret) : ret = (tc.signature name).bind (·.result) := by
  unfold checkCall at h
  unfold signature
  split at h
  · rename_i params ret' hnative
    obtain ⟨_, _, h⟩ := ok_of_bind h
    obtain ⟨_, _, h⟩ := ok_of_bind h
    cases h
    rw [hnative]
    rfl
  · rename_i hnative
    rw [hnative]
    split at h
    · rename_i params ret' hsource
      obtain ⟨_, _, h⟩ := ok_of_bind h
      obtain ⟨_, _, h⟩ := ok_of_bind h
      cases h
      rw [hsource]
      rfl
    · rename_i hsource
      cases h
      rw [hsource]
      rfl

end TypeChecker

/-- The checker's types of the variables are those in `v`. -/
def Vars.Agrees (v : Vars) (locals : TypeEnv) : Prop :=
  ∀ name ty, locals.lookup name = some ty → v.checkedType name = some ty

namespace TypeChecker

variable {tc : TypeChecker}

/-! ## Types of checked expressions -/

mutual
theorem exprType_valueType {v : Vars} {locals : TypeEnv} (hv : v.Agrees locals) :
    ∀ (e : Expr) {ty : Ty}, tc.exprType locals e = .ok (some ty) →
      v.checkedOf tc e = some ty
  | .bool _, _, h | .int _, _, h | .address _, _, h | .str _, _, h => by
    rw [exprType] at h
    cases h
    rfl
  | .ident name, ty, h => by
    rw [exprType] at h
    split at h
    · rename_i found hlook
      cases h
      exact hv name ty hlook
    · cases h
  | .unaryOp .not e, ty, h => by
    rw [exprType] at h
    obtain ⟨_, _, h⟩ := ok_of_bind h
    obtain ⟨_, _, h⟩ := ok_of_bind h
    cases h
    rfl
  | .binOp left op right, ty, h => by
    rw [exprType] at h
    obtain ⟨_, _, h⟩ := ok_of_bind h
    obtain ⟨_, _, h⟩ := ok_of_bind h
    obtain ⟨_, hop, h⟩ := ok_of_bind h
    cases h
    rw [Vars.checkedOf, valueType, checkBinop_ok hop]
  | .structLit name fields, ty, h => by
    rw [exprType] at h
    split at h
    · cases h
      rfl
    · split at h
      · cases h
      · obtain ⟨_, _, h⟩ := ok_of_bind h
        cases h
        rfl
  | .fieldAccess base field, ty, h => by
    rw [exprType] at h
    obtain ⟨baseTy, hbase, h⟩ := ok_of_bind h
    obtain ⟨_, haccess, h⟩ := ok_of_bind h
    cases h
    obtain ⟨_, _, _, _, hstep⟩ := accessField_ok haccess
    have hchecked := exprType_valueType hv base (requireTyped_ok hbase)
    rw [Vars.checkedOf] at hchecked ⊢
    rw [valueType, hchecked, Option.bind_some, hstep]
  | .call name args, ty, h => by
    rw [exprType] at h
    obtain ⟨_, _, h⟩ := ok_of_bind h
    rw [Vars.checkedOf, valueType, ← checkCall_ok h]
  | .tuple items, ty, h => by
    rw [exprType] at h
    obtain ⟨types, htypes, h⟩ := ok_of_bind h
    cases h
    rw [Vars.checkedOf, valueType, exprTypes_valueTypes hv items htypes]
    rfl

theorem exprTypes_valueTypes {v : Vars} {locals : TypeEnv} (hv : v.Agrees locals)
    {context : String} :
    ∀ (es : List Expr) {types : List Ty}, tc.exprTypes locals context es = .ok types →
      tc.valueTypes tc.signature v.checkedType es = some types
  | [], _, h => by
    rw [exprTypes] at h
    cases h
    rfl
  | e :: es, _, h => by
    rw [exprTypes] at h
    obtain ⟨ty, hty, h⟩ := ok_of_bind h
    obtain ⟨types, htypes, h⟩ := ok_of_bind h
    cases h
    have hchecked := exprType_valueType hv e (requireTyped_ok hty)
    rw [Vars.checkedOf] at hchecked
    rw [valueTypes, hchecked, exprTypes_valueTypes hv es htypes]
    rfl
end

/-! ## Paths -/

def WalkOk (tc : TypeChecker) : Option Ty → List String → Prop
  | _, [] => True
  | some ty, field :: path => ∃ ty', tc.accessField ty field = .ok ty' ∧ WalkOk tc (some ty') path
  | none, _ :: _ => False

/-- Structs of the table that are not qualified are declared in the module. -/
def Declares (tc : TypeChecker) (declared : List String) : Prop :=
  ∀ name, (tc.sourceStructs.lookup name).isSome = true → isQualified name = false → name ∈ declared

theorem WalkOk.staysIn {declared : List String} (hd : tc.Declares declared) {ty : Option Ty}
    {path : List String} (h : tc.WalkOk ty path) : tc.staysIn declared ty path = true := by
  induction path generalizing ty with
  | nil => cases ty <;> rfl
  | cons field path ih =>
    cases ty with
    | none => exact h.elim
    | some ty =>
      obtain ⟨ty', haccess, hrest⟩ := h
      obtain ⟨name, rfl, hqualified, hsome, hstep⟩ := accessField_ok haccess
      rw [TypeChecker.staysIn, Bool.and_eq_true, hstep]
      exact ⟨List.contains_iff_mem.mpr (hd name hsome hqualified), ih hrest⟩

end TypeChecker

/-! ## What the passes check -/

section Checks

variable {tc : TypeChecker} {calls : String → Option Signature} {env : CodegenEnv}
  {declared : List String}

/-- What is checked of an access: the checker keeps a read within the module, by its own types. Of
the path of an assignment it checks the first step from a struct of the module, and the code
generator refuses a variable that it knows to be of another module. -/
structure Access.Guarded (tc : TypeChecker) (declared : List String) (a : Access) : Prop where
  read : a.isWrite = false → tc.staysIn declared a.checked a.path = true
  write : a.isWrite = true → a.recorded.any isCrossModule = false ∧
    ∃ name, a.checked = some (.struct name) ∧ (isQualified name = false → name ∈ declared)

theorem Access.Guarded.of_read {a : Access} (hread : a.isWrite = false)
    (h : tc.staysIn declared a.checked a.path = true) : a.Guarded tc declared where
  read _ := h
  write hwrite := absurd (hread.symm.trans hwrite) (by decide)

theorem stepAccesses_guarded (hd : tc.Declares declared) {ty : Option Ty} (held : Option Ty)
    {path : List String} (h : tc.WalkOk ty path) :
    ∀ a ∈ stepAccesses tc ty held path, a.Guarded tc declared := by
  induction path generalizing ty held with
  | nil =>
    rintro u hu
    cases hu
  | cons field path ih =>
    cases ty with
    | none => exact h.elim
    | some ty =>
      obtain ⟨ty', haccess, hrest⟩ := h
      obtain ⟨name, rfl, hqualified, hsome, hstep⟩ := TypeChecker.accessField_ok haccess
      intro u hu
      rw [stepAccesses, Option.bind_some, hstep] at hu
      rcases List.mem_cons.mp hu with rfl | hu
      · refine .of_read rfl ?_
        have hmem := List.contains_iff_mem.mpr (hd name hsome hqualified)
        change (declared.contains name && tc.staysIn declared _ []) = true
        rw [hmem]
        rfl
      · exact ih _ hrest u hu

theorem mem_inOrder {α : Type} {fields : List String} {parts : List (String × List α)} {a : α}
    (h : a ∈ CodegenEnv.inOrder fields parts) :
    ∃ field ∈ fields, ∃ part, parts.lookup field = some part ∧ a ∈ part := by
  induction fields generalizing parts with
  | nil => cases h
  | cons field fields ih =>
    rcases List.mem_append.mp h with h | h
    · cases hpart : parts.lookup field with
      | none =>
        rw [hpart] at h
        cases h
      | some part =>
        rw [hpart] at h
        exact ⟨field, List.mem_cons_self, part, hpart, h⟩
    · obtain ⟨other, hother, part, hpart, ha⟩ := ih h
      refine ⟨other, List.mem_cons_of_mem _ hother, part, ?_, ha⟩
      rw [Assoc.lookup_filter] at hpart
      split at hpart
      · cases hpart
      · exact hpart

theorem compileLiteral_ok {name : String} {fields : List String}
    {parts : List (String × (Codegen → Result Codegen))} {cg cg' : Codegen}
    (h : CodegenEnv.compileLiteral name fields parts cg = .ok cg') {field : String}
    (hfield : field ∈ fields) :
    ∃ compile before after, parts.lookup field = some compile ∧ compile before = .ok after := by
  induction fields generalizing parts cg with
  | nil => cases hfield
  | cons first fields ih =>
    rw [CodegenEnv.compileLiteral] at h
    split at h
    · cases h
    · rename_i compile hlook
      obtain ⟨mid, hmid, h⟩ := ok_of_bind h
      rcases List.mem_cons.mp hfield with rfl | hfield
      · exact ⟨compile, cg, mid, hlook, hmid⟩
      · obtain ⟨other, before, after, hother, hok⟩ := ih h hfield
        rw [Assoc.lookup_filter] at hother
        split at hother
        · cases hother
        · exact ⟨other, before, after, hother, hok⟩

/-- Every field that is given has a type. -/
theorem TypeChecker.checkLiteral_ok {name field : String} {defFields : List (String × Ty)}
    {given : List (String × Result (Option Ty))} {u : Unit} {ty : Result (Option Ty)}
    (h : tc.checkLiteral name defFields given = .ok u)
    (hfield : given.reverse.lookup field = some ty) : ∃ actual, ty = .ok (some actual) := by
  unfold checkLiteral at h
  obtain ⟨_, hdef, hknown⟩ := ok_of_bind h
  have hmem : (field, ty) ∈ given := List.mem_reverse.mp (Assoc.mem_of_lookup hfield)
  have hfound := forM_eq_ok.mp hknown (field, ty) hmem
  split at hfound
  · rename_i hany
    obtain ⟨decl, hdecl, hname⟩ := List.any_eq_true.mp hany
    have hname := beq_iff_eq.mp hname
    have htyped := forM_eq_ok.mp hdef decl hdecl
    simp only [hname, hfield] at htyped
    obtain ⟨actual, hactual, _⟩ := ok_of_bind htyped
    exact ⟨actual, TypeChecker.requireTyped_ok hactual⟩
  · cases hfound

theorem fieldsAccesses_eq (v : Vars) (fields : List (String × Expr)) :
    fieldsAccesses tc calls env v fields
      = fields.map fun entry => (entry.1, chainAccesses tc calls env v entry.2 []) := by
  induction fields with
  | nil => rfl
  | cons entry fields ih => rw [fieldsAccesses, ih, List.map_cons]

theorem fieldTypes_eq (locals : TypeEnv) (fields : List (String × Expr)) :
    tc.fieldTypes locals fields
      = fields.map fun entry => (entry.1, tc.exprType locals entry.2) := by
  induction fields with
  | nil => rfl
  | cons entry fields ih => rw [TypeChecker.fieldTypes, ih, List.map_cons]

theorem compileFields_eq (fields : List (String × Expr)) :
    env.compileFields fields = fields.map fun entry => (entry.1, env.compileChain entry.2 []) := by
  induction fields with
  | nil => rfl
  | cons entry fields ih => rw [CodegenEnv.compileFields, ih, List.map_cons]

theorem lookup_reverse_map {γ : Type} (f : Expr → γ) (fields : List (String × Expr))
    (field : String) :
    (fields.map fun entry => (entry.1, f entry.2)).reverse.lookup field
      = (fields.reverse.lookup field).map f := by
  rw [← List.map_reverse, Assoc.lookup_map]

-- By induction on the expression; a chain of accesses hands its path down to the root.
mutual
theorem chainAccesses_guarded (hd : tc.Declares declared) {v : Vars} {locals : TypeEnv}
    (hv : v.Agrees locals) : ∀ (e : Expr) (path : List String) {cg cg' : Codegen} {ty : Option Ty},
    env.compileChain e path cg = .ok cg' → tc.exprType locals e = .ok ty → tc.WalkOk ty path →
      ∀ u ∈ chainAccesses tc calls env v e path, u.Guarded tc declared
  | .fieldAccess e field, path, _, _, ty, hc, ht, hw => by
    rw [CodegenEnv.compileChain] at hc
    rw [TypeChecker.exprType] at ht
    obtain ⟨baseTy, hbase, ht⟩ := ok_of_bind ht
    obtain ⟨fieldTy, haccess, ht⟩ := ok_of_bind ht
    cases ht
    rw [chainAccesses]
    exact chainAccesses_guarded hd hv e (field :: path) hc (TypeChecker.requireTyped_ok hbase)
      ⟨fieldTy, haccess, hw⟩
  | .ident name, [], _, _, _, _, _, _ => by
    intro u hu
    cases List.mem_singleton.mp hu
    exact .of_read rfl rfl
  | .ident name, field :: path, _, _, ty, _, ht, hw => by
    rw [TypeChecker.exprType] at ht
    split at ht
    · rename_i found hlook
      cases ht
      intro u hu
      rw [chainAccesses, hv name found hlook] at hu
      cases List.mem_singleton.mp hu
      exact .of_read rfl (hw.staysIn hd)
    · cases ht
  | .bool _, path, _, _, ty, _, ht, hw | .int _, path, _, _, ty, _, ht, hw
  | .address _, path, _, _, ty, _, ht, hw | .str _, path, _, _, ty, _, ht, hw => by
    rw [TypeChecker.exprType] at ht
    cases ht
    rw [chainAccesses]
    exact stepAccesses_guarded hd _ hw
  | .binOp left op right, path, _, _, ty, hc, ht, hw => by
    rw [CodegenEnv.compileChain] at hc
    obtain ⟨_, _, hc⟩ := ok_of_bind hc
    obtain ⟨_, hcl, hc⟩ := ok_of_bind hc
    obtain ⟨_, hcr, _⟩ := ok_of_bind hc
    rw [TypeChecker.exprType] at ht
    obtain ⟨_, htl, ht⟩ := ok_of_bind ht
    obtain ⟨_, htr, ht⟩ := ok_of_bind ht
    obtain ⟨_, hop, ht⟩ := ok_of_bind ht
    cases ht
    rw [TypeChecker.checkBinop_ok hop] at hw
    rw [chainAccesses]
    intro u hu
    rcases List.mem_append.mp hu with hu | hu
    · exact chainAccesses_guarded hd hv left [] hcl (TypeChecker.requireTyped_ok htl) trivial u hu
    rcases List.mem_append.mp hu with hu | hu
    · exact chainAccesses_guarded hd hv right [] hcr (TypeChecker.requireTyped_ok htr) trivial u hu
    · exact stepAccesses_guarded hd _ hw u hu
  | .unaryOp .not e, path, _, _, ty, hc, ht, hw => by
    rw [CodegenEnv.compileChain] at hc
    obtain ⟨_, _, hc⟩ := ok_of_bind hc
    obtain ⟨_, hce, _⟩ := ok_of_bind hc
    rw [TypeChecker.exprType] at ht
    obtain ⟨_, hte, ht⟩ := ok_of_bind ht
    obtain ⟨_, _, ht⟩ := ok_of_bind ht
    cases ht
    rw [chainAccesses]
    intro u hu
    rcases List.mem_append.mp hu with hu | hu
    · exact chainAccesses_guarded hd hv e [] hce (TypeChecker.requireTyped_ok hte) trivial u hu
    · exact stepAccesses_guarded hd _ hw u hu
  | .structLit name fields, path, _, _, ty, hc, ht, hw => by
    rw [CodegenEnv.compileChain] at hc
    obtain ⟨_, _, hc⟩ := ok_of_bind hc
    obtain ⟨_, hqualified, hc⟩ := ok_of_bind hc
    have hplain : ¬isQualified name = true := by
      rw [refuseIf_ok hqualified]
      decide
    split at hc
    · cases hc
    · rename_i decl hdecl
      obtain ⟨_, hlit, _⟩ := ok_of_bind hc
      rw [TypeChecker.exprType, if_neg hplain] at ht
      split at ht
      · cases ht
      · obtain ⟨_, hcheck, ht⟩ := ok_of_bind ht
        cases ht
        rw [chainAccesses, env.fieldNamesOf_eq hdecl, fieldsAccesses_eq]
        intro u hu
        rcases List.mem_append.mp hu with hu | hu
        · obtain ⟨field, hfield, part, hpart, hu⟩ := mem_inOrder hu
          rw [lookup_reverse_map (fun e => chainAccesses tc calls env v e [])] at hpart
          obtain ⟨e, he, rfl⟩ := Option.map_eq_some_iff.mp hpart
          -- the same entry has been compiled and has been checked
          obtain ⟨compile, before, after, hcompile, hok⟩ := compileLiteral_ok hlit hfield
          rw [compileFields_eq, lookup_reverse_map (fun e => env.compileChain e []), he] at hcompile
          cases hcompile
          rw [fieldTypes_eq] at hcheck
          have hgiven : (fields.map fun entry =>
              (entry.1, tc.exprType locals entry.2)).reverse.lookup field
                = some (tc.exprType locals e) := by
            rw [lookup_reverse_map (tc.exprType locals), he]
            rfl
          obtain ⟨actual, hactual⟩ := TypeChecker.checkLiteral_ok hcheck hgiven
          exact fieldsAccesses_guarded hd hv fields (field, e)
            (List.mem_reverse.mp (Assoc.mem_of_lookup he)) hok hactual u hu
        · exact stepAccesses_guarded hd _ hw u hu
  | .tuple items, path, _, _, ty, hc, ht, hw => by
    rw [CodegenEnv.compileChain] at hc
    obtain ⟨_, _, hc⟩ := ok_of_bind hc
    obtain ⟨_, _, hc⟩ := ok_of_bind hc
    obtain ⟨_, hitems, _⟩ := ok_of_bind hc
    rw [TypeChecker.exprType] at ht
    obtain ⟨types, htypes, ht⟩ := ok_of_bind ht
    cases ht
    rw [chainAccesses]
    intro u hu
    rcases List.mem_append.mp hu with hu | hu
    · exact exprsAccesses_guarded hd hv items hitems htypes u hu
    · cases path with
      | nil => cases hu
      | cons field path =>
        obtain ⟨_, haccess, _⟩ := hw
        cases haccess
  | .call name args, path, _, _, ty, hc, ht, hw => by
    rw [CodegenEnv.compileChain] at hc
    obtain ⟨_, _, hc⟩ := ok_of_bind hc
    obtain ⟨_, _, hc⟩ := ok_of_bind hc
    obtain ⟨_, hargs, _⟩ := ok_of_bind hc
    rw [TypeChecker.exprType] at ht
    obtain ⟨types, htypes, ht⟩ := ok_of_bind ht
    rw [TypeChecker.checkCall_ok ht] at hw
    rw [chainAccesses]
    intro u hu
    rcases List.mem_append.mp hu with hu | hu
    · exact exprsAccesses_guarded hd hv args hargs htypes u hu
    rcases List.mem_cons.mp hu with rfl | hu
    · exact .of_read rfl rfl
    · exact stepAccesses_guarded hd _ hw u hu

theorem exprsAccesses_guarded (hd : tc.Declares declared) {v : Vars} {locals : TypeEnv}
    (hv : v.Agrees locals) {context : String} :
    ∀ (es : List Expr) {cg cg' : Codegen} {types : List Ty},
    env.compileExprs es cg = .ok cg' → tc.exprTypes locals context es = .ok types →
      ∀ u ∈ exprsAccesses tc calls env v es, u.Guarded tc declared
  | [], _, _, _, _, _ => by
    intro u hu
    cases hu
  | e :: es, _, _, _, hc, ht => by
    rw [CodegenEnv.compileExprs] at hc
    obtain ⟨_, hce, hces⟩ := ok_of_bind hc
    rw [TypeChecker.exprTypes] at ht
    obtain ⟨_, hte, ht⟩ := ok_of_bind ht
    obtain ⟨_, htes, _⟩ := ok_of_bind ht
    rw [exprsAccesses]
    intro u hu
    rcases List.mem_append.mp hu with hu | hu
    · exact chainAccesses_guarded hd hv e [] hce (TypeChecker.requireTyped_ok hte) trivial u hu
    · exact exprsAccesses_guarded hd hv es hces htes u hu

theorem fieldsAccesses_guarded (hd : tc.Declares declared) {v : Vars} {locals : TypeEnv}
    (hv : v.Agrees locals) : ∀ (fields : List (String × Expr)) (entry : String × Expr),
    entry ∈ fields → ∀ {cg cg' : Codegen} {ty : Option Ty},
      env.compileChain entry.2 [] cg = .ok cg' → tc.exprType locals entry.2 = .ok ty →
      ∀ u ∈ chainAccesses tc calls env v entry.2 [], u.Guarded tc declared
  | [], _, hmem => by cases hmem
  | (name, e) :: fields, entry, hmem => by
    intro hc ht
    rcases List.mem_cons.mp hmem with rfl | hmem
    · exact chainAccesses_guarded hd hv e [] hc ht trivial
    · exact fieldsAccesses_guarded hd hv fields entry hmem hc ht
end

/-! ## Statements -/

theorem Vars.Agrees.of_checked {v w : Vars} {locals : TypeEnv} (hv : v.Agrees locals)
    (h : w.checked = v.checked) : w.Agrees locals := by
  intro name ty hlook
  rw [Vars.checkedType, h]
  exact hv name ty hlook

theorem Vars.Agrees.bindChecked {v : Vars} {locals : TypeEnv} (hv : v.Agrees locals) (name : String)
    (ty : Ty) : (v.bindChecked name (some ty)).Agrees ((name, ty) :: locals) := by
  intro other ty' hlook
  rw [Vars.checkedType, Vars.bindChecked]
  by_cases hname : other = name
  · subst hname
    rw [Assoc.lookup_cons_self] at hlook ⊢
    cases hlook
    rfl
  · rw [Assoc.lookup_cons_of_ne hname] at hlook ⊢
    exact hv other ty' hlook

theorem Vars.Agrees.bindCheckedNames {names : List String} {types : List Ty} {v : Vars}
    {locals : TypeEnv} (hv : v.Agrees locals) :
    (v.bindCheckedNames names (types.map some)).Agrees
      (TypeChecker.bindNames locals names types) := by
  induction names generalizing v locals types with
  | nil => cases types <;> exact hv
  | cons name names ih =>
    cases types with
    | nil => exact hv
    | cons ty types =>
      rw [List.map_cons, Vars.bindCheckedNames, TypeChecker.bindNames]
      split
      · exact ih hv
      · exact ih (hv.bindChecked name ty)

theorem Vars.Agrees.bindCheckedFields {typeName : String} {fields : List (String × Ty)}
    {bindings : List (String × String)} {v : Vars} {locals locals' : TypeEnv} (hv : v.Agrees locals)
    (h : tc.bindFields typeName fields locals bindings = .ok locals') :
    (v.bindCheckedFields fields bindings).Agrees locals' := by
  induction bindings generalizing v locals with
  | nil =>
    rw [TypeChecker.bindFields] at h
    cases h
    exact hv
  | cons binding bindings ih =>
    obtain ⟨field, name⟩ := binding
    rw [TypeChecker.bindFields] at h
    rw [Vars.bindCheckedFields]
    split at h
    · rename_i hname
      rw [if_pos hname]
      exact ih hv h
    · rename_i hname
      rw [if_neg hname]
      split at h
      · rename_i found ty hfound
        rw [hfound]
        exact ih (hv.bindChecked name ty) h
      · cases h

theorem bindHeldNames_checked (v : Vars) (names : List String) (types : List (Option Ty)) :
    (v.bindHeldNames names types).checked = v.checked := by
  induction names generalizing v types with
  | nil => rfl
  | cons name names ih => exact ih _ _

theorem bindHeldFields_checked (fieldTy : String → Option Ty) (bindings : List (String × String))
    (v : Vars) (fields : List String) :
    (Vars.bindHeldFields fieldTy bindings v fields).checked = v.checked := by
  induction fields generalizing v with
  | nil => rfl
  | cons field fields ih =>
    rw [Vars.bindHeldFields]
    split
    · exact ih _
    · exact ih _

/-- An assigned expression is checked wherever the path leads. -/
theorem TypeChecker.checkPath_ok {display : String} {exprTy : Result (Option Ty)} {ty : Ty}
    {field : String} {path : List String} {u : Unit}
    (h : tc.checkPath display exprTy ty field path = .ok u) : ∃ actual, exprTy = .ok actual := by
  induction path generalizing ty field with
  | nil =>
    cases ty with
    | struct name =>
      rw [checkPath] at h
      split at h
      · obtain ⟨actual, hactual, _⟩ := ok_of_bind h
        exact ⟨actual, hactual⟩
      · obtain ⟨_, _, h⟩ := ok_of_bind h
        obtain ⟨actual, hactual, _⟩ := ok_of_bind h
        exact ⟨actual, hactual⟩
    | _ => cases h
  | cons next path ih =>
    cases ty with
    | struct name =>
      rw [checkPath] at h
      split at h
      · obtain ⟨actual, hactual, _⟩ := ok_of_bind h
        exact ⟨actual, hactual⟩
      · obtain ⟨_, _, h⟩ := ok_of_bind h
        exact ih h
    | _ => cases h

/-- The first step of the path of an assignment. -/
theorem TypeChecker.checkPath_root {display : String} {exprTy : Result (Option Ty)} {ty : Ty}
    {field : String} {path : List String} {u : Unit}
    (h : tc.checkPath display exprTy ty field path = .ok u) :
    ∃ name, ty = .struct name ∧
      (isQualified name = false → (tc.sourceStructs.lookup name).isSome = true) := by
  cases ty with
  | struct name =>
    refine ⟨name, rfl, fun hplain => ?_⟩
    cases path with
    | nil =>
      rw [checkPath, if_neg (by rw [hplain]; decide)] at h
      obtain ⟨_, hfield, _⟩ := ok_of_bind h
      exact (fieldOf_ok hfield).1
    | cons next path =>
      rw [checkPath, if_neg (by rw [hplain]; decide)] at h
      obtain ⟨_, hfield, _⟩ := ok_of_bind h
      exact (fieldOf_ok hfield).1
  | _ => cases path <;> cases h

/-- A type that the code generator has for an assigned variable is not of another module. -/
theorem checkFieldWrite_ok {field : String} {ty : Option Ty} {u : Unit}
    (h : checkSome (CodegenEnv.checkFieldWrite field) ty = .ok u) :
    ty.any isCrossModule = false := by
  cases ty with
  | none => rfl
  | some ty => exact refuseIf_ok h

theorem TypeChecker.checkReturn_ok (tc : TypeChecker) {locals : TypeEnv} {e : Expr} {u : Unit}
    (h : tc.checkReturn locals (some e) = .ok u) : ∃ ty, tc.exprType locals e = .ok ty := by
  unfold checkReturn at h
  split at h
  · rename_i heq
    cases heq
  · rename_i heq
    cases heq
    obtain ⟨ty, hty, _⟩ := ok_of_bind h
    exact ⟨ty, hty⟩
  · rename_i heq
    cases heq
  · rename_i heq
    cases heq
    obtain ⟨ty, hty, _⟩ := ok_of_bind h
    exact ⟨ty, hty⟩

theorem compileScoped_ok {branch : String} {body : Codegen → Result Codegen} {cg cg' : Codegen}
    (h : CodegenEnv.compileScoped branch body cg = .ok cg') :
    ∃ after, body cg.enter = .ok after := by
  obtain ⟨after, hafter, _⟩ := ok_of_bind h
  exact ⟨after, hafter⟩

theorem otherwise_eq {body : List Stmt} {mid thenCg : Codegen}
    (h : CodegenEnv.compileScoped "if" (env.compileStmts body) (mid.emit (.jumpIfNot 0))
      = .ok thenCg) :
    mid.otherwise env body = ((thenCg.rewind mid).emit (.jump 0)).patch mid.code.length
      (.jumpIfNot (((thenCg.rewind mid).emit (.jump 0)).code.length - mid.code.length)) := by
  unfold Codegen.otherwise
  rw [h]
  rfl

theorem exprAccesses_guarded (hd : tc.Declares declared) {v : Vars} {locals : TypeEnv}
    (hv : v.Agrees locals) {e : Expr} {cg cg' : Codegen} {ty : Option Ty}
    (hc : env.compileExpr e cg = .ok cg') (ht : tc.exprType locals e = .ok ty) :
    ∀ u ∈ exprAccesses tc calls env v e, u.Guarded tc declared :=
  chainAccesses_guarded hd hv e [] hc ht (by cases ty <;> trivial)

-- One case for each statement: its accesses, and the types after it.
mutual
theorem stmtAccesses_guarded (hd : tc.Declares declared) : ∀ (s : Stmt) {v : Vars}
    {locals locals' : TypeEnv} {cg cg' : Codegen}, v.Agrees locals →
    env.compileStmt s cg = .ok cg' → tc.checkStmt s locals = .ok locals' →
      (∀ u ∈ (stmtAccesses tc calls env v cg s).1, u.Guarded tc declared) ∧
        (stmtAccesses tc calls env v cg s).2.Agrees locals'
  | .let_ name e, v, locals, _, _, _, hv, hc, ht => by
    rw [CodegenEnv.compileStmt] at hc
    obtain ⟨_, hce, _⟩ := ok_of_bind hc
    rw [TypeChecker.checkStmt] at ht
    obtain ⟨ty, hty, ht⟩ := ok_of_bind ht
    cases ht
    have hte := TypeChecker.requireTyped_ok hty
    refine ⟨exprAccesses_guarded hd hv hce hte, ?_⟩
    rw [stmtAccesses, TypeChecker.exprType_valueType hv e hte]
    exact (hv.bindChecked name ty).of_checked rfl
  | .reassign name e, v, locals, _, _, _, hv, hc, ht => by
    rw [CodegenEnv.compileStmt] at hc
    rw [TypeChecker.checkStmt] at ht
    split at hc
    · cases hc
    · obtain ⟨_, _, hc⟩ := ok_of_bind hc
      obtain ⟨_, hce, _⟩ := ok_of_bind hc
      split at ht
      · cases ht
      · obtain ⟨_, hte, ht⟩ := ok_of_bind ht
        obtain ⟨_, _, ht⟩ := ok_of_bind ht
        cases ht
        exact ⟨exprAccesses_guarded hd hv hce hte, hv.of_checked rfl⟩
  | .return_ none, v, locals, _, _, _, hv, hc, ht => by
    rw [TypeChecker.checkStmt] at ht
    obtain ⟨_, _, ht⟩ := ok_of_bind ht
    cases ht
    refine ⟨?_, hv⟩
    intro u hu
    cases hu
  | .return_ (some e), v, locals, _, _, _, hv, hc, ht => by
    rw [CodegenEnv.compileStmt] at hc
    obtain ⟨_, hce, _⟩ := ok_of_bind hc
    rw [TypeChecker.checkStmt] at ht
    obtain ⟨_, hreturn, ht⟩ := ok_of_bind ht
    cases ht
    obtain ⟨ty, hte⟩ := tc.checkReturn_ok hreturn
    exact ⟨exprAccesses_guarded hd hv hce hte, hv⟩
  | .expr e, v, locals, _, _, _, hv, hc, ht => by
    rw [CodegenEnv.compileStmt] at hc
    obtain ⟨_, _, hc⟩ := ok_of_bind hc
    obtain ⟨_, hce, _⟩ := ok_of_bind hc
    rw [TypeChecker.checkStmt] at ht
    obtain ⟨_, hte, ht⟩ := ok_of_bind ht
    cases ht
    exact ⟨exprAccesses_guarded hd hv hce hte, hv⟩
  | .if_ cond body none, v, locals, _, _, _, hv, hc, ht => by
    rw [CodegenEnv.compileStmt] at hc
    obtain ⟨mid, hce, hc⟩ := ok_of_bind hc
    obtain ⟨_, hthen, _⟩ := ok_of_bind hc
    obtain ⟨_, hbody⟩ := compileScoped_ok hthen
    rw [TypeChecker.checkStmt] at ht
    obtain ⟨_, hcond, ht⟩ := ok_of_bind ht
    obtain ⟨_, _, ht⟩ := ok_of_bind ht
    obtain ⟨_, htbody, ht⟩ := ok_of_bind ht
    cases ht
    obtain ⟨hreads, _⟩ :=
      stmtsAccesses_guarded hd body (v := v.enter) (hv.of_checked rfl) hbody htbody
    refine ⟨?_, hv.of_checked rfl⟩
    intro u hu
    rw [stmtAccesses, hce] at hu
    rcases List.mem_append.mp hu with hu | hu
    · exact exprAccesses_guarded hd hv hce (TypeChecker.requireTyped_ok hcond) u hu
    · exact hreads u hu
  | .if_ cond body (some stmts), v, locals, _, _, _, hv, hc, ht => by
    rw [CodegenEnv.compileStmt] at hc
    obtain ⟨mid, hce, hc⟩ := ok_of_bind hc
    obtain ⟨thenCg, hthen, hc⟩ := ok_of_bind hc
    obtain ⟨_, helse, _⟩ := ok_of_bind hc
    rw [← otherwise_eq hthen] at helse
    obtain ⟨_, hbody⟩ := compileScoped_ok hthen
    obtain ⟨_, hstmts⟩ := compileScoped_ok helse
    rw [TypeChecker.checkStmt] at ht
    obtain ⟨_, hcond, ht⟩ := ok_of_bind ht
    obtain ⟨_, _, ht⟩ := ok_of_bind ht
    obtain ⟨_, htbody, ht⟩ := ok_of_bind ht
    obtain ⟨_, htstmts, ht⟩ := ok_of_bind ht
    cases ht
    obtain ⟨hreads, _⟩ :=
      stmtsAccesses_guarded hd body (v := v.enter) (hv.of_checked rfl) hbody htbody
    obtain ⟨hreads', _⟩ := stmtsAccesses_guarded hd stmts (v := (v.otherwise (stmtsAccesses tc calls
      env v.enter (mid.emit (.jumpIfNot 0)).enter body).2).enter) (hv.of_checked rfl) hstmts htstmts
    refine ⟨?_, hv.of_checked rfl⟩
    intro u hu
    rw [stmtAccesses, hce] at hu
    rcases List.mem_append.mp hu with hu | hu
    · exact exprAccesses_guarded hd hv hce (TypeChecker.requireTyped_ok hcond) u hu
    rcases List.mem_append.mp hu with hu | hu
    · exact hreads u hu
    · exact hreads' u hu
  | .letTuple names e, v, locals, _, _, _, hv, hc, ht => by
    rw [CodegenEnv.compileStmt] at hc
    obtain ⟨_, _, hc⟩ := ok_of_bind hc
    obtain ⟨_, hce, _⟩ := ok_of_bind hc
    rw [TypeChecker.checkStmt] at ht
    obtain ⟨ty, hty, ht⟩ := ok_of_bind ht
    have hte := TypeChecker.requireTyped_ok hty
    split at ht
    · rename_i types
      split at ht
      · cases ht
        refine ⟨exprAccesses_guarded hd hv hce hte, ?_⟩
        rw [stmtAccesses, TypeChecker.exprType_valueType hv e hte]
        exact hv.bindCheckedNames.of_checked (bindHeldNames_checked _ _ _)
      · cases ht
    · cases ht
  | .letStruct typeName bindings e rest, v, locals, _, _, _, hv, hc, ht => by
    rw [CodegenEnv.compileStmt] at hc
    split at hc
    · cases hc
    · obtain ⟨_, _, hc⟩ := ok_of_bind hc
      obtain ⟨_, hce, _⟩ := ok_of_bind hc
      rw [TypeChecker.checkStmt] at ht
      obtain ⟨ty, hty, ht⟩ := ok_of_bind ht
      obtain ⟨_, _, ht⟩ := ok_of_bind ht
      refine ⟨exprAccesses_guarded hd hv hce (TypeChecker.requireTyped_ok hty), ?_⟩
      rw [stmtAccesses]
      cases hfields : tc.sourceStructs.lookup typeName with
      | some fields =>
        rw [hfields] at ht
        exact (hv.bindCheckedFields ht).of_checked (bindHeldFields_checked _ _ _ _)
      | none =>
        rw [hfields] at ht
        cases ht
        exact hv.of_checked (bindHeldFields_checked _ _ _ _)
  | .fieldAssign objName field path e, v, locals, _, _, _, hv, hc, ht => by
    rw [CodegenEnv.compileStmt] at hc
    split at hc
    · cases hc
    · rename_i slot hslot
      obtain ⟨_, hwrite, hc⟩ := ok_of_bind hc
      obtain ⟨_, _, hc⟩ := ok_of_bind hc
      obtain ⟨_, hce, _⟩ := ok_of_bind hc
      rw [TypeChecker.checkStmt] at ht
      split at ht
      · cases ht
      · rename_i objTy hobj
        obtain ⟨_, hpath, ht⟩ := ok_of_bind ht
        cases ht
        obtain ⟨ty, hte⟩ := TypeChecker.checkPath_ok hpath
        refine ⟨?_, hv⟩
        intro u hu
        rw [stmtAccesses, hslot, hv objName objTy hobj] at hu
        rcases List.mem_append.mp hu with hu | hu
        · exact exprAccesses_guarded hd hv hce hte u hu
        · cases List.mem_singleton.mp hu
          obtain ⟨name, rfl, hlocal⟩ := TypeChecker.checkPath_root hpath
          refine ⟨fun hread => (by cases hread),
            fun _ => ⟨checkFieldWrite_ok hwrite, name, rfl, ?_⟩⟩
          exact fun hplain => hd name (hlocal hplain) hplain

theorem stmtsAccesses_guarded (hd : tc.Declares declared) : ∀ (stmts : List Stmt) {v : Vars}
    {locals locals' : TypeEnv} {cg cg' : Codegen}, v.Agrees locals →
    env.compileStmts stmts cg = .ok cg' → tc.checkStmts stmts locals = .ok locals' →
      (∀ u ∈ (stmtsAccesses tc calls env v cg stmts).1, u.Guarded tc declared) ∧
        (stmtsAccesses tc calls env v cg stmts).2.Agrees locals'
  | [], v, locals, _, _, _, hv, _, ht => by
    rw [TypeChecker.checkStmts] at ht
    cases ht
    refine ⟨?_, hv⟩
    intro u hu
    cases hu
  | s :: stmts, v, locals, _, _, _, hv, hc, ht => by
    rw [CodegenEnv.compileStmts] at hc
    obtain ⟨_, hcs, hcstmts⟩ := ok_of_bind hc
    rw [TypeChecker.checkStmts] at ht
    obtain ⟨_, hts, htstmts⟩ := ok_of_bind ht
    obtain ⟨hfirst, hmid⟩ := stmtAccesses_guarded hd s hv hcs hts
    obtain ⟨hrest, hlast⟩ := stmtsAccesses_guarded hd stmts hmid hcstmts htstmts
    rw [stmtsAccesses, hcs]
    refine ⟨?_, hlast⟩
    intro u hu
    rcases List.mem_append.mp hu with hu | hu
    · exact hfirst u hu
    · exact hrest u hu
end

theorem paramVars_agrees (params : List (String × Ty)) :
    (paramVars params).Agrees params.reverse := by
  intro name ty h
  rw [Vars.checkedType, paramVars]
  dsimp only
  rw [← List.map_reverse, Assoc.lookup_map, h]
  rfl

theorem functionAccesses_guarded {f : AstFunction} {func : Function} {u : Unit}
    (hd : tc.Declares declared) (hc : env.compileFunction f = .ok func)
    (ht : tc.checkFunction f = .ok u) :
    ∀ a ∈ functionAccesses (tc.forFunction f) calls env f,
      a.Guarded (tc.forFunction f) declared := by
  obtain ⟨_, hstmts, _⟩ := ok_of_bind ht
  rw [CodegenEnv.compileFunction] at hc
  obtain ⟨_, _, hc⟩ := ok_of_bind hc
  obtain ⟨_, _, hc⟩ := ok_of_bind hc
  obtain ⟨⟨params, start⟩, hparams, hc⟩ := ok_of_bind hc
  obtain ⟨_, _, hc⟩ := ok_of_bind hc
  obtain ⟨_, hbody, _⟩ := ok_of_bind hc
  rw [functionAccesses, CodegenEnv.paramState, hparams]
  have hdeclares : (tc.forFunction f).Declares declared := hd
  exact (stmtsAccesses_guarded hdeclares f.body (paramVars_agrees f.params) hbody hstmts).1

end Checks

/-! ## Modules -/

theorem CheckInput.declares (input : CheckInput) :
    input.checker.Declares (input.structs.map (·.name)) := by
  intro name hsome hqualified
  obtain ⟨fields, hfields⟩ := Option.isSome_iff_exists.mp hsome
  have hmem := List.mem_reverse.mp (Assoc.mem_of_lookup hfields)
  rcases List.mem_append.mp hmem with hmem | hmem
  · obtain ⟨decl, hdecl, heq⟩ := List.mem_map.mp hmem
    cases heq
    exact List.mem_map_of_mem hdecl
  · obtain ⟨dep, _, hdep⟩ := List.mem_flatMap.mp hmem
    unfold CheckInput.depStructs at hdep
    split at hdep
    · cases hdep
    · obtain ⟨decl, _, heq⟩ := List.mem_map.mp hdep
      cases heq
      rw [isQualified_append] at hqualified
      cases hqualified

/-- The function that the machine runs for a name in the source, with its types as the importing
module writes them: the first of its name, and a native only if the module has no such function. -/
def CheckInput.callee (input : CheckInput) (name : String) : Option Signature :=
  match splitOnce name.toList with
  | some (depName, fnName) => do
    let addr ← input.depAddresses.lookup (String.ofList depName)
    let dep ← input.deps.lookup addr
    let func ← dep.getFunction (String.ofList fnName)
    let written := input.depType (String.ofList depName) dep
    some ⟨.inr (func.params.map (written ·.2)), func.returnType.map written⟩
  | none =>
    match input.functions.find? (·.name == name) with
    | some f => some ⟨.inr (f.params.map (·.2)), f.returnType⟩
    | none => (input.natives.find? (·.name == name)).map fun sig =>
      ⟨.inl sig.params, sig.returnType⟩

section Modules

variable (order : MapOrder) (deps : List (Address × Module)) (natives : List NativeSig)
  (config : CompilerConfig) (parse : ItemParser) (source : String)

/-- The checker, the structs and the accesses of a source text, none for a text that does not
parse. -/
def sourceChecker : TypeChecker :=
  match parseAndExtract parse source with
  | .ok (items, _, uses) => (checkInput order deps natives items uses).checker
  | .error _ => (checkInput order deps natives [] []).checker

def declaredStructs : List String :=
  match parseAndExtract parse source with
  | .ok (items, _, _) => (structDecls items).map (·.name)
  | .error _ => []

def sourceAccesses : List Access :=
  match parseAndExtract parse source with
  | .ok (items, _, uses) =>
    let input := checkInput order deps natives items uses
    (fnDecls items).flatMap fun f =>
      functionAccesses (input.checker.forFunction f) input.callee
        (codegenEnv order deps config items uses) f
  | .error _ => []

/-- Every struct that the instruction takes a field of is declared in the module. -/
def InModule (a : Access) : Prop :=
  (sourceChecker order deps natives parse source).staysIn (declaredStructs parse source) a.held
    a.path = true

/-- The same of the structs behind the first field. -/
def TailInModule (a : Access) : Prop :=
  let tc := sourceChecker order deps natives parse source
  tc.staysIn (declaredStructs parse source)
    (a.held.bind fun ty => a.path.head?.bind (tc.stepType ty)) a.path.tail = true

/-- The accesses of `m` are those listed, and none of them leaves the module. -/
structure FieldsPrivate (m : Module) : Prop where
  emitted : accessInstrs (m.functions.flatMap (·.code))
    = (sourceAccesses order deps natives config parse source).map (·.instr)
  inModule : ∀ a ∈ sourceAccesses order deps natives config parse source,
    InModule order deps natives parse source a

variable {order deps natives config parse source}

theorem staysIn_forFunction (tc : TypeChecker) (f : AstFunction) (declared : List String)
    (ty : Option Ty) (path : List String) :
    (tc.forFunction f).staysIn declared ty path = tc.staysIn declared ty path := by
  induction path generalizing ty with
  | nil => cases ty <;> rfl
  | cons field path ih =>
    cases ty with
    | none => rfl
    | some ty =>
      cases ty with
      | struct name => exact congrArg (declared.contains name && ·) (ih _)
      | _ => rfl

theorem accessInstrs_functions {env : CodegenEnv} {fs : List AstFunction} {funcs : List Function}
    (tc : AstFunction → TypeChecker) (calls : String → Option Signature)
    (h : List.Forall₂ (fun f func => env.compileFunction f = .ok func) fs funcs) :
    accessInstrs (funcs.flatMap (·.code))
      = (fs.flatMap fun f => functionAccesses (tc f) calls env f).map (·.instr) := by
  induction h with
  | nil => rfl
  | @cons f func fs funcs hfunc _ ih =>
    rw [List.flatMap_cons, List.flatMap_cons, accessInstrs_append, List.map_append, ih,
      accessInstrs_function (tc f) calls env hfunc]

theorem compile_accessInstrs {m : Module}
    (h : compile order deps natives config parse source = .ok m) :
    accessInstrs (m.functions.flatMap (·.code))
      = (sourceAccesses order deps natives config parse source).map (·.instr) := by
  obtain ⟨⟨items, name, uses⟩, hparse, h⟩ := ok_of_bind h
  unfold compileItems at h
  obtain ⟨_, _, h⟩ := ok_of_bind h
  obtain ⟨_, _, h⟩ := ok_of_bind h
  obtain ⟨functions, hfunctions, h⟩ := ok_of_bind h
  cases h
  unfold sourceAccesses
  rw [hparse]
  exact accessInstrs_functions _ _ (forall₂_of_mapM hfunctions)

theorem compile_guarded {m : Module} (h : compile order deps natives config parse source = .ok m) :
    ∀ a ∈ sourceAccesses order deps natives config parse source,
      a.Guarded (sourceChecker order deps natives parse source) (declaredStructs parse source) := by
  obtain ⟨⟨items, name, uses⟩, hparse, h⟩ := ok_of_bind h
  unfold compileItems at h
  obtain ⟨_, _, h⟩ := ok_of_bind h
  obtain ⟨_, hcheck, h⟩ := ok_of_bind h
  obtain ⟨functions, hfunctions, h⟩ := ok_of_bind h
  intro a ha
  unfold sourceChecker declaredStructs
  unfold sourceAccesses at ha
  rw [hparse] at ha ⊢
  obtain ⟨f, hf, ha⟩ := List.mem_flatMap.mp ha
  obtain ⟨func, hfunc⟩ := exists_of_mapM hfunctions hf
  have hguarded := functionAccesses_guarded (CheckInput.declares _) hfunc
    (forM_eq_ok.mp hcheck f hf) a ha
  exact ⟨fun hread => staysIn_forFunction _ f _ _ _ ▸ hguarded.read hread, hguarded.write⟩

/-- The variable of an assignment is of this module, so the rest of the path decides. -/
theorem inModule_write {a : Access} (htracked : a.Tracked) (hwrite : a.isWrite = true)
    (hguarded : a.Guarded (sourceChecker order deps natives parse source)
      (declaredStructs parse source)) :
    InModule order deps natives parse source a ↔
      TailInModule order deps natives parse source a := by
  obtain ⟨hrecorded, name, hchecked, hdeclared⟩ := hguarded.write hwrite
  have hheld : a.held = some (.struct name) := htracked.checked.symm.trans hchecked
  have hplain : isQualified name = false := by
    by_contra hqualified
    have hcross : a.held.any isCrossModule = true := by
      rw [hheld]
      exact Bool.not_eq_false _ ▸ hqualified
    rw [htracked.recorded hwrite hcross] at hrecorded
    cases hrecorded
  have hmem := List.contains_iff_mem.mpr (hdeclared hplain)
  unfold InModule TailInModule
  rw [hheld]
  cases a.path with
  | nil => exact Iff.rfl
  | cons field path =>
    rw [TypeChecker.staysIn, hmem, Bool.true_and]
    exact Iff.rfl

end Modules

instance (order : MapOrder) (deps : List (Address × Module)) (natives : List NativeSig)
    (parse : ItemParser) (source : String) (a : Access) :
    Decidable (InModule order deps natives parse source a) :=
  inferInstanceAs (Decidable (_ = true))

instance (order : MapOrder) (deps : List (Address × Module)) (natives : List NativeSig)
    (parse : ItemParser) (source : String) (a : Access) :
    Decidable (TailInModule order deps natives parse source a) :=
  inferInstanceAs (Decidable (_ = true))

/-! ## An object with an id -/

namespace Tagged

/-- `make` returns a new id and a number. -/
def idModule : Module where
  name := "ids"
  imports := []
  structs := [{ name := "Id", fields := [⟨"inner", .address⟩], isPublic := true }]
  functions := [{
    name := "make"
    isPublic := true
    params := []
    returnType := some (.tuple [.struct "Id", .u64])
    localCount := 0
    code := [.pushAddress 2, .newStruct "Id" ["inner"], .pushU64 0, .makeTuple 2, .ret] }]

def deps : List (Address × Module) := [(Address.suffixed 0x10, idModule)]

def idType : Ty := .struct "ids::Id"

def tagType : Ty := .struct "Tag"

def items (fields : List (String × Ty)) (f : AstFunction) : List AstItem :=
  [.moduleDecl "tagged", .use "ids" (Address.suffixed 0x10) none, .struct ⟨true, "Tag", fields⟩,
    .fn f]

def tagFields : List (String × Ty) := [("id", idType), ("n", .u64)]

def counts : String :=
  "mod tagged; use ids@0x10; pub struct Tag \x7b id: ids::Id, n: u64 \x7d"
    ++ " pub fn f(t: Tag) -> Tag \x7b t.n = t.n + 1; return t; \x7d"

def countsItems : List AstItem := items tagFields ⟨true, "f", [("t", tagType)], some tagType, [
  .fieldAssign "t" "n" [] (.binOp (.fieldAccess (.ident "t") "n") .add (.int 1)),
  .return_ (some (.ident "t"))]⟩

def forges : String :=
  "mod tagged; use ids@0x10; pub struct Tag \x7b id: ids::Id, n: u64 \x7d"
    ++ " pub fn g(t: Tag) -> Tag \x7b t.id.inner = @0x01; return t; \x7d"

def forgesItems : List AstItem := items tagFields ⟨true, "g", [("t", tagType)], some tagType, [
  .fieldAssign "t" "id" ["inner"] (.address 1),
  .return_ (some (.ident "t"))]⟩

def unpacks : String :=
  "mod tagged; use ids@0x10; pub struct Tag \x7b id: ids::Id, n: u64 \x7d"
    ++ " pub fn h() -> ids::Id \x7b let (i, n) = ids::make(); i.inner = @0x01; return i; \x7d"

def unpacksItems : List AstItem := items tagFields ⟨true, "h", [], some idType, [
  .letTuple ["i", "n"] (.call "ids::make" []),
  .fieldAssign "i" "inner" [] (.address 1),
  .return_ (some (.ident "i"))]⟩

/-- A repeated parameter: slot 2, which the code takes for `t`, has the argument `i`. -/
def repeats : String :=
  "mod tagged; use ids@0x10; pub struct Tag \x7b inner: address \x7d"
    ++ " pub fn r(a: u64, a: u64, i: ids::Id, t: Tag, c: u64) -> (address, ids::Id, Tag)"
    ++ " \x7b let y = t.inner; return (y, i, t); \x7d"

def repeatsItems : List AstItem := items [("inner", .address)] ⟨true, "r",
  [("a", .u64), ("a", .u64), ("i", idType), ("t", tagType), ("c", .u64)],
  some (.tuple [.address, idType, tagType]), [
  .let_ "y" (.fieldAccess (.ident "t") "inner"),
  .return_ (some (.tuple [.ident "y", .ident "i", .ident "t"]))]⟩

def parse : ItemParser :=
  tableParser [(counts, countsItems), (forges, forgesItems), (unpacks, unpacksItems),
    (repeats, repeatsItems)]

def compiled (source : String) : Result Module := compile declarationOrder deps [] {} parse source

abbrev Private (source : String) (m : Module) : Prop :=
  FieldsPrivate declarationOrder deps [] {} parse source m

def accesses (source : String) : List Access :=
  sourceAccesses declarationOrder deps [] {} parse source

/-- The source is accepted, and the code has an instruction that leaves the module. -/
theorem leaks {source : String} {instr : Instruction} (h : (compiled source).isOk = true ∧
      instr ∈ (accesses source).map (·.instr) ∧
      ¬∀ a ∈ accesses source, InModule declarationOrder deps [] parse source a) :
    ∃ m, compiled source = .ok m ∧ instr ∈ m.functions.flatMap (·.code) ∧ ¬Private source m := by
  obtain ⟨hok, hinstr, hleaves⟩ := h
  obtain ⟨m, hm⟩ := exists_of_isOk hok
  refine ⟨m, hm, ?_, fun hprivate => hleaves hprivate.inModule⟩
  have hmem : instr ∈ accessInstrs (m.functions.flatMap (·.code)) :=
    (compile_accessInstrs hm).symm ▸ hinstr
  exact (List.mem_filter.mp hmem).1

end Tagged

end MeowChain.Compiler
