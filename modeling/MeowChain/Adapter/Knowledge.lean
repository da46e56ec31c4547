import MeowChain.Adapter.Paths

/-!
# What the adapter knows of values

The adapter tags a value by its type and knows the marks that all paths agree on, as long as it is in
step. Nothing is said of values that may be copied and dropped: no check depends on them.
-/

set_option autoImplicit false

namespace MeowChain.Adapter

open Verifier (Scope AbstractState AbstractType SlotState fromType)

/-! ## What a slot knows -/

def Slot.knows (slot : Slot) : Mark → Bool
  | .freshId => slot.fresh == .id
  | .tuple => slot.tuple.isSome
  | .other => true

/-- What the slot does not know of the value at a place, some path does not tell either. -/
def Explained (paths : PathState → Prop) (place : PathState → Option Mark) (slot : Slot) : Prop :=
  ∀ mark, slot.knows mark = false → ∃ x, paths x ∧ place x ≠ some mark

def After (step : PathState → PathState) (paths : PathState → Prop) (y : PathState) : Prop :=
  ∃ x, paths x ∧ step x = y

theorem Explained.mono {paths paths' : PathState → Prop} {place : PathState → Option Mark}
    {slot : Slot} (h : Explained paths place slot) (hsub : ∀ x, paths x → paths' x) :
    Explained paths' place slot := by
  intro mark hmark
  obtain ⟨x, hx, hne⟩ := h mark hmark
  exact ⟨x, hsub x hx, hne⟩

theorem Explained.after {paths : PathState → Prop} {place place' : PathState → Option Mark}
    {slot : Slot} {step : PathState → PathState} (h : Explained paths place slot)
    (hplace : ∀ x mark, mark ≠ .other → place' (step x) = some mark → place x = some mark) :
    Explained (After step paths) place' slot := by
  intro mark hmark
  have hother : mark ≠ .other := by
    rintro rfl
    cases hmark
  obtain ⟨x, hx, hne⟩ := h mark hmark
  exact ⟨step x, ⟨x, hx, rfl⟩, fun hplace' => hne (hplace x mark hother hplace')⟩

theorem explained_new {paths : PathState → Prop} {place : PathState → Option Mark} {slot : Slot}
    {mark : Mark} {x : PathState} (hx : paths x) (hplace : place x = some mark)
    (hknows : slot.knows mark = true) : Explained paths place slot := by
  intro mark' hmark'
  refine ⟨x, hx, ?_⟩
  rw [hplace]
  rintro heq
  obtain rfl := Option.some.inj heq
  exact absurd (hknows.symm.trans hmark') (by simp)

/-! ## What a slot says of the type -/

def typeClass (sc : Scope) : AbstractType → StructTag
  | .struct name => localStructTag (objects sc) name
  | _ => .other

theorem typeClass_fromType (sc : Scope) (ty : Ty) :
    typeClass sc (fromType ty) = typeTag (objects sc) ty := by
  cases ty <;> rfl

/-- A relation between the tag that a slot has and the one of its type, such that it survives joins
and nothing is said of values without a tag of their own. -/
structure TagLaws (T : StructTag → StructTag → Prop) : Prop where
  refl : ∀ tag, T tag tag
  unclassified : ∀ tag, T tag .other
  merge : ∀ {a b tag}, T a tag → T b tag → T (mergeTag a b) tag

section Describe

variable (T : StructTag → StructTag → Prop) (sc : Scope)

structure Slot.Describes (slot : Slot) (ty : AbstractType) : Prop where
  tag : T slot.tag (typeClass sc ty)
  tuple : ∀ tags, slot.tuple = some tags → ∃ types, ty = .tuple types ∧
    List.Forall₂ T tags (types.map (typeClass sc))

/-- The slots describe the values of linear types and know of them what the paths tell. -/
structure Known (paths : PathState → Prop) (marks : PathState → List Mark) (slots : List Slot)
    (types : List SlotState) : Prop where
  length : slots.length = types.length
  described : ∀ (i : ℕ) (slot : Slot) (ty : AbstractType), slots[i]? = some slot →
    types[i]? = some (SlotState.live ty) → ty.isLinear = true → slot.Describes T sc ty
  explained : ∀ (i : ℕ) (slot : Slot) (ty : AbstractType), slots[i]? = some slot →
    types[i]? = some (SlotState.live ty) → ty.isLinear = true →
    Explained paths (fun x => (marks x)[i]?) slot

end Describe

section Known

variable {T : StructTag → StructTag → Prop} {sc : Scope} {paths paths' : PathState → Prop}
  {marks marks' : PathState → List Mark} {slots slots' : List Slot} {types types' : List SlotState}

theorem Known.nil : Known T sc paths marks [] [] where
  length := rfl
  described i slot ty hslot := by cases hslot
  explained i slot ty hslot := by cases hslot

theorem Known.mono (h : Known T sc paths marks slots types) (hsub : ∀ x, paths x → paths' x) :
    Known T sc paths' marks slots types where
  length := h.length
  described := h.described
  explained i slot ty hslot hty hlinear := (h.explained i slot ty hslot hty hlinear).mono hsub

theorem Known.kill (h : Known T sc paths marks slots types)
    (htypes : List.Forall₂ (fun a b => a = b ∨ b = SlotState.dead) types types') :
    Known T sc paths marks slots types' := by
  have hlive : ∀ {i : ℕ} {ty : AbstractType}, types'[i]? = some (SlotState.live ty) →
      types[i]? = some (SlotState.live ty) := by
    intro i ty hty
    obtain ⟨a, ha, hle⟩ := forall₂_getElem? htypes hty
    rcases hle with rfl | hdead
    · exact ha
    · cases hdead
  exact ⟨h.length.trans htypes.length_eq,
    fun i slot ty hslot hty => h.described i slot ty hslot (hlive hty),
    fun i slot ty hslot hty => h.explained i slot ty hslot (hlive hty)⟩

theorem Known.after (h : Known T sc paths marks slots types) {step : PathState → PathState}
    (hmarks : ∀ x, marks' (step x) = marks x) : Known T sc (After step paths) marks' slots types where
  length := h.length
  described := h.described
  explained i slot ty hslot hty hlinear := by
    refine (h.explained i slot ty hslot hty hlinear).after fun x mark _ hmark => ?_
    rwa [hmarks] at hmark

theorem Known.drop (h : Known T sc paths marks slots types) (k : ℕ) :
    Known T sc paths (fun x => (marks x).drop k) (slots.drop k) (types.drop k) where
  length := by rw [List.length_drop, List.length_drop, h.length]
  described i slot ty hslot hty := by
    rw [List.getElem?_drop] at hslot hty
    exact h.described _ slot ty hslot hty
  explained i slot ty hslot hty hlinear := by
    rw [List.getElem?_drop] at hslot hty
    simpa only [List.getElem?_drop] using h.explained _ slot ty hslot hty hlinear

theorem Known.append (h : Known T sc paths marks slots types) (hpath : ∃ x, paths x)
    {us : List Slot} {tys : List AbstractType} {ms : List Mark} {step : PathState → PathState}
    (htypes : List.Forall₂ (fun slot ty => ty.isLinear = true → Slot.Describes T sc slot ty) us tys)
    (hknows : List.Forall₂ (fun slot mark => Slot.knows slot mark = true) us ms)
    (hmarks : ∀ x, marks' (step x) = ms ++ marks x) :
    Known T sc (After step paths) marks' (us ++ slots) (tys.map .live ++ types) := by
  have hlen : us.length = tys.length := htypes.length_eq
  have hlen' : us.length = ms.length := hknows.length_eq
  refine ⟨by simp [hlen, h.length], fun i slot ty hslot hty hlinear => ?_,
    fun i slot ty hslot hty hlinear => ?_⟩
  · by_cases hi : i < us.length
    · rw [List.getElem?_append_left hi] at hslot
      rw [List.getElem?_append_left (by simpa using hlen ▸ hi), List.getElem?_map,
        Option.map_eq_some_iff] at hty
      obtain ⟨ty', hty', heq⟩ := hty
      obtain rfl := SlotState.live.inj heq
      obtain ⟨slot', hslot', hdescribes⟩ := forall₂_getElem? htypes hty'
      obtain rfl := Option.some.inj (hslot.symm.trans hslot')
      exact hdescribes hlinear
    · have hi' := Nat.le_of_not_lt hi
      rw [List.getElem?_append_right hi'] at hslot
      rw [List.getElem?_append_right (by simpa using hlen ▸ hi'), List.length_map, ← hlen] at hty
      exact h.described _ slot ty hslot hty hlinear
  · by_cases hi : i < us.length
    · rw [List.getElem?_append_left hi] at hslot
      obtain ⟨mark, hmark, hknows'⟩ := forall₂_getElem? hknows.flip hslot
      obtain ⟨x, hx⟩ := hpath
      refine explained_new ⟨x, hx, rfl⟩ ?_ hknows'
      rw [hmarks, List.getElem?_append_left (hlen' ▸ hi), hmark]
    · have hi' := Nat.le_of_not_lt hi
      rw [List.getElem?_append_right hi'] at hslot
      rw [List.getElem?_append_right (by simpa using hlen ▸ hi'), List.length_map, ← hlen] at hty
      refine (h.explained _ slot ty hslot hty hlinear).after fun x mark _ hmark => ?_
      rwa [hmarks, List.getElem?_append_right (hlen' ▸ hi'), ← hlen'] at hmark

theorem Explained.moved {place : PathState → Option Mark} {place' : PathState → Option Mark}
    {slot : Slot} {step : PathState → PathState} (h : Explained paths place slot)
    (hplace : ∀ x mark, place' (step x) = some mark → (place x).getD .other = mark) :
    Explained (After step paths) place' slot := by
  refine h.after fun x mark hother hmark => ?_
  have hget := hplace x mark hmark
  cases hx : place x with
  | none =>
    rw [hx] at hget
    exact absurd hget.symm hother
  | some mark' =>
    rw [hx] at hget
    exact congrArg some hget

theorem Known.cons (h : Known T sc paths marks slots types) {slot : Slot} {ty : AbstractType}
    (place : PathState → Option Mark) {step : PathState → PathState}
    (hslot : ty.isLinear = true → slot.Describes T sc ty)
    (hplace : ty.isLinear = true → Explained paths place slot)
    (hmarks : ∀ x, marks' (step x) = (place x).getD .other :: marks x) :
    Known T sc (After step paths) marks' (slot :: slots) (.live ty :: types) where
  length := congrArg (· + 1) h.length
  described i slot' ty' hslot' hty' hlinear := by
    cases i with
    | zero =>
      obtain rfl : slot = slot' := by simpa using hslot'
      obtain rfl : ty = ty' := by simpa using hty'
      exact hslot hlinear
    | succ i => exact h.described i slot' ty' (by simpa using hslot') (by simpa using hty') hlinear
  explained i slot' ty' hslot' hty' hlinear := by
    cases i with
    | zero =>
      obtain rfl : slot = slot' := by simpa using hslot'
      obtain rfl : ty = ty' := by simpa using hty'
      refine (hplace hlinear).moved fun x mark hmark => ?_
      rwa [hmarks, List.getElem?_cons_zero, Option.some.injEq] at hmark
    | succ i =>
      refine (h.explained i slot' ty' (by simpa using hslot') (by simpa using hty') hlinear).after
        fun x mark _ hmark => ?_
      rwa [hmarks, List.getElem?_cons_succ] at hmark

theorem Known.set (h : Known T sc paths marks slots types) {i : ℕ} {slot : Slot}
    {ty : AbstractType} (place : PathState → Option Mark) {step : PathState → PathState}
    (hslot : ty.isLinear = true → slot.Describes T sc ty)
    (hplace : ty.isLinear = true → Explained paths place slot)
    (hmarks : ∀ x, marks' (step x) = (marks x).set i ((place x).getD .other)) :
    Known T sc (After step paths) marks' (slots.set i slot) (types.set i (.live ty)) := by
  refine ⟨by simp [h.length], fun j slot' ty' hslot' hty' hlinear => ?_,
    fun j slot' ty' hslot' hty' hlinear => ?_⟩
  · by_cases hij : i = j
    · subst hij
      obtain ⟨-, rfl⟩ : i < slots.length ∧ slot = slot' := by
        simpa [List.getElem?_set] using hslot'
      obtain ⟨-, rfl⟩ : i < types.length ∧ ty = ty' := by simpa [List.getElem?_set] using hty'
      exact hslot hlinear
    · rw [List.getElem?_set_ne hij] at hslot' hty'
      exact h.described j slot' ty' hslot' hty' hlinear
  · by_cases hij : i = j
    · subst hij
      obtain ⟨-, rfl⟩ : i < slots.length ∧ slot = slot' := by
        simpa [List.getElem?_set] using hslot'
      obtain ⟨-, rfl⟩ : i < types.length ∧ ty = ty' := by simpa [List.getElem?_set] using hty'
      refine (hplace hlinear).moved fun x mark hmark => ?_
      obtain ⟨-, hget⟩ : i < (marks x).length ∧ (place x).getD .other = mark := by
        simpa [hmarks, List.getElem?_set] using hmark
      exact hget
    · rw [List.getElem?_set_ne hij] at hslot' hty'
      refine (h.explained j slot' ty' hslot' hty' hlinear).after fun x mark _ hmark => ?_
      rwa [hmarks, List.getElem?_set_ne hij] at hmark

/-! ### Joins -/

theorem knows_mergeSlot {a b : Slot} {mark : Mark}
    (htuples : ∀ as bs, a.tuple = some as → b.tuple = some bs → as.length = bs.length)
    (h : (mergeSlot a b).knows mark = false) : a.knows mark = false ∨ b.knows mark = false := by
  cases mark with
  | other => cases h
  | freshId =>
    by_cases hb : b.fresh = .id
    · simp only [Slot.knows, mergeSlot, if_pos hb] at h
      exact .inl h
    · exact .inr (by simpa [Slot.knows] using hb)
  | tuple =>
    simp only [Slot.knows, mergeSlot] at h ⊢
    cases ha : a.tuple with
    | none => exact .inl rfl
    | some as =>
      cases hb : b.tuple with
      | none => exact .inr rfl
      | some bs =>
        rw [ha, hb, mergeTuple, if_pos (htuples as bs ha hb)] at h
        cases h

theorem Slot.Describes.tuples {a b : Slot} {ty : AbstractType} (ha : a.Describes T sc ty)
    (hb : b.Describes T sc ty) (as bs : List StructTag) (has : a.tuple = some as)
    (hbs : b.tuple = some bs) : as.length = bs.length := by
  obtain ⟨types, rfl, htypes⟩ := ha.tuple as has
  obtain ⟨types', heq, htypes'⟩ := hb.tuple bs hbs
  obtain rfl := AbstractType.tuple.inj heq
  exact htypes.length_eq.trans htypes'.length_eq.symm

theorem Slot.Describes.merge (hT : TagLaws T) {a b : Slot} {ty : AbstractType}
    (ha : a.Describes T sc ty) (hb : b.Describes T sc ty) :
    (mergeSlot a b).Describes T sc ty where
  tag := hT.merge ha.tag hb.tag
  tuple tags h := by
    simp only [mergeSlot] at h
    cases has : a.tuple with
    | none =>
      rw [has] at h
      cases h
    | some as =>
      cases hbs : b.tuple with
      | none =>
        rw [has, hbs] at h
        cases h
      | some bs =>
        rw [has, hbs, mergeTuple, if_pos (ha.tuples hb as bs has hbs)] at h
        obtain rfl := Option.some.inj h
        obtain ⟨types, rfl, htypes⟩ := ha.tuple as has
        obtain ⟨types', heq, htypes'⟩ := hb.tuple bs hbs
        obtain rfl := AbstractType.tuple.inj heq
        exact ⟨types, rfl, forall₂_zipWith (fun h h' => hT.merge h h') htypes htypes'⟩

/-- What the join of two slots does not know, one of them does not know. -/
theorem Known.merge (hT : TagLaws T) (h : Known T sc paths marks slots types)
    (h' : Known T sc paths marks slots' types) :
    Known T sc paths marks (List.zipWith mergeSlot slots slots') types := by
  refine ⟨by simp [h.length, h'.length], fun i slot ty hslot hty hlinear => ?_,
    fun i slot ty hslot hty hlinear mark hmark => ?_⟩
  · obtain ⟨a, b, ha, hb, rfl⟩ := List.getElem?_zipWith_eq_some.mp hslot
    exact (h.described i a ty ha hty hlinear).merge hT (h'.described i b ty hb hty hlinear)
  · obtain ⟨a, b, ha, hb, rfl⟩ := List.getElem?_zipWith_eq_some.mp hslot
    have htuples := (h.described i a ty ha hty hlinear).tuples (h'.described i b ty hb hty hlinear)
    rcases knows_mergeSlot htuples hmark with hmark | hmark
    · exact h.explained i a ty ha hty hlinear mark hmark
    · exact h'.explained i b ty hb hty hlinear mark hmark

end Known

/-! ## States -/

section States

variable (T : StructTag → StructTag → Prop) (sc : Scope) (paths : PathState → Prop)
  (s : VerifyState) (t : AbstractState)

abbrev LocalsKnown : Prop :=
  Known T sc paths PathState.locals s.locals t.locals

/-- What is below the top `k` values is known. -/
abbrev StackKnown (k : ℕ) : Prop :=
  Known T sc paths (fun x => x.stack.drop k) (s.stack.drop k) ((t.stack.drop k).map .live)

structure Matches : Prop where
  inhabited : ∃ x, paths x
  locals : LocalsKnown T sc paths s t
  stack : StackKnown T sc paths s t 0

/-- Some path is out of step. The adapter has no more values than the machine. -/
structure Lost : Prop where
  outOfStep : ∃ x, paths x ∧ x.inStep = false
  locals : LocalsKnown T sc paths s t
  height : s.stack.length ≤ t.stack.length

def Followed : Prop :=
  Matches T sc paths s t ∨ Lost T sc paths s t

end States

section Followed

variable {T : StructTag → StructTag → Prop} {sc : Scope} {paths paths' : PathState → Prop}
  {s s' : VerifyState} {t t' : AbstractState}

theorem StackKnown.length (h : StackKnown T sc paths s t 0) : s.stack.length = t.stack.length := by
  simpa using Known.length h

theorem StackKnown.described (h : StackKnown T sc paths s t 0) {i : ℕ} {slot : Slot}
    {ty : AbstractType} (hslot : s.stack[i]? = some slot) (hty : t.stack[i]? = some ty)
    (hlinear : ty.isLinear = true) : slot.Describes T sc ty :=
  Known.described h i slot ty hslot (by simp [hty]) hlinear

theorem StackKnown.explained (h : StackKnown T sc paths s t 0) {i : ℕ} {slot : Slot}
    {ty : AbstractType} (hslot : s.stack[i]? = some slot) (hty : t.stack[i]? = some ty)
    (hlinear : ty.isLinear = true) : Explained paths (fun x => x.stack[i]?) slot :=
  Known.explained h i slot ty hslot (by simp [hty]) hlinear

theorem typeClass_of_not_isLinear {ty : AbstractType} (h : ty.isLinear = false) :
    typeClass sc ty = .other := by
  cases ty with
  | struct name => cases h
  | _ => rfl

theorem StackKnown.tags (h : StackKnown T sc paths s t 0) (hT : TagLaws T) :
    List.Forall₂ (fun slot ty => T slot.tag (typeClass sc ty)) s.stack t.stack := by
  refine List.forall₂_iff_get.mpr ⟨h.length, fun i hi hi' => ?_⟩
  by_cases hlinear : t.stack[i].isLinear = true
  · exact (h.described (List.getElem?_eq_getElem hi) (List.getElem?_eq_getElem hi') hlinear).tag
  · have hclass : typeClass sc (t.stack.get ⟨i, hi'⟩) = .other :=
      typeClass_of_not_isLinear (by simpa using hlinear)
    rw [hclass]
    exact hT.unclassified _

theorem StackKnown.below (h : StackKnown T sc paths s t 0) (k : ℕ) :
    StackKnown T sc paths s t k := by
  rw [StackKnown, List.map_drop]
  exact Known.drop h k

theorem stackKnown_of_height {k : ℕ} (h : s.stack.length ≤ t.stack.length)
    (hk : t.stack.length ≤ k) : StackKnown T sc paths s t k := by
  rw [StackKnown, List.drop_eq_nil_of_le (h.trans hk), List.drop_eq_nil_of_le hk]
  exact Known.nil

theorem kept_or_dead (hle : t.le t') :
    List.Forall₂ (fun a b => a = b ∨ b = SlotState.dead) t.locals t'.locals :=
  hle.2.imp fun _ _ hslot => hslot.imp_right (·.1)

theorem Matches.mono (h : Matches T sc paths s t) (hsub : ∀ x, paths x → paths' x)
    (hle : t.le t') : Matches T sc paths' s t' where
  inhabited := h.inhabited.imp hsub
  locals := (h.locals.mono hsub).kill (kept_or_dead hle)
  stack := by
    rw [StackKnown, ← hle.1]
    exact h.stack.mono hsub

theorem Lost.mono (h : Lost T sc paths s t) (hsub : ∀ x, paths x → paths' x) (hle : t.le t') :
    Lost T sc paths' s t' where
  outOfStep := h.outOfStep.imp fun x hx => ⟨hsub x hx.1, hx.2⟩
  locals := (h.locals.mono hsub).kill (kept_or_dead hle)
  height := hle.1 ▸ h.height

theorem Followed.mono (h : Followed T sc paths s t) (hsub : ∀ x, paths x → paths' x)
    (hle : t.le t') : Followed T sc paths' s t' :=
  h.imp (·.mono hsub hle) (·.mono hsub hle)

theorem Followed.of_state (h : Followed T sc paths s t) (hstack : s'.stack = s.stack)
    (hlocals : s'.locals = s.locals) : Followed T sc paths s' t := by
  obtain ⟨stack, locals, reachable⟩ := s
  obtain ⟨stack', locals', reachable'⟩ := s'
  obtain rfl : stack' = stack := hstack
  obtain rfl : locals' = locals := hlocals
  rcases h with h | h
  · exact .inl ⟨h.inhabited, h.locals, h.stack⟩
  · exact .inr ⟨h.outOfStep, h.locals, h.height⟩

theorem Followed.locals (h : Followed T sc paths s t) : LocalsKnown T sc paths s t := by
  rcases h with h | h
  · exact h.locals
  · exact h.locals

theorem Followed.height (h : Followed T sc paths s t) : s.stack.length ≤ t.stack.length := by
  rcases h with h | h
  · exact h.stack.length.le
  · exact h.height

theorem Followed.merge (hT : TagLaws T) (h : Followed T sc paths s t)
    (h' : Followed T sc paths s' t) : Followed T sc paths (mergeFrom s s') t := by
  have hlocals : LocalsKnown T sc paths (mergeFrom s s') t := by
    rw [LocalsKnown, show (mergeFrom s s').locals = List.zipWith mergeSlot s.locals s'.locals from
      mergeLocals_eq_zipWith (h.locals.length.trans h'.locals.length.symm)]
    exact h.locals.merge hT h'.locals
  have hheight : (mergeFrom s s').stack.length ≤ t.stack.length := by
    rw [length_mergeFrom]
    exact (Nat.min_le_left _ _).trans h.height
  rcases h with h | h
  · rcases h' with h' | h'
    · refine .inl ⟨h.inhabited, hlocals, ?_⟩
      have hlen := h.stack.length.trans h'.stack.length.symm
      have hstack : (mergeFrom s s').stack = List.zipWith mergeSlot s.stack s'.stack := by
        simp only [mergeFrom, hlen, Nat.min_self, Nat.sub_self, List.drop_zero]
      rw [StackKnown, hstack]
      exact Known.merge hT h.stack h'.stack
    · exact .inr ⟨h'.outOfStep, hlocals, hheight⟩
  · exact .inr ⟨h.outOfStep, hlocals, hheight⟩

end Followed

end MeowChain.Adapter
