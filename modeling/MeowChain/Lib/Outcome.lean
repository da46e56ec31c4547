import Mathlib.Data.List.Forall2

/-!
# Outcomes of Rust code

A call returns a value, returns an error, panics at a failed `assert`, `expect` or `unwrap`, or
does not return at all.
-/

set_option autoImplicit false

namespace MeowChain

/-- A `do` block that returns has returned from its first part. -/
theorem ok_of_bind {ε α β : Type} {x : Except ε α} {f : α → Except ε β} {b : β}
    (h : (x >>= f) = .ok b) : ∃ a, x = .ok a ∧ f a = .ok b := by
  cases x with
  | error e => cases h
  | ok a => exact ⟨a, rfl, h⟩

theorem exists_of_isOk {ε α : Type} {x : Except ε α} (h : x.isOk = true) : ∃ a, x = .ok a := by
  cases x with
  | error e => cases h
  | ok a => exact ⟨a, rfl⟩

theorem forM_eq_ok {ε α : Type} {f : α → Except ε Unit} {as : List α} :
    as.forM f = .ok () ↔ ∀ a ∈ as, f a = .ok () := by
  induction as with
  | nil => exact ⟨fun _ => nofun, fun _ => rfl⟩
  | cons a as ih =>
    rw [List.forall_mem_cons, ← ih]
    constructor
    · intro h
      obtain ⟨_, hfirst, hrest⟩ := ok_of_bind h
      exact ⟨hfirst, hrest⟩
    · rintro ⟨hfirst, hrest⟩
      have hbind : (a :: as).forM f = f a >>= fun _ => as.forM f := rfl
      rw [hbind, hfirst]
      exact hrest

theorem forall₂_of_mapM {ε α β : Type} {f : α → Except ε β} {as : List α} {bs : List β}
    (h : as.mapM f = .ok bs) : List.Forall₂ (fun a b => f a = .ok b) as bs := by
  induction as generalizing bs with
  | nil =>
    rw [List.mapM_nil] at h
    cases h
    exact .nil
  | cons a as ih =>
    rw [List.mapM_cons] at h
    obtain ⟨first, hfirst, h⟩ := ok_of_bind h
    obtain ⟨rest, hrest, h⟩ := ok_of_bind h
    cases h
    exact .cons hfirst (ih hrest)

theorem exists_of_mapM {ε α β : Type} {f : α → Except ε β} {as : List α} {bs : List β}
    (h : as.mapM f = .ok bs) {a : α} (ha : a ∈ as) : ∃ b, f a = .ok b := by
  have hall := forall₂_of_mapM h
  clear h
  induction hall with
  | nil => cases ha
  | @cons first b as bs hfirst _ ih =>
    rcases List.mem_cons.mp ha with rfl | ha
    · exact ⟨b, hfirst⟩
    · exact ih ha

inductive Outcome (ε α : Type) where
  | ok (value : α)
  | err (error : ε)
  | panic (message : String)
  | diverge
  deriving DecidableEq

namespace Outcome

variable {ε α β : Type}

def bind (x : Outcome ε α) (f : α → Outcome ε β) : Outcome ε β :=
  match x with
  | .ok a => f a
  | .err e => .err e
  | .panic m => .panic m
  | .diverge => .diverge

instance : Monad (Outcome ε) where
  pure := .ok
  bind := bind

def map (f : α → β) (x : Outcome ε α) : Outcome ε β :=
  x.bind fun a => .ok (f a)

def mapErr {ε' : Type} (f : ε → ε') : Outcome ε α → Outcome ε' α
  | .ok a => .ok a
  | .err e => .err (f e)
  | .panic m => .panic m
  | .diverge => .diverge

def expect (message : String) : Option α → Outcome ε α
  | some a => .ok a
  | none => .panic message

def assert (holds : Bool) (message : String) : Outcome ε Unit :=
  if holds then .ok () else .panic message

/-- `f` applied to each element in turn, up to the first that does not return. -/
def forEach (f : α → Outcome ε β) : List α → Outcome ε (List β)
  | [] => .ok []
  | a :: as => (f a).bind fun b => (forEach f as).bind fun bs => .ok (b :: bs)

/-- A left fold, up to the first step that does not return. -/
def foldl (f : β → α → Outcome ε β) : β → List α → Outcome ε β
  | b, [] => .ok b
  | b, a :: as => (f b a).bind fun b' => foldl f b' as

theorem bind_eq_ok {x : Outcome ε α} {f : α → Outcome ε β} {b : β} :
    x.bind f = .ok b ↔ ∃ a, x = .ok a ∧ f a = .ok b := by
  cases x <;> simp [bind]

theorem map_eq_ok {x : Outcome ε α} {f : α → β} {b : β} :
    x.map f = .ok b ↔ ∃ a, x = .ok a ∧ f a = b := by
  simp [map, bind_eq_ok]

/-- The code comes to an end. -/
def Ends : Outcome ε α → Prop
  | .diverge => False
  | _ => True

theorem ends_iff {x : Outcome ε α} : x.Ends ↔ x ≠ .diverge := by
  cases x <;> simp [Ends]

theorem Ends.ne_diverge {x : Outcome ε α} (h : x.Ends) : x ≠ .diverge :=
  ends_iff.mp h

theorem bind_ends {x : Outcome ε α} {f : α → Outcome ε β} (hx : x.Ends)
    (hf : ∀ a, x = .ok a → (f a).Ends) : (x.bind f).Ends := by
  cases x with
  | ok a => exact hf a rfl
  | diverge => exact hx
  | _ => trivial

theorem expect_ends {message : String} {x : Option α} : (expect (ε := ε) message x).Ends := by
  cases x <;> trivial

theorem forEach_ends {f : α → Outcome ε β} (h : ∀ a, (f a).Ends) (as : List α) :
    (forEach f as).Ends := by
  induction as with
  | nil => trivial
  | cons a as ih => exact bind_ends (h a) fun _ _ => bind_ends ih fun _ _ => trivial

theorem foldl_ends {f : β → α → Outcome ε β} (h : ∀ b a, (f b a).Ends) (b : β) (as : List α) :
    (foldl f b as).Ends := by
  induction as generalizing b with
  | nil => trivial
  | cons a as ih => exact bind_ends (h b a) fun _ _ => ih _

theorem mapErr_eq_ok {ε' : Type} {x : Outcome ε α} {f : ε → ε'} {a : α} :
    x.mapErr f = .ok a ↔ x = .ok a := by
  cases x <;> simp [mapErr]

theorem bind_eq_err {x : Outcome ε α} {f : α → Outcome ε β} {e : ε} :
    x.bind f = .err e ↔ x = .err e ∨ ∃ a, x = .ok a ∧ f a = .err e := by
  cases x <;> simp [Outcome.bind]

theorem expect_ne_err {message : String} {x : Option α} {e : ε} : expect message x ≠ .err e := by
  cases x <;> simp [expect]

theorem expect_eq_ok {message : String} {x : Option α} {a : α} :
    expect (ε := ε) message x = .ok a ↔ x = some a := by
  cases x <;> simp [expect]

theorem mem_forEach {f : α → Outcome ε β} {as : List α} {bs : List β}
    (h : forEach f as = .ok bs) {b : β} (hb : b ∈ bs) : ∃ a ∈ as, f a = .ok b := by
  induction as generalizing bs with
  | nil =>
    cases h
    cases hb
  | cons a as ih =>
    obtain ⟨first, hfirst, h⟩ := bind_eq_ok.mp h
    obtain ⟨rest, hrest, h⟩ := bind_eq_ok.mp h
    cases h
    rcases List.mem_cons.mp hb with rfl | hb
    · exact ⟨a, List.mem_cons_self, hfirst⟩
    · obtain ⟨a', ha', hf⟩ := ih hrest hb
      exact ⟨a', List.mem_cons_of_mem _ ha', hf⟩

theorem exists_forEach {f : α → Outcome ε β} {as : List α} {R : α → β → Prop}
    (h : ∀ a ∈ as, ∃ b, f a = .ok b ∧ R a b) :
    ∃ bs, forEach f as = .ok bs ∧ List.Forall₂ R as bs := by
  induction as with
  | nil => exact ⟨[], rfl, .nil⟩
  | cons a as ih =>
    obtain ⟨b, hb, hab⟩ := h a List.mem_cons_self
    obtain ⟨bs, hbs, hrest⟩ := ih fun a' ha' => h a' (List.mem_cons_of_mem _ ha')
    refine ⟨b :: bs, ?_, .cons hab hrest⟩
    rw [forEach, hb, bind, hbs]
    rfl

theorem mapErr_bind {ε' : Type} (x : Outcome ε α) (g : α → Outcome ε β) (f : ε → ε') :
    (x.bind g).mapErr f = (x.mapErr f).bind fun a => (g a).mapErr f := by
  cases x <;> rfl

theorem mapErr_foldl {ε' : Type} (g : β → α → Outcome ε β) (f : ε → ε') (b : β) (xs : List α) :
    (foldl g b xs).mapErr f = foldl (fun b a => (g b a).mapErr f) b xs := by
  induction xs generalizing b with
  | nil => rfl
  | cons x xs ih => simp only [foldl, mapErr_bind, ih]

def isOkAnd (p : α → Bool) : Outcome ε α → Bool
  | .ok a => p a
  | _ => false

theorem exists_of_isOkAnd {p : α → Bool} {x : Outcome ε α} (h : x.isOkAnd p = true) :
    ∃ a, x = .ok a ∧ p a = true := by
  cases x with
  | ok a => exact ⟨a, rfl, h⟩
  | err e => cases h
  | panic m => cases h
  | diverge => cases h

def error? : Outcome ε α → Option ε
  | .err e => some e
  | _ => none

theorem error?_eq_some {x : Outcome ε α} {e : ε} : x.error? = some e ↔ x = .err e := by
  cases x <;> simp [error?]

end Outcome
end MeowChain
