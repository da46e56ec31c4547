import Mathlib.Logic.Relation
import MeowChain.Lib.Outcome

/-!
# Runs of a transition system

A run is a chain of steps each of which starts in a state that meets a guard; with the trivial
guard it is any run.
-/

set_option autoImplicit false

namespace MeowChain

variable {S E : Type} {Guard : S → Prop} {Step : S → S → Prop}

def GuardedRun (Guard : S → Prop) (Step : S → S → Prop) : S → S → Prop :=
  Relation.ReflTransGen fun s t => Guard s ∧ Step s t

/-- What every guarded step preserves holds along every guarded run. -/
theorem GuardedRun.invariant {I : S → Prop}
    (hstep : ∀ {s t}, I s → Guard s → Step s t → I t) {s t : S}
    (hrun : GuardedRun Guard Step s t) (hs : I s) : I t := by
  induction hrun with
  | refl => exact hs
  | tail _ h ih => exact hstep ih h.1 h.2

theorem GuardedRun.mono {Guard' : S → Prop} (himp : ∀ s, Guard s → Guard' s) {s t : S}
    (h : GuardedRun Guard Step s t) : GuardedRun Guard' Step s t :=
  Relation.ReflTransGen.mono (fun _ _ hst => ⟨himp _ hst.1, hst.2⟩) _ _ h

def EventRun (Allowed : S → E → Prop) (Moves : S → E → S → Prop) : S → S → Prop :=
  Relation.ReflTransGen fun s t => ∃ e, Allowed s e ∧ Moves s e t

namespace EventRun

variable {Allowed Allowed' : S → E → Prop} {Moves : S → E → S → Prop}

theorem invariant {I : S → Prop} (hstep : ∀ {s t e}, I s → Allowed s e → Moves s e t → I t)
    {s t : S} (hrun : EventRun Allowed Moves s t) (hs : I s) : I t := by
  induction hrun with
  | refl => exact hs
  | tail _ h ih =>
    obtain ⟨e, hallowed, hmoves⟩ := h
    exact hstep ih hallowed hmoves

theorem mono (himp : ∀ s e, Allowed s e → Allowed' s e) {s t : S}
    (h : EventRun Allowed Moves s t) : EventRun Allowed' Moves s t :=
  Relation.ReflTransGen.mono (fun _ _ ⟨e, hallowed, hmoves⟩ => ⟨e, himp _ _ hallowed, hmoves⟩) _ _ h

theorem trans {s t u : S} (h₁ : EventRun Allowed Moves s t) (h₂ : EventRun Allowed Moves t u) :
    EventRun Allowed Moves s u :=
  Relation.ReflTransGen.trans h₁ h₂

def runAll {ε : Type} (allowed : S → E → Bool) (step : S → E → Outcome ε S) (s : S)
    (events : List E) : Outcome ε S :=
  Outcome.foldl (fun s e => if allowed s e then step s e else .panic "not allowed") s events

theorem of_runAll {ε : Type} {allowed : S → E → Bool} {step : S → E → Outcome ε S}
    (hallowed : ∀ s e, allowed s e = true → Allowed s e) {s t : S} {events : List E}
    (h : runAll allowed step s events = .ok t) :
    EventRun Allowed (fun s e t => step s e = .ok t) s t := by
  induction events generalizing s with
  | nil =>
    cases h
    exact .refl
  | cons e events ih =>
    obtain ⟨next, hnext, hrest⟩ := Outcome.bind_eq_ok.mp h
    dsimp only at hnext
    split at hnext
    · exact .head ⟨e, hallowed s e (by assumption), hnext⟩ (ih hrest)
    · cases hnext

end EventRun

/-- Labelled steps one after the other. -/
inductive Trace {L : Type} (Step : L → S → S → Prop) : S → List L → S → Prop where
  | nil {s : S} : Trace Step s [] s
  | cons {s t u : S} {labels : List L} {l : L} (hstep : Step l s t)
      (hrest : Trace Step t labels u) : Trace Step s (l :: labels) u

namespace Trace

variable {L : Type} {Step : L → S → S → Prop} {s t u : S} {labels labels' : List L}

theorem single {l : L} (hstep : Step l s t) : Trace Step s [l] t :=
  .cons hstep .nil

theorem trans (h : Trace Step s labels t) (h' : Trace Step t labels' u) :
    Trace Step s (labels ++ labels') u := by
  induction h with
  | nil => exact h'
  | cons hstep _ ih => exact .cons hstep (ih h')

theorem cut (h : Trace Step s (labels ++ labels') u) :
    ∃ t, Trace Step s labels t ∧ Trace Step t labels' u := by
  induction labels generalizing s with
  | nil => exact ⟨s, .nil, h⟩
  | cons l labels ih =>
    cases h with
    | cons hstep hrest =>
      obtain ⟨t, h₁, h₂⟩ := ih hrest
      exact ⟨t, .cons hstep h₁, h₂⟩

theorem exists_step (h : Trace Step s labels t) {l : L} (hl : l ∈ labels) :
    ∃ t u, Step l t u := by
  induction h with
  | nil => cases hl
  | cons hstep _ ih =>
    rcases List.mem_cons.mp hl with rfl | hl
    · exact ⟨_, _, hstep⟩
    · exact ih hl

theorem guard {G : L → S → Prop} (h : Trace Step s labels t)
    (hguard : ∀ before l after u, labels = before ++ l :: after → Trace Step s before u → G l u) :
    Trace (fun l s t => G l s ∧ Step l s t) s labels t := by
  induction h with
  | nil => exact .nil
  | cons hstep hrest ih =>
    refine .cons ⟨hguard [] _ _ _ rfl .nil, hstep⟩ (ih ?_)
    intro before l after u hsplit hbefore
    exact hguard (_ :: before) l after u (by rw [hsplit]; rfl) (.cons hstep hbefore)

section Invariant

variable {I : S → Prop} (hinvariant : ∀ l s t, I s → Step l s t → I t)
include hinvariant

theorem invariant (h : Trace Step s labels t) (hs : I s) : I t := by
  induction h with
  | nil => exact hs
  | cons hstep _ ih => exact ih (hinvariant _ _ _ hs hstep)

/-- What the steps preserve holds before each of them. -/
theorem strengthen (h : Trace Step s labels t) (hs : I s) :
    Trace (fun l s t => I s ∧ Step l s t) s labels t := by
  induction h with
  | nil => exact .nil
  | cons hstep _ ih => exact .cons ⟨hs, hstep⟩ (ih (hinvariant _ _ _ hs hstep))

end Invariant

end Trace

end MeowChain
