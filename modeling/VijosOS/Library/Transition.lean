import Mathlib.Logic.Basic
import Mathlib.Data.List.Basic

/-!
# Runs of a labelled step function

A system is a partial step function over labels. A run folds it over a list of
labels; an invariant of one step holds of every state a run reaches.
-/

namespace VijosOS.Library

variable {S L : Type*}

/-- Run a partial labelled step over a list of labels, in order. -/
def runSteps (step : S → L → Option S) : S → List L → Option S
  | s, [] => some s
  | s, l :: ls => (step s l).bind fun t => runSteps step t ls

@[simp] theorem runSteps_nil (step : S → L → Option S) (s : S) :
    runSteps step s [] = some s := rfl

theorem runSteps_cons (step : S → L → Option S) (s t : S) (l : L) (ls : List L) :
    runSteps step s (l :: ls) = some t ↔ ∃ u, step s l = some u ∧ runSteps step u ls = some t := by
  simp [runSteps, Option.bind_eq_some_iff]

theorem runSteps_append (step : S → L → Option S) (s : S) (ls ms : List L) :
    runSteps step s (ls ++ ms) = (runSteps step s ls).bind fun t => runSteps step t ms := by
  induction ls generalizing s with
  | nil => rfl
  | cons l ls ih =>
    simp only [List.cons_append, runSteps]
    cases step s l with
    | none => rfl
    | some t => exact ih t

/-- What every enabled step preserves, every run preserves. -/
theorem runSteps_invariant {step : S → L → Option S} {P : S → Prop}
    (hstep : ∀ s l t, P s → step s l = some t → P t)
    {s t : S} {ls : List L} (hs : P s) (hrun : runSteps step s ls = some t) : P t := by
  induction ls generalizing s with
  | nil =>
    cases hrun
    exact hs
  | cons l ls ih =>
    obtain ⟨u, hl, hrest⟩ := (runSteps_cons step s t l ls).mp hrun
    exact ih (hstep s l u hs hl) hrest

/-- Every step of the run is one that `P` allows. -/
def AllSteps (step : S → L → Option S) (P : S → L → Prop) : S → List L → Prop
  | _, [] => True
  | s, l :: ls => P s l ∧ ∀ t, step s l = some t → AllSteps step P t ls

/-- An invariant that only the allowed steps preserve. -/
theorem runSteps_invariant_of_allSteps {step : S → L → Option S} {P : S → L → Prop} {I : S → Prop}
    (hstep : ∀ s l t, I s → P s l → step s l = some t → I t)
    {s t : S} {ls : List L} (hs : I s) (hall : AllSteps step P s ls) (hrun : runSteps step s ls = some t) :
    I t := by
  induction ls generalizing s with
  | nil =>
    cases hrun
    exact hs
  | cons l ls ih =>
    obtain ⟨u, hl, hrest⟩ := (runSteps_cons step s t l ls).mp hrun
    exact ih (hstep s l u hs hall.1 hl) (hall.2 u hl) hrest

instance AllSteps.decidable {step : S → L → Option S} {P : S → L → Prop} [∀ s l, Decidable (P s l)] :
    ∀ s ls, Decidable (AllSteps step P s ls)
  | _, [] => .isTrue trivial
  | s, l :: ls =>
    have : ∀ t, Decidable (AllSteps step P t ls) := fun t => AllSteps.decidable t ls
    inferInstanceAs (Decidable (P s l ∧ ∀ t ∈ step s l, AllSteps step P t ls))

theorem AllSteps.cons {step : S → L → Option S} {P : S → L → Prop} {s t : S} {l : L} {ls : List L}
    (hl : step s l = some t) (hp : P s l) (h : AllSteps step P t ls) : AllSteps step P s (l :: ls) := by
  refine ⟨hp, fun u hu => ?_⟩
  obtain rfl := Option.some.inj (hl.symm.trans hu)
  exact h

theorem AllSteps.append {step : S → L → Option S} {P : S → L → Prop} {s t : S} {ls ms : List L}
    (h : AllSteps step P s ls) (hrun : runSteps step s ls = some t) (ht : AllSteps step P t ms) :
    AllSteps step P s (ls ++ ms) := by
  induction ls generalizing s with
  | nil =>
    cases hrun
    exact ht
  | cons l ls ih =>
    obtain ⟨u, hl, hrest⟩ := (runSteps_cons step s t l ls).mp hrun
    exact .cons hl h.1 (ih (h.2 u hl) hrest)

theorem AllSteps.last {step : S → L → Option S} {P : S → L → Prop} {s t : S} {ls : List L} {l : L}
    (h : AllSteps step P s (ls ++ [l])) (hrun : runSteps step s ls = some t) : P t l := by
  induction ls generalizing s with
  | nil =>
    cases hrun
    exact h.1
  | cons k ls ih =>
    obtain ⟨u, hk, hrest⟩ := (runSteps_cons step s t k ls).mp hrun
    exact ih (h.2 u hk) hrest

/-- Two conditions on steps that agree wherever an invariant holds, which they preserve. -/
theorem allSteps_congr {step : S → L → Option S} {P Q : S → L → Prop} {I : S → Prop}
    (hiff : ∀ s l, I s → (P s l ↔ Q s l)) (hstep : ∀ s l t, I s → P s l → step s l = some t → I t)
    {s : S} {ls : List L} (hs : I s) : AllSteps step P s ls ↔ AllSteps step Q s ls := by
  induction ls generalizing s with
  | nil => exact Iff.rfl
  | cons l ls ih =>
    constructor
    · rintro ⟨hl, hrest⟩
      exact ⟨(hiff s l hs).mp hl, fun t ht => (ih (hstep s l t hs hl ht)).mp (hrest t ht)⟩
    · rintro ⟨hl, hrest⟩
      have hl' := (hiff s l hs).mpr hl
      exact ⟨hl', fun t ht => (ih (hstep s l t hs hl' ht)).mpr (hrest t ht)⟩

/-- The states some run from an initial state ends in. -/
def Reachable (init : S → Prop) (step : S → L → Option S) (t : S) : Prop :=
  ∃ s ls, init s ∧ runSteps step s ls = some t

theorem Reachable.start {init : S → Prop} {step : S → L → Option S} {s : S} (h : init s) :
    Reachable init step s := ⟨s, [], h, rfl⟩

theorem Reachable.next {init : S → Prop} {step : S → L → Option S} {s t : S} {l : L}
    (h : Reachable init step s) (hl : step s l = some t) : Reachable init step t := by
  obtain ⟨u, ls, hu, hrun⟩ := h
  refine ⟨u, ls ++ [l], hu, ?_⟩
  rw [runSteps_append, hrun]
  simp [runSteps, hl]

/-- Invariants of reachable states, by induction on the run. -/
theorem Reachable.invariant {init : S → Prop} {step : S → L → Option S} {P : S → Prop}
    (hinit : ∀ s, init s → P s) (hstep : ∀ s l t, P s → step s l = some t → P t)
    {t : S} (h : Reachable init step t) : P t := by
  obtain ⟨s, ls, hs, hrun⟩ := h
  exact runSteps_invariant hstep (hinit s hs) hrun

end VijosOS.Library
