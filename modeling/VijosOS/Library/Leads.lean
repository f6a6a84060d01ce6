import VijosOS.Library.Transition

/-!
# Runs that lead somewhere

A state leads to a property within a number of steps when some run of at most that many labels
ends in a state that has it. A measure that a few steps always lower leads to its zero.
-/

namespace VijosOS.Library

variable {S L : Type*}

def Leads (step : S → L → Option S) (n : Nat) (s : S) (P : S → Prop) : Prop :=
  ∃ ls t, ls.length ≤ n ∧ runSteps step s ls = some t ∧ P t

namespace Leads

variable {step : S → L → Option S} {P Q : S → Prop} {s : S} {m n : Nat}

theorem here (h : P s) : Leads step 0 s P := ⟨[], s, Nat.le_refl 0, rfl, h⟩

theorem cons {t : S} {l : L} (hl : step s l = some t) (h : Leads step n t P) :
    Leads step (n + 1) s P := by
  obtain ⟨ls, u, hlen, hrun, hu⟩ := h
  exact ⟨l :: ls, u, Nat.succ_le_succ hlen, (runSteps_cons step s u l ls).mpr ⟨t, hl, hrun⟩, hu⟩

theorem mono (hmn : m ≤ n) (h : Leads step m s P) : Leads step n s P := by
  obtain ⟨ls, t, hlen, hrun, ht⟩ := h
  exact ⟨ls, t, Nat.le_trans hlen hmn, hrun, ht⟩

theorem imp (h : Leads step n s P) (hPQ : ∀ t, P t → Q t) : Leads step n s Q := by
  obtain ⟨ls, t, hlen, hrun, ht⟩ := h
  exact ⟨ls, t, hlen, hrun, hPQ t ht⟩

/-- What every step keeps still holds where the run ends. -/
theorem keep {I : S → Prop} (hstep : ∀ s l t, I s → step s l = some t → I t) (hs : I s) (h : Leads step n s P) :
    Leads step n s fun t => I t ∧ P t := by
  obtain ⟨ls, t, hlen, hrun, ht⟩ := h
  exact ⟨ls, t, hlen, hrun, runSteps_invariant hstep hs hrun, ht⟩

theorem trans (h : Leads step m s P) (hP : ∀ t, P t → Leads step n t Q) : Leads step (m + n) s Q := by
  obtain ⟨ls, t, hlen, hrun, ht⟩ := h
  obtain ⟨ms, u, hlen', hrun', hu⟩ := hP t ht
  refine ⟨ls ++ ms, u, ?_, ?_, hu⟩
  · rw [List.length_append]
    exact Nat.add_le_add hlen hlen'
  · rw [runSteps_append, hrun, Option.bind_some, hrun']

/-- When `c` steps lower the measure under the invariant, `c` steps a unit bring it to zero. -/
theorem of_measure {I : S → Prop} {μ : S → Nat} {c : Nat}
    (hlower : ∀ s, I s → 0 < μ s → Leads step c s fun t => I t ∧ μ t < μ s) (hs : I s) :
    Leads step (c * μ s) s fun t => I t ∧ μ t = 0 := by
  induction hμ : μ s using Nat.strongRecOn generalizing s with
  | ind k ih =>
    cases k with
    | zero => exact here ⟨hs, hμ⟩
    | succ k =>
      obtain ⟨ls, t, hlen, hrun, ht, hlt⟩ := hlower s hs (by omega)
      have hrest := ih (μ t) (by omega) ht rfl
      have hle : c + c * μ t ≤ c * (k + 1) := by
        rw [Nat.mul_succ, Nat.add_comm]
        exact Nat.add_le_add_right (Nat.mul_le_mul_left c (by omega)) c
      exact mono hle (trans ⟨ls, t, hlen, hrun, rfl⟩ fun u hu => hu ▸ hrest)

end Leads

end VijosOS.Library
