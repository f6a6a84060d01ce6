import Mathlib

/-!
# Run-length listings

The stretches of equal values of a sequence, from left to right, and the scan that lists them while
it goes over the sequence once.
-/

namespace VijosOS.Library

structure Stretch (α : Type) where
  first : Nat
  stop : Nat
  value : α

section Scan

variable {α : Type} [DecidableEq α] (f : Nat → α)

/-- There are `n` indices left from `i` on, and the stretch that is open began at `first`. -/
def stretchesFrom : Nat → Nat → Nat → α → List (Stretch α)
  | 0, i, first, v => [⟨first, i, v⟩]
  | n + 1, i, first, v =>
    if f i ≠ v then ⟨first, i, v⟩ :: stretchesFrom n (i + 1) i (f i) else stretchesFrom n (i + 1) first v

end Scan

/-- The stretches from an index up to `stop`: each is constant and ends where the value changes. -/
inductive Stretches {α : Type} (f : Nat → α) (stop : Nat) : Nat → List (Stretch α) → Prop
  | nil : Stretches f stop stop []
  | cons {a : Nat} {s : Stretch α} {ss : List (Stretch α)} (first : s.first = a) (nonempty : a < s.stop)
      (constant : ∀ i, a ≤ i → i < s.stop → f i = s.value)
      (maximal : s.stop < stop → f s.stop ≠ s.value) (rest : Stretches f stop s.stop ss) :
      Stretches f stop a (s :: ss)

section Stretches

variable {α : Type} {f g : Nat → α}

/-- The scan lists the stretches, given what it has seen of the open one. -/
theorem stretchesFrom_stretches [DecidableEq α] (f : Nat → α) (n i first : Nat) (v : α) (hle : first ≤ i)
    (hopen : first < i ∨ 0 < n ∧ f i = v) (hconst : ∀ j, first ≤ j → j < i → f j = v) :
    Stretches f (i + n) first (stretchesFrom f n i first v) := by
  induction n generalizing i first v with
  | zero =>
    have hlt : first < i := hopen.resolve_right (fun h => Nat.lt_irrefl 0 h.1)
    exact .cons rfl hlt hconst (fun h => absurd h (Nat.lt_irrefl i)) .nil
  | succ n ih =>
    have hnext : i + 1 + n = i + (n + 1) := by omega
    by_cases hchange : f i = v
    · rw [stretchesFrom, if_neg (not_not.mpr hchange), ← hnext]
      refine ih (i + 1) first v (by omega) (Or.inl (by omega)) fun j hj hlt => ?_
      rcases Nat.lt_succ_iff_lt_or_eq.mp hlt with hj' | rfl
      · exact hconst j hj hj'
      · exact hchange
    · have hlt : first < i := hopen.resolve_right (fun h => hchange h.2)
      rw [stretchesFrom, if_pos hchange, ← hnext]
      refine .cons rfl hlt hconst (fun _ => hchange) ?_
      refine ih (i + 1) i (f i) (by omega) (Or.inl (by omega)) fun j hj hj' => ?_
      rw [show j = i by omega]

/-- A listing says which sequence it lists, and how long that is. -/
theorem Stretches.agree {a b c : Nat} {ss : List (Stretch α)} (hf : Stretches f b a ss) (hg : Stretches g c a ss) :
    b = c ∧ ∀ i, a ≤ i → i < b → f i = g i := by
  induction hf with
  | nil =>
    cases hg
    exact ⟨rfl, fun i hi hlt => absurd hlt (Nat.not_lt.mpr hi)⟩
  | @cons a s ss _ _ hconst _ _ ih =>
    cases hg with
    | cons _ _ hconst' _ hrest =>
      obtain ⟨hstop, hsame⟩ := ih hrest
      refine ⟨hstop, fun i hi hlt => ?_⟩
      rcases Nat.lt_or_ge i s.stop with hin | hout
      · rw [hconst i hi hin, hconst' i hi hin]
      · exact hsame i hout hlt

theorem Stretches.le {a b : Nat} {ss : List (Stretch α)} (h : Stretches f b a ss) : a ≤ b := by
  induction h with
  | nil => exact le_refl b
  | cons _ hlt _ _ _ ih => exact hlt.le.trans ih

theorem Stretches.bounded {a b : Nat} {ss : List (Stretch α)} (h : Stretches f b a ss) :
    ∀ s ∈ ss, s.first < s.stop ∧ s.stop ≤ b := by
  induction h with
  | nil => exact fun s hs => absurd hs List.not_mem_nil
  | cons hfirst hlt _ _ hrest ih =>
    refine List.forall_mem_cons.mpr ⟨⟨?_, hrest.le⟩, ih⟩
    rw [hfirst]
    exact hlt

/-- The stretches of a value add up to its number of occurrences. -/
theorem Stretches.count [DecidableEq α] (v : α) {a b : Nat} {ss : List (Stretch α)} (h : Stretches f b a ss) :
    Nat.count (fun i => f i = v) a + ((ss.filter (·.value = v)).map fun s => s.stop - s.first).sum =
      Nat.count (fun i => f i = v) b := by
  induction h with
  | nil => rfl
  | @cons a s ss hfirst hlt hconst _ _ ih =>
    obtain ⟨n, hn⟩ := Nat.exists_eq_add_of_le hlt.le
    have hlen : s.stop - s.first = n := by omega
    have hcount : Nat.count (fun i => f i = v) s.stop =
        Nat.count (fun i => f i = v) a + (if s.value = v then n else 0) := by
      have hsame : Nat.count (fun k => f (a + k) = v) n = if s.value = v then n else 0 := by
        by_cases hv : s.value = v
        · rw [if_pos hv]
          refine Nat.count_of_forall fun k hk => ?_
          rw [hconst _ (by omega) (by omega), hv]
        · rw [if_neg hv]
          refine Nat.count_of_forall_not fun k hk => ?_
          rw [hconst _ (by omega) (by omega)]
          exact hv
      rw [hn, Nat.count_add, hsame]
    rw [← ih, hcount]
    by_cases hv : s.value = v
    · rw [List.filter_cons_of_pos (by simpa using hv), List.map_cons, List.sum_cons, if_pos hv, hlen]
      omega
    · rw [List.filter_cons_of_neg (by simpa using hv), if_neg hv]
      omega

end Stretches

end VijosOS.Library
