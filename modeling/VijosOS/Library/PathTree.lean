import Mathlib.Data.List.Induction
import Mathlib.Data.Option.Basic

/-!
# Trees laid out in a store

A store gives each node a partial map from indices to child nodes. Nodes within a
fixed depth of the roots form a forest without aliasing when no two paths meet.
Linking a fresh childless node, or adding one as a root, keeps it so.
-/

namespace VijosOS.Library

variable {N I : Type*}

/-- The node at the end of a path, following the child maps. -/
def follow (succ : N → I → Option N) : N → List I → Option N
  | n, [] => some n
  | n, i :: p => (succ n i).bind fun c => follow succ c p

@[simp] theorem follow_nil (succ : N → I → Option N) (n : N) : follow succ n [] = some n := rfl

theorem follow_append (succ : N → I → Option N) (n : N) (p q : List I) :
    follow succ n (p ++ q) = (follow succ n p).bind fun c => follow succ c q := by
  induction p generalizing n with
  | nil => rfl
  | cons i p ih =>
    simp only [List.cons_append, follow]
    cases succ n i with
    | none => rfl
    | some c => exact ih c

theorem follow_snoc (succ : N → I → Option N) (n : N) (p : List I) (i : I) :
    follow succ n (p ++ [i]) = (follow succ n p).bind fun c => succ c i := by
  rw [follow_append]
  cases follow succ n p with
  | none => rfl
  | some c => cases h : succ c i <;> simp [follow, h]

theorem follow_snoc_eq_some {succ : N → I → Option N} {n a : N} {p : List I} {i : I} :
    follow succ n (p ++ [i]) = some a ↔ ∃ c, follow succ n p = some c ∧ succ c i = some a := by
  rw [follow_snoc, Option.bind_eq_some_iff]

/-- A path only reads the child maps of the nodes before its end. -/
theorem follow_congr {succ succ' : N → I → Option N} {r : N} {p : List I}
    (h : ∀ q a, q.length < p.length → follow succ r q = some a → succ' a = succ a) :
    follow succ' r p = follow succ r p := by
  induction p using List.reverseRecOn with
  | nil => rfl
  | append_singleton p i ih =>
    have hp : follow succ' r p = follow succ r p := by
      apply ih
      intro q a hq
      exact h q a (by rw [List.length_append]; omega)
    rw [follow_snoc, follow_snoc, hp]
    cases hc : follow succ r p with
    | none => rfl
    | some c => simp only [Option.bind_some, h p c (by simp) hc]

/-! ## Forests without aliasing -/

section Forest

variable (succ : N → I → Option N) (roots : N → Prop) (d : Nat)

def Reached (a : N) : Prop := ∃ r p, roots r ∧ p.length ≤ d ∧ follow succ r p = some a

/-- No two different paths of length at most `d` from the roots meet. -/
def NoAlias : Prop := ∀ r s p q a, roots r → roots s → p.length ≤ d → q.length ≤ d →
  follow succ r p = some a → follow succ s q = some a → r = s ∧ p = q

end Forest

variable {succ succ' : N → I → Option N} {roots : N → Prop} {d : Nat}

/-- A store that agrees on the inner nodes has the same paths. -/
theorem follow_of_agree {r : N} {p : List I} (hr : roots r) (hp : p.length ≤ d)
    (h : ∀ s q a, roots s → q.length < d → follow succ s q = some a → succ' a = succ a) :
    follow succ' r p = follow succ r p :=
  follow_congr fun q a hq ha => h r q a hr (by omega) ha

theorem NoAlias.agree (hna : NoAlias succ roots d)
    (h : ∀ s q a, roots s → q.length < d → follow succ s q = some a → succ' a = succ a) :
    NoAlias succ' roots d := by
  intro r s p q a hr hs hp hq hrp hsq
  rw [follow_of_agree hr hp h] at hrp
  rw [follow_of_agree hs hq h] at hsq
  exact hna r s p q a hr hs hp hq hrp hsq

/-- Linking the unreached node `m` below `n` adds exactly the path to it. -/
theorem follow_link (hna : NoAlias succ roots d) {r₀ n m : N} {p₀ : List I} {i : I}
    (hr₀ : roots r₀) (hp₀ : p₀.length < d) (hn : follow succ r₀ p₀ = some n)
    (hfree : succ n i = none) (hm : ¬ Reached succ roots d m)
    (hself : succ' n i = some m) (hrest : ∀ j, j ≠ i → succ' n j = succ n j)
    (hchild : p₀.length + 1 < d → ∀ j, succ' m j = none)
    (hkeep : ∀ s q a, roots s → q.length < d → follow succ s q = some a → a ≠ n →
      succ' a = succ a)
    {r : N} {p : List I} (hr : roots r) (hp : p.length ≤ d) (a : N) :
    follow succ' r p = some a ↔
      follow succ r p = some a ∨ r = r₀ ∧ p = p₀ ++ [i] ∧ a = m := by
  induction p using List.reverseRecOn generalizing a with
  | nil => simp
  | append_singleton p j ih =>
    have hlen : p.length < d := by
      rw [List.length_append, List.length_singleton] at hp
      omega
    have ih := ih (by omega)
    rw [follow_snoc_eq_some, follow_snoc_eq_some]
    constructor
    · rintro ⟨c, hc, hca⟩
      rcases (ih c).mp hc with hold | ⟨rfl, rfl, rfl⟩
      · by_cases hcn : c = n
        · subst hcn
          obtain ⟨rfl, rfl⟩ := hna r r₀ p p₀ c hr hr₀ (by omega) (by omega) hold hn
          by_cases hji : j = i
          · subst hji
            rw [hself] at hca
            exact Or.inr ⟨rfl, rfl, (Option.some.inj hca).symm⟩
          · rw [hrest j hji] at hca
            exact Or.inl ⟨c, hold, hca⟩
        · rw [hkeep r p c hr hlen hold hcn] at hca
          exact Or.inl ⟨c, hold, hca⟩
      · -- the new node has no children within the depth
        rw [List.length_append, List.length_singleton] at hlen
        rw [hchild (by omega) j] at hca
        exact absurd hca (by simp)
    · rintro (⟨c, hc, hca⟩ | ⟨rfl, hpath, rfl⟩)
      · refine ⟨c, (ih c).mpr (Or.inl hc), ?_⟩
        by_cases hcn : c = n
        · subst hcn
          have hji : j ≠ i := by
            rintro rfl
            rw [hfree] at hca
            exact absurd hca (by simp)
          rw [hrest j hji]
          exact hca
        · rw [hkeep r p c hr hlen hc hcn]
          exact hca
      · obtain ⟨rfl, hj⟩ := List.append_inj' hpath rfl
        obtain rfl := (List.cons.inj hj).1
        exact ⟨n, (ih n).mpr (Or.inl hn), hself⟩

theorem NoAlias.link (hna : NoAlias succ roots d) {r₀ m : N} {p : List I}
    (hm : ¬ Reached succ roots d m)
    (hlink : ∀ r q a, roots r → q.length ≤ d → (follow succ' r q = some a ↔
      follow succ r q = some a ∨ r = r₀ ∧ q = p ∧ a = m)) : NoAlias succ' roots d := by
  intro r s q q' a hr hs hq hq' hrq hsq
  rcases (hlink r q a hr hq).mp hrq with h | ⟨rfl, rfl, rfl⟩
  · rcases (hlink s q' a hs hq').mp hsq with h' | ⟨rfl, rfl, rfl⟩
    · exact hna r s q q' a hr hs hq hq' h h'
    · exact absurd ⟨r, q, hr, hq, h⟩ hm
  · rcases (hlink s q' _ hs hq').mp hsq with h' | ⟨rfl, rfl, _⟩
    · exact absurd ⟨s, q', hs, hq', h'⟩ hm
    · exact ⟨rfl, rfl⟩

/-- A childless node is the end of every path from it. -/
theorem follow_childless {r : N} (hr : ∀ j, succ r j = none) {p : List I} {a : N} :
    follow succ r p = some a ↔ p = [] ∧ a = r := by
  cases p with
  | nil => simp [eq_comm]
  | cons j p => simp [follow, hr j]

/-- A childless unreached node may become a root. -/
theorem NoAlias.add_root (hna : NoAlias succ roots d) {m : N} (hm : ¬ Reached succ roots d m)
    (hchild : ∀ j, succ m j = none) : NoAlias succ (fun r => r = m ∨ roots r) d := by
  intro r s p q a hr hs hp hq hrp hsq
  rcases hr with rfl | hr
  · obtain ⟨rfl, rfl⟩ := (follow_childless hchild).mp hrp
    rcases hs with rfl | hs
    · obtain ⟨rfl, _⟩ := (follow_childless hchild).mp hsq
      exact ⟨rfl, rfl⟩
    · exact absurd ⟨s, q, hs, hq, hsq⟩ hm
  · rcases hs with rfl | hs
    · obtain ⟨rfl, rfl⟩ := (follow_childless hchild).mp hsq
      exact absurd ⟨r, p, hr, hp, hrp⟩ hm
    · exact hna r s p q a hr hs hp hq hrp hsq

end VijosOS.Library
