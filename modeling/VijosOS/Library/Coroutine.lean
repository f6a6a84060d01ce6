import Mathlib.Logic.Function.Basic

/-!
# Coroutines

One context runs and the others are saved. A switch saves the running context under the name it is
given and continues with the saved context of another name.
-/

namespace VijosOS.Library

structure Coroutines (A C : Type*) where
  running : C
  saved : A → C

namespace Coroutines

variable {A C D : Type*} [DecidableEq A]

/-- The running code computes, a context is prepared, or the running code is switched. -/
inductive Event (A C : Type*) where
  | run (f : C → C)
  | prepare (a : A) (f : C → C)
  | switch (curr : Option A) (next : A)

/-- The saved contexts after the running one is saved; without a name it is dropped. -/
def save (s : Coroutines A C) : Option A → A → C
  | some a => Function.update s.saved a s.running
  | none => s.saved

def step (s : Coroutines A C) : Event A C → Coroutines A C
  | .run f => { s with running := f s.running }
  | .prepare a f => { s with saved := Function.update s.saved a (f (s.saved a)) }
  | .switch curr next => ⟨s.save curr next, s.save curr⟩

theorem save_of_ne (s : Coroutines A C) {curr : Option A} {a : A} (h : curr ≠ some a) :
    s.save curr a = s.saved a := by
  cases curr with
  | none => rfl
  | some b => exact Function.update_of_ne (fun hab => h (congrArg some hab.symm)) _ _

/-- Contexts related one by one stay so when both machines make the same switch. -/
def Related (rel : C → D → Prop) (s : Coroutines A C) (t : Coroutines A D) : Prop :=
  rel s.running t.running ∧ ∀ a, rel (s.saved a) (t.saved a)

theorem Related.switch {rel : C → D → Prop} {s : Coroutines A C} {t : Coroutines A D}
    (h : Related rel s t) (curr : Option A) (next : A) :
    Related rel (s.step (.switch curr next)) (t.step (.switch curr next)) := by
  have hsave : ∀ a, rel (s.save curr a) (t.save curr a) := by
    intro a
    by_cases ha : curr = some a
    · subst ha
      show rel (Function.update s.saved a s.running a) (Function.update t.saved a t.running a)
      rw [Function.update_self, Function.update_self]
      exact h.1
    · rw [save_of_ne s ha, save_of_ne t ha]
      exact h.2 a
  exact ⟨hsave next, hsave⟩

end Coroutines

end VijosOS.Library
