-- SUMMARY: Families of thread states: changing one thread, and counting the threads in a class of states.
import Mathlib

/-!
# Threads

The states of the threads of a program are a function from thread names to
thread states. One step changes the state of one thread, with
`Function.update`, so a count over all threads changes by that thread alone.
-/

namespace Base

variable {ι α : Type} [Fintype ι] [DecidableEq ι]

/-- The number of threads whose state satisfies `p`. -/
def countThreads (p : α → Prop) [DecidablePred p] (f : ι → α) : ℕ :=
  (Finset.univ.filter fun t => p (f t)).card

variable {p : α → Prop} [DecidablePred p] {f : ι → α}

omit [DecidableEq ι] in
theorem countThreads_eq_zero : countThreads p f = 0 ↔ ∀ t, ¬ p (f t) := by
  simp [countThreads, Finset.filter_eq_empty_iff]

omit [DecidableEq ι] in
theorem countThreads_pos : 0 < countThreads p f ↔ ∃ t, p (f t) := by
  rw [Nat.pos_iff_ne_zero, Ne, countThreads_eq_zero]
  push Not
  rfl

/-- A thread that enters the class. -/
theorem countThreads_update_enter {t : ι} {a : α} (hold : ¬ p (f t)) (hnew : p a) :
    countThreads p (Function.update f t a) = countThreads p f + 1 := by
  have hset : (Finset.univ.filter fun u => p (Function.update f t a u)) =
      insert t (Finset.univ.filter fun u => p (f u)) := by
    ext u
    by_cases hu : u = t
    · subst hu
      simpa using hnew
    · simp [hu]
  rw [countThreads, hset, Finset.card_insert_of_notMem (by simpa using hold), countThreads]

/-- A thread that leaves the class. -/
theorem countThreads_update_leave {t : ι} {a : α} (hold : p (f t)) (hnew : ¬ p a) :
    countThreads p (Function.update f t a) + 1 = countThreads p f := by
  have h := countThreads_update_enter (f := Function.update f t a) (t := t) (a := f t)
    (by simpa using hnew) hold
  rw [Function.update_idem, Function.update_eq_self] at h
  exact h.symm

/-- A thread that changes its state on the same side of the class. -/
theorem countThreads_update_same {t : ι} {a : α} (h : p (f t) ↔ p a) :
    countThreads p (Function.update f t a) = countThreads p f := by
  have hset : (Finset.univ.filter fun u => p (Function.update f t a u)) =
      Finset.univ.filter fun u => p (f u) := by
    ext u
    by_cases hu : u = t
    · subst hu
      simpa using h.symm
    · simp [hu]
  rw [countThreads, hset, countThreads]

end Base
