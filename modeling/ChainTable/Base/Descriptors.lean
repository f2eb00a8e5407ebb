-- SUMMARY: Tables of open descriptors: numbers that are handed out again as soon as they are free.
import Mathlib

/-!
# Descriptors

The descriptor table of a process says what each number stands for at the moment. A
number becomes free when it is closed, whoever closes it, and the next descriptor gets
the lowest free number, so that the same number stands for one thing after another.
-/

namespace Base

/-- What each number stands for, when it is open. -/
abbrev Descriptors (α : Type) := ℕ → Option α

namespace Descriptors

variable {α : Type} (d : Descriptors α) {fd fd' : ℕ} {a b : α}

/-- The number that the next descriptor gets. -/
def Lowest (fd : ℕ) : Prop := d fd = none ∧ ∀ m < fd, d m ≠ none

instance [DecidableEq α] (fd : ℕ) : Decidable (d.Lowest fd) :=
  inferInstanceAs (Decidable (d fd = none ∧ ∀ m < fd, d m ≠ none))

/-- The number stands for something else than `a`. -/
def foreign [DecidableEq α] (fd : ℕ) (a : α) : Bool :=
  match d fd with
  | some b => b ≠ a
  | none => false

def opened (fd : ℕ) (a : α) : Descriptors α := Function.update d fd (some a)

def closed (fd : ℕ) : Descriptors α := Function.update d fd none

@[simp] theorem opened_self : d.opened fd a fd = some a := Function.update_self ..

theorem opened_of_ne (h : fd' ≠ fd) : d.opened fd a fd' = d fd' := Function.update_of_ne h ..

theorem closed_of_ne (h : fd' ≠ fd) : d.closed fd fd' = d fd' := Function.update_of_ne h ..

variable {d}

theorem foreign_of_open [DecidableEq α] (h : d fd = some a) : d.foreign fd a = false := by
  simp [foreign, h]

/-- A new descriptor takes no number that is open. -/
theorem opened_of_open (hfd : d fd = none) (h : d fd' = some b) : d.opened fd a fd' = some b := by
  have hne : fd' ≠ fd := by
    rintro rfl
    rw [hfd] at h
    cases h
  rw [opened_of_ne d hne, h]

/-- Closing takes the number from one thing alone. -/
theorem closed_of_open (h : d fd' = some b) (hfd : d fd = some a) (hne : b ≠ a) :
    d.closed fd fd' = some b := by
  have hne' : fd' ≠ fd := by
    rintro rfl
    exact hne (Option.some.inj (h.symm.trans hfd))
  rw [closed_of_ne d hne', h]

/-- What is opened and closed again leaves nothing behind. -/
theorem closed_opened (hfd : d fd = none) : (d.opened fd a).closed fd = d := by
  rw [closed, opened, Function.update_idem, ← hfd, Function.update_eq_self]

end Descriptors

end Base
