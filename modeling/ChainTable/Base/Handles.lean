-- SUMMARY: Things that are created and ended one after another, each known by a handle as long as it exists.
import Mathlib

/-!
# Handles

Things are numbered in the order in which they are created. A handle identifies at most
one of them, and only as long as that exists, so that a handle can come back for another
thing. The structure carries what holds of every such table: a thing exists until it is
ended, which happens once.
-/

namespace Base

/-- What each handle identifies, how many things there have been, and how often each of
    them was ended. -/
structure Handles where
  existing : ℕ → Option ℕ
  created : ℕ
  ended : ℕ → ℕ
  bound : ∀ t k, existing t = some k → k < created ∧ ended k = 0
  unique : ∀ t t' k, existing t = some k → existing t' = some k → t = t'
  known : ∀ k < created, ended k = 0 → ∃ t, existing t = some k
  once : ∀ k, ended k ≤ 1
  future : ∀ k, created ≤ k → ended k = 0

namespace Handles

private theorem of_update_none {f : ℕ → Option ℕ} {t u k : ℕ}
    (hu : Function.update f t none u = some k) : u ≠ t ∧ f u = some k := by
  by_cases hut : u = t
  · subst hut
    simp at hu
  · exact ⟨hut, by rwa [Function.update_of_ne hut] at hu⟩

private theorem of_update_some {f : ℕ → Option ℕ} {t u k n : ℕ}
    (hu : Function.update f t (some n) u = some k) : u = t ∧ k = n ∨ u ≠ t ∧ f u = some k := by
  by_cases hut : u = t
  · subst hut
    exact .inl ⟨rfl, by simpa using hu.symm⟩
  · exact .inr ⟨hut, by rwa [Function.update_of_ne hut] at hu⟩

/-- Nothing has been created. -/
def empty : Handles where
  existing _ := none
  created := 0
  ended _ := 0
  bound := nofun
  unique := nofun
  known _ hk := absurd hk (Nat.not_lt_zero _)
  once _ := zero_le_one
  future _ _ := rfl

/-- The next thing, known by a handle that identifies nothing else. -/
def create (h : Handles) (t : ℕ) (hfree : h.existing t = none) : Handles where
  existing := Function.update h.existing t (some h.created)
  created := h.created + 1
  ended := h.ended
  bound u k hk := by
    rcases of_update_some hk with ⟨-, rfl⟩ | ⟨-, hold⟩
    · exact ⟨Nat.lt_succ_self _, h.future _ le_rfl⟩
    · exact ⟨(h.bound u k hold).1.trans (Nat.lt_succ_self _), (h.bound u k hold).2⟩
  unique u u' k hk hk' := by
    have hnew : ∀ u, h.existing u ≠ some h.created := fun u hu => (h.bound u _ hu).1.false
    rcases of_update_some hk with ⟨rfl, rfl⟩ | ⟨-, hold⟩
    · rcases of_update_some hk' with ⟨rfl, -⟩ | ⟨-, hold'⟩
      · rfl
      · exact absurd hold' (hnew u')
    · rcases of_update_some hk' with ⟨-, rfl⟩ | ⟨-, hold'⟩
      · exact absurd hold (hnew u)
      · exact h.unique u u' k hold hold'
  known k hk hended := by
    rcases Nat.lt_succ_iff_lt_or_eq.1 hk with hlt | rfl
    · obtain ⟨u, hu⟩ := h.known k hlt hended
      have hut : u ≠ t := by
        rintro rfl
        rw [hfree] at hu
        cases hu
      exact ⟨u, by rw [Function.update_of_ne hut, hu]⟩
    · exact ⟨t, Function.update_self ..⟩
  once := h.once
  future k hk := h.future k (Nat.le_of_succ_le hk)

/-- Thing `k`, which `t` identifies, is ended. -/
def finish (h : Handles) (t k : ℕ) (ht : h.existing t = some k) : Handles where
  existing := Function.update h.existing t none
  created := h.created
  ended := Function.update h.ended k (h.ended k + 1)
  bound u j hj := by
    obtain ⟨hut, hold⟩ := of_update_none hj
    have hjk : j ≠ k := by
      rintro rfl
      exact hut (h.unique u t j hold ht)
    rw [Function.update_of_ne hjk]
    exact h.bound u j hold
  unique u u' j hj hj' := h.unique u u' j (of_update_none hj).2 (of_update_none hj').2
  known j hj hended := by
    have hjk : j ≠ k := by
      rintro rfl
      simp at hended
    rw [Function.update_of_ne hjk] at hended
    obtain ⟨u, hu⟩ := h.known j hj hended
    have hut : u ≠ t := by
      rintro rfl
      exact hjk (Option.some.inj (hu.symm.trans ht))
    exact ⟨u, by rw [Function.update_of_ne hut, hu]⟩
  once j := by
    by_cases hjk : j = k
    · rw [hjk, Function.update_self, (h.bound t k ht).2]
    · rw [Function.update_of_ne hjk]
      exact h.once j
  future j hj := by
    have hjk : j ≠ k := by
      rintro rfl
      exact absurd (h.bound t j ht).1 (not_lt.2 hj)
    rw [Function.update_of_ne hjk]
    exact h.future j hj

/-- What a handle identifies is ended, if there is such a thing. -/
def close (h : Handles) (t : ℕ) : Handles :=
  match ht : h.existing t with
  | none => h
  | some k => h.finish t k ht

variable {h : Handles} {t u k : ℕ}

/-! ## What the handles identify -/

theorem existing_create (hfree : h.existing t = none) :
    (h.create t hfree).existing u = some k ↔
      u = t ∧ k = h.created ∨ h.existing u = some k := by
  constructor
  · intro hu
    rcases of_update_some hu with hnew | ⟨-, hold⟩
    · exact .inl hnew
    · exact .inr hold
  · rintro (⟨rfl, rfl⟩ | hold)
    · exact Function.update_self ..
    · have hut : u ≠ t := by
        rintro rfl
        rw [hfree] at hold
        cases hold
      exact (Function.update_of_ne hut ..).trans hold

theorem close_of_none (ht : h.existing t = none) : h.close t = h := by
  unfold close
  split
  · rfl
  · rename_i k hk
    rw [ht] at hk
    cases hk

theorem close_of_some (ht : h.existing t = some k) : h.close t = h.finish t k ht := by
  unfold close
  split
  · rename_i hnone
    rw [ht] at hnone
    cases hnone
  · rename_i j hj
    obtain rfl : j = k := Option.some.inj (hj.symm.trans ht)
    rfl

theorem existing_close : (h.close t).existing u = some k ↔ u ≠ t ∧ h.existing u = some k := by
  cases ht : h.existing t with
  | none =>
    rw [close_of_none ht]
    refine ⟨fun hu => ⟨?_, hu⟩, fun hu => hu.2⟩
    rintro rfl
    rw [ht] at hu
    cases hu
  | some j =>
    rw [close_of_some ht]
    exact ⟨of_update_none, fun hu => (Function.update_of_ne hu.1 ..).trans hu.2⟩

/-- When nothing exists any more, everything was ended, and once. -/
theorem ended_of_none_existing (hnone : ∀ t, h.existing t = none) (hk : k < h.created) :
    h.ended k = 1 := by
  have honce := h.once k
  by_contra hne
  obtain ⟨t, ht⟩ := h.known k hk (by omega)
  rw [hnone t] at ht
  cases ht

end Handles

end Base
