-- SUMMARY: Walks along a successor function, and when such a walk visits a sorted list from end to end.
import Mathlib

/-!
# Chains

A successor function gives every point the next one, and a point outside the
chain marks its end. A sorted list is the chain in which every point is followed
by the first greater one. Whether an unsorted listing of the same points gives
the same successor depends on the order of its greater points alone.
-/

namespace Base

variable {α : Type} [LinearOrder α]

/-- The points that a walk from `a` visits until it comes to `stop`, at most `n`
    of them. -/
def follow (stop : α) (next : α → α) : ℕ → α → List α
  | 0, _ => []
  | n + 1, a => if a = stop then [] else a :: follow stop next n (next a)

@[simp] theorem follow_stop (stop : α) (next : α → α) (n : ℕ) : follow stop next n stop = [] := by
  cases n <;> simp [follow]

theorem follow_succ {stop : α} (next : α → α) (n : ℕ) {a : α} (h : a ≠ stop) :
    follow stop next (n + 1) a = a :: follow stop next n (next a) := if_neg h

/-- A walk that is given a step more than it visits points ends at its first point
    or never began. -/
theorem follow_eq_cons {stop : α} {next : α → α} {n : ℕ} {a b : α} {l : List α}
    (h : follow stop next n a = b :: l) : a = b := by
  cases n with
  | zero => cases h
  | succ n =>
    by_cases ha : a = stop
    · simp [ha] at h
    · rw [follow_succ next n ha] at h
      exact (List.cons.inj h).1

theorem follow_succ_eq_nil {stop : α} {next : α → α} {n : ℕ} {a : α} :
    follow stop next (n + 1) a = [] ↔ a = stop := by
  by_cases ha : a = stop
  · simp [ha]
  · simp [follow_succ next n ha, ha]

/-- The first point of a list that is greater than `a`, or `stop`. -/
def firstAbove (stop a : α) (l : List α) : α := (l.find? (a < ·)).getD stop

theorem firstAbove_cons_of_lt {stop a b : α} {l : List α} (h : a < b) :
    firstAbove stop a (b :: l) = b := by
  simp [firstAbove, h]

theorem firstAbove_cons_of_not_lt {stop a b : α} {l : List α} (h : ¬ a < b) :
    firstAbove stop a (b :: l) = firstAbove stop a l := by
  simp [firstAbove, h]

/-- Behind a point of a sorted list comes the first greater one. -/
theorem firstAbove_cons_self {stop a : α} {l : List α} (h : ∀ b ∈ l, a < b) :
    firstAbove stop a (a :: l) = l.headD stop := by
  rw [firstAbove_cons_of_not_lt (lt_irrefl a)]
  cases l with
  | nil => rfl
  | cons b l => exact firstAbove_cons_of_lt (h b (by simp))

/-- A walk from the first point of a sorted list visits the whole list exactly
    when every point leads to the first greater one. -/
theorem follow_eq_iff {stop : α} (next : α → α) {l : List α} (hsorted : l.Pairwise (· < ·))
    (hstop : stop ∉ l) :
    follow stop next (l.length + 1) (l.headD stop) = l ↔
      ∀ a ∈ l, next a = firstAbove stop a l := by
  induction l with
  | nil => simp
  | cons a l ih =>
    obtain ⟨ha, hl⟩ := List.pairwise_cons.1 hsorted
    obtain ⟨hne, hstop⟩ : stop ≠ a ∧ stop ∉ l := by simpa using hstop
    have htail : ∀ b ∈ l, firstAbove stop b (a :: l) = firstAbove stop b l := fun b hb =>
      firstAbove_cons_of_not_lt (lt_asymm (ha b hb))
    have hstep : follow stop next ((a :: l).length + 1) ((a :: l).headD stop) = a :: l ↔
        follow stop next (l.length + 1) (next a) = l := by
      rw [List.headD_cons, follow_succ next _ hne.symm, List.length_cons, List.cons_inj_right]
    have hhead : follow stop next (l.length + 1) (next a) = l → next a = l.headD stop := by
      intro h
      cases l with
      | nil => exact follow_succ_eq_nil.1 h
      | cons b l => exact follow_eq_cons h
    rw [hstep, List.forall_mem_cons, firstAbove_cons_self ha]
    constructor
    · intro h
      have hnext := hhead h
      rw [hnext] at h
      exact ⟨hnext, fun b hb => ((ih hl hstop).1 h b hb).trans (htail b hb).symm⟩
    · rintro ⟨hnext, hall⟩
      rw [hnext]
      exact (ih hl hstop).2 fun b hb => (hall b hb).trans (htail b hb)

/-- A sorted list begins with its least point. -/
theorem headD_of_isLeast (stop : α) {a : α} {l : List α} (hsorted : l.Pairwise (· < ·))
    (h : IsLeast {x | x ∈ l} a) : l.headD stop = a := by
  cases l with
  | nil => exact absurd h.1 (by simp)
  | cons x l =>
    rcases List.mem_cons.1 h.1 with rfl | ha
    · rfl
    · have hxa : x < a := (List.pairwise_cons.1 hsorted).1 a ha
      have hax : a ≤ x := h.2 (by simp)
      exact absurd hxa (not_lt.2 hax)

/-- A sorted list ends with its greatest point. -/
theorem getLast?_of_isGreatest {a : α} {l : List α} (hsorted : l.Pairwise (· < ·))
    (h : IsGreatest {x | x ∈ l} a) : l.getLast? = some a := by
  induction l using List.reverseRecOn with
  | nil => exact absurd h.1 (by simp)
  | append_singleton l x =>
    rw [List.getLast?_concat]
    rcases List.mem_append.1 h.1 with ha | ha
    · have hax : a < x := (List.pairwise_append.1 hsorted).2.2 a ha x (by simp)
      have hxa : x ≤ a := h.2 (by simp)
      exact absurd hax (not_lt.2 hxa)
    · rw [List.mem_singleton.1 ha]

/-! ## Unsorted listings -/

/-- The least point of a listing that is greater than `a` stands in front of all
    others that are. -/
def LeastAboveFirst (a : α) (l : List α) : Prop :=
  ∀ b ∈ l, a < b → (∀ c ∈ l, a < c → b ≤ c) → ∀ c ∈ l, a < c → l.idxOf b ≤ l.idxOf c

instance (a : α) (l : List α) : Decidable (LeastAboveFirst a l) :=
  inferInstanceAs (Decidable (∀ b ∈ l, a < b → (∀ c ∈ l, a < c → b ≤ c) →
    ∀ c ∈ l, a < c → l.idxOf b ≤ l.idxOf c))

theorem firstAbove_eq_stop {stop a : α} {l : List α} (h : ∀ b ∈ l, ¬ a < b) :
    firstAbove stop a l = stop := by
  have hnone : l.find? (a < ·) = none := List.find?_eq_none.2 fun b hb => by simpa using h b hb
  rw [firstAbove, hnone, Option.getD_none]

/-- When a list has a greater point at all, `firstAbove` is one, and none is listed
    earlier. -/
theorem firstAbove_spec (stop : α) {a b : α} {l : List α} (hb : b ∈ l) (hab : a < b) :
    firstAbove stop a l ∈ l ∧ a < firstAbove stop a l ∧
      ∀ c ∈ l, a < c → l.idxOf (firstAbove stop a l) ≤ l.idxOf c := by
  induction l with
  | nil => simp at hb
  | cons x l ih =>
    by_cases hx : a < x
    · rw [firstAbove_cons_of_lt hx]
      exact ⟨by simp, hx, by simp⟩
    · have hbl : b ∈ l := by
        rcases List.mem_cons.1 hb with rfl | hbl
        · exact absurd hab hx
        · exact hbl
      obtain ⟨hmem, hlt, hfirst⟩ := ih hbl
      rw [firstAbove_cons_of_not_lt hx]
      refine ⟨List.mem_cons_of_mem x hmem, hlt, fun c hc hac => ?_⟩
      have hxc : x ≠ c := fun heq => hx (heq ▸ hac)
      have hxf : x ≠ firstAbove stop a l := fun heq => hx (heq ▸ hlt)
      have hcl : c ∈ l := by
        rcases List.mem_cons.1 hc with rfl | hcl
        · exact absurd rfl hxc
        · exact hcl
      rw [List.idxOf_cons_ne _ hxf, List.idxOf_cons_ne _ hxc]
      exact Nat.succ_le_succ (hfirst c hcl hac)

/-- In a sorted list the first greater point is the least one. -/
theorem firstAbove_le {stop a c : α} {l : List α} (hsorted : l.Pairwise (· < ·)) (hc : c ∈ l)
    (hac : a < c) : firstAbove stop a l ≤ c := by
  induction l with
  | nil => simp at hc
  | cons x l ih =>
    obtain ⟨hx, hl⟩ := List.pairwise_cons.1 hsorted
    by_cases hax : a < x
    · rw [firstAbove_cons_of_lt hax]
      rcases List.mem_cons.1 hc with rfl | hcl
      · exact le_rfl
      · exact (hx c hcl).le
    · rw [firstAbove_cons_of_not_lt hax]
      rcases List.mem_cons.1 hc with rfl | hcl
      · exact absurd hac hax
      · exact ih hl hcl

/-- A listing and the sorted list of the same points give the same successor
    exactly when the listing puts the least greater point first. -/
theorem firstAbove_eq_iff {stop a : α} {l sorted : List α} (hmem : ∀ b, b ∈ l ↔ b ∈ sorted)
    (hsorted : sorted.Pairwise (· < ·)) :
    firstAbove stop a l = firstAbove stop a sorted ↔ LeastAboveFirst a l := by
  by_cases hex : ∃ b ∈ l, a < b
  · obtain ⟨b, hb, hab⟩ := hex
    obtain ⟨hin, hlt, hfirst⟩ := firstAbove_spec stop hb hab
    obtain ⟨hin', hlt', -⟩ := firstAbove_spec stop ((hmem b).1 hb) hab
    have hleast : ∀ c ∈ l, a < c → firstAbove stop a sorted ≤ c := fun c hc =>
      firstAbove_le hsorted ((hmem c).1 hc)
    constructor
    · intro heq c hc hac hmin d hd had
      -- the least greater point is the one that both lists give
      have hcf : c = firstAbove stop a l :=
        le_antisymm (hmin _ hin hlt) (heq ▸ hleast c hc hac)
      rw [hcf]
      exact hfirst d hd had
    · intro hleastFirst
      have hin'' := (hmem _).2 hin'
      have hle := hleastFirst _ hin'' hlt' hleast _ hin hlt
      have hge := hfirst _ hin'' hlt'
      exact (List.idxOf_inj hin).1 (le_antisymm hge hle)
  · have hnone : ∀ b ∈ l, ¬ a < b := fun b hb hab => hex ⟨b, hb, hab⟩
    rw [firstAbove_eq_stop hnone, firstAbove_eq_stop fun b hb => hnone b ((hmem b).2 hb)]
    exact iff_of_true rfl fun b hb hab => absurd hab (hnone b hb)

end Base
