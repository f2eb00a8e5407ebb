-- SUMMARY: Assertions about the memory that a program owns, triples that leave the rest of the memory alone, and the rules for programs over a heap.
import ChainTable.Base.Heap

/-!
# Separation

Assertions describe parts of a heap. With the separating conjunction as product and the empty
heap as unit they form a commutative quantale, so that existential quantification is a supremum
and entailment is the order. A triple says that a program that owns what its precondition
describes ends without a fault, owns what its postcondition describes, and has left the rest of
the heap as it was. The frame is part of the triple, so that each rule holds next to anything
else; the classes at the end find in a product the part that a rule is about.
-/

namespace Base

/-- What is said of the part of a heap that a program owns. -/
def Assertion (V : Type) := Heap V → Prop

namespace Assertion

variable {V T : Type}

instance instCompleteLattice : CompleteLattice (Assertion V) :=
  inferInstanceAs (CompleteLattice (Heap V → Prop))

theorem iSup_iff {ι : Sort*} {P : ι → Assertion V} {h : Heap V} : (⨆ i, P i) h ↔ ∃ i, P i h := by
  have happly : (⨆ i, P i) h = ⨆ i, P i h := iSup_apply (β := fun _ => Prop)
  rw [happly, iSup_Prop_eq]

instance instOne : One (Assertion V) := ⟨fun h => h = ∅⟩

/-- The separating conjunction. -/
instance instMul : Mul (Assertion V) :=
  ⟨fun P Q h => ∃ h₁ h₂, P h₁ ∧ Q h₂ ∧ h₁.Disjoint h₂ ∧ h = h₁ ∪ h₂⟩

theorem mul_iff {P Q : Assertion V} {h : Heap V} :
    (P * Q) h ↔ ∃ h₁ h₂, P h₁ ∧ Q h₂ ∧ h₁.Disjoint h₂ ∧ h = h₁ ∪ h₂ := Iff.rfl

private theorem mul_comm_le (P Q : Assertion V) : P * Q ≤ Q * P := by
  rintro h ⟨h₁, h₂, hP, hQ, hdisj, rfl⟩
  exact ⟨h₂, h₁, hQ, hP, hdisj.symm, Finmap.union_comm_of_disjoint hdisj⟩

private theorem mul_assoc_le (P Q R : Assertion V) : P * Q * R ≤ P * (Q * R) := by
  rintro h ⟨_, h₃, ⟨h₁, h₂, hP, hQ, hdisj, rfl⟩, hR, hdisj', rfl⟩
  rw [Finmap.disjoint_union_left] at hdisj'
  refine ⟨h₁, h₂ ∪ h₃, hP, ⟨h₂, h₃, hQ, hR, hdisj'.2, rfl⟩, ?_, Finmap.union_assoc⟩
  exact (Finmap.disjoint_union_right _ _ _).2 ⟨hdisj, hdisj'.1⟩

private theorem mul_comm' (P Q : Assertion V) : P * Q = Q * P :=
  le_antisymm (mul_comm_le P Q) (mul_comm_le Q P)

private theorem mul_assoc' (P Q R : Assertion V) : P * Q * R = P * (Q * R) := by
  refine le_antisymm (mul_assoc_le P Q R) ?_
  rw [mul_comm' P, mul_comm' Q, mul_comm' (P * Q), mul_comm' P]
  exact mul_assoc_le R Q P

private theorem one_mul' (P : Assertion V) : 1 * P = P := by
  refine le_antisymm ?_ fun h hP =>
    ⟨∅, h, rfl, hP, Finmap.disjoint_empty h, Finmap.empty_union.symm⟩
  rintro _ ⟨_, h, rfl, hP, -, rfl⟩
  rwa [Finmap.empty_union]

instance instCommMonoid : CommMonoid (Assertion V) where
  mul_assoc := mul_assoc'
  one_mul := one_mul'
  mul_one P := (mul_comm' P 1).trans (one_mul' P)
  mul_comm := mul_comm'

theorem mul_iSup {ι : Sort*} (P : Assertion V) (Q : ι → Assertion V) :
    P * ⨆ i, Q i = ⨆ i, P * Q i := by
  funext h
  simp only [mul_iff, iSup_iff, eq_iff_iff]
  constructor
  · rintro ⟨h₁, h₂, hP, ⟨i, hQ⟩, hdisj, rfl⟩
    exact ⟨i, h₁, h₂, hP, hQ, hdisj, rfl⟩
  · rintro ⟨i, h₁, h₂, hP, hQ, hdisj, rfl⟩
    exact ⟨h₁, h₂, hP, ⟨i, hQ⟩, hdisj, rfl⟩

theorem iSup_mul {ι : Sort*} (Q : ι → Assertion V) (P : Assertion V) :
    (⨆ i, Q i) * P = ⨆ i, Q i * P := by
  rw [mul_comm, mul_iSup]
  simp only [mul_comm]

instance instIsQuantale : IsQuantale (Assertion V) where
  mul_sSup_distrib P S := by rw [sSup_eq_iSup, mul_iSup]; simp only [mul_iSup]
  sSup_mul_distrib S P := by rw [sSup_eq_iSup, iSup_mul]; simp only [iSup_mul]

/-- A fact next to the empty heap. -/
def lift (φ : Prop) : Assertion V := ⨆ _ : φ, 1

theorem lift_of {φ : Prop} (h : φ) : (lift φ : Assertion V) = 1 := by
  simp [lift, h]

@[simp] theorem lift_true : (lift True : Assertion V) = 1 := lift_of trivial

@[simp] theorem lift_false : (lift False : Assertion V) = ⊥ := by simp [lift]

/-- The value that a program returns, next to what it owns then. -/
def returning {α : Type} (a : α) (P : Assertion V) : α → Assertion V := fun a' => lift (a' = a) * P

theorem returning_self {α : Type} (a : α) (P : Assertion V) : P ≤ returning a P a := by
  rw [returning, lift_of rfl, one_mul]

theorem returning_iff {α : Type} {a a' : α} {P : Assertion V} {h : Heap V} :
    returning a P a' h ↔ a' = a ∧ P h := by
  by_cases ha : a' = a
  · rw [returning, lift_of ha, one_mul]
    exact (and_iff_right ha).symm
  · have hbot : returning a P a' = ⊥ := by rw [returning, lift, iSup_neg ha, Quantale.bot_mul]
    rw [hbot]
    exact ⟨False.elim, fun h => ha h.1⟩

theorem returning_le {α : Type} (a : α) (P : Assertion V) (a' : α) : returning a P a' ≤ P := by
  rw [returning, lift, iSup_mul]
  exact iSup_le fun _ => (one_mul P).le

section Blocks

variable [Layout V T]

theorem insert_eq_union (p : ℕ) (v : V) (h : Heap V) :
    h.insert p v = Finmap.singleton p v ∪ h := by
  refine Finmap.ext_lookup fun q => ?_
  by_cases hq : q = p
  · subst hq
    rw [Finmap.lookup_insert, Finmap.lookup_union_left ((Finmap.mem_singleton _ _ _).2 rfl),
      Finmap.lookup_singleton_eq]
  · rw [Finmap.lookup_insert_of_ne _ hq,
      Finmap.lookup_union_right (by rwa [Finmap.mem_singleton])]

/-- One block, with `t` stored in it. -/
def pointsTo (p : ℕ) (t : T) : Assertion V :=
  fun h => p ≠ 0 ∧ h = Finmap.singleton p (Layout.block t)

theorem pointsTo_ne_zero (p : ℕ) (t : T) :
    (pointsTo p t : Assertion V) = lift (p ≠ 0) * pointsTo p t := by
  by_cases hp : p = 0
  · have hbot : (pointsTo p t : Assertion V) = ⊥ := by
      rw [eq_bot_iff]
      rintro h ⟨hne, -⟩
      exact (hne hp).elim
    rw [hbot, Quantale.mul_bot]
  · rw [lift_of hp, one_mul]

end Blocks

/-- A part `A` of `P`, and what gives `P` back when `A` is returned. -/
abbrev borrowed (A P : Assertion V) : Assertion V := A * Quantale.leftMulResiduation A P

theorem le_borrowed {A P R : Assertion V} (h : A * R ≤ P) : A * R ≤ borrowed A P :=
  mul_le_mul_right (Quantale.leftMulResiduation_le_iff_mul_le.2 ((mul_comm R A).trans_le h)) A

theorem borrowed_le (A P : Assertion V) : borrowed A P ≤ P :=
  (mul_comm _ _).trans_le (Quantale.leftMulResiduation_le_iff_mul_le.1 le_rfl)

/-- Lending goes on next to more that belongs to the whole. -/
theorem borrowed_mul_le {A P P' R : Assertion V} (h : P * R ≤ P') :
    borrowed A P * R ≤ borrowed A P' := by
  rw [borrowed, mul_assoc]
  refine le_borrowed ?_
  rw [← mul_assoc]
  exact (mul_le_mul_left (borrowed_le A P) R).trans h

/-- A pointer that may be null. -/
def nullable {α : Type} (A : ℕ → α → Assertion V) (p : ℕ) : Option α → Assertion V
  | none => lift (p = 0)
  | some a => A p a

@[simp] theorem nullable_none {α : Type} (A : ℕ → α → Assertion V) (p : ℕ) :
    nullable A p none = lift (p = 0) := rfl

@[simp] theorem nullable_some {α : Type} (A : ℕ → α → Assertion V) (p : ℕ) (a : α) :
    nullable A p (some a) = A p a := rfl

/-- Pointers to as many things, one after the other. -/
def each {α : Type} (A : ℕ → α → Assertion V) : List ℕ → List α → Assertion V
  | [], [] => 1
  | p :: ps, a :: as => A p a * each A ps as
  | _, _ => ⊥

section Each

variable {α : Type} {A : ℕ → α → Assertion V}

@[simp] theorem each_nil : each A [] [] = 1 := rfl

@[simp] theorem each_cons (p : ℕ) (ps : List ℕ) (a : α) (as : List α) :
    each A (p :: ps) (a :: as) = A p a * each A ps as := rfl

@[simp] theorem each_nil_cons (a : α) (as : List α) : each A [] (a :: as) = ⊥ := rfl

@[simp] theorem each_cons_nil (p : ℕ) (ps : List ℕ) : each A (p :: ps) [] = ⊥ := rfl

theorem each_length (ps : List ℕ) (as : List α) :
    each A ps as = lift (ps.length = as.length) * each A ps as := by
  induction ps generalizing as with
  | nil => cases as <;> simp [each]
  | cons p ps ih =>
    cases as with
    | nil => simp [each]
    | cons a as =>
      rw [each_cons, ih as]
      by_cases hlength : ps.length = as.length <;> simp [hlength]

theorem each_append (ps : List ℕ) (as : List α) (ps' : List ℕ) (as' : List α)
    (h : ps.length = as.length) :
    each A (ps ++ ps') (as ++ as') = each A ps as * each A ps' as' := by
  induction ps generalizing as with
  | nil =>
    obtain rfl : as = [] := List.length_eq_zero_iff.1 h.symm
    simp
  | cons p ps ih =>
    cases as with
    | nil => simp at h
    | cons a as =>
      rw [List.cons_append, List.cons_append, each_cons, each_cons,
        ih as (by simpa using h), mul_assoc]

theorem each_map {β : Type} (f : β → α) (ps : List ℕ) (bs : List β) :
    each A ps (bs.map f) = each (fun p b => A p (f b)) ps bs := by
  induction ps generalizing bs with
  | nil => cases bs <;> rfl
  | cons p ps ih =>
    cases bs with
    | nil => rfl
    | cons b bs => rw [List.map_cons, each_cons, each_cons, ih bs]

/-- One thing of many, and the others. -/
theorem each_set {ps : List ℕ} {as : List α} {i : ℕ} {p : ℕ} (a : α) (hp : ps[i]? = some p)
    (hlength : ps.length = as.length) :
    each A ps (as.set i a) = A p a * each A (ps.eraseIdx i) (as.eraseIdx i) := by
  induction ps generalizing as i with
  | nil => simp at hp
  | cons q ps ih =>
    cases as with
    | nil => simp at hlength
    | cons b as =>
      cases i with
      | zero =>
        obtain rfl : q = p := by simpa using hp
        rfl
      | succ i =>
        rw [List.set_cons_succ, each_cons, ih (by simpa using hp) (by simpa using hlength)]
        exact mul_left_comm _ _ _

theorem each_get {ps : List ℕ} {as : List α} {i : ℕ} {p : ℕ} {a : α} (hp : ps[i]? = some p)
    (ha : as[i]? = some a) (hlength : ps.length = as.length) :
    each A ps as = A p a * each A (ps.eraseIdx i) (as.eraseIdx i) := by
  obtain ⟨hi, rfl⟩ := List.getElem?_eq_some_iff.1 ha
  rw [← each_set as[i] hp hlength, List.set_getElem_self]

/-- The blocks of a heap that consists of things one block each. -/
theorem each_pointsTo_blocks {T : Type} [Layout V T] {ps : List ℕ} {ts : List T} {h : Heap V}
    (hh : each pointsTo ps ts h) :
    h.entries.map Sigma.snd = ((ts.map Layout.block : List V) : Multiset V) := by
  induction ps generalizing ts h with
  | nil =>
    cases ts with
    | nil =>
      obtain rfl : h = ∅ := hh
      rfl
    | cons t ts => exact hh.elim
  | cons p ps ih =>
    cases ts with
    | nil => exact hh.elim
    | cons t ts =>
      obtain ⟨_, h', ⟨-, rfl⟩, hrest, hdisj, rfl⟩ := hh
      have hnew : p ∉ h' := hdisj p ((Finmap.mem_singleton _ _ _).2 rfl)
      rw [← insert_eq_union, Finmap.entries_insert_of_notMem hnew, Multiset.map_cons, ih hrest]
      rfl

end Each

end Assertion

open Assertion Mem

/-! ## Triples -/

/-- From any part of a heap that satisfies the precondition, next to any other part, a run with
    enough rounds ends, in the same way however many they are; the postcondition holds of what
    became of the first part, and the other is as before. -/
def Triple {V α : Type} (P : Assertion V) (p : Mem V α) (Q : α → Assertion V) : Prop :=
  ∀ (allocator : Allocator V) (h frame : Heap V) (allocations : ℕ), P h → h.Disjoint frame →
    ∃ a h' allocations', Q a h' ∧ h'.Disjoint frame ∧ ∀ᶠ fuel in Filter.atTop,
      p.run ⟨allocator, fuel⟩ ⟨h ∪ frame, allocations⟩ = .ok (a, ⟨h' ∪ frame, allocations'⟩)

namespace Triple

variable {V T α β σ : Type} {P P' R : Assertion V} {Q Q' : α → Assertion V}

/-! ### Structure -/

theorem ret {a : α} (h : P ≤ Q a) : Triple P (pure a) Q := fun _ h₀ _ allocations hP hdisj =>
  ⟨a, h₀, allocations, h _ hP, hdisj, .of_forall fun _ => rfl⟩

theorem bind {p : Mem V α} {f : α → Mem V β} {Q' : β → Assertion V} (hp : Triple P p Q)
    (hf : ∀ a, Triple (Q a) (f a) Q') : Triple P (p >>= f) Q' := by
  intro allocator h frame allocations hP hdisj
  obtain ⟨a, h₁, allocations₁, hQ, hdisj₁, hrun₁⟩ := hp allocator h frame allocations hP hdisj
  obtain ⟨b, h₂, allocations₂, hQ', hdisj₂, hrun₂⟩ := hf a allocator h₁ frame allocations₁ hQ hdisj₁
  refine ⟨b, h₂, allocations₂, hQ', hdisj₂, ?_⟩
  filter_upwards [hrun₁, hrun₂] with fuel hfirst hsecond
  rw [run_bind f hfirst, hsecond]

theorem conseq {p : Mem V α} (h : Triple P p Q) (hP : P' ≤ P) (hQ : ∀ a, Q a ≤ Q' a) :
    Triple P' p Q' := by
  intro allocator h₀ frame allocations hP' hdisj
  obtain ⟨a, h₁, allocations₁, hpost, hdisj₁, hrun⟩ :=
    h allocator h₀ frame allocations (hP _ hP') hdisj
  exact ⟨a, h₁, allocations₁, hQ a _ hpost, hdisj₁, hrun⟩

theorem frame {p : Mem V α} (h : Triple P p Q) (R : Assertion V) :
    Triple (P * R) p (fun a => Q a * R) := by
  rintro allocator _ rest allocations ⟨h₁, h₂, hP, hR, hdisj, rfl⟩ hrest
  rw [Finmap.disjoint_union_left] at hrest
  obtain ⟨a, h₁', allocations', hQ, hdisj', hrun⟩ := h allocator h₁ (h₂ ∪ rest) allocations hP
    ((Finmap.disjoint_union_right _ _ _).2 ⟨hdisj, hrest.1⟩)
  rw [Finmap.disjoint_union_right] at hdisj'
  refine ⟨a, h₁' ∪ h₂, allocations', ⟨h₁', h₂, hQ, hR, hdisj'.1, rfl⟩,
    (Finmap.disjoint_union_left _ _ _).2 ⟨hdisj'.2, hrest.2⟩, ?_⟩
  simpa only [Finmap.union_assoc] using hrun

theorem bot {p : Mem V α} : Triple ⊥ p Q := fun _ _ _ _ hbot => hbot.elim

theorem exists_left {ι : Sort*} {P : ι → Assertion V} {p : Mem V α}
    (h : ∀ i, Triple (P i) p Q) : Triple (⨆ i, P i) p Q := by
  intro allocator h₀ frame allocations hP hdisj
  obtain ⟨i, hP⟩ := iSup_iff.1 hP
  exact h i allocator h₀ frame allocations hP hdisj

/-! ### Loops -/

/-- A loop does what a round of it and then the rest of it do. -/
theorem loop {body : σ → Mem V (Round σ α)} {s : σ}
    (h : Triple P (body s >>= continueWith body) Q) : Triple P (Mem.loop body s) Q := by
  intro allocator h₀ frame allocations hP hdisj
  obtain ⟨a, h₁, allocations₁, hQ, hdisj₁, hrun⟩ := h allocator h₀ frame allocations hP hdisj
  refine ⟨a, h₁, allocations₁, hQ, hdisj₁, ?_⟩
  filter_upwards [Filter.tendsto_sub_atTop_nat 1 |>.eventually hrun, Filter.eventually_ge_atTop 1]
    with fuel hrun hfuel
  obtain ⟨fuel, rfl⟩ : ∃ n, fuel = n + 1 := ⟨fuel - 1, by omega⟩
  rw [run_loop, ← hrun]
  rfl

/-! ### Blocks -/

section Blocks

variable [Layout V T]

private theorem stored_union {p : ℕ} {t : T} {h : Heap V} (hp : p ≠ 0) :
    stored T p (Finmap.singleton p (Layout.block t) ∪ h) = some t := by
  rw [stored, if_neg hp, Finmap.lookup_union_left ((Finmap.mem_singleton _ _ _).2 rfl),
    Finmap.lookup_singleton_eq, Option.bind_some, Layout.view_block]

theorem malloc_spec (t : T) : Triple (1 : Assertion V) (malloc t) (fun p => pointsTo p t) := by
  rintro allocator _ frame allocations rfl -
  have hfresh := allocator.pick_notMem allocations frame
  refine ⟨allocator.pick allocations frame, _, allocations + 1,
    ⟨allocator.pick_ne_zero _ _, rfl⟩, ?_, .of_forall fun _ => ?_⟩
  · intro p hp
    rw [Finmap.mem_singleton] at hp
    rwa [hp]
  · rw [Finmap.empty_union, ← insert_eq_union]
    rfl

theorem peek_spec (p : ℕ) (t : T) :
    Triple (pointsTo p t : Assertion V) (peek p) (returning t (pointsTo p t)) := by
  rintro allocator _ frame allocations ⟨hp, rfl⟩ hdisj
  refine ⟨t, _, allocations, returning_self _ _ _ ⟨hp, rfl⟩, hdisj, .of_forall fun _ => ?_⟩
  simp only [run, peek, stored_union hp]

theorem poke_spec (p : ℕ) (t t' : T) :
    Triple (pointsTo p t : Assertion V) (poke p t') (fun _ => pointsTo p t') := by
  rintro allocator _ frame allocations ⟨hp, rfl⟩ hdisj
  refine ⟨(), _, allocations, ⟨hp, rfl⟩, ?_, .of_forall fun _ => ?_⟩
  · intro q hq
    refine hdisj q ?_
    rwa [Finmap.mem_singleton] at hq ⊢
  · simp only [run, poke, stored_union hp, Finmap.insert_union, Finmap.insert_singleton_eq]

theorem free_spec (p : ℕ) (t : T) :
    Triple (pointsTo p t : Assertion V) (free p) (fun _ => 1) := by
  rintro allocator _ frame allocations ⟨hp, rfl⟩ hdisj
  have hnotMem : p ∉ frame := hdisj p ((Finmap.mem_singleton _ _ _).2 rfl)
  refine ⟨(), ∅, allocations, rfl, Finmap.disjoint_empty _, .of_forall fun _ => ?_⟩
  have hmem : p ∈ Finmap.singleton p (Layout.block t) ∪ frame :=
    Finmap.mem_union.2 (.inl ((Finmap.mem_singleton _ _ _).2 rfl))
  have herase : Finmap.erase p (Finmap.singleton p (Layout.block t) ∪ frame) = ∅ ∪ frame := by
    refine Finmap.ext_lookup fun q => ?_
    by_cases hq : q = p
    · subst hq
      rw [Finmap.lookup_erase, Finmap.empty_union, Finmap.lookup_eq_none.2 hnotMem]
    · rw [Finmap.lookup_erase_ne hq, Finmap.empty_union,
        Finmap.lookup_union_right (by rwa [Finmap.mem_singleton])]
  simp only [run, free, if_neg hp, if_pos hmem, herase]

end Blocks

theorem free_null : (free 0 : Mem V Unit) = pure () := rfl

/-- A pointer that may be null can be released. -/
theorem free_nullable [Layout V T] (p : ℕ) (t : Option T) :
    Triple (nullable (V := V) pointsTo p t) (free p) (fun _ => 1) := by
  cases t with
  | none =>
    refine exists_left fun hp => ?_
    rw [hp, free_null]
    exact ret le_rfl
  | some t => exact free_spec p t

end Triple

/-! ## Parts of a product

A product is searched for the part that a rule is about. The searches fill in what the part
says and what else there is. -/

namespace Assertion

variable {V T : Type} {P Q A B R S : Assertion V}

/-- `P` is `A` and the rest `R`. -/
class Frames (P A : Assertion V) (R : outParam (Assertion V)) : Prop where
  eq : P = A * R

instance (priority := 1100) frames_self : Frames A A 1 := ⟨(mul_one A).symm⟩

instance (priority := 1095) frames_one_left [h : Frames P A R] : Frames (1 * P) A R :=
  ⟨by rw [one_mul, h.eq]⟩

instance (priority := 1095) frames_one_right [h : Frames P A R] : Frames (P * 1) A R :=
  ⟨by rw [mul_one, h.eq]⟩

instance (priority := 1090) frames_one : Frames P 1 P := ⟨(one_mul P).symm⟩

instance (priority := 1090) frames_null {α : Type} {A : ℕ → α → Assertion V} :
    Frames P (nullable A 0 none) P := ⟨by rw [nullable_none, lift_of rfl, one_mul]⟩

instance (priority := 1085) frames_some {α : Type} {A : ℕ → α → Assertion V} {p : ℕ} {a : α}
    [h : Frames P (A p a) R] : Frames P (nullable A p (some a)) R := ⟨h.eq⟩

instance (priority := 1085) frames_each_nil {α : Type} {A : ℕ → α → Assertion V} :
    Frames P (each A [] []) P := ⟨(one_mul P).symm⟩

instance (priority := 1085) frames_each_cons {α : Type} {A : ℕ → α → Assertion V} {p : ℕ}
    {ps : List ℕ} {a : α} {as : List α} [hp : Frames P (A p a) R]
      [hps : Frames R (each A ps as) S] :
    Frames P (each A (p :: ps) (a :: as)) S := ⟨by rw [hp.eq, hps.eq, each_cons, mul_assoc]⟩

instance (priority := 1080) frames_mul [hA : Frames P A R] [hB : Frames R B S] :
    Frames P (A * B) S := ⟨by rw [hA.eq, hB.eq, mul_assoc]⟩

instance (priority := 1070) frames_left_self : Frames (A * Q) A Q := ⟨rfl⟩

instance (priority := 1060) frames_right_self : Frames (P * A) A P := ⟨mul_comm P A⟩

instance (priority := 1050) frames_left [h : Frames P A R] : Frames (P * Q) A (R * Q) :=
  ⟨by rw [h.eq, mul_assoc]⟩

instance (priority := 1040) frames_right [h : Frames Q A R] : Frames (P * Q) A (P * R) :=
  ⟨by rw [h.eq, mul_left_comm]⟩

theorem weaken_le (hAB : A ≤ B) [hA : Frames P A R] (h : B * R ≤ Q) : P ≤ Q := by
  rw [hA.eq]
  exact (mul_le_mul_left hAB R).trans h

/-- What has the same parts is the same. -/
theorem le_of_frames [h : Frames P A 1] : P ≤ A := by rw [h.eq, mul_one]

/-- `P` has `t` stored at `p`, and the rest `R`. -/
class Holds [Layout V T] (P : Assertion V) (p : ℕ) (t : outParam T) (R : outParam (Assertion V)) :
    Prop where
  eq : P = pointsTo p t * R

section Holds

variable [Layout V T] {p : ℕ} {t : T}

instance (priority := 1100) holds_self : Holds (V := V) (pointsTo p t) p t 1 := ⟨(mul_one _).symm⟩

instance (priority := 1070) holds_left_self : Holds (pointsTo p t * Q) p t Q := ⟨rfl⟩

instance (priority := 1060) holds_right_self : Holds (P * pointsTo p t) p t P := ⟨mul_comm _ _⟩

instance (priority := 1050) holds_left [h : Holds P p t R] : Holds (P * Q) p t (R * Q) :=
  ⟨by rw [h.eq, mul_assoc]⟩

instance (priority := 1040) holds_right [h : Holds Q p t R] : Holds (P * Q) p t (P * R) :=
  ⟨by rw [h.eq, mul_left_comm]⟩

end Holds

/-- `P` has something at `p`, which is then not the null pointer. -/
class NonNull (P : Assertion V) (p : ℕ) : Prop where
  le : P ≤ lift (p ≠ 0) * P

section NonNull

variable {p : ℕ}

instance (priority := 1100) nonNull_pointsTo [Layout V T] {t : T} :
    NonNull (pointsTo p t : Assertion V) p := ⟨(pointsTo_ne_zero p t).le⟩

instance (priority := 1050) nonNull_left [h : NonNull P p] : NonNull (P * Q) p :=
  ⟨(mul_le_mul_left h.le Q).trans_eq (mul_assoc _ _ _)⟩

instance (priority := 1040) nonNull_right [h : NonNull Q p] : NonNull (P * Q) p :=
  ⟨(mul_le_mul_right h.le P).trans_eq (mul_left_comm _ _ _)⟩

theorem nonNull_iSup {ι : Sort*} {A : ι → Assertion V} (h : ∀ i, NonNull (A i) p) :
    NonNull (⨆ i, A i) p :=
  ⟨iSup_le fun i => (h i).le.trans (mul_le_mul_right (le_iSup A i) _)⟩

end NonNull

/-- `P` is quantified existentially, in one of its parts. -/
class Opens (P : Assertion V) {ι : outParam (Sort*)} (P' : outParam (ι → Assertion V)) : Prop where
  eq : P = ⨆ i, P' i

section Opens

variable {ι : Sort*} {P' : ι → Assertion V}

instance (priority := 1100) opens_self : Opens (⨆ i, P' i) P' := ⟨rfl⟩

instance (priority := 1090) opens_lift {φ : Prop} : Opens (V := V) (lift φ)
    (fun _ : φ => 1) := ⟨rfl⟩

instance (priority := 1080) opens_lift_left {φ : Prop} : Opens (lift φ * Q) (fun _ : φ => Q) :=
  ⟨by rw [lift, iSup_mul]; simp only [one_mul]⟩

instance (priority := 1050) opens_left [h : Opens P P'] : Opens (P * Q) (fun i => P' i * Q) :=
  ⟨by rw [h.eq, iSup_mul]⟩

instance (priority := 1040) opens_right [h : Opens Q P'] : Opens (P * Q) (fun i => P * P' i) :=
  ⟨by rw [h.eq, mul_iSup]⟩

theorem opens_le [hP : Opens P P'] (h : ∀ i, P' i ≤ Q) : P ≤ Q := by
  rw [hP.eq]
  exact iSup_le h

theorem fold_le (A : Assertion V) (i : ι) [hA : Opens A P'] [hP : Frames P (P' i) R]
    (h : A * R ≤ Q) : P ≤ Q := by
  rw [hP.eq]
  have hle : P' i ≤ A := hA.eq ▸ le_iSup P' i
  exact (mul_le_mul_left hle R).trans h

theorem le_of_opens (i : ι) [hA : Opens A P'] [hP : Frames P (P' i) 1] : P ≤ A := by
  rw [hA.eq, hP.eq, mul_one]
  exact le_iSup P' i

end Opens

end Assertion

/-! ## Rules

Each rule is about the first step of a program and leaves the rest of it. -/

namespace Triple

variable {V T α β σ : Type} {P A B R : Assertion V} {Q : β → Assertion V} {f : α → Mem V β}

/-- A program that has a specification. -/
theorem call {p : Mem V α} {B : α → Assertion V} (spec : Triple A p B) [hA : Frames P A R]
    (h : ∀ a, Triple (B a * R) (f a) Q) : Triple P (p >>= f) Q := by
  rw [hA.eq]
  exact (spec.frame R).bind h

/-- A program of which it is known what it returns. -/
theorem callReturning {p : Mem V α} {a : α} (spec : Triple A p (returning a B))
    [hA : Frames P A R] (h : Triple (B * R) (f a) Q) : Triple P (p >>= f) Q := by
  refine call spec fun a' => ?_
  rw [returning, lift, iSup_mul, iSup_mul]
  refine exists_left fun ha => ?_
  rwa [one_mul, ha]

/-- A program that has a specification, as the last step. -/
theorem last {p : Mem V β} {B : β → Assertion V} (spec : Triple A p B) [hA : Frames P A R]
    (h : ∀ b, B b * R ≤ Q b) : Triple P p Q := by
  rw [hA.eq]
  exact (spec.frame R).conseq le_rfl h

theorem lastReturning {p : Mem V β} {b : β} {C : Assertion V} (spec : Triple A p (returning b B))
    [hA : Frames P A R] (h : B * R ≤ C) : Triple P p (returning b C) := by
  refine last spec fun b' => ?_
  rw [returning, mul_assoc]
  exact mul_le_mul_right h _

/-- Whatever it is that exists. -/
theorem opens {ι : Sort*} {P' : ι → Assertion V} {p : Mem V β} [hP : Opens P P']
    (h : ∀ i, Triple (P' i) p Q) : Triple P p Q := by
  rw [hP.eq]
  exact exists_left h

/-- What a part of the precondition consists of. -/
theorem expose (A : Assertion V) {ι : Sort*} {P' : ι → Assertion V} {p : Mem V β}
    [hA : Frames P A R] [hP : Opens A P'] (h : ∀ i, Triple (P' i * R) p Q) : Triple P p Q := by
  rw [hA.eq, hP.eq, iSup_mul]
  exact exists_left h

/-- What parts of the precondition make up. -/
theorem fold (A : Assertion V) {ι : Sort*} {P' : ι → Assertion V} (i : ι) {p : Mem V β}
    [Opens A P'] [Frames P (P' i) R] (h : Triple (A * R) p Q) : Triple P p Q :=
  h.conseq (fold_le A i le_rfl) fun _ => le_rfl

/-- A part of the precondition, as something weaker. -/
theorem weaken {p : Mem V β} (hAB : A ≤ B) [hA : Frames P A R] (h : Triple (B * R) p Q) :
    Triple P p Q := by
  rw [hA.eq]
  exact h.conseq (mul_le_mul_left hAB R) fun _ => le_rfl

/-- The last step returns, and owns what the postcondition says. -/
theorem return' {b : β} [Frames P (Q b) 1] : Triple P (pure b) Q := ret le_of_frames

theorem returning {b : β} (h : P ≤ B) : Triple P (pure b) (Assertion.returning b B) :=
  ret (h.trans (returning_self b B))

/-- What is known of a part of the precondition. -/
theorem learn {φ : Prop} {q : Mem V β} (hφ : A ≤ lift φ * A) [hA : Frames P A R]
    (h : φ → Triple P q Q) : Triple P q Q := by
  have hopen : Triple (lift φ * P) q Q := by
    rw [lift, iSup_mul]
    refine exists_left fun hφ => ?_
    rw [one_mul]
    exact h hφ
  refine hopen.conseq ?_ fun _ => le_rfl
  conv_lhs => rw [hA.eq]
  rw [hA.eq, ← mul_assoc]
  exact mul_le_mul_left hφ R

theorem ne_zero (p : ℕ) {q : Mem V β} [hp : NonNull P p] (h : p ≠ 0 → Triple P q Q) :
    Triple P q Q := learn hp.le h

/-- A pointer that may be null is null when there is nothing that it points to. -/
theorem null_iff {γ : Type} (A : ℕ → γ → Assertion V) (p : ℕ) (c : Option γ) {q : Mem V β}
    [hA : ∀ c, NonNull (A p c) p] [Frames P (nullable A p c) R]
    (h : (p = 0 ↔ c = none) → Triple P q Q) : Triple P q Q := by
  refine learn (A := nullable A p c) ?_ h
  cases c with
  | none =>
    refine iSup_le fun hp => ?_
    simp [hp]
  | some c =>
    refine (hA c).le.trans (mul_le_mul_left (iSup_le fun hp => ?_) _)
    rw [lift_of (by simpa using hp)]

section Each

variable {γ : Type} (A : ℕ → γ → Assertion V) {q : Mem V β}

theorem eachNil (cs : List γ) [hP : Frames P (each A [] cs) R] (h : cs = [] → Triple R q Q) :
    Triple P q Q := by
  rw [hP.eq]
  cases cs with
  | nil =>
    rw [each_nil, one_mul]
    exact h rfl
  | cons c cs =>
    rw [each_nil_cons, Quantale.bot_mul]
    exact bot

theorem eachCons (p : ℕ) (ps : List ℕ) (cs : List γ) [hP : Frames P (each A (p :: ps) cs) R]
    (h : ∀ c cs', cs = c :: cs' → Triple (A p c * (each A ps cs' * R)) q Q) : Triple P q Q := by
  rw [hP.eq]
  cases cs with
  | nil =>
    rw [each_cons_nil, Quantale.bot_mul]
    exact bot
  | cons c cs =>
    rw [each_cons, mul_assoc]
    exact h c cs rfl

end Each

section Blocks

variable [Layout V T] {p : ℕ} {t t' : T}

theorem malloc {f : ℕ → Mem V β} (h : ∀ p, Triple (pointsTo p t * P) (f p) Q) :
    Triple P (Mem.malloc t >>= f) Q :=
  call (malloc_spec t) h

theorem peek {f : T → Mem V β} [hp : Holds P p t R] (h : Triple P (f t) Q) :
    Triple P (Mem.peek p >>= f) Q := by
  have hframe : Frames P (pointsTo p t) R := ⟨hp.eq⟩
  refine callReturning (peek_spec p t) ?_
  rwa [← hp.eq]

theorem poke {f : Unit → Mem V β} [hp : Holds P p t R] (h : Triple (pointsTo p t' * R) (f ()) Q) :
    Triple P (Mem.poke p t' >>= f) Q := by
  have hframe : Frames P (pointsTo p t) R := ⟨hp.eq⟩
  exact call (poke_spec p t t') fun _ => h

theorem update {g : T → T} {f : Unit → Mem V β} [hp : Holds P p t R]
    (h : Triple (pointsTo p (g t) * R) (f ()) Q) : Triple P (Mem.update p g >>= f) Q := by
  rw [Mem.update, bind_assoc]
  exact peek (poke h)

end Blocks

/-- Releasing `p` leaves `R` of `P`. -/
class Frees (P : Assertion V) (p : ℕ) (R : outParam (Assertion V)) : Prop where
  spec : Triple P (Mem.free p) (fun _ => R)

section Frees

variable {p : ℕ} {Q : Assertion V} [Layout V T]

instance (priority := 1100) frees_nullable {t : Option T} :
    Frees (nullable (V := V) pointsTo p t) p 1 := ⟨free_nullable p t⟩

instance (priority := 1070) frees_left_self {t : T} : Frees (pointsTo p t * Q) p Q :=
  ⟨by simpa only [one_mul] using (free_spec p t).frame Q⟩

instance (priority := 1060) frees_right_self {t : T} : Frees (Q * pointsTo p t) p Q :=
  ⟨by rw [mul_comm]; simpa only [one_mul] using (free_spec p t).frame Q⟩

instance (priority := 1050) frees_left [h : Frees P p R] : Frees (P * Q) p (R * Q) :=
  ⟨h.spec.frame Q⟩

instance (priority := 1040) frees_right [h : Frees Q p R] : Frees (P * Q) p (P * R) :=
  ⟨by simpa only [mul_comm P] using h.spec.frame P⟩

end Frees

theorem free {p : ℕ} {f : Unit → Mem V β} [hp : Frees P p R] (h : Triple R (f ()) Q) :
    Triple P (Mem.free p >>= f) Q := hp.spec.bind fun _ => h

end Triple

end Base
