-- SUMMARY: NUL-terminated byte strings, the linear order that `strcmp` decides, and numbers padded with zeros in this order.
import Mathlib

/-!
# C strings

A C string is the sequence of bytes before its terminator, so the bytes are all
non-zero; the subtype carries that fact. `strcmp` compares bytes as unsigned
characters, and its sign decides the lexicographic order of the bytes.
-/

namespace Base

abbrev Bytes := List UInt8

/-- A NUL-terminated string, as the bytes in front of the terminator. -/
@[ext] structure CString where
  bytes : Bytes
  nulFree : (0 : UInt8) ∉ bytes

namespace CString

/-- The empty string. -/
def empty : CString := ⟨[], by simp⟩

/-- `strcat`: the bytes of one string followed by those of another. -/
def append (s t : CString) : CString :=
  ⟨s.bytes ++ t.bytes, by simpa using ⟨s.nulFree, t.nulFree⟩⟩

/-- The first `n` bytes. -/
def take (n : ℕ) (s : CString) : CString :=
  ⟨s.bytes.take n, fun h => s.nulFree (List.mem_of_mem_take h)⟩

theorem take_eq_self_iff {n : ℕ} {s : CString} : s.take n = s ↔ s.bytes.length ≤ n := by
  rw [CString.ext_iff, take, List.take_eq_self_iff]

theorem zero_notMem_slash : (0 : UInt8) ∉ [0x2f] := by decide

@[simp] theorem bytes_empty : empty.bytes = [] := rfl

@[simp] theorem bytes_append (s t : CString) : (s.append t).bytes = s.bytes ++ t.bytes := rfl

theorem bytes_injective : Function.Injective CString.bytes :=
  fun _ _ h => CString.ext h

theorem append_right_injective (s : CString) : Function.Injective s.append := by
  intro t t' h
  apply bytes_injective
  simpa using congrArg bytes h

/-! ## Comparison -/

instance : LinearOrder UInt8 where
  le_refl _ := UInt8.le_refl _
  le_trans _ _ _ := UInt8.le_trans
  le_antisymm _ _ := UInt8.le_antisymm
  le_total := UInt8.le_total
  lt_iff_le_not_ge a b := by
    simp only [UInt8.lt_iff_toNat_lt, UInt8.le_iff_toNat_le]
    omega
  toDecidableLE := inferInstance

/-- `strcmp` on the bytes of two strings: the difference of the first bytes that
    differ, the terminator counting as 0. -/
def compareBytes : Bytes → Bytes → Int
  | [], [] => 0
  | [], b :: _ => -(b.toNat : Int)
  | a :: _, [] => a.toNat
  | a :: s, b :: t => if a = b then compareBytes s t else (a.toNat : Int) - b.toNat

def strcmp (s t : CString) : Int := compareBytes s.bytes t.bytes

instance : LinearOrder CString := LinearOrder.lift' CString.bytes bytes_injective

theorem lt_iff_bytes {s t : CString} : s < t ↔ s.bytes < t.bytes := Iff.rfl

private theorem toNat_pos {b : UInt8} (h : b ≠ 0) : 0 < b.toNat := by
  rw [Nat.pos_iff_ne_zero]
  intro h0
  exact h (UInt8.toNat_inj.1 h0)

private theorem compareBytes_neg_iff :
    ∀ {s t : Bytes}, (0 : UInt8) ∉ s → (0 : UInt8) ∉ t → (compareBytes s t < 0 ↔ s < t)
  | [], [], _, _ => by simp [compareBytes]
  | [], b :: t, _, ht => by
    have := toNat_pos (b := b) (by rintro rfl; simp at ht)
    simpa [compareBytes] using this
  | a :: s, [], _, _ => by simp [compareBytes]
  | a :: s, b :: t, hs, ht => by
    have ih := compareBytes_neg_iff (s := s) (t := t) (by simp_all) (by simp_all)
    rw [compareBytes, List.cons_lt_cons_iff]
    split
    · rename_i hab
      simp [hab, ih]
    · rename_i hab
      simp only [hab, false_and, or_false, UInt8.lt_iff_toNat_lt]
      omega

private theorem compareBytes_eq_zero_iff :
    ∀ {s t : Bytes}, (0 : UInt8) ∉ s → (0 : UInt8) ∉ t → (compareBytes s t = 0 ↔ s = t)
  | [], [], _, _ => by simp [compareBytes]
  | [], b :: t, _, ht => by
    have := toNat_pos (b := b) (by rintro rfl; simp at ht)
    simp only [compareBytes, List.nil_eq, reduceCtorEq, iff_false]
    omega
  | a :: s, [], hs, _ => by
    have := toNat_pos (b := a) (by rintro rfl; simp at hs)
    simp only [compareBytes, reduceCtorEq, iff_false]
    omega
  | a :: s, b :: t, hs, ht => by
    have ih := compareBytes_eq_zero_iff (s := s) (t := t) (by simp_all) (by simp_all)
    rw [compareBytes]
    split
    · rename_i hab
      simp [hab, ih]
    · rename_i hab
      have : a.toNat ≠ b.toNat := fun h => hab (UInt8.toNat_inj.1 h)
      simp only [List.cons.injEq, hab, false_and, iff_false]
      omega

theorem strcmp_neg_iff {s t : CString} : strcmp s t < 0 ↔ s < t :=
  compareBytes_neg_iff s.nulFree t.nulFree

theorem strcmp_eq_zero_iff {s t : CString} : strcmp s t = 0 ↔ s = t :=
  (compareBytes_eq_zero_iff s.nulFree t.nulFree).trans CString.ext_iff.symm

@[simp] theorem strcmp_self (s : CString) : strcmp s s = 0 := strcmp_eq_zero_iff.2 rfl

theorem strcmp_pos_iff {s t : CString} : 0 < strcmp s t ↔ t < s := by
  have hneg := strcmp_neg_iff (s := s) (t := t)
  have hzero := strcmp_eq_zero_iff (s := s) (t := t)
  constructor
  · intro h
    refine lt_of_le_of_ne (not_lt.1 fun hlt => ?_) fun heq => ?_
    · have := hneg.2 hlt
      omega
    · have := hzero.2 heq.symm
      omega
  · intro h
    have h1 : ¬ strcmp s t < 0 := fun hlt => lt_asymm h (hneg.1 hlt)
    have h2 : strcmp s t ≠ 0 := fun heq => h.ne' (hzero.1 heq)
    omega

theorem strcmp_nonpos_iff {s t : CString} : strcmp s t ≤ 0 ↔ s ≤ t := by
  rw [← not_lt, ← not_lt, strcmp_pos_iff]

theorem strcmp_nonneg_iff {s t : CString} : 0 ≤ strcmp s t ↔ t ≤ s := by
  rw [← not_lt, ← not_lt, strcmp_neg_iff]

/-- The empty string is below every other. -/
theorem empty_lt_iff {s : CString} : empty < s ↔ s ≠ empty := by
  rw [lt_iff_bytes, bytes_empty]
  cases h : s.bytes with
  | nil => simp [CString.ext_iff, h]
  | cons b bs => simp [CString.ext_iff, h]

/-- A common prefix does not change the comparison. -/
theorem append_lt_append_iff {p s t : CString} : p.append s < p.append t ↔ s < t := by
  simp only [lt_iff_bytes, bytes_append]
  induction p.bytes with
  | nil => rfl
  | cons b bs ih => simpa [List.cons_lt_cons_iff] using ih

/-! ## Numbers -/

/-- The last digits of a number in ASCII, as many as `width` says. -/
def digits : ℕ → ℕ → Bytes
  | 0, _ => []
  | width + 1, n => .ofNat (48 + n / 10 ^ width % 10) :: digits width n

private theorem toNat_digit (n : ℕ) : (UInt8.ofNat (48 + n % 10)).toNat = 48 + n % 10 := by
  rw [UInt8.toNat_ofNat']
  omega

theorem zero_notMem_digits (width n : ℕ) : (0 : UInt8) ∉ digits width n := by
  induction width with
  | zero => exact List.not_mem_nil
  | succ width ih =>
    rw [digits, List.mem_cons, not_or]
    refine ⟨fun hzero => ?_, ih⟩
    have hdigit := toNat_digit (n / 10 ^ width)
    rw [← hzero, UInt8.toNat_zero] at hdigit
    omega

private theorem add_mul_lt_of_digit_lt {p a d e : ℕ} (ha : a < p) (hlt : d < e) (b : ℕ) :
    a + p * d < b + p * e :=
  calc a + p * d < p + p * d := by omega
    _ = p * (d + 1) := by ring
    _ ≤ p * e := Nat.mul_le_mul_left p hlt
    _ ≤ b + p * e := Nat.le_add_left _ _

theorem digits_lt_digits_iff (width m n : ℕ) :
    digits width m < digits width n ↔ m % 10 ^ width < n % 10 ^ width := by
  induction width with
  | zero => simp [digits, Nat.mod_one]
  | succ width ih =>
    rw [digits, digits, List.cons_lt_cons_iff, ih, UInt8.lt_iff_toNat_lt, ← UInt8.toNat_inj,
      toNat_digit, toNat_digit, Nat.mod_pow_succ, Nat.mod_pow_succ]
    -- the first digit decides, and the others when it is the same
    have hm : m % 10 ^ width < 10 ^ width := Nat.mod_lt _ (by positivity)
    have hn : n % 10 ^ width < 10 ^ width := Nat.mod_lt _ (by positivity)
    rcases lt_trichotomy (m / 10 ^ width % 10) (n / 10 ^ width % 10) with hlt | heq | hgt
    · exact iff_of_true (.inl (by omega)) (add_mul_lt_of_digit_lt hm hlt _)
    · rw [heq]
      simp
    · exact iff_of_false (by omega) (add_mul_lt_of_digit_lt hn hgt _).not_gt

/-- A number that is padded with zeros. -/
def padded (width n : ℕ) : CString := ⟨digits width n, zero_notMem_digits width n⟩

/-- Numbers that fit into the digits are compared as numbers. -/
theorem strictMonoOn_padded (width : ℕ) : StrictMonoOn (padded width) {n | n < 10 ^ width} := by
  intro m hm n hn hlt
  rw [lt_iff_bytes, padded, padded, digits_lt_digits_iff, Nat.mod_eq_of_lt hm, Nat.mod_eq_of_lt hn]
  exact hlt

end CString

end Base
