-- SUMMARY: Searching and cutting a string, and the numbers that strtol and atoi read in one.
import ChainTable.Base.CString

/-!
# Numbers in strings

`strtol` skips blanks, takes a sign and then the digits that follow, and says where it has
stopped. Pointers into a string are offsets.
-/

namespace Base

namespace CString

/-- `strchr(s, b)` -/
def strchr (s : CString) (b : UInt8) : Option ℕ :=
  if b ∈ s.bytes then some (s.bytes.takeWhile (· ≠ b)).length else none

/-- `s + offset`, when it points into the string or to its terminator. -/
def suffix (s : CString) (offset : ℕ) : Option CString :=
  if offset ≤ s.bytes.length then
    some ⟨s.bytes.drop offset, fun hmem => s.nulFree (List.mem_of_mem_drop hmem)⟩
  else none

/-- `strndup(s, n)` -/
def strndup (s : CString) (n : UInt64) : CString :=
  ⟨s.bytes.take n.toNat, fun hmem => s.nulFree (List.mem_of_mem_take hmem)⟩

theorem strchr_eq_none {s : CString} {b : UInt8} (h : b ∉ s.bytes) : s.strchr b = none := if_neg h

section Split

variable {s : CString} {b : UInt8} {front rest : Bytes} (hs : s.bytes = front ++ b :: rest)

include hs

/-- The first occurrence. -/
theorem strchr_eq_some (hfront : b ∉ front) : s.strchr b = some front.length := by
  have hne : ∀ b' ∈ front, decide (b' ≠ b) = true := by
    intro b' hb'
    have : b' ≠ b := fun h => hfront (h ▸ hb')
    simpa using this
  rw [strchr, if_pos (by simp [hs]), hs, List.takeWhile_append_of_pos hne]
  simp

theorem suffix_eq_some (text : CString) (htext : text.bytes = rest) :
    s.suffix (front.length + 1) = some text := by
  rw [suffix, if_pos (by simp [hs])]
  congr 1
  ext1
  simp [hs, htext]

end Split

/-! ## Numbers -/

/-- `isspace` -/
def IsSpace (b : UInt8) : Prop := b = 32 ∨ 9 ≤ b ∧ b ≤ 13

instance (b : UInt8) : Decidable (IsSpace b) := inferInstanceAs (Decidable (_ ∨ _))

/-- `isdigit` -/
def IsDigit (b : UInt8) : Prop := 48 ≤ b ∧ b ≤ 57

instance (b : UInt8) : Decidable (IsDigit b) := inferInstanceAs (Decidable (_ ∧ _))

/-- The number that digits stand for. -/
def decimal (digits : Bytes) : ℕ := digits.foldl (fun n b => 10 * n + (b.toNat - 48)) 0

/-- The sign that a text starts with. -/
def sign : Bytes → Bytes
  | b :: _ => if b = 43 ∨ b = 45 then [b] else []
  | [] => []

/-- `strtol(s, endptr, 10)`: the number, which stops at the bounds of a `long`, and where
    `endptr` points to. -/
def strtol (s : CString) : Int64 × ℕ :=
  let blanks := s.bytes.takeWhile (IsSpace ·)
  let sign := sign (s.bytes.drop blanks.length)
  let digits := (s.bytes.drop (blanks.length + sign.length)).takeWhile (IsDigit ·)
  if digits = [] then (0, 0)
  else
    let n : Int := if sign = [45] then -decimal digits else decimal digits
    (.ofInt (max (-2 ^ 63) (min n (2 ^ 63 - 1))), blanks.length + sign.length + digits.length)

/-- `atoi` -/
def atoi (s : CString) : Int32 := s.strtol.1.toInt32

/-- What `strtol` reads when it finds a number. -/
structure Numeral where
  blanks : Bytes
  sign : Bytes
  digits : Bytes
  isSpace : ∀ b ∈ blanks, IsSpace b
  isSign : sign = [] ∨ sign = [43] ∨ sign = [45]
  isDigit : ∀ b ∈ digits, IsDigit b
  nonempty : digits ≠ []

namespace Numeral

def bytes (n : Numeral) : Bytes := n.blanks ++ (n.sign ++ n.digits)

/-- Digits alone. -/
def ofDigits (digits : Bytes) (isDigit : ∀ b ∈ digits, IsDigit b)
    (nonempty : digits ≠ []) : Numeral :=
  ⟨[], [], digits, List.forall_mem_nil _, .inl rfl, isDigit, nonempty⟩

end Numeral

theorem not_isSpace_of_isDigit {b : UInt8} (h : IsDigit b) : ¬ IsSpace b := by
  rcases h with ⟨hlow, -⟩
  rw [UInt8.le_iff_toNat_le] at hlow
  rintro (rfl | ⟨-, hhigh⟩)
  · exact absurd hlow (by decide)
  · rw [UInt8.le_iff_toNat_le] at hhigh
    exact absurd (hlow.trans hhigh) (by decide)

theorem sign_append_drop (text : Bytes) : sign text ++ text.drop (sign text).length = text := by
  cases text with
  | nil => rfl
  | cons b text =>
    rw [sign]
    split <;> rfl

theorem sign_cases (text : Bytes) : sign text = [] ∨ sign text = [43] ∨ sign text = [45] := by
  cases text with
  | nil => exact .inl rfl
  | cons b text =>
    rw [sign]
    split
    next h =>
      rcases h with rfl | rfl
      · exact .inr (.inl rfl)
      · exact .inr (.inr rfl)
    next => exact .inl rfl

namespace Numeral

variable (n : Numeral)

/-- No blank stands behind the blanks. -/
theorem takeWhile_isSpace : n.bytes.takeWhile (IsSpace ·) = n.blanks := by
  have hblanks : ∀ b ∈ n.blanks, decide (IsSpace b) = true := by simpa using n.isSpace
  have hrest : (n.sign ++ n.digits).takeWhile (IsSpace ·) = [] := by
    obtain ⟨b, digits, hdigits⟩ := List.exists_cons_of_ne_nil n.nonempty
    have hb : ¬ IsSpace b := not_isSpace_of_isDigit (n.isDigit b (by simp [hdigits]))
    rcases n.isSign with hsign | hsign | hsign
    · rw [hsign, hdigits, List.nil_append, List.takeWhile_cons_of_neg (by simpa using hb)]
    · rw [hsign]
      rfl
    · rw [hsign]
      rfl
  rw [bytes, List.takeWhile_append_of_pos hblanks, hrest, List.append_nil]

/-- A digit is no sign. -/
theorem sign_eq : CString.sign (n.sign ++ n.digits) = n.sign := by
  rcases n.isSign with hsign | hsign | hsign
  · obtain ⟨b, digits, hdigits⟩ := List.exists_cons_of_ne_nil n.nonempty
    have hb : ¬ (b = 43 ∨ b = 45) := by
      have hdigit := n.isDigit b (by simp [hdigits])
      rintro (rfl | rfl) <;> exact absurd hdigit (by decide)
    rw [hsign, hdigits, List.nil_append, CString.sign, if_neg hb]
  · rw [hsign]
    rfl
  · rw [hsign]
    rfl

end Numeral

/-- `strtol` finds the parts of a numeral again. -/
theorem strtol_numeral {s : CString} (n : Numeral) (hs : s.bytes = n.bytes) :
    s.strtol = (.ofInt
      (max (-2 ^ 63) (min (if n.sign = [45] then -decimal n.digits else decimal n.digits)
      (2 ^ 63 - 1))), s.bytes.length) := by
  have hdrop : n.bytes.drop n.blanks.length = n.sign ++ n.digits := List.drop_left
  have hdrop' : n.bytes.drop (n.blanks.length + n.sign.length) = n.digits := by
    rw [← List.drop_drop, hdrop, List.drop_left]
  have hdigits : n.digits.takeWhile (IsDigit ·) = n.digits := by
    rw [List.takeWhile_eq_self_iff]
    simpa using n.isDigit
  have hlength : n.blanks.length + n.sign.length + n.digits.length = n.bytes.length := by
    rw [Numeral.bytes, List.length_append, List.length_append, Nat.add_assoc]
  simp only [strtol, hs, n.takeWhile_isSpace, hdrop, n.sign_eq, hdrop', hdigits, hlength]
  rw [if_neg n.nonempty]

/-- `strtol` stops behind a numeral, or at the beginning. -/
theorem strtol_stops (s : CString) :
    s.strtol.2 = 0 ∨ ∃ (n : Numeral) (rest : Bytes), s.bytes = n.bytes ++ rest ∧
      s.strtol.2 = n.bytes.length := by
  let blanks := s.bytes.takeWhile (IsSpace ·)
  let sign' := sign (s.bytes.drop blanks.length)
  let digits := (s.bytes.drop (blanks.length + sign'.length)).takeWhile (IsDigit ·)
  have hstop : s.strtol.2 =
      if digits = [] then 0 else blanks.length + sign'.length + digits.length := by
    simp only [strtol, digits, sign', blanks]
    split <;> rfl
  have hblanks : blanks ++ s.bytes.drop blanks.length = s.bytes :=
    List.prefix_iff_eq_append.1 (List.takeWhile_prefix _)
  have hsign : sign' ++ s.bytes.drop (blanks.length + sign'.length) =
    s.bytes.drop blanks.length := by
    rw [← List.drop_drop]
    exact sign_append_drop _
  let rest := (s.bytes.drop (blanks.length + sign'.length)).drop digits.length
  have hdigits : digits ++ rest = s.bytes.drop (blanks.length + sign'.length) :=
    List.prefix_iff_eq_append.1 (List.takeWhile_prefix _)
  split at hstop
  next => exact .inl hstop
  next hne =>
    let n : Numeral := {
      blanks := blanks
      sign := sign'
      digits := digits
      isSpace := fun b hb => by simpa using List.mem_takeWhile_imp hb
      isSign := sign_cases _
      isDigit := fun b hb => by simpa using List.mem_takeWhile_imp hb
      nonempty := hne }
    refine .inr ⟨n, rest, ?_, ?_⟩
    · calc s.bytes = blanks ++ (sign' ++ (digits ++ rest)) := by rw [hdigits, hsign, hblanks]
        _ = n.bytes ++ rest := by simp [n, Numeral.bytes]
    · rw [hstop]
      simp [n, Numeral.bytes, Nat.add_assoc]

/-- `strtol` reads a whole string exactly when it is a numeral, or empty. -/
theorem strtol_end_iff (s : CString) :
    s.strtol.2 = s.bytes.length ↔ s.bytes = [] ∨ ∃ n : Numeral, n.bytes = s.bytes := by
  constructor
  · intro hend
    rcases s.strtol_stops with hzero | ⟨n, rest, hs, hstop⟩
    · rw [hzero] at hend
      exact .inl (List.length_eq_zero_iff.1 hend.symm)
    · have hlength := congrArg List.length hs
      rw [List.length_append] at hlength
      obtain rfl : rest = [] := List.length_eq_zero_iff.1 (by omega)
      rw [List.append_nil] at hs
      exact .inr ⟨n, hs.symm⟩
  · rintro (hnil | ⟨n, hn⟩)
    · simp [strtol, hnil]
    · rw [strtol_numeral n hn.symm]

theorem strtol_le_length (s : CString) : s.strtol.2 ≤ s.bytes.length := by
  rcases s.strtol_stops with hzero | ⟨n, rest, hs, hstop⟩
  · omega
  · have hlength := congrArg List.length hs
    rw [List.length_append] at hlength
    omega

end CString

end Base
