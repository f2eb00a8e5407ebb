-- SUMMARY: Strings in a buffer: lines that fgets reads into it, and the tokens that strtok cuts out of it in place.
import ChainTable.Base.CString

/-!
# Tokens

`strtok` returns pointers into the buffer that it is given, writes terminators into it, and
remembers where it stopped for the calls that pass `NULL`. A pointer into the buffer is an
offset. Reading past the end of the buffer is undefined, which is `none` here.
-/

namespace Base

/-- The bytes of a text of ASCII characters. -/
def chars (text : String) : Bytes := text.toList.map fun c => .ofNat c.toNat

/-- A buffer, and the pointer that `strtok` keeps between two calls. -/
structure Tokens where
  buf : Bytes
  saved : Option ℕ
  deriving DecidableEq

namespace Tokens

/-- The string at an offset, up to its terminator. -/
def string (t : Tokens) (start : ℕ) : Option CString :=
  if 0 ∈ t.buf.drop start then
    some ⟨(t.buf.drop start).takeWhile (· ≠ 0), fun hmem => by
      simpa using List.mem_takeWhile_imp hmem⟩
  else none

/-- `strtok(s, delim)` -/
def strtok (s : Option ℕ) (delim : Bytes) (t : Tokens) : Option (Option ℕ × Tokens) := do
  let start ← s.or t.saved
  let text ← t.string start
  let skipped := (text.bytes.takeWhile (· ∈ delim)).length
  let token := (text.bytes.drop skipped).takeWhile (· ∉ delim)
  let first := start + skipped
  let last := first + token.length
  if token = [] then return (none, { t with saved := some first })
  else if skipped + token.length = text.bytes.length then
    return (some first, { t with saved := some last })
  else return (some first, { buf := t.buf.set last 0, saved := some (last + 1) })

/-- The bytes up to the first newline, and the newline. -/
def firstLine : Bytes → Bytes
  | [] => []
  | b :: bytes => if b = 10 then [b] else b :: firstLine bytes

/-- `fgets(buf, size, stdin)`: the buffer and the input behind what was read. At the end of
    the input the buffer stays as it is. -/
def fgets (size : ℕ) (stdin : Bytes) (t : Tokens) : Option (Tokens × Bytes) :=
  let line := firstLine (stdin.take (size - 1))
  if line = [] then some (t, stdin)
  else if line.length < t.buf.length then
    some ({ t with buf := line ++ 0 :: t.buf.drop (line.length + 1) }, stdin.drop line.length)
  else none

/-- The buffer keeps its size. -/
theorem strtok_length {s r : Option ℕ} {delim : Bytes} {t t' : Tokens}
    (h : t.strtok s delim = some (r, t')) : t'.buf.length = t.buf.length := by
  simp only [strtok, Option.bind_eq_bind, Option.bind_eq_some_iff] at h
  obtain ⟨start, -, text, -, h⟩ := h
  split at h
  · obtain ⟨-, rfl⟩ := by simpa using h
    rfl
  · split at h
    · obtain ⟨-, rfl⟩ := by simpa using h
      rfl
    · obtain ⟨-, rfl⟩ := by simpa using h
      exact List.length_set

theorem fgets_length {size : ℕ} {stdin rest : Bytes} {t t' : Tokens}
    (h : t.fgets size stdin = some (t', rest)) : t'.buf.length = t.buf.length := by
  simp only [fgets] at h
  split at h
  · obtain ⟨rfl, -⟩ := by simpa using h
    rfl
  · split at h
    · obtain ⟨rfl, -⟩ := by simpa using h
      simp only [List.length_append, List.length_cons, List.length_drop]
      omega
    · cases h

/-- The next call goes on at `p` or behind it. -/
def Behind (p : ℕ) (t : Tokens) : Prop := ∃ q, t.saved = some q ∧ p ≤ q

/-- A call that starts behind `p` changes nothing in front of it, and leaves off behind it. -/
theorem strtok_keeps {s r : Option ℕ} {delim : Bytes} {t t' : Tokens} {p : ℕ}
    (h : t.strtok s delim = some (r, t')) (hsaved : t.Behind p) (hs : ∀ q ∈ s, p ≤ q) :
    t'.buf.take p = t.buf.take p ∧ t'.Behind p ∧ ∀ q ∈ r, p ≤ q := by
  obtain ⟨start, hstart, hp⟩ : ∃ start, s.or t.saved = some start ∧ p ≤ start := by
    cases s with
    | some q => exact ⟨q, rfl, hs q rfl⟩
    | none => exact hsaved
  simp only [strtok, hstart, Option.bind_eq_bind, Option.bind_some, Option.bind_eq_some_iff] at h
  obtain ⟨text, -, h⟩ := h
  split at h
  · obtain ⟨rfl, rfl⟩ := by simpa using h
    exact ⟨rfl, ⟨_, rfl, by omega⟩, nofun⟩
  · split at h
    · obtain ⟨rfl, rfl⟩ := by simpa using h
      exact ⟨rfl, ⟨_, rfl, by omega⟩, by simp; omega⟩
    · obtain ⟨rfl, rfl⟩ := by simpa using h
      exact ⟨List.take_set_of_le (by omega), ⟨_, rfl, by omega⟩, by simp; omega⟩

/-- A string stands in the buffer in front of its terminator. -/
theorem buf_of_string {t : Tokens} {text : CString} (h : t.string 0 = some text) :
    ∃ junk, t.buf = text.bytes ++ 0 :: junk := by
  simp only [string, List.drop_zero] at h
  split at h
  next hmem =>
    obtain ⟨front, junk, hbuf, hfront⟩ := List.eq_append_cons_of_mem hmem
    obtain rfl := Option.some.inj h
    have hall : ∀ b ∈ front, decide (b ≠ 0) = true := by
      intro b hb
      have hne : b ≠ 0 := fun hzero => hfront (hzero ▸ hb)
      simpa using hne
    refine ⟨junk, ?_⟩
    simp only [hbuf, List.takeWhile_append_of_pos hall]
    simp
  next => cases h

/-! ## What a call finds -/

section Calls

variable {front junk delim : Bytes} {s saved : Option ℕ}

theorem string_eq (text : CString) :
    (Tokens.mk (front ++ (text.bytes ++ 0 :: junk)) saved).string front.length = some text := by
  have hall : ∀ b ∈ text.bytes, decide (b ≠ 0) = true := by
    intro b hb
    have hne : b ≠ 0 := fun h => text.nulFree (h ▸ hb)
    simpa using hne
  have htake : (text.bytes ++ 0 :: junk).takeWhile (· ≠ 0) = text.bytes := by
    rw [List.takeWhile_append_of_pos hall]
    simp
  simp only [string, List.drop_left, htake]
  rw [if_pos (by simp)]

/-- A token starts where nothing is to be skipped. -/
private theorem takeWhile_skip {token rest : Bytes} (hne : token ≠ [])
    (hclean : ∀ b ∈ token, b ∉ delim) : (token ++ rest).takeWhile (· ∈ delim) = [] := by
  obtain ⟨b, bs, rfl⟩ := List.exists_cons_of_ne_nil hne
  rw [List.cons_append, List.takeWhile_cons_of_neg]
  simpa using hclean b List.mem_cons_self

/-- What is left starts with a token, and has no delimiter behind it. -/
theorem strtok_last {token : CString} (hs : s.or saved = some front.length) (hne : token.bytes ≠ [])
    (hclean : ∀ b ∈ token.bytes, b ∉ delim) :
    (Tokens.mk (front ++ (token.bytes ++ 0 :: junk)) saved).strtok s delim =
      some (some front.length,
        ⟨front ++ token.bytes ++ 0 :: junk, some (front ++ token.bytes).length⟩) := by
  have hskip : (token.bytes ++ []).takeWhile (· ∈ delim) = [] := takeWhile_skip hne hclean
  have htoken : token.bytes.takeWhile (· ∉ delim) = token.bytes := by
    rw [List.takeWhile_eq_self_iff]
    simpa using hclean
  rw [List.append_nil] at hskip
  simp only [strtok, hs, string_eq, Option.bind_eq_bind, Option.bind_some, hskip, List.length_nil,
    List.drop_zero, htoken, Nat.zero_add, Nat.add_zero]
  rw [if_neg hne, if_pos trivial, List.length_append, List.append_assoc]
  rfl

/-- What is left starts with a token, and a delimiter ends it. -/
theorem strtok_token {token rest : CString} {d : UInt8} (hs : s.or saved = some front.length)
    (hne : token.bytes ≠ []) (hclean : ∀ b ∈ token.bytes, b ∉ delim) (hd : d ∈ delim)
    (hd' : d ≠ 0) :
    (Tokens.mk (front ++ (token.bytes ++ d :: (rest.bytes ++ 0 :: junk))) saved).strtok s delim =
      some (some front.length,
        ⟨front ++ token.bytes ++ [0] ++ (rest.bytes ++ 0 :: junk),
          some (front ++ token.bytes ++ [0]).length⟩) := by
  have hfree : (0 : UInt8) ∉ token.bytes ++ d :: rest.bytes := by
    simpa [token.nulFree, rest.nulFree] using hd'.symm
  have hstring := @string_eq front junk saved ⟨token.bytes ++ d :: rest.bytes, hfree⟩
  have hskip : (token.bytes ++ d :: rest.bytes).takeWhile (· ∈ delim) = [] :=
    takeWhile_skip hne hclean
  have htoken : (token.bytes ++ d :: rest.bytes).takeWhile (· ∉ delim) = token.bytes := by
    rw [List.takeWhile_append_of_pos
      (by simpa using hclean), List.takeWhile_cons_of_neg (by simpa using hd),
      List.append_nil]
  have hset : (front ++ (token.bytes ++ d :: (rest.bytes ++ 0 :: junk))).set
      (front.length + token.bytes.length) 0 =
        front ++ token.bytes ++ [0] ++ (rest.bytes ++ 0 :: junk) := by
    rw [List.set_append_right _ _ (by omega), Nat.add_sub_cancel_left,
      List.set_append_right _ _ le_rfl, Nat.sub_self]
    simp
  have hbytes : token.bytes ++ d :: (rest.bytes ++ 0 :: junk) =
      token.bytes ++ d :: rest.bytes ++ 0 :: junk := by simp
  rw [← hbytes] at hstring
  simp only [strtok, hs, hstring, Option.bind_eq_bind, Option.bind_some, hskip, List.length_nil,
    List.drop_zero, htoken, Nat.zero_add, Nat.add_zero]
  rw [if_neg hne, if_neg (by simp), hset]
  simp [Nat.add_assoc]

/-- Delimiters in front of a token are skipped. -/
theorem strtok_skip {spaces : Bytes} {text : CString} (hspaces : ∀ b ∈ spaces, b ∈ delim)
    (hfree : (0 : UInt8) ∉ spaces) :
    (Tokens.mk (spaces ++ (text.bytes ++ 0 :: junk)) saved).strtok (some 0) delim =
      (Tokens.mk (spaces ++ (text.bytes ++ 0 :: junk)) saved).strtok
        (some spaces.length) delim := by
  have hwhole := @string_eq [] junk saved ⟨spaces ++ text.bytes, by simp [hfree, text.nulFree]⟩
  simp only [List.append_assoc, List.nil_append, List.length_nil] at hwhole
  have hskipped : (spaces ++ text.bytes).takeWhile (· ∈ delim) =
      spaces ++ text.bytes.takeWhile (· ∈ delim) := by
    apply List.takeWhile_append_of_pos
    simpa using hspaces
  have hdrop : ∀ k, (spaces ++ text.bytes).drop (spaces.length + k) =
    text.bytes.drop k := fun k => by
    rw [← List.drop_drop, List.drop_left]
  simp only [strtok, Option.some_or, Option.bind_eq_bind, Option.bind_some, hwhole,
    string_eq, hskipped,
    List.length_append, hdrop, Nat.zero_add, Nat.add_assoc, Nat.add_left_cancel_iff]

end Calls

/-! ## Reading a line -/

theorem firstLine_of_notMem {body : Bytes} (h : 10 ∉ body) : firstLine body = body := by
  induction body with
  | nil => rfl
  | cons b bytes ih =>
    obtain ⟨hb, hbytes⟩ : 10 ≠ b ∧ 10 ∉ bytes := by simpa using h
    rw [firstLine, if_neg (Ne.symm hb), ih hbytes]

/-- A newline is the last byte of a line. -/
theorem newline_last {front back bytes : Bytes} {b : UInt8}
    (h : front ++ b :: back <+: firstLine bytes) :
    10 ∉ front := by
  induction bytes generalizing front with
  | nil => simp [firstLine] at h
  | cons b' bytes ih =>
    cases front with
    | nil => exact List.not_mem_nil
    | cons a front =>
      rw [firstLine] at h
      split at h
      · simp [List.cons_prefix_cons] at h
      next hb =>
        obtain ⟨rfl, hrest⟩ := List.cons_prefix_cons.1 h
        exact fun hmem => (List.mem_cons.1 hmem).elim (fun heq => hb heq.symm) (ih hrest)

theorem firstLine_newline {body rest : Bytes} (h : 10 ∉ body) :
    firstLine (body ++ 10 :: rest) = body ++ [10] := by
  induction body with
  | nil => rfl
  | cons b bytes ih =>
    obtain ⟨hb, hbytes⟩ : 10 ≠ b ∧ 10 ∉ bytes := by simpa using h
    rw [List.cons_append, firstLine, if_neg (Ne.symm hb), ih hbytes, List.cons_append]

theorem firstLine_ne_nil {bytes : Bytes} (h : bytes ≠ []) : firstLine bytes ≠ [] := by
  obtain ⟨b, bytes, rfl⟩ := List.exists_cons_of_ne_nil h
  rw [firstLine]
  split <;> exact List.cons_ne_nil _ _

/-- The string in the buffer is what has been read, up to the first NUL in it. -/
theorem fgets_prefix {size : ℕ} {stdin rest junk : Bytes} {t t' : Tokens} {text : CString}
    (h : t.fgets size stdin = some (t', rest)) (hread : firstLine (stdin.take (size - 1)) ≠ [])
    (hbuf : t'.buf = text.bytes ++ 0 :: junk) :
    text.bytes <+: firstLine (stdin.take (size - 1)) := by
  simp only [fgets, if_neg hread] at h
  split at h
  · obtain ⟨rfl, -⟩ := by simpa using h
    rcases List.append_eq_append_iff.1 hbuf with ⟨back, hline, hzero⟩ | ⟨back, hline, -⟩
    · cases back with
      | nil => exact ⟨[], by simpa using hline⟩
      | cons b back =>
        -- the terminator of the line would be inside the string
        obtain ⟨rfl, -⟩ := List.cons_eq_cons.1 hzero
        exact absurd (hline ▸ List.mem_append_right _ List.mem_cons_self) text.nulFree
    · exact ⟨back, hline.symm⟩
  · cases h

section Fgets

variable {size : ℕ} {t : Tokens} {body rest : Bytes} (hbody : 10 ∉ body)
    (hsize : size ≤ t.buf.length)

include hbody hsize

/-- A line that fits is read with its newline. -/
theorem fgets_line (hfits : body.length + 1 < size) :
    t.fgets size (body ++ 10 :: rest) =
      some (⟨body ++ 10 :: 0 :: t.buf.drop (body.length + 2), t.saved⟩, rest) := by
  have hline : firstLine ((body ++ 10 :: rest).take (size - 1)) = body ++ [10] := by
    obtain ⟨k, hk⟩ : ∃ k, size - 1 = body.length + (k + 1) := ⟨size - 1 - body.length - 1, by omega⟩
    rw [hk, List.take_length_add_append, List.take_succ_cons, firstLine_newline hbody]
  simp only [fgets, hline, List.length_append, List.length_singleton]
  rw [if_neg (by simp), if_pos (by omega)]
  simp [List.drop_append]

/-- Of a longer line the first `size - 1` bytes are read, and the rest stays. -/
theorem fgets_cut (hone : 1 < size) (hcut : size ≤ body.length + 1) :
    t.fgets size (body ++ 10 :: rest) =
      some (⟨body.take (size - 1) ++ 0 :: t.buf.drop size, t.saved⟩,
        body.drop (size - 1) ++ 10 :: rest) := by
  have htake : (body ++ 10 :: rest).take (size - 1) = body.take (size - 1) :=
    List.take_append_of_le_length (by omega)
  have hdrop : (body ++ 10 :: rest).drop (size - 1) = body.drop (size - 1) ++ 10 :: rest :=
    List.drop_append_of_le_length (by omega)
  have hline : firstLine (body.take (size - 1)) = body.take (size - 1) :=
    firstLine_of_notMem fun hmem => hbody (List.mem_of_mem_take hmem)
  have hlength : (body.take (size - 1)).length = size - 1 := List.length_take_of_le (by omega)
  have hne : body.take (size - 1) ≠ [] := by
    rw [← List.length_pos_iff, hlength]
    omega
  simp only [fgets, htake, hline, hlength]
  rw [if_neg hne, if_pos (by omega), Nat.sub_add_cancel hone.le, hdrop]

end Fgets

end Tokens

end Base
