-- SUMMARY: The lines that a user of the client can type, and what a round of its loop makes of each.
import ChainTable.Zoo.Commands

open Base

/-!
# Typed lines

Besides updates and lookups there are operations that stand alone in their line, and lines
that are complaints for the loop of `main`: names without their arguments, and words that
name no operation.
-/

namespace ChainTable

/-! ## The round with its operation -/

/-- A round of the loop of `main`, with what `parse_operation` returned in it. -/
def parsedCommand (c : Console) : C (Operation × Command × Console) := do
  let (t, stdin) ← defined (c.line.fgets 99 c.stdin)
  let (retFgets, t) ← defined (t.strtok (some 0) (chars ""))
  let (operation, t) ← parseOperation retFgets t
  let (result, t) ← branch operation t
  return (operation, result, ⟨stdin, t⟩)

theorem command_eq (c : Console) :
    command c = parsedCommand c >>= fun parsed => .ok (parsed.2.1, parsed.2.2) := by
  rw [command, parsedCommand]
  simp only [bind_assoc]
  rfl

/-- What a round comes to when its operation is left out. -/
theorem parsedCommand_of_command {c c' : Console} {result : Command}
    (h : command c = .ok (result, c')) :
    ∃ operation, parsedCommand c = .ok (operation, result, c') := by
  rw [command_eq] at h
  obtain ⟨⟨operation, result', c''⟩, hparsed, h⟩ := C.bind_eq_ok h
  cases h
  exact ⟨operation, hparsed⟩

theorem command_of_parsedCommand {c c' : Console} {operation : Operation} {result : Command}
    (h : parsedCommand c = .ok (operation, result, c')) : command c = .ok (result, c') := by
  rw [command_eq, h]
  rfl

/-! ## What is typed -/

/-- The operations without arguments, but for `quit`. -/
inductive Query where
  | size
  | getKeys
  | getTable
  | stats
  deriving DecidableEq

namespace Query

def name (short : Bool) : Query → String
  | .size => if short then "s" else "size"
  | .getKeys => if short then "k" else "getkeys"
  | .getTable => if short then "t" else "gettable"
  | .stats => if short then "st" else "stats"

def operation : Query → Operation
  | .size => .size
  | .getKeys => .getKeys
  | .getTable => .getTable
  | .stats => .stats

def op : Query → StubOp
  | .size => .size
  | .getKeys => .getKeys
  | .getTable => .getTable
  | .stats => .stats

end Query

/-- The operations with arguments. -/
inductive KeyOperation where
  | put
  | get
  | del
  deriving DecidableEq

namespace KeyOperation

def name (letter : Bool) : KeyOperation → String
  | .put => if letter then "p" else "put"
  | .get => if letter then "g" else "get"
  | .del => if letter then "d" else "del"

def operation : KeyOperation → Operation
  | .put => .put
  | .get => .get
  | .del => .del

end KeyOperation

def commandNames : List String :=
  ["put", "p", "get", "g", "del", "d", "size", "s", "getkeys", "k", "gettable", "t", "stats", "st",
    "quit", "q"]

/-- A line of a session. -/
inductive UserLine where
  | keyed (line : TypedLine)
  | query (query : Query) (short : Bool)
  | quit (letter : Bool)
  /-- The name of an operation without its arguments. -/
  | incomplete (operation : KeyOperation) (letter : Bool)
  /-- A put without a value. -/
  | valueless (letter : Bool) (key : Word)
  /-- A word that names no operation. -/
  | unknown (word : Word) (unnamed : ∀ name ∈ commandNames, word.bytes ≠ chars name)

namespace UserLine

/-- The line without its newline. -/
def body : UserLine → Bytes
  | .keyed line => line.body
  | .query q short => chars (q.name short)
  | .quit letter => chars (if letter then "q" else "quit")
  | .incomplete operation letter => chars (operation.name letter)
  | .valueless letter key => chars (KeyOperation.put.name letter) ++ 32 :: key.bytes
  | .unknown word _ => word.bytes

def bytes (line : UserLine) : Bytes := line.body ++ [10]

/-- What the round ends in. -/
def command : UserLine → Command
  | .keyed line => .stub line.op
  | .query q _ => .stub q.op
  | .quit _ => .quit
  | .incomplete _ _ => .invalidArguments
  | .valueless _ _ => .invalidArguments
  | .unknown _ _ => .invalidCommand

/-- The operation that is complained about. -/
def complaint : UserLine → Option Operation
  | .incomplete operation _ => some operation.operation
  | .valueless _ _ => some .put
  | _ => none

end UserLine

/-! ## A single word -/

/-- The line that consists of the word. -/
def Word.line (word : Word) : CString := ⟨word.bytes ++ [10], by simp [word.nulFree]⟩

theorem commandNames_words : ∀ name ∈ commandNames, (literal name).bytes = chars name ∧
    (literal name).bytes ≠ [] ∧ ∀ b ∈ (literal name).bytes, b ≠ 32 ∧ b ≠ 10 := by decide +kernel

/-- The name of an operation is a word. -/
def Word.ofName (name : String) (h : name ∈ commandNames) : Word where
  toCString := literal name
  nonempty := (commandNames_words name h).2.1
  unbroken := (commandNames_words name h).2.2

theorem Word.bytes_ofName {name : String}
    (h : name ∈ commandNames) : (ofName name h).bytes = chars name :=
  (commandNames_words name h).1

section Single

variable {junk : Bytes} {saved : Option ℕ}

theorem readString_line (line : CString) :
    readString (some 0) ⟨line.bytes ++ 0 :: junk, saved⟩ = .ok line :=
  @readString_eq [] junk saved line

theorem parseOperation_wholeLine {line : CString} {operation : Operation}
    (h : wholeLine line = some operation) :
    parseOperation (some 0) ⟨line.bytes ++ 0 :: junk, saved⟩ =
      .ok (operation, ⟨line.bytes ++ 0 :: junk, saved⟩) := by
  rw [parseOperation, readString_line, C.ok_bind, h]
  rfl

/-- There is nothing to cut off behind the only word of a line. -/
theorem parseOperation_onlyWord {line word : CString} {spaces : Bytes} (h : wholeLine line = none)
    (hline : line.bytes = spaces ++ word.bytes) (hspaces : ∀ b ∈ spaces, b = 32)
    (hne : word.bytes ≠ []) (hword : 32 ∉ word.bytes) :
    parseOperation (some 0) ⟨line.bytes ++ 0 :: junk, saved⟩ =
      .ok (firstWord word, ⟨line.bytes ++ 0 :: junk, some line.bytes.length⟩) := by
  have hfree : (0 : UInt8) ∉ spaces := fun hmem =>
    line.nulFree (hline ▸ List.mem_append_left _ hmem)
  have hskip := @Tokens.strtok_skip junk [32] saved spaces word (by simpa using hspaces) hfree
  have hstrtok := @Tokens.strtok_last spaces junk [32] (some spaces.length) saved word rfl hne (by
    intro b hb
    have hspace : b ≠ 32 := fun heq => hword (heq ▸ hb)
    simpa using hspace)
  have hread := @readString_eq spaces junk (some (spaces ++ word.bytes).length) word
  rw [parseOperation, readString_line, C.ok_bind, h]
  simp only [chars_space, hline, List.append_assoc] at hskip hstrtok hread ⊢
  simp only [hskip, hstrtok, defined_some, C.ok_bind, hread, C.pure_eq]

/-- The only word of a typed line ends in the newline. -/
theorem parseOperation_firstWord (word : Word) (h : wholeLine word.line = none) :
    parseOperation (some 0) ⟨word.line.bytes ++ 0 :: junk, saved⟩ =
      .ok (firstWord word.line, ⟨word.line.bytes ++ 0 :: junk, some word.line.bytes.length⟩) := by
  have hbytes : word.line.bytes = [] ++ word.line.bytes := rfl
  have hspace : 32 ∉ word.line.bytes := by
    intro hmem
    rcases List.mem_append.1 hmem with hmem | hmem
    · exact (word.unbroken 32 hmem).1 rfl
    · simp at hmem
  exact parseOperation_onlyWord h hbytes (List.forall_mem_nil _) (by simp [Word.line]) hspace

/-- Nothing is left behind the last token. -/
theorem strtok_nothing {front delim : Bytes} {s : Option ℕ} (hs : s.or saved = some front.length) :
    (Tokens.mk (front ++ 0 :: junk) saved).strtok s delim =
      some (none, ⟨front ++ 0 :: junk, some front.length⟩) := by
  have hstring := @Tokens.string_eq front junk saved .empty
  rw [CString.bytes_empty, List.nil_append] at hstring
  simp only [Tokens.strtok, hs, Option.bind_eq_bind, Option.bind_some, hstring, CString.bytes_empty]
  rfl

/-- An operation with arguments complains when there are none. -/
theorem branch_nothing {front : Bytes} (operation : KeyOperation) :
    branch operation.operation ⟨front ++ 0 :: junk, some front.length⟩ =
      .ok (.invalidArguments, ⟨front ++ 0 :: junk, some front.length⟩) := by
  have hnothing : ∀ delim, (Tokens.mk (front ++ 0 :: junk) (some front.length)).strtok none delim =
      some (none, ⟨front ++ 0 :: junk, some front.length⟩) := fun delim => strtok_nothing rfl
  cases operation with
  | put =>
    simp only [KeyOperation.operation, branch, putCommand, hnothing, defined_some,
      C.ok_bind, true_or,
      if_true, C.pure_eq]
  | get | del =>
    simp only [KeyOperation.operation, branch, keyCommand, hnothing, defined_some,
      C.ok_bind, if_true,
      C.pure_eq]

end Single

/-! ## The names -/

theorem Query.name_mem (query : Query) (short : Bool) : query.name short ∈ commandNames := by
  cases query <;> cases short <;> decide

theorem KeyOperation.name_mem (operation : KeyOperation) (letter : Bool) :
    operation.name letter ∈ commandNames := by
  cases operation <;> cases letter <;> decide

theorem quit_mem (letter : Bool) : (if letter then "q" else "quit") ∈ commandNames := by
  cases letter <;> decide

theorem wholeLine_query (query : Query) (short : Bool) :
    wholeLine (Word.ofName _ (query.name_mem short)).line = some query.operation := by
  cases query <;> cases short <;> rfl

theorem wholeLine_quit (letter : Bool) :
    wholeLine (Word.ofName _ (quit_mem letter)).line = some .quit := by
  cases letter <;> rfl

theorem wholeLine_incomplete (operation : KeyOperation) (letter : Bool) :
    wholeLine (Word.ofName _ (operation.name_mem letter)).line = none := by
  cases operation <;> cases letter <;> rfl

theorem firstWord_incomplete (operation : KeyOperation) (letter : Bool) :
    firstWord (Word.ofName _ (operation.name_mem letter)).line = operation.operation := by
  cases operation <;> cases letter <;> rfl

/-- What a line is compared with. -/
def commandTexts : List String :=
  ["size\n", "s\n", "getkeys\n", "k\n", "gettable\n", "t\n", "quit\n", "q\n", "stats\n", "st\n",
    "put", "p", "put\n", "p\n", "get", "g", "get\n", "g\n", "del", "d", "del\n", "d\n"]

/-- These are names, alone or with the newline. -/
theorem commandTexts_names : ∀ text ∈ commandTexts,
    10 ∉ (literal text).bytes ∨
      ∃ name ∈ commandNames, (literal text).bytes = chars name ++ [10] := by
  decide +kernel

section Unknown

variable {word : Word} (h : ∀ name ∈ commandNames, word.bytes ≠ chars name)

include h

theorem strcmp_unknown (text : String) (htext : text ∈ commandTexts) :
    CString.strcmp word.line (literal text) ≠ 0 := by
  intro heq
  rw [CString.strcmp_eq_zero_iff] at heq
  have hbytes : word.bytes ++ [10] = (literal text).bytes := congrArg CString.bytes heq
  rcases commandTexts_names text htext with hnone | ⟨name, hname, hbytes'⟩
  · exact hnone (hbytes ▸ List.mem_append_right _ List.mem_cons_self)
  · exact h name hname (List.append_cancel_right (hbytes.trans hbytes'))

theorem wholeLine_unknown : wholeLine word.line = none := by
  rw [wholeLine]
  repeat rw [if_neg (by rintro (heq | heq) <;> exact strcmp_unknown h _ (by decide) heq)]

theorem firstWord_unknown : firstWord word.line = .invalid := by
  rw [firstWord]
  repeat rw [if_neg
    (by rintro (heq | heq | heq | heq) <;> exact strcmp_unknown h _ (by decide) heq)]

end Unknown

/-! ## Rounds -/

section Rounds

variable {t : Tokens} (rest : Bytes) (hsize : t.buf.length = maxMsg)

include hsize

/-- A round reads its line and looks at the whole of it. -/
theorem parsedCommand_read {body : Bytes} (hnewline : 10 ∉ body) (hfree : (0 : UInt8) ∉ body)
    (hfits : body.length + 1 ≤ 98) :
    ∃ junk, parsedCommand ⟨body ++ 10 :: rest, t⟩ =
      parseOperation (some 0) ⟨body ++ 10 :: 0 :: junk, some (body.length + 1)⟩ >>= fun parsed =>
        branch parsed.1 parsed.2 >>= fun result => .ok (parsed.1, result.1, ⟨rest, result.2⟩) := by
  have hfgets := @Tokens.fgets_line 99 t body rest hnewline (fgets_room hsize) (by omega)
  generalize t.buf.drop (body.length + 2) = junk at hfgets
  have hline := @strtok_line junk t.saved ⟨body ++ [10], by simp [hfree]⟩ (by simp)
  simp only [List.append_assoc, List.singleton_append, List.length_append,
    List.length_singleton] at hline
  refine ⟨junk, ?_⟩
  rw [parsedCommand, hfgets, defined_some, C.ok_bind]
  dsimp only
  rw [hline, defined_some, C.ok_bind]
  rfl

/-- A line of one word. -/
theorem parsedCommand_word (word : Word) (hfits : word.bytes.length + 1 ≤ 98) :
    ∃ junk, parsedCommand ⟨word.bytes ++ 10 :: rest, t⟩ =
      parseOperation (some 0)
        ⟨word.line.bytes ++ 0 :: junk, some word.line.bytes.length⟩ >>= fun parsed =>
        branch parsed.1 parsed.2 >>= fun result => .ok (parsed.1, result.1, ⟨rest, result.2⟩) := by
  have hnewline : 10 ∉ word.bytes := fun hmem => (word.unbroken 10 hmem).2 rfl
  obtain ⟨junk, hread⟩ := parsedCommand_read rest hsize hnewline word.nulFree hfits
  refine ⟨junk, ?_⟩
  rw [hread, Word.line, List.append_assoc, List.singleton_append, List.length_append,
    List.length_singleton]

/-- An operation that stands alone. -/
theorem parsedCommand_wholeLine {word : Word} {operation : Operation}
    (h : wholeLine word.line = some operation) (hfits : word.bytes.length + 1 ≤ 98) :
    ∃ t₁, parsedCommand ⟨word.bytes ++ 10 :: rest, t⟩ =
      branch operation t₁ >>= fun result => .ok (operation, result.1, ⟨rest, result.2⟩) := by
  obtain ⟨junk, hread⟩ := parsedCommand_word rest hsize word hfits
  rw [hread, parseOperation_wholeLine h, C.ok_bind]
  exact ⟨_, rfl⟩

/-- A word that is taken for an operation with arguments, or for none. -/
theorem parsedCommand_firstWord {word : Word} (h : wholeLine word.line = none)
    (hfits : word.bytes.length + 1 ≤ 98) :
    ∃ front junk, parsedCommand ⟨word.bytes ++ 10 :: rest, t⟩ =
      branch (firstWord word.line) ⟨front ++ 0 :: junk, some front.length⟩ >>= fun result =>
        .ok (firstWord word.line, result.1, ⟨rest, result.2⟩) := by
  obtain ⟨junk, hread⟩ := parsedCommand_word rest hsize word hfits
  rw [hread, parseOperation_firstWord word h, C.ok_bind]
  exact ⟨_, _, rfl⟩

omit hsize in
theorem putCommand_valueless {front junk : Bytes} (key : Word) :
    ∃ t', putCommand ⟨front ++ (key.line.bytes ++ 0 :: junk), some front.length⟩ =
      .ok (.invalidArguments, t') := by
  have hkey := @strtok_lastWord front junk key
  have hnothing : ∀ delim, (Tokens.mk (front ++ (key.line.bytes ++ 0 :: junk))
      (some (front ++ key.bytes ++ [10]).length)).strtok none delim =
        some (none, ⟨front ++ (key.line.bytes ++ 0 :: junk), some (front ++ key.bytes ++ [10]).length⟩) := by
    intro delim
    have hstrtok := @strtok_nothing junk (some (front ++ key.bytes ++ [10]).length)
      (front ++ key.bytes ++ [10]) delim none rfl
    simpa [Word.line] using hstrtok
  have hline : key.bytes ++ 10 :: 0 :: junk = key.line.bytes ++ 0 :: junk := by simp [Word.line]
  rw [hline] at hkey
  rw [putCommand]
  simp only [chars_space, hkey, hnothing, defined_some, C.ok_bind, or_true, if_true]
  exact ⟨_, rfl⟩

/-- A put whose key ends the line. -/
theorem parsedCommand_valueless (letter : Bool) (key : Word)
    (hfits : (UserLine.valueless letter key).bytes.length ≤ 98) :
    ∃ t', parsedCommand ⟨(UserLine.valueless letter key).bytes ++ rest, t⟩ =
      .ok (.put, .invalidArguments, ⟨rest, t'⟩) := by
  obtain ⟨name, hname, hline⟩ : ∃ name : Word, firstWord name.toCString = .put ∧
      (UserLine.valueless letter key).body = name.bytes ++ 32 :: key.bytes := by
    refine ⟨Word.ofName _ (KeyOperation.put.name_mem letter), ?_, ?_⟩
    · cases letter <;> rfl
    · rw [Word.bytes_ofName]
      rfl
  have hspace : 32 ∉ name.bytes := fun hmem => (name.unbroken 32 hmem).1 rfl
  have hnewline : ∀ word : Word, 10 ∉ word.bytes := fun word hmem => (word.unbroken 10 hmem).2 rfl
  rw [UserLine.bytes, hline, List.length_append, List.length_singleton] at hfits
  have hbody : 10 ∉ name.bytes ++ 32 :: key.bytes := by simp [hnewline]
  have hfree : (0 : UInt8) ∉ name.bytes ++ 32 :: key.bytes := by simp [name.nulFree, key.nulFree]
  obtain ⟨junk, hread⟩ := parsedCommand_read rest hsize hbody hfree hfits
  have hparse := @parseOperation_word junk (some ((name.bytes ++ 32 :: key.bytes).length + 1))
    name.toCString key.line name.nonempty hspace
  have hbuf : name.bytes ++ 32 :: key.bytes ++ 10 :: 0 :: junk =
      name.bytes ++ 32 :: (key.line.bytes ++ 0 :: junk) := by simp [Word.line]
  obtain ⟨t', hput⟩ := @putCommand_valueless (name.bytes ++ [0]) junk key
  refine ⟨t', ?_⟩
  rw [UserLine.bytes, hline, List.append_assoc _ [10], List.singleton_append, hread, hbuf,
    hparse, hname,
    C.ok_bind]
  dsimp only
  rw [branch, hput]
  rfl

/-- Each line that is short enough is taken as a whole for what it is. -/
theorem parsedCommand_line (line : UserLine) (hfits : line.bytes.length ≤ 98) :
    ∃ operation t', parsedCommand ⟨line.bytes ++ rest, t⟩ =
      .ok (operation, line.command, ⟨rest, t'⟩) ∧
      ∀ complaint ∈ line.complaint, operation = complaint := by
  have hbytes : line.bytes ++ rest = line.body ++ 10 :: rest := by simp [UserLine.bytes]
  have hlength : line.body.length + 1 ≤ 98 := by simpa [UserLine.bytes] using hfits
  have hwhole : ∀ {name : String} (hname : name ∈ commandNames) {operation : Operation},
      wholeLine (Word.ofName name hname).line = some operation → line.body = chars name →
        ∃ t₁, parsedCommand ⟨line.bytes ++ rest, t⟩ =
          branch operation t₁ >>= fun result => .ok (operation, result.1, ⟨rest, result.2⟩) := by
    intro name hname operation hoperation hbody
    rw [hbytes, hbody, ← Word.bytes_ofName hname]
    rw [hbody, ← Word.bytes_ofName hname] at hlength
    exact parsedCommand_wholeLine rest hsize hoperation hlength
  cases line with
  | keyed line =>
    obtain ⟨t', hcommand⟩ := @parsedAsTyped_of_le t line rest hsize hfits
    obtain ⟨operation, hparsed⟩ := parsedCommand_of_command hcommand
    exact ⟨operation, t', hparsed, nofun⟩
  | query q short =>
    obtain ⟨t₁, hparsed⟩ := hwhole (q.name_mem short) (wholeLine_query q short) rfl
    refine ⟨q.operation, t₁, ?_, nofun⟩
    rw [hparsed]
    cases q <;> rfl
  | quit letter =>
    obtain ⟨t₁, hparsed⟩ := hwhole (quit_mem letter) (wholeLine_quit letter) rfl
    exact ⟨.quit, t₁, hparsed, nofun⟩
  | incomplete operation letter =>
    have hname := operation.name_mem letter
    have hbody : (UserLine.incomplete operation letter).body = (Word.ofName _ hname).bytes :=
      (Word.bytes_ofName hname).symm
    rw [hbody] at hlength
    obtain ⟨front, junk, hparsed⟩ := parsedCommand_firstWord rest hsize
      (wholeLine_incomplete operation letter) hlength
    rw [firstWord_incomplete, branch_nothing, C.ok_bind] at hparsed
    exact ⟨_, _, by rw [hbytes, hbody, hparsed]; rfl, fun complaint => Option.some.inj⟩
  | valueless letter key =>
    obtain ⟨t', hparsed⟩ := parsedCommand_valueless rest hsize letter key hfits
    exact ⟨.put, t', hparsed, fun complaint hcomplaint => Option.some.inj hcomplaint⟩
  | unknown word unnamed =>
    obtain ⟨front, junk, hparsed⟩ := parsedCommand_firstWord rest hsize
      (wholeLine_unknown unnamed) hlength
    rw [firstWord_unknown unnamed, branch, C.pure_eq, C.ok_bind] at hparsed
    exact ⟨_, _, hbytes ▸ hparsed, nofun⟩

end Rounds

/-! ## The end of the input

`fgets` leaves the buffer as it is when there is nothing to read, and nobody looks at what it
returns. The buffer then still holds the line that was read last, with the terminators that
`strtok` has written into it.
-/

/-- Every further round finds the same, and leaves it there. -/
def Repeats (buf : Bytes) (operation : Operation) (result : Command) : Prop :=
  ∀ saved, ∃ saved', parsedCommand ⟨[], ⟨buf, saved⟩⟩ = .ok (operation, result, ⟨[], ⟨buf, saved'⟩⟩)

/-- A command that changes nothing. -/
def Command.Harmless (result : Command) : Prop :=
  (∃ query : Query, result = .stub query.op) ∨ result = .invalidArguments ∨ result = .invalidCommand

section AtEnd

variable {front junk delim : Bytes} {saved : Option ℕ}

/-- What a round does when nothing can be read. -/
theorem parsedCommand_atEnd {line : CString} (hne : line.bytes ≠ []) :
    parsedCommand ⟨[], ⟨line.bytes ++ 0 :: junk, saved⟩⟩ =
      parseOperation (some 0) ⟨line.bytes ++ 0 :: junk, some line.bytes.length⟩ >>= fun parsed =>
        branch parsed.1 parsed.2 >>= fun result => .ok (parsed.1, result.1, ⟨[], result.2⟩) := by
  have hfgets : (Tokens.mk (line.bytes ++ 0 :: junk) saved).fgets 99 [] =
      some (⟨line.bytes ++ 0 :: junk, saved⟩, []) := rfl
  have hline := @strtok_line junk saved line hne
  rw [parsedCommand, hfgets, defined_some, C.ok_bind]
  dsimp only
  rw [hline, defined_some, C.ok_bind]
  rfl

/-- The lines that are operations as a whole. -/
theorem wholeLine_alone {line : CString} {operation : Operation}
    (h : wholeLine line = some operation) :
    operation = .quit ∨ ∃ query : Query, query.operation = operation := by
  rw [wholeLine] at h
  split_ifs at h <;> obtain rfl := Option.some.inj h
  · exact .inr ⟨.size, rfl⟩
  · exact .inr ⟨.getKeys, rfl⟩
  · exact .inr ⟨.getTable, rfl⟩
  · exact .inl rfl
  · exact .inr ⟨.stats, rfl⟩

/-- The operations that need something behind their first word. -/
theorem firstWord_cases (word : CString) :
    firstWord word = .invalid ∨
      ∃ operation : KeyOperation, operation.operation = firstWord word := by
  rw [firstWord]
  split_ifs
  · exact .inr ⟨.put, rfl⟩
  · exact .inr ⟨.get, rfl⟩
  · exact .inr ⟨.del, rfl⟩
  · exact .inl rfl

theorem branch_query (query : Query) (t : Tokens) :
    branch query.operation t = .ok (.stub query.op, t) := by
  cases query <;> rfl

/-- What the buffer says does not change any more when the round leaves it. -/
theorem repeats_of_leaves {line : CString} (hne : line.bytes ≠ []) {operation : Operation}
    {result : Command}
    (h : ∀ saved, ∃ saved', parseOperation (some 0) ⟨line.bytes ++ 0 :: junk, saved⟩ =
        .ok (operation, ⟨line.bytes ++ 0 :: junk, saved'⟩) ∧
      branch operation ⟨line.bytes ++ 0 :: junk, saved'⟩ =
        .ok (result, ⟨line.bytes ++ 0 :: junk, saved'⟩)) :
    Repeats (line.bytes ++ 0 :: junk) operation result := by
  intro saved
  obtain ⟨saved', hparse, hbranch⟩ := h (some line.bytes.length)
  refine ⟨saved', ?_⟩
  rw [parsedCommand_atEnd hne, hparse, C.ok_bind, hbranch]
  rfl

/-- An operation that stands alone in its line is done again, and `quit` would have been. -/
theorem repeats_wholeLine (junk : Bytes) {line : CString} (hne : line.bytes ≠ [])
    {operation : Operation}
    (h : wholeLine line = some operation) {result : Command} {t t' : Tokens}
    (hbranch : branch operation t = .ok (result, t')) :
    t' = t ∧ Repeats (line.bytes ++ 0 :: junk) operation result ∧
      (result = .quit ∨ result.Harmless) := by
  have hparse : ∀ saved, parseOperation (some 0) ⟨line.bytes ++ 0 :: junk, saved⟩ =
      .ok (operation, ⟨line.bytes ++ 0 :: junk, saved⟩) := fun saved => parseOperation_wholeLine h
  rcases wholeLine_alone h with rfl | ⟨query, rfl⟩
  · cases hbranch
    exact ⟨rfl, repeats_of_leaves hne fun saved => ⟨saved, hparse saved, rfl⟩, .inl rfl⟩
  · rw [branch_query] at hbranch
    cases hbranch
    exact ⟨rfl, repeats_of_leaves hne fun saved => ⟨saved, hparse saved, branch_query query _⟩,
      .inr (.inl ⟨query, rfl⟩)⟩

/-- The name of an operation that needs something behind it is complained about. -/
theorem repeats_complaint (junk : Bytes) {line word : CString} {spaces : Bytes}
    (h : wholeLine line = none)
    (hline : line.bytes = spaces ++ word.bytes) (hspaces : ∀ b ∈ spaces, b = 32)
    (hne : word.bytes ≠ []) (hword : 32 ∉ word.bytes) {operation : KeyOperation}
    (hoperation : operation.operation = firstWord word) :
    Repeats (line.bytes ++ 0 :: junk) operation.operation .invalidArguments := by
  have hparse : ∀ saved, parseOperation (some 0) ⟨line.bytes ++ 0 :: junk, saved⟩ =
      .ok (operation.operation, ⟨line.bytes ++ 0 :: junk, some line.bytes.length⟩) := by
    intro saved
    rw [hoperation]
    exact parseOperation_onlyWord h hline hspaces hne hword
  exact repeats_of_leaves
    (by simp [hline, hne]) fun saved => ⟨_, hparse saved, branch_nothing operation⟩

/-- A line of one word has no arguments. -/
theorem repeats_onlyWord (junk : Bytes) {line word : CString} {spaces : Bytes}
    (h : wholeLine line = none)
    (hline : line.bytes = spaces ++ word.bytes) (hspaces : ∀ b ∈ spaces, b = 32)
    (hne : word.bytes ≠ []) (hword : 32 ∉ word.bytes) :
    ∃ result, Repeats (line.bytes ++ 0 :: junk) (firstWord word) result ∧ result.Harmless := by
  rcases firstWord_cases word with hinvalid | ⟨operation, hoperation⟩
  · have hparse : ∀ saved, parseOperation (some 0) ⟨line.bytes ++ 0 :: junk, saved⟩ =
        .ok (.invalid, ⟨line.bytes ++ 0 :: junk, some line.bytes.length⟩) := by
      intro saved
      rw [← hinvalid]
      exact parseOperation_onlyWord h hline hspaces hne hword
    rw [hinvalid]
    exact ⟨.invalidCommand,
      repeats_of_leaves (by simp [hline, hne]) fun saved => ⟨_, hparse saved, rfl⟩,
      .inr (.inr rfl)⟩
  · rw [← hoperation]
    exact ⟨.invalidArguments, repeats_complaint junk h hline hspaces hne hword hoperation,
      .inr (.inl rfl)⟩

/-- No operation is named by a line without its newline. -/
theorem wholeLine_of_noNewline {op : CString} (h : 10 ∉ op.bytes) : wholeLine op = none := by
  have hne : ∀ text : String, 10 ∈ (literal text).bytes → CString.strcmp op (literal text) ≠ 0 := by
    intro text hnewline heq
    rw [CString.strcmp_eq_zero_iff] at heq
    exact h (heq ▸ hnewline)
  rw [wholeLine]
  repeat rw [if_neg (by rintro (heq | heq) <;> exact hne _ (by decide) heq)]

theorem putCommand_keeps {t t' : Tokens} {result : Command} {p : ℕ}
    (h : putCommand t = .ok (result, t')) (hsaved : t.Behind p) : t'.buf.take p = t.buf.take p := by
  rw [putCommand] at h
  obtain ⟨⟨key, t₁⟩, hkey, h⟩ := C.bind_eq_ok h
  obtain ⟨⟨dataTemp, t₂⟩, hdataTemp, h⟩ := C.bind_eq_ok h
  obtain ⟨⟨data, t₃⟩, hdata, h⟩ := C.bind_eq_ok h
  obtain ⟨hkeep₁, hsaved₁, -⟩ := Tokens.strtok_keeps (defined_eq_ok hkey) hsaved (by simp)
  obtain ⟨hkeep₂, hsaved₂, hdataTemp⟩ :=
    Tokens.strtok_keeps (defined_eq_ok hdataTemp) hsaved₁ (by simp)
  obtain ⟨hkeep₃, -, -⟩ := Tokens.strtok_keeps (defined_eq_ok hdata) hsaved₂ hdataTemp
  have hkeep := hkeep₃.trans (hkeep₂.trans hkeep₁)
  dsimp only at h
  split at h
  · cases h
    exact hkeep
  · obtain ⟨_, -, h⟩ := C.bind_eq_ok h
    obtain ⟨_, -, h⟩ := C.bind_eq_ok h
    obtain ⟨_, -, h⟩ := C.bind_eq_ok h
    cases h
    exact hkeep

theorem keyCommand_keeps {op : CString → StubOp} {t t' : Tokens} {result : Command} {p : ℕ}
    (h : keyCommand op t = .ok (result, t')) (hsaved : t.Behind p) :
    t'.buf.take p = t.buf.take p := by
  rw [keyCommand] at h
  obtain ⟨⟨keyTemp, t₁⟩, hkeyTemp, h⟩ := C.bind_eq_ok h
  obtain ⟨⟨key, t₂⟩, hkey, h⟩ := C.bind_eq_ok h
  obtain ⟨hkeep₁, hsaved₁, hkeyTemp⟩ :=
    Tokens.strtok_keeps (defined_eq_ok hkeyTemp) hsaved (by simp)
  obtain ⟨hkeep₂, -, -⟩ := Tokens.strtok_keeps (defined_eq_ok hkey) hsaved₁ hkeyTemp
  have hkeep := hkeep₂.trans hkeep₁
  dsimp only at h
  split at h
  · cases h
    exact hkeep
  · obtain ⟨_, -, h⟩ := C.bind_eq_ok h
    cases h
    exact hkeep

/-- The branches write behind where the tokens go on. -/
theorem branch_keeps {operation : Operation} {t t' : Tokens} {result : Command} {p : ℕ}
    (h : branch operation t = .ok (result, t')) (hsaved : t.Behind p) :
    t'.buf.take p = t.buf.take p := by
  cases operation with
  | put => exact putCommand_keeps h hsaved
  | get => exact keyCommand_keeps h hsaved
  | del => exact keyCommand_keeps h hsaved
  | size | getKeys | getTable | quit | stats | invalid =>
    cases h
    rfl

/-- What a string looks like to `strtok`: spaces, a word, and what is behind it. -/
theorem spaces_word_rest (bytes : Bytes) :
    ∃ spaces word rest : Bytes, bytes = spaces ++ (word ++ rest) ∧
      (∀ b ∈ spaces, b = 32) ∧ 32 ∉ word ∧
      (word = [] → rest = []) ∧ (rest = [] ∨ ∃ rest', rest = 32 :: rest') := by
  induction bytes with
  | nil => exact ⟨[], [], [], rfl, List.forall_mem_nil _, List.not_mem_nil, fun _ => rfl, .inl rfl⟩
  | cons b bytes ih =>
    obtain ⟨spaces, word, rest, rfl, hspaces, hword, hnone, hrest⟩ := ih
    by_cases hb : b = 32
    · exact ⟨b :: spaces, word, rest, rfl, List.forall_mem_cons.2 ⟨hb, hspaces⟩,
        hword, hnone, hrest⟩
    · cases spaces with
      | nil =>
        refine ⟨[], b :: word, rest, rfl, List.forall_mem_nil _, ?_, nofun, hrest⟩
        simpa [hword] using Ne.symm hb
      | cons space spaces =>
        obtain rfl := hspaces space List.mem_cons_self
        exact ⟨[], [b], 32 :: (spaces ++ (word ++ rest)), rfl, List.forall_mem_nil _, by
          simpa using Ne.symm hb,
          nofun, .inr ⟨_, rfl⟩⟩

/-- A round that ends has found a line in the buffer. -/
theorem line_of_parsedCommand {c c' : Console} {operation : Operation} {result : Command}
    (h : parsedCommand c = .ok (operation, result, c')) :
    ∃ (t : Tokens) (line : CString) (junk : Bytes) (parsed : Operation × Tokens),
      c.line.fgets 99 c.stdin = some (t, c'.stdin) ∧ t.buf = line.bytes ++ 0 :: junk ∧
        line.bytes ≠ [] ∧
        parseOperation (some 0) ⟨line.bytes ++ 0 :: junk, some line.bytes.length⟩ = .ok parsed ∧
        branch parsed.1 parsed.2 = .ok (result, c'.line) := by
  rw [parsedCommand] at h
  obtain ⟨⟨t, stdin⟩, hfgets, h⟩ := C.bind_eq_ok h
  obtain ⟨⟨retFgets, t₁⟩, hstrtok, h⟩ := C.bind_eq_ok h
  obtain ⟨parsed, hparse, h⟩ := C.bind_eq_ok h
  obtain ⟨⟨result', t'⟩, hbranch, h⟩ := C.bind_eq_ok h
  cases h
  have hstrtok := defined_eq_ok hstrtok
  obtain ⟨line, hstring⟩ : ∃ line, t.string 0 = some line := by
    simp only [Tokens.strtok, Option.some_or, Option.bind_eq_bind, Option.bind_some,
      Option.bind_eq_some_iff] at hstrtok
    obtain ⟨line, hstring, -⟩ := hstrtok
    exact ⟨line, hstring⟩
  obtain ⟨junk, hbuf⟩ := Tokens.buf_of_string hstring
  obtain ⟨buf, saved⟩ := t
  obtain rfl : buf = line.bytes ++ 0 :: junk := hbuf
  by_cases hne : line.bytes = []
  · -- there is no token, and `parse_operation` does not expect that
    have hnothing := @strtok_nothing junk saved [] (chars "") (some 0) rfl
    rw [hne] at hstrtok
    obtain ⟨rfl, -⟩ := Prod.mk.inj (Option.some.inj (hnothing.symm.trans hstrtok))
    cases hparse
  · have hline := @strtok_line junk saved line hne
    obtain ⟨rfl, rfl⟩ := Prod.mk.inj (Option.some.inj (hline.symm.trans hstrtok))
    exact ⟨_, line, junk, parsed, defined_eq_ok hfgets, rfl, hne, hparse, hbranch⟩

/-- Of a line with arguments the first word is left in the buffer. -/
theorem onlyWord_left {line : CString} (hwhole : wholeLine line = none)
    (hnewline : ∀ front back : Bytes, line.bytes = front ++ 32 :: back → 10 ∉ front)
    {parsed : Operation × Tokens}
    (hparse : parseOperation (some 0) ⟨line.bytes ++ 0 :: junk, saved⟩ = .ok parsed)
    {result : Command} {t' : Tokens} (hbranch : branch parsed.1 parsed.2 = .ok (result, t')) :
    ∃ (left word : CString) (spaces junk' : Bytes), t'.buf = left.bytes ++ 0 :: junk' ∧
      wholeLine left = none ∧ left.bytes = spaces ++ word.bytes ∧ (∀ b ∈ spaces, b = 32) ∧
      word.bytes ≠ [] ∧ 32 ∉ word.bytes := by
  obtain ⟨spaces, word, rest, hbytes, hspaces, hword, hnone, hrest⟩ := spaces_word_rest line.bytes
  have hfree := line.nulFree
  rw [hbytes] at hfree
  simp only [List.mem_append, not_or] at hfree
  obtain ⟨hspacesFree, hwordFree, hrestFree⟩ := hfree
  have hskip : ∀ text : CString,
    (Tokens.mk (spaces ++ (text.bytes ++ 0 :: junk)) saved).strtok (some 0) [32] =
      (Tokens.mk (spaces ++ (text.bytes ++ 0 :: junk)) saved).strtok (some spaces.length) [32] :=
    fun text => Tokens.strtok_skip (by simpa using hspaces) hspacesFree
  by_cases hempty : word = []
  · -- no word at all, so that `strcmp` is given `NULL`
    obtain rfl := hnone hempty
    have hstrtok :=
      (hskip .empty).trans (@strtok_nothing junk saved spaces [32] (some spaces.length) rfl)
    simp only [hempty, List.append_nil] at hbytes
    rw [CString.bytes_empty, List.nil_append, ← hbytes] at hstrtok
    rw [parseOperation, readString_line, C.ok_bind, hwhole] at hparse
    simp only [chars_space, hstrtok] at hparse
    cases hparse
  rcases hrest with rfl | ⟨rest, rfl⟩
  · rw [List.append_nil] at hbytes
    have hleft := @parseOperation_onlyWord junk saved line
      ⟨word, hwordFree⟩ spaces hwhole hbytes hspaces
      hempty hword
    obtain rfl := Except.ok.inj (hleft.symm.trans hparse)
    refine ⟨line, ⟨word, hwordFree⟩, spaces, junk, ?_, hwhole, hbytes, hspaces, hempty, hword⟩
    rcases firstWord_cases ⟨word, hwordFree⟩ with hinvalid | ⟨operation, hoperation⟩
    · rw [hinvalid] at hbranch
      cases hbranch
      rfl
    · rw [← hoperation, branch_nothing] at hbranch
      cases hbranch
      rfl
  · -- the rest is cut off
    have hword' : (0 : UInt8) ∉ word := hwordFree
    have hrestFree' : (0 : UInt8) ∉ rest := fun hmem => hrestFree (List.mem_cons_of_mem _ hmem)
    have hstrtok := @Tokens.strtok_token spaces junk [32] (some spaces.length) saved ⟨word, hword'⟩
      ⟨rest, hrestFree'⟩ 32 rfl hempty (by
        intro b hb
        have hspace : b ≠ 32 := fun heq => hword (heq ▸ hb)
        simpa using hspace) List.mem_cons_self (by decide)
    have hfirst := hskip ⟨word ++ 32 :: rest, by simp [hword', hrestFree']⟩
    have hread := @readString_eq spaces (rest ++ 0 :: junk) (some (spaces ++ word ++ [0]).length)
      ⟨word, hword'⟩
    simp only [List.append_assoc, List.cons_append, List.nil_append] at hfirst hstrtok hread
    rw [hstrtok] at hfirst
    rw [parseOperation, readString_line, C.ok_bind, hwhole] at hparse
    simp only [chars_space, hbytes, List.append_assoc, List.cons_append, hfirst, defined_some,
      C.ok_bind, hread,
      C.pure_eq, Except.ok.injEq] at hparse
    subst hparse
    have hkeep := branch_keeps hbranch ⟨_, rfl, le_rfl⟩
    have hbuf : spaces ++ (word ++ 0 :: (rest ++ 0 :: junk)) =
      spaces ++ (word ++ [0]) ++ (rest ++ 0 :: junk) := by
      simp
    rw [hbuf, List.take_left' rfl] at hkeep
    refine ⟨⟨spaces ++ word, by simp [hspacesFree, hword']⟩, ⟨word, hword'⟩, spaces,
      t'.buf.drop (spaces ++ (word ++ [0])).length, ?_, wholeLine_of_noNewline ?_, rfl, hspaces,
        hempty, hword⟩
    · conv_lhs => rw [← List.take_append_drop (spaces ++ (word ++ [0])).length t'.buf, hkeep]
      simp
    · apply hnewline (spaces ++ word) rest
      rw [hbytes, List.append_assoc]

/-- When the input is at its end, the rounds behind one that has read something come to the
    same, and to no update. -/
theorem repeats_of_read {c c' : Console} {operation : Operation} {result : Command}
    (hread : c.stdin ≠ []) (h : parsedCommand c = .ok (operation, result, c'))
      (hquit : result ≠ .quit) :
    ∃ operation' result', Repeats c'.line.buf operation' result' ∧ result'.Harmless := by
  obtain ⟨t, line, junk, ⟨operation₁, t₁⟩, hfgets, hbuf, hne, hparse, hbranch⟩ :=
    line_of_parsedCommand h
  cases hwhole : wholeLine line with
  | some operation' =>
    rw [parseOperation_wholeLine hwhole, Except.ok.injEq, Prod.mk.injEq] at hparse
    obtain ⟨rfl, rfl⟩ := hparse
    obtain ⟨hsame, hrepeats, hresult⟩ := repeats_wholeLine junk hne hwhole hbranch
    rw [hsame]
    exact ⟨operation', result, hrepeats, hresult.resolve_left hquit⟩
  | none =>
    have hfirstLine : Tokens.firstLine (c.stdin.take (99 - 1)) ≠ [] :=
      Tokens.firstLine_ne_nil (by simpa using hread)
    have hprefix := Tokens.fgets_prefix hfgets hfirstLine hbuf
    have hnewline : ∀ front back : Bytes, line.bytes = front ++ 32 :: back → 10 ∉ front :=
      fun front back hbytes => Tokens.newline_last (hbytes ▸ hprefix)
    obtain ⟨left, word, spaces, junk', hbuf', hleft, hbytes, hspaces, hne', hword⟩ :=
      onlyWord_left hwhole hnewline hparse hbranch
    obtain ⟨result', hrepeats, hharmless⟩ := repeats_onlyWord junk' hleft hbytes hspaces hne' hword
    exact ⟨_, result', hbuf' ▸ hrepeats, hharmless⟩

end AtEnd

end ChainTable
