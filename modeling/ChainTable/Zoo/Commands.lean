-- SUMMARY: The command loop of table_client.c: which call of a stub a typed line becomes, and what is read next.
import ChainTable.Base.Tokens
import ChainTable.Wire.Framing
import ChainTable.Server.Sockets

open Base

/-!
# Commands

`main` of the client reads a line, lets `parse_operation` look at it, and cuts the arguments
out of it with `strtok`, which all of them share. A round of its loop ends in one call of a
stub, or in a complaint.
-/

namespace ChainTable

/-! ## The round -/

/-- `operation` -/
inductive Operation where
  | put
  | get
  | del
  | size
  | getKeys
  | getTable
  | quit
  | stats
  | invalid
  deriving DecidableEq

/-- A literal, which has no NUL in it. -/
def literal (text : String) : CString := ⟨(chars text).filter (· ≠ 0), by simp⟩

/-- The string that a pointer into the buffer points to. -/
def readString (s : Option ℕ) (t : Tokens) : C CString := do
  let start ← deref s
  defined (t.string start)

/-- The operations that stand alone in their line. -/
def wholeLine (opStr : CString) : Option Operation :=
  if CString.strcmp opStr (literal "size\n") = 0 ∨ CString.strcmp opStr (literal "s\n") = 0 then
    some .size
  else if CString.strcmp opStr (literal "getkeys\n") = 0 ∨
      CString.strcmp opStr (literal "k\n") = 0 then some .getKeys
  else if CString.strcmp opStr (literal "gettable\n") = 0 ∨
      CString.strcmp opStr (literal "t\n") = 0 then some .getTable
  else if CString.strcmp opStr (literal "quit\n") = 0 ∨
      CString.strcmp opStr (literal "q\n") = 0 then some .quit
  else if CString.strcmp opStr (literal "stats\n") = 0 ∨
      CString.strcmp opStr (literal "st\n") = 0 then some .stats
  else none

/-- The operations that have arguments. -/
def firstWord (operation : CString) : Operation :=
  if CString.strcmp operation (literal "put") = 0 ∨ CString.strcmp operation (literal "p") = 0 ∨
      CString.strcmp operation (literal "put\n") = 0 ∨
      CString.strcmp operation (literal "p\n") = 0 then .put
  else if CString.strcmp operation (literal "get") = 0 ∨
      CString.strcmp operation (literal "g") = 0 ∨
      CString.strcmp operation (literal "get\n") = 0 ∨
      CString.strcmp operation (literal "g\n") = 0 then .get
  else if CString.strcmp operation (literal "del") = 0 ∨
      CString.strcmp operation (literal "d") = 0 ∨
      CString.strcmp operation (literal "del\n") = 0 ∨
      CString.strcmp operation (literal "d\n") = 0 then .del
  else .invalid

/-- `parse_operation` -/
def parseOperation (opStr : Option ℕ) (t : Tokens) : C (Operation × Tokens) := do
  let op ← readString opStr t
  match wholeLine op with
  | some operation => return (operation, t)
  | none => do
    let (operation, t) ← defined (t.strtok opStr (chars " "))
    let operation ← readString operation t
    return (firstWord operation, t)

/-- What a round does in the end. -/
inductive Command where
  | stub (op : StubOp)
  | invalidArguments
  | invalidCommand
  | quit

/-- What is left of the input, and the buffer `line`. -/
structure Console where
  stdin : Bytes
  line : Tokens

/-- PUT. The data block is the rest of the line, and its copy goes into the entry, which
    `rtable_put` looks into. -/
def putCommand (t : Tokens) : C (Command × Tokens) := do
  let (key, t) ← defined (t.strtok none (chars " "))
  let (dataTemp, t) ← defined (t.strtok none (chars " "))
  let (data, t) ← defined (t.strtok dataTemp (chars "\n"))
  if key = none ∨ data = none then return (.invalidArguments, t)
  else do
    let key ← readString key t
    let data ← readString data t
    let dataObj := dataCreate data.bytes.length (some data.bytes) (by simp)
    let entry ← deref (entryCreate (some key) (dataDup dataObj))
    return (.stub (.put entry), t)

/-- GET and DEL. -/
def keyCommand (op : CString → StubOp) (t : Tokens) : C (Command × Tokens) := do
  let (keyTemp, t) ← defined (t.strtok none (chars " "))
  let (key, t) ← defined (t.strtok keyTemp (chars "\n"))
  if key = none then return (.invalidArguments, t)
  else do
    let key ← readString key t
    return (.stub (op key), t)

/-- The branches of the loop of `main`. -/
def branch (operation : Operation) (t : Tokens) : C (Command × Tokens) :=
  match operation with
  | .put => putCommand t
  | .get => keyCommand .get t
  | .del => keyCommand .del t
  | .size => return (.stub .size, t)
  | .getKeys => return (.stub .getKeys, t)
  | .getTable => return (.stub .getTable, t)
  | .stats => return (.stub .stats, t)
  | .quit => return (.quit, t)
  | .invalid => return (.invalidCommand, t)

/-- A round of the loop of `main`. -/
def command (c : Console) : C (Command × Console) := do
  let (t, stdin) ← defined (c.line.fgets 99 c.stdin)
  let (retFgets, t) ← defined (t.strtok (some 0) (chars ""))
  let (operation, t) ← parseOperation retFgets t
  let (result, t) ← branch operation t
  return (result, ⟨stdin, t⟩)

/-! ## What is typed -/

/-- A non-empty string without spaces and newlines. -/
structure Word extends CString where
  nonempty : bytes ≠ []
  unbroken : ∀ b ∈ bytes, b ≠ 32 ∧ b ≠ 10

/-- A line that asks for an operation on a key, by the name of the operation or by its first
    letter. -/
inductive TypedLine where
  | put (letter : Bool) (key value : Word)
  | get (letter : Bool) (key : Word)
  | del (letter : Bool) (key : Word)

namespace TypedLine

def name : TypedLine → CString
  | .put letter _ _ => literal (if letter then "p" else "put")
  | .get letter _ => literal (if letter then "g" else "get")
  | .del letter _ => literal (if letter then "d" else "del")

/-- What stands behind the name and a space. -/
def arguments : TypedLine → Bytes
  | .put _ key value => key.bytes ++ 32 :: value.bytes
  | .get _ key => key.bytes
  | .del _ key => key.bytes

/-- The line without its newline. -/
def body (line : TypedLine) : Bytes := line.name.bytes ++ 32 :: line.arguments

def bytes (line : TypedLine) : Bytes := line.body ++ [10]

/-- The call that is asked for. -/
def op : TypedLine → StubOp
  | .put _ key value => .put (.ofPair ⟨key.toCString, value.bytes⟩)
  | .get _ key => .get key.toCString
  | .del _ key => .del key.toCString

end TypedLine

/-- The round that starts with the line makes the call, and the next round starts behind the
    line. -/
def ParsedAsTyped (line : TypedLine) (rest : Bytes) (t : Tokens) : Prop :=
  ∃ t', command ⟨line.bytes ++ rest, t⟩ = .ok (.stub line.op, ⟨rest, t'⟩)

/-! ## Parsing it -/

section Parsing

variable {front junk : Bytes} {saved : Option ℕ}

theorem chars_space : chars " " = [32] := by decide

theorem chars_newline : chars "\n" = [10] := by decide

theorem readString_eq (text : CString) :
    readString (some front.length) ⟨front ++ (text.bytes ++ 0 :: junk), saved⟩ = .ok text := by
  simp [readString, Tokens.string_eq]

/-- No line with a space is one of the operations that stand alone. -/
theorem wholeLine_of_space {op : CString} (h : 32 ∈ op.bytes) : wholeLine op = none := by
  have hne : ∀ text : String, 32 ∉ (literal text).bytes → CString.strcmp op (literal text) ≠ 0 := by
    intro text hspace heq
    rw [CString.strcmp_eq_zero_iff] at heq
    exact hspace (heq ▸ h)
  rw [wholeLine]
  repeat rw [if_neg (by rintro (heq | heq) <;> exact hne _ (by decide) heq)]

/-- The first `strtok` finds the whole line. -/
theorem strtok_line (line : CString) (hne : line.bytes ≠ []) :
    (Tokens.mk (line.bytes ++ 0 :: junk) saved).strtok (some 0) (chars "") =
      some (some 0, ⟨line.bytes ++ 0 :: junk, some line.bytes.length⟩) :=
  @Tokens.strtok_last [] junk (chars "") (some 0) saved line rfl hne (by simp [chars])

/-- The first word is cut off. -/
theorem parseOperation_word {name arguments : CString} (hne : name.bytes ≠ [])
    (hname : 32 ∉ name.bytes) :
    parseOperation (some 0) ⟨name.bytes ++ 32 :: (arguments.bytes ++ 0 :: junk), saved⟩ =
      .ok (firstWord name, ⟨name.bytes ++ [0] ++ (arguments.bytes ++ 0 :: junk),
        some (name.bytes ++ [0]).length⟩) := by
  have hfree : (0 : UInt8) ∉ name.bytes ++ 32 :: arguments.bytes := by
    simp [name.nulFree, arguments.nulFree]
  have hline : readString (some 0) ⟨name.bytes ++ 32 :: (arguments.bytes ++ 0 :: junk), saved⟩ =
      .ok ⟨name.bytes ++ 32 :: arguments.bytes, hfree⟩ := by
    simpa using @readString_eq [] junk saved ⟨name.bytes ++ 32 :: arguments.bytes, hfree⟩
  have hclean : ∀ b ∈ name.bytes, b ∉ chars " " := by
    intro b hb hmem
    obtain rfl : b = 32 := by simpa [chars] using hmem
    exact hname hb
  have hstrtok := @Tokens.strtok_token [] junk (chars " ") (some 0) saved name arguments 32 rfl hne
    hclean (by decide) (by decide)
  have hword : readString (some 0) ⟨name.bytes ++ [0] ++ (arguments.bytes ++ 0 :: junk),
      some (name.bytes ++ [0]).length⟩ = .ok name := by
    rw [List.append_assoc, List.singleton_append]
    exact @readString_eq [] (arguments.bytes ++ 0 :: junk) (some (name.bytes ++ [0]).length) name
  rw [List.nil_append, List.nil_append] at hstrtok
  rw [parseOperation, hline, C.ok_bind, wholeLine_of_space (by simp)]
  simp only [hstrtok, List.length_nil, defined_some, C.ok_bind, hword, C.pure_eq]

/-- A word starts what is left, and a delimiter ends it. -/
theorem strtok_word {word : Word} {rest : CString} {d : UInt8} {s : Option ℕ}
    (hs : s.or saved = some front.length) (hd : d = 32 ∨ d = 10) :
    (Tokens.mk (front ++ (word.bytes ++ d :: (rest.bytes ++ 0 :: junk))) saved).strtok s [d] =
      some (some front.length, ⟨front ++ word.bytes ++ [0] ++ (rest.bytes ++ 0 :: junk),
        some (front ++ word.bytes ++ [0]).length⟩) := by
  apply Tokens.strtok_token hs word.nonempty _ List.mem_cons_self
  · rcases hd with rfl | rfl <;> decide
  · intro b hb
    have hunbroken := word.unbroken b hb
    rcases hd with rfl | rfl <;> simp [hunbroken]

/-- The last word of the line, with the newline. -/
theorem strtok_lastWord {word : Word} :
    (Tokens.mk (front ++ (word.bytes ++ 10 :: 0 :: junk)) (some front.length)).strtok none [32] =
      some (some front.length, ⟨front ++ (word.bytes ++ 10 :: 0 :: junk),
        some (front ++ word.bytes ++ [10]).length⟩) := by
  have hfree : (0 : UInt8) ∉ word.bytes ++ [10] := by simp [word.nulFree]
  have hstrtok := @Tokens.strtok_last front junk [32] none (some front.length)
    ⟨word.bytes ++ [10], hfree⟩ rfl (by simp) (by
      intro b hb
      have hne : b ≠ 32 := by
        rcases List.mem_append.1 hb with hb | hb
        · exact (word.unbroken b hb).1
        · obtain rfl : b = 10 := by simpa using hb
          decide
      simpa using hne)
  simpa using hstrtok

/-- The string at the beginning of a word that has been cut off. -/
theorem readString_word {word : Word} {rest : Bytes} :
    readString (some front.length) ⟨front ++ word.bytes ++ [0] ++ rest, saved⟩ =
      .ok word.toCString := by
  have hread := @readString_eq front rest saved word.toCString
  rwa [← List.singleton_append, ← List.append_assoc, ← List.append_assoc] at hread

theorem putCommand_typed {key value : Word} :
    ∃ t', putCommand ⟨front ++ (key.bytes ++ 32 :: (value.bytes ++ 10 :: 0 :: junk)),
        some front.length⟩ =
      .ok (.stub (.put (.ofPair ⟨key.toCString, value.bytes⟩)), t') := by
  have hfree : (0 : UInt8) ∉ value.bytes ++ [10] := by simp [value.nulFree]
  have hkey := @strtok_word front junk (some front.length) key
    ⟨value.bytes ++ [10], hfree⟩ 32 none rfl
    (.inl rfl)
  have hvalue := @strtok_lastWord (front ++ key.bytes ++ [0]) junk value
  have hcut := @strtok_word (front ++ key.bytes ++ [0]) junk
    (some (front ++ key.bytes ++ [0] ++ value.bytes ++ [10]).length) value .empty 10
    (some (front ++ key.bytes ++ [0]).length) rfl (.inr rfl)
  rw [List.append_assoc value.bytes, List.singleton_append] at hkey
  rw [CString.bytes_empty, List.nil_append] at hcut
  have hreadKey : readString (some front.length)
      ⟨front ++ key.bytes ++ [0] ++ value.bytes ++ [0] ++ 0 :: junk,
        some (front ++ key.bytes ++ [0] ++ value.bytes ++ [0]).length⟩ = .ok key.toCString := by
    rw [List.append_assoc _ value.bytes, List.append_assoc _ (value.bytes ++ [0])]
    exact readString_word
  have hentry : entryCreate (some key.toCString)
      (dataDup (dataCreate value.bytes.length (some value.bytes) (by simp))) =
        some (.ofPair ⟨key.toCString, value.bytes⟩) := by
    have hdata : dataCreate value.bytes.length (some value.bytes) (by simp) =
        some (.ofBytes value.bytes) := by
      rw [dataCreate, if_neg (by simp [value.nonempty])]
      rfl
    rw [hdata, dataDup_ofBytes value.nonempty]
    rfl
  rw [putCommand]
  simp only [chars_space, chars_newline, hkey, hvalue, hcut, defined_some, C.ok_bind, hreadKey,
    readString_word, hentry, deref_some, reduceCtorEq, or_self, if_false, C.pure_eq]
  exact ⟨_, rfl⟩

theorem keyCommand_typed {op : CString → StubOp} {key : Word} :
    ∃ t', keyCommand op ⟨front ++ (key.bytes ++ 10 :: 0 :: junk), some front.length⟩ =
      .ok (.stub (op key.toCString), t') := by
  have hkey := @strtok_lastWord front junk key
  have hcut := @strtok_word front junk (some (front ++ key.bytes ++ [10]).length) key .empty 10
    (some front.length) rfl (.inr rfl)
  rw [CString.bytes_empty, List.nil_append] at hcut
  rw [keyCommand]
  simp only [chars_space, chars_newline, hkey, hcut, defined_some, C.ok_bind, readString_word,
    reduceCtorEq, if_false, C.pure_eq]
  exact ⟨_, rfl⟩

end Parsing

namespace TypedLine

variable (line : TypedLine)

theorem name_mem : line.name ∈ ["put", "p", "get", "g", "del", "d"].map literal := by
  cases line with
  | put letter => cases letter <;> exact List.mem_map_of_mem (by decide)
  | get letter => cases letter <;> exact List.mem_map_of_mem (by decide)
  | del letter => cases letter <;> exact List.mem_map_of_mem (by decide)

/-- The name is a word. -/
theorem name_word : line.name.bytes ≠ [] ∧ 32 ∉ line.name.bytes ∧ 10 ∉ line.name.bytes := by
  have hwords : ∀ text ∈ ["put", "p", "get", "g", "del", "d"], (literal text).bytes ≠ [] ∧
      32 ∉ (literal text).bytes ∧ 10 ∉ (literal text).bytes := by decide
  obtain ⟨text, htext, hname⟩ := List.mem_map.1 line.name_mem
  rw [← hname]
  exact hwords text htext

theorem arguments_nulFree : (0 : UInt8) ∉ line.arguments := by
  cases line with
  | put _ key value => simp [arguments, key.nulFree, value.nulFree]
  | get _ key => exact key.nulFree
  | del _ key => exact key.nulFree

theorem newline_notMem : 10 ∉ line.body := by
  have hword : ∀ word : Word, 10 ∉ word.bytes := fun word hmem => (word.unbroken 10 hmem).2 rfl
  have harguments : 10 ∉ line.arguments := by
    cases line with
    | put _ key value => simp [arguments, hword]
    | get _ key => exact hword key
    | del _ key => exact hword key
  simp [body, harguments, line.name_word.2.2]

/-- The branch of the operation finds the arguments. -/
theorem branch_arguments {front junk : Bytes} :
    ∃ t', branch (firstWord line.name)
      ⟨front ++ (line.arguments ++ 10 :: 0 :: junk), some front.length⟩ =
      .ok (.stub line.op, t') := by
  cases line with
  | put letter key value =>
    have hfirst : firstWord (put letter key value).name = .put := by cases letter <;> rfl
    rw [hfirst, arguments, List.append_assoc]
    exact putCommand_typed
  | get letter key =>
    have hfirst : firstWord (get letter key).name = .get := by cases letter <;> rfl
    rw [hfirst]
    exact keyCommand_typed
  | del letter key =>
    have hfirst : firstWord (del letter key).name = .del := by cases letter <;> rfl
    rw [hfirst]
    exact keyCommand_typed

end TypedLine

section Rounds

variable {t : Tokens} {line : TypedLine} {rest : Bytes} (hsize : t.buf.length = maxMsg)

include hsize

/-- The buffer is larger than what `fgets` is told. -/
theorem fgets_room : 99 ≤ t.buf.length := by
  rw [hsize]
  decide

/-- A line that `fgets` reads as a whole is parsed as it was typed. -/
theorem parsedAsTyped_of_le (hfits : line.bytes.length ≤ 98) :
    ParsedAsTyped line rest t := by
  have hlength : line.body.length + 1 < 99 := by
    rw [TypedLine.bytes, List.length_append, List.length_singleton] at hfits
    omega
  have hfgets := @Tokens.fgets_line 99 t line.body rest line.newline_notMem
    (fgets_room hsize) hlength
  generalize t.buf.drop (line.body.length + 2) = junk at hfgets
  have hfree : (0 : UInt8) ∉ line.name.bytes ++ 32 :: (line.arguments ++ [10]) := by
    simp [line.name.nulFree, line.arguments_nulFree]
  have hfree' : (0 : UInt8) ∉ line.arguments ++ [10] := by simp [line.arguments_nulFree]
  have hline := @strtok_line junk t.saved ⟨_, hfree⟩ (by simp)
  have hparse := @parseOperation_word junk
    (some (line.name.bytes ++ 32 :: (line.arguments ++ [10])).length) line.name
    ⟨line.arguments ++ [10], hfree'⟩ line.name_word.1 line.name_word.2.1
  obtain ⟨t', hbranch⟩ := @line.branch_arguments (line.name.bytes ++ [0]) junk
  simp only [List.append_assoc, List.cons_append, List.nil_append] at hline hparse hbranch
  refine ⟨t', ?_⟩
  rw [command, TypedLine.bytes, List.append_assoc, List.singleton_append, hfgets,
    defined_some, C.ok_bind]
  simp only [TypedLine.body, List.append_assoc, List.cons_append, hline, hparse, hbranch,
    defined_some, C.ok_bind, C.pure_eq]

/-- Of a longer line the end is left. -/
theorem not_parsedAsTyped (hlong : 98 < line.bytes.length) : ¬ ParsedAsTyped line rest t := by
  rintro ⟨t', hcommand⟩
  have hlength : 99 ≤ line.body.length + 1 := by
    rw [TypedLine.bytes, List.length_append, List.length_singleton] at hlong
    omega
  have hfgets := @Tokens.fgets_cut 99 t line.body rest line.newline_notMem (fgets_room hsize)
    (by decide) hlength
  rw [command, TypedLine.bytes, List.append_assoc, List.singleton_append, hfgets] at hcommand
  rw [defined_some, C.ok_bind] at hcommand
  obtain ⟨_, _, hcommand⟩ := C.bind_eq_ok hcommand
  obtain ⟨_, _, hcommand⟩ := C.bind_eq_ok hcommand
  obtain ⟨_, _, hcommand⟩ := C.bind_eq_ok hcommand
  have hrest : line.body.drop 98 ++ 10 :: rest = rest := by
    injection hcommand with hcommand
    exact congrArg (fun result => result.2.stdin) hcommand
  have hlength := congrArg List.length hrest
  rw [List.length_append, List.length_cons] at hlength
  omega

end Rounds

/-- The buffer has room for `MAX_MSG` bytes, but a longer line than `fgets` is told to read is
    not parsed as it was typed. -/
theorem parsedAsTyped_iff (t : Tokens) (hsize : t.buf.length = maxMsg) (line : TypedLine)
    (rest : Bytes) : ParsedAsTyped line rest t ↔ line.bytes.length ≤ 98 := by
  constructor
  · intro hparsed
    by_contra hlong
    exact not_parsedAsTyped hsize (not_le.1 hlong) hparsed
  · exact parsedAsTyped_of_le hsize

/-- `count` times the byte `b`. -/
def Word.replicate (count : ℕ) (b : UInt8) (hcount : count ≠ 0) (hb : b ≠ 0 ∧ b ≠ 32 ∧ b ≠ 10) :
    Word where
  bytes := List.replicate count b
  nulFree := by simp [Ne.symm hb.1]
  nonempty := by simpa using hcount
  unbroken := by
    intro b' hmem
    rw [List.eq_of_mem_replicate hmem]
    exact hb.2

theorem parsedAsTyped_short :
    ParsedAsTyped (.put true
      (.replicate 1 107 (by decide) (by decide)) (.replicate 2 118 (by decide) (by decide)))
      [113, 10] ⟨List.replicate maxMsg 0, none⟩ :=
  (parsedAsTyped_iff _ (by simp) _ _).2 (by decide)

/-- The value is longer than a round reads. -/
theorem not_parsedAsTyped_long :
    ¬ ParsedAsTyped (.put false (.replicate 1 107 (by decide) (by decide))
      (.replicate 95 118 (by decide) (by decide))) [] ⟨List.replicate maxMsg 0, none⟩ := by
  apply not_parsedAsTyped
  · exact List.length_replicate
  · decide

/-! ## A session -/

theorem parseOperation_length {opStr : Option ℕ} {t t' : Tokens} {operation : Operation}
    (h : parseOperation opStr t = .ok (operation, t')) : t'.buf.length = t.buf.length := by
  rw [parseOperation] at h
  obtain ⟨op, -, h⟩ := C.bind_eq_ok h
  split at h
  · cases h
    rfl
  · obtain ⟨⟨word, t₁⟩, hstrtok, h⟩ := C.bind_eq_ok h
    obtain ⟨_, -, h⟩ := C.bind_eq_ok h
    cases h
    exact Tokens.strtok_length (defined_eq_ok hstrtok)

theorem putCommand_length {t t' : Tokens} {result : Command}
    (h : putCommand t = .ok (result, t')) : t'.buf.length = t.buf.length := by
  rw [putCommand] at h
  obtain ⟨⟨key, t₁⟩, hkey, h⟩ := C.bind_eq_ok h
  obtain ⟨⟨dataTemp, t₂⟩, hdataTemp, h⟩ := C.bind_eq_ok h
  obtain ⟨⟨data, t₃⟩, hdata, h⟩ := C.bind_eq_ok h
  have hlength : t₃.buf.length = t.buf.length := by
    rw [Tokens.strtok_length (defined_eq_ok hdata), Tokens.strtok_length (defined_eq_ok hdataTemp),
      Tokens.strtok_length (defined_eq_ok hkey)]
  dsimp only at h
  split at h
  · cases h
    exact hlength
  · obtain ⟨_, -, h⟩ := C.bind_eq_ok h
    obtain ⟨_, -, h⟩ := C.bind_eq_ok h
    obtain ⟨_, -, h⟩ := C.bind_eq_ok h
    cases h
    exact hlength

theorem keyCommand_length {op : CString → StubOp} {t t' : Tokens} {result : Command}
    (h : keyCommand op t = .ok (result, t')) : t'.buf.length = t.buf.length := by
  rw [keyCommand] at h
  obtain ⟨⟨keyTemp, t₁⟩, hkeyTemp, h⟩ := C.bind_eq_ok h
  obtain ⟨⟨key, t₂⟩, hkey, h⟩ := C.bind_eq_ok h
  have hlength : t₂.buf.length = t.buf.length := by
    rw [Tokens.strtok_length (defined_eq_ok hkey), Tokens.strtok_length (defined_eq_ok hkeyTemp)]
  dsimp only at h
  split at h
  · cases h
    exact hlength
  · obtain ⟨_, -, h⟩ := C.bind_eq_ok h
    cases h
    exact hlength

theorem branch_length {operation : Operation} {t t' : Tokens} {result : Command}
    (h : branch operation t = .ok (result, t')) : t'.buf.length = t.buf.length := by
  cases operation with
  | put => exact putCommand_length h
  | get => exact keyCommand_length h
  | del => exact keyCommand_length h
  | size | getKeys | getTable | quit | stats | invalid =>
    cases h
    rfl

theorem command_length {c c' : Console} {result : Command} (h : command c = .ok (result, c')) :
    c'.line.buf.length = c.line.buf.length := by
  rw [command] at h
  obtain ⟨⟨t₁, stdin⟩, hfgets, h⟩ := C.bind_eq_ok h
  obtain ⟨⟨retFgets, t₂⟩, hstrtok, h⟩ := C.bind_eq_ok h
  obtain ⟨⟨operation, t₃⟩, hparse, h⟩ := C.bind_eq_ok h
  obtain ⟨⟨_, t₄⟩, hbranch, h⟩ := C.bind_eq_ok h
  cases h
  rw [branch_length hbranch, parseOperation_length hparse,
    Tokens.strtok_length (defined_eq_ok hstrtok),
    Tokens.fgets_length (defined_eq_ok hfgets)]

/-- Some rounds, one after another. -/
def commands : ℕ → Console → C (List Command × Console)
  | 0, c => return ([], c)
  | n + 1, c => do
    let (result, c) ← command c
    let (results, c) ← commands n c
    return (result :: results, c)

/-- Lines that are short enough become the calls that they ask for, one each and in order. -/
theorem commands_typed {lines : List TypedLine} (hshort : ∀ line ∈ lines, line.bytes.length ≤ 98)
    (rest : Bytes) {t : Tokens} (hsize : t.buf.length = maxMsg) :
    ∃ t', commands lines.length ⟨lines.flatMap TypedLine.bytes ++ rest, t⟩ =
      .ok (lines.map fun line => .stub line.op, ⟨rest, t'⟩) := by
  induction lines generalizing t with
  | nil => exact ⟨t, rfl⟩
  | cons line lines ih =>
    obtain ⟨hline, hlines⟩ := List.forall_mem_cons.1 hshort
    obtain ⟨t₁, hcommand⟩ := @parsedAsTyped_of_le t line (lines.flatMap TypedLine.bytes ++ rest)
      hsize hline
    have hsize₁ : t₁.buf.length = maxMsg := (command_length hcommand).trans hsize
    obtain ⟨t', hcommands⟩ := ih hlines hsize₁
    refine ⟨t', ?_⟩
    rw [List.length_cons, commands, List.flatMap_cons, List.append_assoc, hcommand, C.ok_bind]
    dsimp only
    rw [hcommands, C.ok_bind]
    rfl

end ChainTable
