-- SUMMARY: Whole sessions of the client: what main prints for the lines that are typed, and what becomes of the servers.
import ChainTable.Server.Serving
import ChainTable.Store.Listing
import ChainTable.Zoo.Client
import ChainTable.Zoo.Lines

open Base

/-!
# Sessions

The loop of `main` prints a prompt, reads a line, calls a stub and prints its result, until
the user quits or a connection is lost. A user who is alone sees a map from keys to values,
whatever is behind the two connections.
-/

namespace ChainTable

open Calls

/-! ## Printing -/

/-- What `%.*s` prints of a block: its bytes up to a NUL, and not more than the precision. A
    negative precision counts as none. -/
def formatString (precision : Int) (block : Option Bytes) : C Bytes := do
  let b ← deref block
  let text := b.takeWhile (· ≠ 0)
  if 0 ≤ precision ∧ precision ≤ text.length then return text.take precision.toNat
  else if 0 ∈ b then return text
  else .error .outOfBounds

/-- What `%d` prints. -/
def formatInt (n : Int) : Bytes := chars (toString n)

def printPut (key : CString) (retPut : Int) : Bytes :=
  if retPut = 0 then chars "Entry with key \"" ++ key.bytes ++ chars "\" was added\n"
  else chars "There was an error adding entry with key \"" ++ key.bytes ++ chars "\"\n"

def printGet : Option Data → C Bytes
  | none => return chars "Error in rtable_get or key not found!\n"
  | some data => do
    let text ← formatString data.datasize data.data
    return text ++ chars "\n"

def printDel (retDestroy : Int) : Bytes :=
  if retDestroy = 0 then chars "Entry removed\n"
  else chars "Error in rtable_del or key not found!\n"

def printSize (size : Int) : Bytes :=
  if size < 0 then chars "There was an error retrieving table's size\n"
  else chars "Table size: " ++ formatInt size ++ chars "\n"

/-- The loop over an array that ends in `NULL`. -/
def printAll {α : Type} (print : α → C Bytes) : List (Option α) → C Bytes
  | [] => .error .outOfBounds
  | none :: _ => return []
  | some a :: arr => do
    let text ← print a
    let texts ← printAll print arr
    return text ++ texts

def printKey (key : CString) : C Bytes := return key.bytes ++ chars "\n"

def printKeys : Option (List (Option CString)) → C Bytes
  | none => return chars "There was an error retrieving keys\n"
  | some keys => printAll printKey keys

def printEntry (entry : Entry) : C Bytes := do
  let key ← deref entry.key
  let value ← deref entry.value
  let text ← formatString value.datasize value.data
  return key.bytes ++ chars ": " ++ text ++ chars "\n"

def printTable : Option (List (Option Entry)) → C Bytes
  | none => return chars "There was an error retrieving table\n"
  | some entries => printAll printEntry entries

def printStats : Option StatisticsT → Bytes
  | none => chars "There was an error retrieving stats\n"
  | some stats =>
    chars "Number of connected clients: " ++ formatInt stats.nClientes ++
      chars "\nNumber of operations: " ++ formatInt stats.nOperacoes ++
      chars "\nTotal time spent: " ++ formatInt stats.totalTime ++ chars "\n"

/-- A branch of the loop of `main`: the stub, and what is printed of its result. The key that
    is printed for a put is the one that was copied into the entry. -/
def StubOp.print (rtable : Option Rtable) : StubOp → Prog Calls Bytes
  | .put entry => do
    let retPut ← rtablePut rtable entry
    let key ← memory (deref entry.key)
    return printPut key retPut
  | .get key => do
    let data ← rtableGet rtable key
    memory (printGet data)
  | .del key => do
    let retDestroy ← rtableDel rtable key
    return printDel retDestroy
  | .size => do
    let size ← rtableSize rtable
    return printSize size
  | .getKeys => do
    let keys ← rtableGetKeys rtable
    memory (printKeys keys)
  | .getTable => do
    let entries ← rtableGetTable rtable
    memory (printTable entries)
  | .stats => do
    let stats ← rtableStats rtable
    return printStats stats

/-- The complaint about an operation without its arguments. -/
def usage : Operation → Bytes
  | .put => chars "Invalid arguments. Usage: put <key> <value>\n"
  | .get => chars "Invalid arguments. Usage: get <key>\n"
  | .del => chars "Invalid arguments. Usage: del <key>\n"
  | _ => []

def prompt : Bytes := chars "Command: "

def bye : Bytes := chars "Bye, bye!\n"

def invalidCommand : Bytes :=
  chars "Invalid command. Please try again.\nUsage: p[ut] <key> <value> | g[et] <key> | d[el] <key> | s[ize] | [get]k[eys] | [get]t[able] | st[ats] | q[uit]\n"

/-! ## The loop of main -/

/-- The client at its end of a connection, with the flag that says whether it is connected. -/
def connection {τ : Type} (net : Prog.Handler Calls τ Fault) : Prog.Handler Calls (τ × Bool) Fault
  | .networkClose rtable, s => do
    let (_, t) ← net (.networkClose rtable) s.1
    return ((), (t, false))
  | op, s => do
    let (r, t) ← net op s.1
    return (r, (t, s.2))

/-- The variables of `main`, what has been printed, and whatever is behind the connections. -/
structure Session (τ : Type) where
  console : Console
  stdout : Bytes
  terminated : Bool
  connected : Role → Bool
  connectedToZk : Bool
  net : τ

namespace Session

variable {τ : Type}

def printf (s : Session τ) (text : Bytes) : Session τ := { s with stdout := s.stdout ++ text }

/-- A round of the loop. `net` is what the connections do. -/
def round (net : Role → Prog.Handler Calls (τ × Bool) Fault) (rtable : Role → Option Rtable)
    (s : Session τ) : C (Session τ) := do
  let s := s.printf prompt
  let (operation, result, console) ← parsedCommand s.console
  let s := { s with console := console }
  match result with
  | .stub op => do
    let (text, (t, connected)) ← (op.print (rtable op.role)).run (net op.role)
      (s.net, s.connected op.role)
    return { s.printf text with
      net := t, connected := Function.update s.connected op.role connected }
  | .invalidArguments => return s.printf (usage operation)
  | .invalidCommand => return s.printf invalidCommand
  | .quit => return { s.printf bye with terminated := true }

/-- The test of the loop. -/
def goesOn (s : Session τ) : Bool :=
  !s.terminated && s.connected .head && s.connected .tail && s.connectedToZk

/-- At most `n` rounds. -/
def loop (net : Role → Prog.Handler Calls (τ × Bool) Fault) (rtable : Role → Option Rtable) :
    ℕ → Session τ → C (Session τ)
  | 0, s => return s
  | n + 1, s => do
    if s.goesOn then do
      let s ← s.round net rtable
      loop net rtable n s
    else return s

end Session

/-! ## The specification

What a user who is alone sees of a map, line by line. The listings come in some order, and the
time that the operations have taken is any. -/

namespace Spec

/-- What is printed of a value. -/
def visible (b : Bytes) : Bytes := b.takeWhile (· ≠ 0)

/-- The answer to a line, with the map and the number of operations that it leaves. -/
inductive Answers (clients : Int) (m : Map) (operations : Int) : UserLine → Bytes → Map → Int → Prop
  | put (letter : Bool) (key value : Word) :
    Answers clients m operations (.keyed (.put letter key value))
      (chars "Entry with key \"" ++ key.bytes ++ chars "\" was added\n")
      (m.insert key.toCString value.bytes) (operations + 1)
  | found (letter : Bool) {key : Word} {b : Bytes} (bound : m.lookup key.toCString = some b) :
    Answers clients m operations (.keyed (.get letter key)) (visible b ++ chars "\n") m
      (operations + 1)
  | notFound (letter : Bool) {key : Word} (unbound : m.lookup key.toCString = none) :
    Answers clients m operations (.keyed (.get letter key))
      (chars "Error in rtable_get or key not found!\n") m (operations + 1)
  | removed (letter : Bool) {key : Word} (bound : key.toCString ∈ m) :
    Answers clients m operations (.keyed (.del letter key)) (chars "Entry removed\n")
      (m.erase key.toCString) (operations + 1)
  | notRemoved (letter : Bool) {key : Word} (unbound : key.toCString ∉ m) :
    Answers clients m operations (.keyed (.del letter key))
      (chars "Error in rtable_del or key not found!\n") m (operations + 1)
  | size (short : Bool) :
    Answers clients m operations (.query .size short)
      (chars "Table size: " ++ formatInt m.keys.card ++ chars "\n") m (operations + 1)
  | keys (short : Bool) {keys : List CString} (once : keys.Nodup) (listed : ∀ key, key ∈ keys ↔ key ∈ m) :
    Answers clients m operations (.query .getKeys short)
      (keys.flatMap fun key => key.bytes ++ chars "\n") m (operations + 1)
  | table (short : Bool) {entries : List (Σ _ : CString, Bytes)} (once : entries.NodupKeys)
      (listed : ∀ key b, ⟨key, b⟩ ∈ entries ↔ m.lookup key = some b) :
    Answers clients m operations (.query .getTable short)
      (entries.flatMap fun e => e.1.bytes ++ chars ": " ++ visible e.2 ++ chars "\n") m
        (operations + 1)
  | stats (short : Bool) (time : Int) :
    Answers clients m operations (.query .stats short)
      (chars "Number of connected clients: " ++ formatInt clients ++
        chars "\nNumber of operations: " ++ formatInt operations ++
        chars "\nTotal time spent: " ++ formatInt time ++ chars "\n") m operations
  | complaint {line : UserLine} {operation : Operation} (incomplete : line.complaint = some operation) :
    Answers clients m operations line (usage operation) m operations
  | unknown {word : Word} (unnamed : ∀ name ∈ commandNames, word.bytes ≠ chars name) :
    Answers clients m operations (.unknown word unnamed) invalidCommand m operations

/-- What is printed for some lines, one after the other. -/
inductive Transcript (clients : Int) : Map → Int → List UserLine → Bytes → Map → Int → Prop
  | nil {m : Map} {operations : Int} : Transcript clients m operations [] [] m operations
  | cons {m m₁ m' : Map} {operations operations₁ operations' : Int} {line : UserLine}
      {lines : List UserLine} {text texts : Bytes}
      (answer : Answers clients m operations line text m₁ operations₁)
      (rest : Transcript clients m₁ operations₁ lines texts m' operations') :
    Transcript clients m operations (line :: lines) (prompt ++ text ++ texts) m' operations'

end Spec

/-! ## Printing what a store holds -/

theorem formatString_visible (b : Bytes) :
    formatString b.length (some b) = .ok (Spec.visible b) := by
  rw [formatString, deref_some, C.ok_bind]
  by_cases hzero : 0 ∈ b
  · by_cases hshort : (b.length : Int) ≤ (b.takeWhile (· ≠ 0)).length
    · have hlength : (b.takeWhile (· ≠ 0)).length ≤ b.length := (List.takeWhile_sublist _).length_le
      have htake : (b.takeWhile (· ≠ 0)).take (b.length : Int).toNat = b.takeWhile (· ≠ 0) := by
        rw [Int.toNat_natCast, List.take_of_length_le hlength]
      rw [if_pos ⟨Int.natCast_nonneg _, hshort⟩, htake]
      rfl
    · rw [if_neg (fun h => hshort h.2), if_pos hzero]
      rfl
  · have hall : b.takeWhile (· ≠ 0) = b := by
      rw [List.takeWhile_eq_self_iff]
      intro byte hbyte
      have hne : byte ≠ 0 := fun h => hzero (h ▸ hbyte)
      simpa using hne
    rw [hall, if_pos ⟨Int.natCast_nonneg _, le_rfl⟩, Int.toNat_natCast, List.take_length,
      Spec.visible, hall]
    rfl

theorem printAll_map {α β : Type} {print : α → C Bytes} {g : β → α} {f : β → Bytes} {bs : List β}
    (h : ∀ b, print (g b) = .ok (f b)) :
    printAll print ((bs.map g).map some ++ [none]) = .ok (bs.flatMap f) := by
  induction bs with
  | nil => rfl
  | cons b bs ih =>
    rw [List.map_cons, List.map_cons, List.cons_append, printAll, h, C.ok_bind, ih, C.ok_bind]
    rfl

theorem printKeys_keys (keys : List CString) :
    printKeys (some (keys.map some ++ [none])) =
      .ok (keys.flatMap fun key => key.bytes ++ chars "\n") := by
  have hall := @printAll_map CString CString printKey id (fun key => key.bytes ++ chars "\n")
    keys fun _ => rfl
  rwa [List.map_id] at hall

theorem printTable_entries (entries : List (Σ _ : CString, Bytes)) :
    printTable (some ((entries.map Entry.ofPair).map some ++ [none])) =
      .ok (entries.flatMap fun e => e.1.bytes ++ chars ": " ++ Spec.visible e.2 ++ chars "\n") := by
  refine printAll_map fun e => ?_
  have hvisible := formatString_visible e.2
  simp only [printEntry, Entry.ofPair, deref_some, C.ok_bind, Data.ofBytes, hvisible, C.pure_eq]

/-- A store lists each of its keys once. -/
theorem Store.mem_keys (st : Store) (key : CString) : key ∈ st.keys ↔ key ∈ st.map := by
  rw [Store.keys, ← List.dlookup_isSome, ← st.lookup_entries, Finmap.lookup_isSome]

theorem Store.mem_entries (st : Store) (key : CString) (b : Bytes) :
    ⟨key, b⟩ ∈ st.entries ↔ st.map.lookup key = some b := by
  rw [st.lookup_entries]
  exact (List.mem_dlookup_iff st.nodupKeys_entries).symm

/-- Nothing is removed with a key that is not there. -/
theorem erase_of_notMem {m : Spec.Map} {key : CString} (h : key ∉ m) : m.erase key = m := by
  refine Finmap.ext_lookup fun key' => ?_
  by_cases heq : key' = key
  · rw [heq, Finmap.lookup_erase, Finmap.lookup_eq_none.2 h]
  · exact Finmap.lookup_erase_ne heq

/-! ## A stub and its output -/

section Connection

variable {τ : Type} {link : Link τ} {rtable : Rtable} (hlive : rtable.released = false)
  {msg res : MessageT} {t t' : τ} (connected : Bool)

include hlive

theorem networkSendReceive_connection (h : link.exchange msg t = (some res, t')) :
    (networkSendReceive (some rtable) msg).run (connection link.handler) (t, connected) =
      .ok (some res, (t', connected)) := by
  obtain ⟨⟨herror, hgone⟩, hreceived⟩ := Link.exchange_eq_some.1 h
  have hrtable : rtable.live = .ok rtable := Rtable.live_ok hlive
  rw [networkSendReceive, deref_some, memory_ok, Prog.ret_bind, hrtable, memory_ok,
    Prog.ret_bind, call_bind,
    Prog.run_call]
  simp only [connection, Link.handler, C.ok_bind, C.pure_eq]
  rw [if_neg herror, if_neg hgone, call_bind, Prog.run_call]
  simp only [connection, Link.handler, C.ok_bind, C.pure_eq, hreceived]
  rfl

/-- A stub that prints what it decodes from the response. -/
theorem print_connection {α : Type} (h : link.exchange msg t = (some res, t'))
    {decode : Option MessageT → C α} {print : α → C Bytes} {a : α} {text : Bytes}
    (hdecode : decode (some res) = .ok a) (hprint : print a = .ok text) :
    (networkSendReceive (some rtable) msg >>= fun res => memory (decode res) >>= fun a =>
        memory (print a)).run (connection link.handler) (t, connected) =
      .ok (text, (t', connected)) := by
  rw [Prog.run_bind_ok (networkSendReceive_connection hlive connected h), hdecode, memory_ok,
    Prog.ret_bind, hprint]
  rfl

theorem print_put {key : CString} {b : Bytes} (hb : b ≠ [])
    (h : link.exchange (putRequest key (.ofBytes b)) t = (some res, t')) :
    ((StubOp.put (.ofPair ⟨key, b⟩)).print (some rtable)).run (connection link.handler)
      (t, connected) =
      .ok (printPut key (putResult (some res)), (t', connected)) := by
  have hvalue := Data.toBinary_of_bytes (Data.bytes_ofBytes hb)
  simp only [StubOp.print, rtablePut, Entry.ofPair, deref_some, memory_ok, Prog.ret_bind, hvalue]
  rw [if_neg (by simp), Prog.bind_assoc, Prog.run_bind_ok (networkSendReceive_connection hlive connected h)]
  rfl

theorem print_get {key : CString} (h : link.exchange (getRequest key) t = (some res, t'))
    {data : Option Data} {text : Bytes} (hget : getResult (some res) = .ok data)
    (htext : printGet data = .ok text) :
    ((StubOp.get key).print (some rtable)).run (connection link.handler) (t, connected) =
      .ok (text, (t', connected)) := by
  simp only [StubOp.print, rtableGet]
  rw [if_neg (by simp), Prog.bind_assoc]
  exact print_connection hlive connected h hget htext

theorem print_del {key : CString} (h : link.exchange (delRequest key) t = (some res, t')) :
    ((StubOp.del key).print (some rtable)).run (connection link.handler) (t, connected) =
      .ok (printDel (delResult (some res)), (t', connected)) := by
  simp only [StubOp.print, rtableDel]
  rw [Prog.bind_assoc, Prog.run_bind_ok (networkSendReceive_connection hlive connected h)]
  rfl

theorem print_size (h : link.exchange sizeRequest t = (some res, t')) :
    (StubOp.size.print (some rtable)).run (connection link.handler) (t, connected) =
      .ok (printSize (sizeResult (some res)), (t', connected)) := by
  simp only [StubOp.print, rtableSize]
  rw [if_neg (by simp), Prog.bind_assoc, Prog.run_bind_ok (networkSendReceive_connection hlive connected h)]
  rfl

theorem print_getKeys (h : link.exchange getKeysRequest t = (some res, t'))
    {keys : Option (List (Option CString))} {text : Bytes}
      (hkeys : getKeysResult (some res) = .ok keys)
    (htext : printKeys keys = .ok text) :
    (StubOp.getKeys.print (some rtable)).run (connection link.handler) (t, connected) =
      .ok (text, (t', connected)) := by
  simp only [StubOp.print, rtableGetKeys]
  rw [if_neg (by simp), Prog.bind_assoc]
  exact print_connection hlive connected h hkeys htext

theorem print_getTable (h : link.exchange getTableRequest t = (some res, t'))
    {entries : Option (List (Option Entry))} {text : Bytes}
    (hentries : getTableResult (some res) = .ok entries) (htext : printTable entries = .ok text) :
    (StubOp.getTable.print (some rtable)).run (connection link.handler) (t, connected) =
      .ok (text, (t', connected)) := by
  simp only [StubOp.print, rtableGetTable]
  rw [if_neg (by simp), Prog.bind_assoc]
  exact print_connection hlive connected h hentries htext

theorem print_stats (h : link.exchange statsRequest t = (some res, t')) {stats : Option StatisticsT}
    (hstats : statsResult (some res) = .ok stats) :
    (StubOp.stats.print (some rtable)).run (connection link.handler) (t, connected) =
      .ok (printStats stats, (t', connected)) := by
  simp only [StubOp.print, rtableStats]
  rw [if_neg (by simp), Prog.bind_assoc, Prog.run_bind_ok (networkSendReceive_connection hlive connected h), hstats]
  rfl

end Connection

/-! ## Rounds on a chain -/

/-- The two connections of a client to a chain of `n + 1` servers. -/
def chainLink (size : MessageT → ℕ) (clock : ℕ → ℕ → Timeval) (n : ℕ) : Role → Link (List Hop)
  | .head => .toChain size clock (n + 1)
  | .tail => .toTail size clock n

section Answers

variable {size : MessageT → ℕ} {clock : ℕ → ℕ → Timeval} {n : ℕ} {m : Spec.Map} {stats : Statistics}
    {hops : List Hop}
  (h : ChainHolds (n + 1) m stats hops) {rtable : Rtable} (hlive : rtable.released = false)
  (connected : Bool)

include h hlive

/-- What a stub prints is the answer of the map to the line that asked for it. -/
def Answered (size : MessageT → ℕ) (clock : ℕ → ℕ → Timeval) (n : ℕ) (m : Spec.Map)
    (stats : Statistics) (hops : List Hop)
    (rtable : Rtable) (connected : Bool) (op : StubOp) (line : UserLine) : Prop :=
  ∃ (text : Bytes) (m' : Spec.Map) (stats' : Statistics) (hops' : List Hop),
    (op.print (some rtable)).run (connection (chainLink size clock n op.role).handler)
      (hops, connected) =
        .ok (text, (hops', connected)) ∧
      ChainHolds (n + 1) m' stats' hops' ∧ stats'.nClientes = stats.nClientes ∧
      Spec.Answers stats.nClientes m stats.nOperacoes line text m' stats'.nOperacoes

theorem ChainHolds.answers_keyed (line : TypedLine) :
    Answered size clock n m stats hops rtable connected line.op (.keyed line) := by
  cases line with
  | put letter key value =>
    obtain ⟨res, hops', time, hexchange, hholds, hput⟩ :=
      h.put size clock key.toCString value.nonempty
    have hprint := print_put hlive connected value.nonempty hexchange
    rw [hput] at hprint
    exact ⟨_, _, _, hops', hprint, hholds, rfl, .put letter key value⟩
  | get letter key =>
    obtain ⟨res, hops', time, hexchange, hholds, st, rfl, hget⟩ :=
      h.countedQuery size clock fun hready htable hstats =>
        exchange_get hready htable hstats key.toCString
    cases hlookup : st.map.lookup key.toCString with
    | none =>
      rw [hlookup] at hget
      exact ⟨_, _, _, hops', print_get hlive connected hexchange hget rfl, hholds, rfl,
        .notFound letter hlookup⟩
    | some b =>
      rw [hlookup] at hget
      have htext : printGet (some (.ofBytes b)) = .ok (Spec.visible b ++ chars "\n") := by
        have hvisible := formatString_visible b
        simp only [printGet, Data.ofBytes, hvisible, C.ok_bind, C.pure_eq]
      exact ⟨_, _, _, hops', print_get hlive connected hexchange hget htext, hholds, rfl,
        .found letter hlookup⟩
  | del letter key =>
    obtain ⟨res, hops', time, hexchange, hholds, hdel⟩ := h.del size clock key.toCString
    have hprint := print_del hlive connected hexchange
    rw [hdel] at hprint
    by_cases hbound : key.toCString ∈ m
    · rw [if_pos hbound] at hprint
      exact ⟨_, _, _, hops', hprint, hholds, rfl, .removed letter hbound⟩
    · rw [if_neg hbound] at hprint
      rw [erase_of_notMem hbound] at hholds
      exact ⟨_, _, _, hops', hprint, hholds, rfl, .notRemoved letter hbound⟩

theorem ChainHolds.answers_query (query : Query) (short : Bool) :
    Answered size clock n m stats hops rtable connected query.op (.query query short) := by
  cases query with
  | size =>
    obtain ⟨res, hops', time, hexchange, hholds, st, rfl, hsize⟩ :=
      h.countedQuery size clock fun hready htable hstats => exchange_size hready htable hstats
    have hprint := print_size hlive connected hexchange
    have hpos : ¬ (st.map.keys.card : Int) < 0 := by omega
    rw [hsize, printSize, if_neg hpos] at hprint
    exact ⟨_, _, _, hops', hprint, hholds, rfl, .size short⟩
  | getKeys =>
    obtain ⟨res, hops', time, hexchange, hholds, st, rfl, hkeys⟩ :=
      h.countedQuery size clock fun hready htable hstats => exchange_getKeys hready htable hstats
    exact ⟨_, _, _, hops',
      print_getKeys hlive connected hexchange hkeys (printKeys_keys st.keys), hholds, rfl,
      .keys short st.nodupKeys_entries st.mem_keys⟩
  | getTable =>
    obtain ⟨res, hops', time, hexchange, hholds, st, rfl, hentries⟩ :=
      h.countedQuery size clock fun hready htable hstats => exchange_getTable hready htable hstats
    exact ⟨_, _, _, hops',
      print_getTable hlive connected hexchange hentries (printTable_entries st.entries),
      hholds, rfl, .table short st.nodupKeys_entries st.mem_entries⟩
  | stats =>
    obtain ⟨res, hops', hexchange, hholds, hstats⟩ := h.getStats size clock
    exact ⟨_, _, _, hops', print_stats hlive connected hexchange hstats, hholds, rfl,
      .stats short stats.totalTime⟩

end Answers

/-! ## Rounds of the loop -/

section Round

variable {τ : Type} {net : Role → Prog.Handler Calls (τ × Bool) Fault}
    {rtable : Role → Option Rtable}
  {s : Session τ} {operation : Operation} {c' : Console}

theorem Session.round_stub {op : StubOp} {text : Bytes} {t' : τ}
    (hparsed : parsedCommand s.console = .ok (operation, .stub op, c'))
    (hrun : (op.print (rtable op.role)).run (net op.role) (s.net, s.connected op.role) =
      .ok (text, (t', s.connected op.role))) :
    s.round net rtable =
      .ok { s with console := c', stdout := s.stdout ++ prompt ++ text, net := t' } := by
  simp only [Session.round, Session.printf, hparsed, C.ok_bind, hrun, Function.update_eq_self]
  rfl

theorem Session.round_complaint
    (hparsed : parsedCommand s.console = .ok (operation, .invalidArguments, c')) :
    s.round net rtable =
      .ok { s with console := c', stdout := s.stdout ++ prompt ++ usage operation } := by
  simp only [Session.round, Session.printf, hparsed, C.ok_bind]
  rfl

theorem Session.round_invalid
    (hparsed : parsedCommand s.console = .ok (operation, .invalidCommand, c')) :
    s.round net rtable =
      .ok { s with console := c', stdout := s.stdout ++ prompt ++ invalidCommand } := by
  simp only [Session.round, Session.printf, hparsed, C.ok_bind]
  rfl

theorem Session.round_quit (hparsed : parsedCommand s.console = .ok (operation, .quit, c')) :
    s.round net rtable =
      .ok { s with console := c', stdout := s.stdout ++ prompt ++ bye, terminated := true } := by
  simp only [Session.round, Session.printf, hparsed, C.ok_bind]
  rfl

/-- The loop goes once around. -/
theorem Session.loop_succ {s' : Session τ} (hgoes : s.goesOn = true)
    (hround : s.round net rtable = .ok s')
    (fuel : ℕ) : loop net rtable (fuel + 1) s = loop net rtable fuel s' := by
  rw [loop, if_pos hgoes, hround, C.ok_bind]

theorem Session.loop_of_ended (hended : s.goesOn = false) (fuel : ℕ) :
    loop net rtable fuel s = .ok s := by
  cases fuel with
  | zero => rfl
  | succ fuel => rw [loop, if_neg (by simp [hended])]; rfl

theorem parsedCommand_length {c c' : Console} {result : Command}
    (h : parsedCommand c = .ok (operation, result, c')) : c'.line.buf.length = c.line.buf.length :=
  command_length (command_of_parsedCommand h)

end Round

/-- A session of a client that is connected to a chain of `n + 1` servers. -/
structure Session.Holds (n : ℕ) (m : Spec.Map) (stats : Statistics)
    (s : Session (List Hop)) : Prop where
  line : s.console.line.buf.length = maxMsg
  connected : ∀ role, s.connected role = true
  connectedToZk : s.connectedToZk = true
  net : ChainHolds (n + 1) m stats s.net

/-- The loop over the connections to a chain. -/
abbrev Session.rounds (size : MessageT → ℕ) (clock : ℕ → ℕ → Timeval) (n : ℕ)
    (rtable : Role → Rtable) (fuel : ℕ)
    (s : Session (List Hop)) : C (Session (List Hop)) :=
  s.loop (fun role => connection (chainLink size clock n role).handler)
    (fun role => some (rtable role)) fuel

/-- What a round leaves behind that has answered a line. -/
def Session.Rounded (size : MessageT → ℕ) (clock : ℕ → ℕ → Timeval) (n : ℕ) (m : Spec.Map)
    (stats : Statistics)
    (s : Session (List Hop)) (rtable : Role → Rtable) (line : UserLine) (c' : Console) : Prop :=
  ∃ (text : Bytes) (m' : Spec.Map) (stats' : Statistics) (s' : Session (List Hop)),
    s.round (fun role => connection (chainLink size clock n role).handler)
      (fun role => some (rtable role)) = .ok s' ∧
      s'.Holds n m' stats' ∧ s'.console = c' ∧ s'.terminated = s.terminated ∧
      s'.stdout = s.stdout ++ prompt ++ text ∧ stats'.nClientes = stats.nClientes ∧
      Spec.Answers stats.nClientes m stats.nOperacoes line text m' stats'.nOperacoes

section Rounds

variable (size : MessageT → ℕ) (clock : ℕ → ℕ → Timeval) {n : ℕ} {m : Spec.Map} {stats : Statistics}
    {s : Session (List Hop)}
  (h : s.Holds n m stats) {rtable : Role → Rtable} (hlive : ∀ role, (rtable role).released = false)

include h

theorem Session.Holds.goesOn (hterminated : s.terminated = false) : s.goesOn = true := by
  simp [Session.goesOn, hterminated, h.connected, h.connectedToZk]

theorem Session.Holds.parsed {c' : Console} {operation : Operation} {result : Command}
    (hparsed : parsedCommand s.console = .ok (operation, result, c')) (stdout : Bytes) :
    ({ s with console := c', stdout := stdout } : Session _).Holds n m stats :=
  ⟨(parsedCommand_length hparsed).trans h.line, h.connected, h.connectedToZk, h.net⟩

include hlive

/-- A round that has parsed its line prints the answer. -/
theorem Session.Holds.rounded {c' : Console} {operation : Operation} {line : UserLine}
    (hparsed : parsedCommand s.console = .ok (operation, line.command, c'))
      (hquit : line.command ≠ .quit)
    (hcomplaint : ∀ complaint ∈ line.complaint, operation = complaint) :
    s.Rounded size clock n m stats rtable line c' := by
  have hstub : ∀ {op : StubOp}, line.command = .stub op →
      Answered size clock n m stats s.net (rtable op.role) true op line →
        s.Rounded size clock n m stats rtable line c' := by
    intro op hop ⟨text, m', stats', hops', hrun, hholds, hclients, hanswer⟩
    rw [hop] at hparsed
    rw [← h.connected op.role] at hrun
    have hround : s.round (fun role => connection (chainLink size clock n role).handler)
      (fun role => some (rtable role)) =
        .ok _ := Session.round_stub hparsed hrun
    have hholds' := h.parsed hparsed (s.stdout ++ prompt ++ text)
    exact ⟨text, m', stats', _, hround, ⟨hholds'.line, h.connected, h.connectedToZk, hholds⟩,
      rfl, rfl, rfl,
      hclients, hanswer⟩
  cases line with
  | keyed line => exact hstub rfl (h.net.answers_keyed (hlive _) true line)
  | query query short => exact hstub rfl (h.net.answers_query (hlive _) true query short)
  | quit letter => exact absurd rfl hquit
  | incomplete operation' letter =>
    obtain rfl : operation = operation'.operation := hcomplaint _ rfl
    exact ⟨_, m, stats, _, Session.round_complaint hparsed, h.parsed hparsed _, rfl, rfl, rfl, rfl,
      .complaint rfl⟩
  | valueless letter key =>
    obtain rfl : operation = .put := hcomplaint _ rfl
    exact ⟨_, m, stats, _, Session.round_complaint hparsed, h.parsed hparsed _, rfl, rfl, rfl, rfl,
      .complaint rfl⟩
  | unknown word unnamed =>
    exact ⟨_, m, stats, _, Session.round_invalid hparsed, h.parsed hparsed _, rfl, rfl, rfl, rfl,
      .unknown unnamed⟩

end Rounds

/-! ## Whole sessions -/

/-- With nothing left to read, the rounds to come find what they have found before. -/
def Session.Repeating (s : Session (List Hop)) : Prop :=
  s.console.stdin = [] →
    ∃ operation result, Repeats s.console.line.buf operation result ∧ result.Harmless

section Sessions

variable (size : MessageT → ℕ) (clock : ℕ → ℕ → Timeval) {n : ℕ} {m : Spec.Map} {stats : Statistics}
    {s : Session (List Hop)}
  {rtable : Role → Rtable}

/-- One round for each line that is typed. -/
theorem Session.Holds.lines (h : s.Holds n m stats) (hterminated : s.terminated = false)
    (hlive : ∀ role, (rtable role).released = false) {lines : List UserLine}
    (hfits : ∀ line ∈ lines, line.bytes.length ≤ 98) (hquit : ∀ line ∈ lines, line.command ≠ .quit)
    {rest : Bytes} (hstdin : s.console.stdin = lines.flatMap UserLine.bytes ++ rest)
      (hrepeating : s.Repeating) :
    ∃ (texts : Bytes) (m' : Spec.Map) (stats' : Statistics) (s' : Session (List Hop)),
      (∀ fuel, s.rounds size clock n rtable (lines.length + fuel) =
        s'.rounds size clock n rtable fuel) ∧
      Spec.Transcript stats.nClientes m stats.nOperacoes lines texts m' stats'.nOperacoes ∧
      s'.stdout = s.stdout ++ texts ∧ s'.terminated = false ∧ s'.console.stdin = rest ∧
      s'.Holds n m' stats' ∧ s'.Repeating := by
  induction lines generalizing s m stats with
  | nil =>
    exact ⟨[], m, stats, s, fun fuel => by simp, .nil, (List.append_nil _).symm, hterminated,
      hstdin, h, hrepeating⟩
  | cons line lines ih =>
    obtain ⟨hline, hlines⟩ := List.forall_mem_cons.1 hfits
    obtain ⟨hquit₁, hquits⟩ := List.forall_mem_cons.1 hquit
    rw [List.flatMap_cons, List.append_assoc] at hstdin
    obtain ⟨operation, t₁, hparsed, hcomplaint⟩ :=
      parsedCommand_line (lines.flatMap UserLine.bytes ++ rest) h.line line hline
    rw [← hstdin] at hparsed
    obtain ⟨text, m₁, stats₁, s₁, hround, hholds₁, hconsole, hterminated₁, hstdout₁,
      hclients, hanswer⟩ :=
      h.rounded size clock hlive hparsed hquit₁ hcomplaint
    have hread : s.console.stdin ≠ [] := by simp [hstdin, UserLine.bytes]
    have hrepeating₁ : s₁.Repeating := fun _ => hconsole ▸ repeats_of_read hread hparsed hquit₁
    obtain ⟨texts, m', stats', s', hloop, htranscript, hstdout, hended, hrest, hholds,
      hrepeating'⟩ :=
      ih hholds₁ (hterminated₁.trans hterminated) hlines hquits
        (congrArg Console.stdin hconsole) hrepeating₁
    rw [hclients] at htranscript
    refine ⟨prompt ++ text ++ texts, m', stats', s', fun fuel => ?_, .cons hanswer htranscript, ?_,
      hended, hrest, hholds, hrepeating'⟩
    · rw [← hloop, List.length_cons, Nat.add_right_comm]
      exact Session.loop_succ (h.goesOn hterminated) hround _
    · rw [hstdout, hstdout₁]
      simp only [List.append_assoc]

/-- The rounds up to `quit` show the user the map that the servers hold, line by line, and leave
    them with the map that the lines make of it. -/
theorem Session.Holds.rounds_transcript (h : s.Holds n m stats) (hterminated : s.terminated = false)
    (hlive : ∀ role, (rtable role).released = false) {lines : List UserLine}
    (hfits : ∀ line ∈ lines, line.bytes.length ≤ 98) (hquit : ∀ line ∈ lines, line.command ≠ .quit)
    {letter : Bool} {rest : Bytes}
    (hstdin : s.console.stdin = lines.flatMap UserLine.bytes ++
      ((UserLine.quit letter).bytes ++ rest)) :
    ∃ (texts : Bytes) (m' : Spec.Map) (stats' : Statistics) (s' : Session (List Hop)),
      (∀ fuel, lines.length < fuel → s.rounds size clock n rtable fuel = .ok s') ∧
      Spec.Transcript stats.nClientes m stats.nOperacoes lines texts m' stats'.nOperacoes ∧
      s'.stdout = s.stdout ++ texts ++ prompt ++ bye ∧ s'.terminated = true ∧
        s'.console.stdin = rest ∧
      s'.Holds n m' stats' := by
  have hread : s.Repeating := fun hnothing => by simp [hstdin, UserLine.bytes] at hnothing
  obtain ⟨texts, m', stats', s₁, hloop, htranscript, hstdout, hterminated₁, hstdin₁, hholds, -⟩ :=
    h.lines size clock hterminated hlive hfits hquit hstdin hread
  have hshort : (UserLine.quit letter).bytes.length ≤ 98 := by cases letter <;> decide
  obtain ⟨operation, t', hparsed, -⟩ := parsedCommand_line rest hholds.line (.quit letter) hshort
  rw [← hstdin₁] at hparsed
  have hended := hholds.parsed hparsed (s₁.stdout ++ prompt ++ bye)
  refine ⟨texts, m', stats',
    { s₁ with console := ⟨rest, t'⟩, stdout := s₁.stdout ++ prompt ++ bye, terminated := true },
    fun fuel hfuel => ?_, htranscript, by rw [hstdout], rfl, rfl,
    ⟨hended.line, hended.connected, hended.connectedToZk, hended.net⟩⟩
  obtain ⟨more, rfl⟩ := Nat.exists_eq_add_of_lt hfuel
  rw [Nat.add_assoc, hloop]
  exact (Session.loop_succ (hholds.goesOn hterminated₁) (Session.round_quit hparsed) _).trans
    (Session.loop_of_ended rfl _)

/-- A client of two servers that have just been started. -/
def newSession (stdin : Bytes) : Session (List Hop) where
  console := ⟨stdin, ⟨List.replicate maxMsg 0, none⟩⟩
  stdout := []
  terminated := false
  connected _ := true
  connectedToZk := true
  net := startedChain Store.one_pos ⟨[47], CString.zero_notMem_slash⟩ ⟨.empty, false⟩ 1

theorem newSession_holds (stdin : Bytes) : (newSession stdin).Holds 1 ∅ ⟨0, 0, 0⟩ where
  line := List.length_replicate
  connected _ := rfl
  connectedToZk := rfl
  net := .started Store.one_pos (by decide) rfl 1

/-- A query leaves the map as it is. -/
theorem Spec.Answers.map_query {clients operations operations' : Int} {m m' : Map} {query : Query}
    {short : Bool}
    {text : Bytes} (h : Answers clients m operations
      (.query query short) text m' operations') : m' = m := by
  cases h with
  | complaint incomplete => cases incomplete
  | _ => rfl

/-- A round at the end of the input. -/
theorem Session.Holds.again (h : s.Holds n m stats) (hlive : ∀ role, (rtable role).released = false)
    (hstdin : s.console.stdin = []) (hrepeating : s.Repeating) :
    ∃ (stats' : Statistics) (s' : Session (List Hop)),
      s.round (fun role => connection (chainLink size clock n role).handler)
        (fun role => some (rtable role)) = .ok s' ∧
        s'.Holds n m stats' ∧ s'.terminated = s.terminated ∧ s'.console.stdin = [] ∧
          s'.Repeating := by
  obtain ⟨operation, result, hrepeats, hharmless⟩ := hrepeating hstdin
  obtain ⟨saved', hparsed⟩ := hrepeats s.console.line.saved
  have hparsed : parsedCommand s.console =
    .ok (operation, result, ⟨[], ⟨s.console.line.buf, saved'⟩⟩) := by
    rw [← hparsed, ← hstdin]
  have hrepeating' : ∃ operation result, Repeats s.console.line.buf operation result ∧
    result.Harmless :=
    ⟨operation, result, hrepeats, hharmless⟩
  rcases hharmless with ⟨query, rfl⟩ | rfl | rfl
  · obtain ⟨text, m', stats', hops', hrun, hholds, -, hanswer⟩ :
        Answered size clock n m stats s.net (rtable query.op.role) true query.op
          (.query query false) :=
      h.net.answers_query (hlive _) true query false
    rw [hanswer.map_query] at hholds
    rw [← h.connected query.op.role] at hrun
    have hholds' := h.parsed hparsed (s.stdout ++ prompt ++ text)
    exact ⟨stats', _, Session.round_stub hparsed hrun,
      ⟨hholds'.line, h.connected, h.connectedToZk, hholds⟩, rfl,
      rfl, fun _ => hrepeating'⟩
  · exact ⟨stats, _, Session.round_complaint hparsed, h.parsed hparsed _, rfl,
      rfl, fun _ => hrepeating'⟩
  · exact ⟨stats, _, Session.round_invalid hparsed, h.parsed hparsed _, rfl,
      rfl, fun _ => hrepeating'⟩

/-- When the input ends without `quit` there is always another round, and those behind the last
    line update nothing. -/
theorem Session.Holds.rounds_endless (h : s.Holds n m stats) (hterminated : s.terminated = false)
    (hlive : ∀ role, (rtable role).released = false) {lines : List UserLine} (hne : lines ≠ [])
    (hfits : ∀ line ∈ lines, line.bytes.length ≤ 98) (hquit : ∀ line ∈ lines, line.command ≠ .quit)
    (hstdin : s.console.stdin = lines.flatMap UserLine.bytes) :
    ∃ (texts : Bytes) (m' : Spec.Map) (operations' : Int),
      Spec.Transcript stats.nClientes m stats.nOperacoes lines texts m' operations' ∧
      ∀ more, ∃ (stats' : Statistics) (s' : Session (List Hop)),
        s.rounds size clock n rtable (lines.length + more) = .ok s' ∧ s'.Holds n m' stats' ∧
          s'.goesOn = true := by
  have hread : s.Repeating := by
    obtain ⟨line, lines, rfl⟩ := List.exists_cons_of_ne_nil hne
    exact fun hnothing => by simp [hstdin, UserLine.bytes] at hnothing
  rw [← List.append_nil (lines.flatMap _)] at hstdin
  obtain ⟨texts, m', stats₁, s₁, hloop, htranscript, -, hterminated₁, hstdin₁, hholds₁,
    hrepeating₁⟩ :=
    h.lines size clock hterminated hlive hfits hquit hstdin hread
  refine ⟨texts, m', _, htranscript, fun more => ?_⟩
  rw [hloop]
  clear hloop htranscript
  induction more generalizing s₁ stats₁ with
  | zero => exact ⟨stats₁, s₁, rfl, hholds₁, hholds₁.goesOn hterminated₁⟩
  | succ more ih =>
    obtain ⟨stats₂, s₂, hround, hholds₂, hterminated₂, hstdin₂, hrepeating₂⟩ :=
      hholds₁.again size clock hlive hstdin₁ hrepeating₁
    have hgoes := hholds₁.goesOn hterminated₁
    rw [show s₁.rounds size clock n rtable (more + 1) = s₂.rounds size clock n rtable more from
      Session.loop_succ hgoes hround more]
    exact ih stats₂ s₂ (hterminated₂.trans hterminated₁) hstdin₂ hholds₂ hrepeating₂

end Sessions

end ChainTable
