-- SUMMARY: invoke of table_skel.c, which executes a request on the table and turns it into its response.
import ChainTable.Server.Stub

open Base

/-!
# The skeleton

`invoke` dispatches on the opcode of a request. Each operation has its prologue,
which only looks at the request, a section in which the table is locked and the
operation is counted and timed, and an epilogue, which turns the request into the
response. Two of the epilogues go back to the table after the lock is released.
-/

namespace ChainTable

open Calls

/-! ## stats.c and the clock -/

/-- An integer kept in 32 bits. -/
def int32 (x : Int) : Int := x.bmod (2 ^ 32)

/-- The 64-bit count of microseconds that `return_time` returns as an `int`. -/
def microseconds (tv : Timeval) : Int := int32 (tv.tvUsec + tv.tvSec * 1000000)

def returnTime : Prog Calls Int := do
  let tv ← call .gettimeofday
  return microseconds tv

def changeClientNum (value : Int) : Prog Calls Unit := do
  call (.enterWrite .stats)
  let current ← call (.loadStat .nClientes)
  call (.storeStat .nClientes (current + value))
  call (.exitWrite .stats)

def increaseOperations : Prog Calls Unit := do
  call (.enterWrite .stats)
  let current ← call (.loadStat .nOperacoes)
  call (.storeStat .nOperacoes (current + 1))
  call (.exitWrite .stats)

def increaseTime (time : Int) : Prog Calls Unit := do
  call (.enterWrite .stats)
  let current ← call (.loadStat .totalTime)
  call (.storeStat .totalTime (int32 (current + time)))
  call (.exitWrite .stats)

/-! ## Responses -/

def respondBadOp (msg : MessageT) : MessageT := { msg with opcode := opBad, cType := ctBad }

def respondErrInExec (msg : MessageT) : MessageT := { msg with opcode := opError, cType := ctNone }

/-! ## Sections -/

/-- The part of an operation between its two lock calls: it is counted, and what it
    does to the table is timed. -/
def counted {α : Type} (body : Prog Calls α) : Prog Calls α := do
  increaseOperations
  let timestart ← returnTime
  let result ← body
  let timeend ← returnTime
  increaseTime (int32 (timeend - timestart))
  return result

def locked {α : Type} (enter leave : Prog Calls Unit) (body : Prog Calls α) : Prog Calls α := do
  enter
  let result ← counted body
  leave
  return result

def readSection {α : Type} (body : Prog Calls α) : Prog Calls α :=
  locked (call (.enterRead .table)) (call (.exitRead .table)) body

def writeSection {α : Type} (body : Prog Calls α) : Prog Calls α :=
  locked (call (.enterWrite .table)) (call (.exitWrite .table)) body

/-! ## Operations

Each returns the response and the result of `invoke`. -/

/-- The forward of an update, when there is a next server. What the stub returns is
    not looked at. -/
def forwardUpdate (stub : Option Rtable → Prog Calls Int) : Prog Calls Unit := do
  let path ← call .nextServerNodePath
  if CString.strcmp path .empty ≠ 0 then do
    let rtable ← call .nextServerRtable
    let _ ← stub rtable
    return ()
  else return ()

def putAndForward (key : CString) (value : Data) (entry : Entry) : Prog Calls Int := do
  let res ← call (.tablePut key value)
  forwardUpdate fun rtable => rtablePut rtable entry
  return res

def invokePut (msg : MessageT) : Prog Calls (MessageT × Int) := do
  let entry ← memory (deref msg.entry)
  let v ← memory entry.value.copyOut
  let dupKey ← memory (deref entry.key)
  let dupValue := dataCreate v.length (some v) (Data.length_le_some v)
  let dupEntry := entryCreate (some dupKey) dupValue
  match dupValue, dupEntry with
  | some dupValue, some dupEntry => do
    let res ← writeSection (putAndForward dupKey dupValue dupEntry)
    if res = 0 then return ({ msg with cType := ctNone }, res)
    else return (respondErrInExec msg, res)
  -- entry_size is 0, or one of the two was not created
  | _, _ => return (respondBadOp msg, -1)

/-- The program for a request that carries a usable entry. -/
theorem invokePut_eq {msg : MessageT} {key : CString} {value : BinaryData} {b : Bytes}
    (hentry : msg.entry = some ⟨some key, value⟩) (hvalue : value.copyOut = .ok b) (hb : b ≠ []) :
    invokePut msg = do
      let res ← writeSection (putAndForward key (.ofBytes b) ⟨some key, some (.ofBytes b)⟩)
      if res = 0 then return ({ msg with cType := ctNone }, res)
      else return (respondErrInExec msg, res) := by
  have hpos : 0 < b.length := List.length_pos_iff.2 hb
  have hcreate : dataCreate b.length (some b) (by simp) = some (.ofBytes b) := by
    rw [dataCreate, if_neg (by simp; omega)]
    rfl
  have hderef : deref msg.entry = .ok ⟨some key, value⟩ := by rw [hentry, deref_some]
  rw [invokePut, hderef]
  simp only [memory_ok, Prog.ret_bind, hvalue, deref_some, hcreate]
  rfl

/-- A request whose entry has no bytes is refused. -/
theorem invokePut_empty {msg : MessageT} {key : CString} {value : BinaryData}
    (hentry : msg.entry = some ⟨some key, value⟩) (hvalue : value.copyOut = .ok []) :
    invokePut msg = .ret (respondBadOp msg, -1) := by
  have hderef : deref msg.entry = .ok ⟨some key, value⟩ := by rw [hentry, deref_some]
  rw [invokePut, hderef]
  simp only [memory_ok, Prog.ret_bind, hvalue, deref_some]
  rfl

def invokeGet (msg : MessageT) : Prog Calls (MessageT × Int) :=
  match msg.key with
  | none => return (respondBadOp msg, -1)
  | some key => do
    let gottenValue ← readSection (call (.tableGet key))
    match gottenValue with
    | some gottenValue => do
      let value ← memory gottenValue.toBinary
      return ({ msg with value := value, cType := ctValue }, 0)
    | none => return ({ msg with value := msg.value.dropData }, 0)

def removeAndForward (key : CString) : Prog Calls Int := do
  let res ← call (.tableRemove key)
  forwardUpdate fun rtable => rtableDel rtable key
  return res

def invokeDel (msg : MessageT) : Prog Calls (MessageT × Int) :=
  match msg.key with
  | none => return (respondBadOp msg, -1)
  | some key => do
    let res ← writeSection (removeAndForward key)
    if res = 0 then return ({ msg with cType := ctNone }, res)
    else if res = 1 then return ({ msg with cType := ctBad }, res)
    else return (respondErrInExec msg, res)

def invokeSize (msg : MessageT) : Prog Calls (MessageT × Int) := do
  let res ← readSection (call .tableSize)
  if res ≥ 0 then return ({ msg with result := res, cType := ctResult }, res)
  else return (respondErrInExec msg, res)

/-- The epilogue of OP_GETKEYS: the number of keys is asked for again, outside the
    section that collected them. -/
def getkeysReply (msg : MessageT) (keys : List (Option CString)) :
    Prog Calls (MessageT × Int) := do
  let size ← call .tableSize
  return ({ msg with nKeys := size.toNat, keys := keys, cType := ctKeys }, 0)

def invokeGetkeys (msg : MessageT) : Prog Calls (MessageT × Int) := do
  let keys ← readSection (call .tableGetKeys)
  getkeysReply msg keys

/-- One iteration of the loop of OP_GETTABLE. -/
def packEntry (old : Option Entry) : C EntryT := do
  let old ← deref old
  let key ← deref old.key
  let value ← deref old.value
  let value ← value.toBinary
  return ⟨some key, value⟩

@[simp] theorem packEntry_ofPair (e : Σ _ : CString, Bytes) :
    packEntry (some (.ofPair e)) = .ok (.ofPair e) := by
  simp [packEntry, EntryT.ofPair]

/-- All entries of a table are packed. -/
theorem copyLoop_packEntry (b : Bucket CString Bytes) :
    copyLoop packEntry ((b.map Entry.ofPair).map some ++ [none]) b.length 0
        (calloc EntryT (b.length + 1)) =
      .ok ((b.map EntryT.ofPair).map some ++ [none]) := by
  have hpack : List.Forall₂ (fun old entry => packEntry old = .ok entry)
      ((b.map Entry.ofPair).map some) (b.map EntryT.ofPair) := by
    simp [List.forall₂_map_left_iff, List.forall₂_map_right_iff, List.forall₂_same]
  have hcopy := copyLoop_calloc hpack [none]
  rwa [List.length_map, List.length_map] at hcopy

/-- The epilogue of OP_GETTABLE: the entries are collected outside the section that
    asked for their number. -/
def gettableReply (msg : MessageT) (tabSize : Int) : Prog Calls (MessageT × Int) := do
  let oldEntries ← call .tableGetEntries
  let entries ← memory
    (copyLoop packEntry oldEntries tabSize.toNat 0 (calloc EntryT (tabSize + 1).toNat))
  return ({ msg with nEntries := tabSize.toNat, entries := entries, cType := ctTable }, 0)

def invokeGettable (msg : MessageT) : Prog Calls (MessageT × Int) := do
  let tabSize ← readSection (call .tableSize)
  gettableReply msg tabSize

def invokeStats (msg : MessageT) : Prog Calls (MessageT × Int) := do
  call (.enterRead .stats)
  if !(← call .hasGlobalStats) then do
    call (.exitRead .stats)
    return (respondErrInExec msg, -1)
  else do
    let nClientes ← call (.loadStat .nClientes)
    let nOperacoes ← call (.loadStat .nOperacoes)
    let totalTime ← call (.loadStat .totalTime)
    call (.exitRead .stats)
    return ({ msg with stats := some ⟨nClientes, nOperacoes, totalTime⟩, cType := ctStats }, 0)

/-- The dispatch of `invoke` on the opcode. -/
def dispatch (msg : MessageT) : Prog Calls (MessageT × Int) :=
  if msg.opcode = opPut then invokePut msg
  else if msg.opcode = opGet then invokeGet msg
  else if msg.opcode = opDel then invokeDel msg
  else if msg.opcode = opSize then invokeSize msg
  else if msg.opcode = opGetkeys then invokeGetkeys msg
  else if msg.opcode = opGettable then invokeGettable msg
  else if msg.opcode = opStats then invokeStats msg
  else return (msg, -1)

section Dispatch

variable {msg : MessageT}

theorem dispatch_put (hop : msg.opcode = opPut) : dispatch msg = invokePut msg := if_pos hop

theorem dispatch_get (hop : msg.opcode = opGet) : dispatch msg = invokeGet msg := by
  simp [dispatch, hop]

theorem dispatch_del (hop : msg.opcode = opDel) : dispatch msg = invokeDel msg := by
  simp [dispatch, hop]

theorem dispatch_size (hop : msg.opcode = opSize) : dispatch msg = invokeSize msg := by
  simp [dispatch, hop]

theorem dispatch_getkeys (hop : msg.opcode = opGetkeys) : dispatch msg = invokeGetkeys msg := by
  simp [dispatch, hop]

theorem dispatch_gettable (hop : msg.opcode = opGettable) : dispatch msg = invokeGettable msg := by
  simp [dispatch, hop]

theorem dispatch_stats (hop : msg.opcode = opStats) : dispatch msg = invokeStats msg := by
  simp [dispatch, hop]

/-- The handlers that `dispatch` can come to. -/
inductive Dispatched (msg : MessageT) : Prog Calls (MessageT × Int) → Prop
  | put (hop : msg.opcode = opPut) : Dispatched msg (invokePut msg)
  | get (hop : msg.opcode = opGet) : Dispatched msg (invokeGet msg)
  | del (hop : msg.opcode = opDel) : Dispatched msg (invokeDel msg)
  | size (hop : msg.opcode = opSize) : Dispatched msg (invokeSize msg)
  | getkeys (hop : msg.opcode = opGetkeys) : Dispatched msg (invokeGetkeys msg)
  | gettable (hop : msg.opcode = opGettable) : Dispatched msg (invokeGettable msg)
  | stats (hop : msg.opcode = opStats) : Dispatched msg (invokeStats msg)
  | unknown (hop : msg.opcode ∉ [opPut, opGet, opDel, opSize, opGetkeys, opGettable, opStats]) :
      Dispatched msg (.ret (msg, -1))

theorem dispatched (msg : MessageT) : Dispatched msg (dispatch msg) := by
  unfold dispatch
  split_ifs with hput hget hdel hsize hgetkeys hgettable hstats
  · exact .put hput
  · exact .get hget
  · exact .del hdel
  · exact .size hsize
  · exact .getkeys hgetkeys
  · exact .gettable hgettable
  · exact .stats hstats
  · exact .unknown (by simp [hput, hget, hdel, hsize, hgetkeys, hgettable, hstats])

end Dispatch

/-- The end of `invoke`: a result that is not negative turns the opcode of the
    request into that of the response. -/
def conclude (result : MessageT × Int) : MessageT × Int :=
  if result.2 ≥ 0 then ({ result.1 with opcode := result.1.opcode + 1 }, result.2) else result

def invoke (msg : MessageT) : Prog Calls (MessageT × Int) := do
  let result ← dispatch msg
  return conclude result

end ChainTable
