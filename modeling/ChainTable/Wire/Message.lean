-- SUMMARY: The messages of sdmessage.proto as the C structures that protobuf-c gives the program.
import ChainTable.Store.Data

open Base

/-!
# Messages

The generated structures `MessageT`, `EntryT` and `StatisticsT`, with every
pointer an `Option` and every array of pointers a list of them. No frame is
longer than 2^15 bytes, so that a `size_t` length and the `int` that the program
keeps it in are the same number here.
-/

namespace ChainTable

/-! ## Enumerations

Both enumerations are open on the wire: a peer can send any number. -/

abbrev opBad : Int := 0
abbrev opPut : Int := 10
abbrev opGet : Int := 20
abbrev opDel : Int := 30
abbrev opSize : Int := 40
abbrev opGetkeys : Int := 50
abbrev opGettable : Int := 60
abbrev opStats : Int := 70
abbrev opError : Int := 99

abbrev ctBad : Int := 0
abbrev ctEntry : Int := 10
abbrev ctKey : Int := 20
abbrev ctValue : Int := 30
abbrev ctResult : Int := 40
abbrev ctKeys : Int := 50
abbrev ctTable : Int := 60
abbrev ctNone : Int := 70
abbrev ctStats : Int := 80

/-! ## Structures -/

/-- `ProtobufCBinaryData`: a block, when there is one, has at least `len` bytes. -/
@[ext] structure BinaryData where
  len : ℕ
  data : Option Bytes
  fits : ∀ b ∈ data, len ≤ b.length
  deriving DecidableEq

namespace BinaryData

/-- The value that `init` gives: no bytes at all. -/
def zero : BinaryData := ⟨0, none, by simp⟩

/-- The block that holds exactly the bytes `b`. -/
def ofBytes (b : Bytes) : BinaryData := ⟨b.length, some b, by simp⟩

/-- The same length without a block, as after `data = NULL`. -/
def dropData (v : BinaryData) : BinaryData := ⟨v.len, none, by simp⟩

/-- `memcpy` of the bytes of a value into a fresh block. Without bytes the block
    may be missing. -/
def copyOut (v : BinaryData) : C Bytes :=
  match v.data with
  | some b => .ok (b.take v.len)
  | none => if v.len = 0 then .ok [] else .error .nullDeref

@[simp] theorem copyOut_ofBytes (b : Bytes) : (ofBytes b).copyOut = .ok b := by
  simp [copyOut, ofBytes]

end BinaryData

structure EntryT where
  key : Option CString
  value : BinaryData
  deriving DecidableEq

/-- The wire entry that binds a key to a block of bytes. -/
def EntryT.ofPair (e : Σ _ : CString, Bytes) : EntryT := ⟨some e.1, .ofBytes e.2⟩

structure StatisticsT where
  nClientes : Int
  nOperacoes : Int
  totalTime : Int
  deriving DecidableEq

/-- A request or a response. -/
structure MessageT where
  opcode : Int
  cType : Int
  entry : Option EntryT
  key : Option CString
  value : BinaryData
  result : Int
  nKeys : ℕ
  keys : List (Option CString)
  nEntries : ℕ
  entries : List (Option EntryT)
  stats : Option StatisticsT
  deriving DecidableEq

/-- `message_t__init` -/
def MessageT.init : MessageT where
  opcode := opBad
  cType := ctBad
  entry := none
  key := some .empty
  value := .zero
  result := 0
  nKeys := 0
  keys := []
  nEntries := 0
  entries := []
  stats := none

/-- `message_t__pack` and `message_t__unpack` of the protobuf-c library. The size
    that `message_t__get_packed_size` reports is the number of bytes that `pack`
    writes. -/
structure Protobuf where
  pack : MessageT → Bytes
  unpack : Bytes → Option MessageT

/-! ## Requests

What the stubs of client_stub.c send. -/

def putRequest (key : CString) (value : BinaryData) : MessageT :=
  { MessageT.init with opcode := opPut, cType := ctEntry, entry := some ⟨some key, value⟩ }

def getRequest (key : CString) : MessageT :=
  { MessageT.init with opcode := opGet, cType := ctKey, key := some key }

def delRequest (key : CString) : MessageT :=
  { MessageT.init with opcode := opDel, cType := ctKey, key := some key }

def sizeRequest : MessageT := { MessageT.init with opcode := opSize, cType := ctNone }

def getKeysRequest : MessageT := { MessageT.init with opcode := opGetkeys, cType := ctNone }

def getTableRequest : MessageT := { MessageT.init with opcode := opGettable, cType := ctNone }

def statsRequest : MessageT := { MessageT.init with opcode := opStats, cType := ctNone }

/-! ## What arrives

`unpacked` is what `message_t__unpack` makes of a packed message: the same fields,
where bytes of length 0 have no block, every string is there, and an array has as
many elements as were counted. Packing reads all that is counted, so it can fault. -/

def BinaryData.unpacked (v : BinaryData) : C BinaryData :=
  if v.len = 0 then .ok .zero
  else do
    let b ← deref v.data
    return .ofBytes (b.take v.len)

def EntryT.unpacked (entry : EntryT) : C EntryT := do
  let value ← entry.value.unpacked
  return ⟨some (entry.key.getD .empty), value⟩

/-- The first `n` elements of an array. -/
def loadAll {α : Type} (arr : List α) (n : ℕ) : C (List α) :=
  if n ≤ arr.length then .ok (arr.take n) else .error .outOfBounds

/-- One element of `entries`. -/
def unpackedEntry (entry : Option EntryT) : C (Option EntryT) := do
  let entry ← deref entry
  let entry ← entry.unpacked
  return some entry

def MessageT.unpacked (msg : MessageT) : C MessageT := do
  let entry ← msg.entry.mapM EntryT.unpacked
  let value ← msg.value.unpacked
  let keys ← loadAll msg.keys msg.nKeys
  let entries ← loadAll msg.entries msg.nEntries
  let entries ← entries.mapM unpackedEntry
  return { msg with
    entry := entry
    key := some (msg.key.getD .empty)
    value := value
    keys := keys.map fun key => some (key.getD .empty)
    entries := entries }

@[simp] theorem BinaryData.unpacked_ofBytes {b : Bytes} (h : b ≠ []) :
    (ofBytes b).unpacked = .ok (.ofBytes b) := by
  have hlen : b.length ≠ 0 := fun hzero => h (List.eq_nil_of_length_eq_zero hzero)
  simp [unpacked, ofBytes, hlen]

theorem loadAll_map_some {α : Type} (xs : List α) (rest : List (Option α)) :
    loadAll (xs.map some ++ rest) xs.length = .ok (xs.map some) := by
  rw [loadAll, if_pos (by simp), List.take_left' (List.length_map some)]

theorem unpacked_of_parts {msg : MessageT} {entry : Option EntryT} {value : BinaryData}
    {keys : List (Option CString)} {entries entries' : List (Option EntryT)}
    (hentry : msg.entry.mapM EntryT.unpacked = .ok entry) (hvalue : msg.value.unpacked = .ok value)
    (hkeys : loadAll msg.keys msg.nKeys = .ok keys)
    (hload : loadAll msg.entries msg.nEntries = .ok entries)
    (hentries : entries.mapM unpackedEntry = .ok entries') :
    msg.unpacked = .ok { msg with
      entry := entry
      key := some (msg.key.getD .empty)
      value := value
      keys := keys.map fun key => some (key.getD .empty)
      entries := entries' } := by
  rw [MessageT.unpacked, hentry, C.ok_bind, hvalue, C.ok_bind, hkeys, C.ok_bind, hload, C.ok_bind,
    hentries]
  rfl

/-- A message with no arrays in it arrives as its parts do. -/
theorem unpacked_of_no_arrays {msg : MessageT} {entry : Option EntryT} {value : BinaryData}
    (hkeys : msg.nKeys = 0) (hentries : msg.nEntries = 0)
    (hentry : msg.entry.mapM EntryT.unpacked = .ok entry)
      (hvalue : msg.value.unpacked = .ok value) :
    msg.unpacked = .ok { msg with
      entry := entry
      key := some (msg.key.getD .empty)
      value := value
      keys := []
      entries := [] } := by
  have hloadKeys : loadAll msg.keys msg.nKeys = .ok [] := by
    rw [hkeys]
    rfl
  have hloadEntries : loadAll msg.entries msg.nEntries = .ok [] := by
    rw [hentries]
    rfl
  exact unpacked_of_parts hentry hvalue hloadKeys hloadEntries rfl

theorem unpacked_entry (key : CString) {b : Bytes} (hb : b ≠ []) :
    (some (⟨some key, .ofBytes b⟩ : EntryT)).mapM EntryT.unpacked =
      .ok (some ⟨some key, .ofBytes b⟩) := by
  simp only [Option.mapM_some, EntryT.unpacked, BinaryData.unpacked_ofBytes hb]
  rfl

theorem unpacked_putRequest (key : CString) {b : Bytes} (hb : b ≠ []) :
    (putRequest key (.ofBytes b)).unpacked = .ok (putRequest key (.ofBytes b)) := by
  refine unpacked_of_no_arrays rfl rfl ?_ rfl
  simp only [putRequest, Option.mapM_some, EntryT.unpacked, BinaryData.unpacked_ofBytes hb]
  rfl

/-! ## Connections -/

/-- A `struct rtable_t`: the address that it was connected to, and whether
    `rtable_disconnect` has released it. -/
structure Rtable where
  address : CString
  released : Bool
  deriving DecidableEq

/-- Looking into a structure that may have been released. -/
def Rtable.live (rtable : Rtable) : C Rtable :=
  if rtable.released then .error .useAfterFree else .ok rtable

/-- `rtable_connect`, which the network lets succeed or not. -/
def rtableConnect (address : CString) (connects : Bool) : Option Rtable :=
  if connects then some ⟨address, false⟩ else none

/-- `rtable_disconnect` closes and releases; on `NULL` it does nothing. -/
def rtableDisconnect : Option Rtable → C (Option Rtable)
  | none => .ok none
  | some rtable => do
    let rtable ← rtable.live
    return some { rtable with released := true }

theorem Rtable.live_ok {rtable : Rtable} (h : rtable.released = false) : rtable.live = .ok rtable :=
  if_neg (by simp [h])

theorem rtableDisconnect_live {rtable : Rtable} (h : rtable.released = false) :
    rtableDisconnect (some rtable) = .ok (some { rtable with released := true }) := by
  rw [rtableDisconnect, Rtable.live_ok h]
  rfl

end ChainTable
