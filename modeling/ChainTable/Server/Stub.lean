-- SUMMARY: The stubs of client_stub.c over network_send_receive of network_client.c.
import ChainTable.Server.Calls

open Base

/-!
# Stubs

Each stub packs its arguments into a request, sends it, and takes its result out of
the response. The servers use two of them to forward an update.
-/

namespace ChainTable

open Calls

/-! ## Responses and blocks -/

/-- The response that `respond_err_in_exec` leaves. -/
def MessageT.isError (res : MessageT) : Prop := res.opcode = opError ∧ res.cType = ctNone

instance (res : MessageT) : Decidable res.isError := inferInstanceAs (Decidable (_ ∧ _))

/-- A block as the value of a message: `len` is its size, and its bytes are copied. -/
def Data.toBinary (d : Data) : C BinaryData := do
  let b ← deref d.data
  return .ofBytes (b.take d.datasize.toNat)

@[simp] theorem Data.toBinary_ofBytes (b : Bytes) : (ofBytes b).toBinary = .ok (.ofBytes b) := by
  simp [toBinary, ofBytes]

theorem Data.toBinary_of_bytes {d : Data} {b : Bytes} (h : d.bytes = some b) :
    d.toBinary = .ok (.ofBytes b) := by
  simp only [bytes, Option.ite_none_right_eq_some, Option.map_eq_some_iff] at h
  obtain ⟨-, block, hblock, rfl⟩ := h
  rw [toBinary, hblock]
  rfl

/-- The value of a message as a block. -/
def BinaryData.toData (v : BinaryData) : C Data := do
  let b ← v.copyOut
  return .ofBytes b

/-! ## network_client.c -/

/-- `network_send_receive` -/
def networkSendReceive (rtable : Option Rtable) (msg : MessageT) :
    Prog Calls (Option MessageT) := do
  let rtable ← memory (deref rtable)
  let rtable ← memory rtable.live
  let sent ← call (.messageSendAll rtable msg)
  if sent = -1 then do
    call (.networkClose rtable)
    return none
  else if sent = 0 then do
    call (.networkClose rtable)
    return none
  else do
    let (receivedMsg, disconnected) ← call (.messageReceiveAll rtable)
    if disconnected then do
      call (.networkClose rtable)
      return none
    else if receivedMsg = none then do
      call (.networkClose rtable)
      return none
    else return receivedMsg

/-! ## Results

What each stub makes of the response, which is missing when the exchange failed. -/

def putResult : Option MessageT → Int
  | none => -1
  | some res => if res.opcode = opBad then -1 else if res.isError then -1 else 0

def getResult : Option MessageT → C (Option Data)
  | none => .ok none
  | some res =>
    if res.opcode = opBad then .ok none
    else if res.isError then .ok none
    else if res.value.data = none then .ok none
    else do
      let data ← res.value.toData
      return some data

def delResult : Option MessageT → Int
  | none => -1
  | some res =>
    if res.opcode = opBad then -1
    else if res.isError then -1
    else if res.cType = ctBad then -1
    else 0

def sizeResult : Option MessageT → Int
  | none => -1
  | some res => if res.isError then -1 else res.result

def getKeysResult : Option MessageT → C (Option (List (Option CString)))
  | none => .ok none
  | some res =>
    if res.isError then .ok none
    else do
      let keyArr ← copyLoop deref res.keys res.nKeys 0 (calloc CString (res.nKeys + 1))
      return some keyArr

/-- One iteration of the loop of `rtable_get_table`. -/
def unpackEntry (entry : Option EntryT) : C Entry := do
  let entry ← deref entry
  let key ← deref entry.key
  let value ← entry.value.toData
  return ⟨some key, some value⟩

def getTableResult : Option MessageT → C (Option (List (Option Entry)))
  | none => .ok none
  | some res =>
    if res.isError then .ok none
    else do
      let entryArr ← copyLoop unpackEntry res.entries res.nEntries 0
        (calloc Entry (res.nEntries + 1))
      return some entryArr

def statsResult : Option MessageT → C (Option StatisticsT)
  | none => .ok none
  | some res =>
    if res.isError then .ok none
    else do
      let stats ← deref res.stats
      return some stats

/-! ## client_stub.c -/

def rtablePut (rtable : Option Rtable) (entry : Entry) : Prog Calls Int :=
  if rtable = none then return -1
  else do
    let key ← memory (deref entry.key)
    let value ← memory (deref entry.value)
    let value ← memory value.toBinary
    let res ← networkSendReceive rtable (putRequest key value)
    return putResult res

def rtableGet (rtable : Option Rtable) (key : CString) : Prog Calls (Option Data) :=
  if rtable = none then return none
  else do
    let res ← networkSendReceive rtable (getRequest key)
    memory (getResult res)

/-- The only stub that does not test its `rtable`. -/
def rtableDel (rtable : Option Rtable) (key : CString) : Prog Calls Int := do
  let res ← networkSendReceive rtable (delRequest key)
  return delResult res

def rtableSize (rtable : Option Rtable) : Prog Calls Int :=
  if rtable = none then return -1
  else do
    let res ← networkSendReceive rtable sizeRequest
    return sizeResult res

def rtableGetKeys (rtable : Option Rtable) : Prog Calls (Option (List (Option CString))) :=
  if rtable = none then return none
  else do
    let res ← networkSendReceive rtable getKeysRequest
    memory (getKeysResult res)

def rtableGetTable (rtable : Option Rtable) : Prog Calls (Option (List (Option Entry))) :=
  if rtable = none then return none
  else do
    let res ← networkSendReceive rtable getTableRequest
    memory (getTableResult res)

def rtableStats (rtable : Option Rtable) : Prog Calls (Option StatisticsT) :=
  if rtable = none then return none
  else do
    let res ← networkSendReceive rtable statsRequest
    memory (statsResult res)

end ChainTable
