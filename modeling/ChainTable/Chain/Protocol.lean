-- SUMMARY: The protocols that the threads of a chain follow, as far as the other threads can tell.
import ChainTable.Chain.System

open Base

/-!
# Protocols of the threads

Of what a thread does, the others see little: when it takes and leaves the table lock,
what it does to the table, and what it sends. The protocols below say this much, and
`invoke` follows them.
-/

namespace ChainTable

open Calls Relay

/-! ## Calls that do not matter -/

/-- Calls for the statistics and the clock. -/
def ServerCall.Neutral : ServerCall → Prop
  | .enterRead .stats => True
  | .exitRead .stats => True
  | .enterWrite .stats => True
  | .exitWrite .stats => True
  | .hasGlobalStats => True
  | .loadStat _ => True
  | .storeStat _ _ => True
  | .gettimeofday => True
  | _ => False

section Neutral

variable {Q : Type} {P : Prog.Protocol Calls Q} {q : Q} {α : Type} {final : Q → α → Prop}

/-- In the state `q` neutral calls are allowed and lead nowhere. -/
def Loops (P : Prog.Protocol Calls Q) (q : Q) : Prop :=
  ∀ op : ServerCall, op.Neutral → P.allowed q op ∧ ∀ r, P.next q op r = q

theorem neutral_follows (hloops : Loops P q) (op : ServerCall) (hop : op.Neutral)
    {k : op.Res → Prog Calls α} (hk : ∀ r, (k r).Follows P final q) :
    (call op >>= k).Follows P final q := by
  obtain ⟨hallowed, hnext⟩ := hloops op hop
  refine ⟨hallowed, fun r _ => ?_⟩
  rw [hnext r]
  exact hk r

theorem call_follows {op : ServerCall} {k : op.Res → Prog Calls α} (hallowed : P.allowed q op)
    (hk : ∀ r, P.expected q op r → (k r).Follows P final (P.next q op r)) :
    (call op >>= k).Follows P final q :=
  ⟨hallowed, hk⟩

theorem increaseOperations_follows (hloops : Loops P q) :
    increaseOperations.Follows P (fun q' _ => q' = q) q :=
  neutral_follows hloops (.enterWrite .stats) trivial fun _ =>
    neutral_follows hloops (.loadStat .nOperacoes) trivial fun _ =>
      neutral_follows hloops (.storeStat .nOperacoes _) trivial fun _ =>
        neutral_follows hloops (.exitWrite .stats) trivial fun _ => rfl

theorem returnTime_follows (hloops : Loops P q) :
    returnTime.Follows P (fun q' _ => q' = q) q :=
  neutral_follows hloops .gettimeofday trivial fun _ => rfl

theorem increaseTime_follows (hloops : Loops P q) (time : Int) :
    (increaseTime time).Follows P (fun q' _ => q' = q) q :=
  neutral_follows hloops (.enterWrite .stats) trivial fun _ =>
    neutral_follows hloops (.loadStat .totalTime) trivial fun _ =>
      neutral_follows hloops (.storeStat .totalTime _) trivial fun _ =>
        neutral_follows hloops (.exitWrite .stats) trivial fun _ => rfl

/-- Counting and timing do not show. -/
theorem counted_follows {body : Prog Calls α} (hloops : Loops P q)
    (hbody : body.Follows P (fun q' a => Loops P q' ∧ final q' a) q) :
    (counted body).Follows P final q := by
  unfold counted
  refine (increaseOperations_follows hloops).bind ?_
  rintro _ _ rfl
  refine (returnTime_follows hloops).bind ?_
  rintro _ _ rfl
  refine hbody.bind ?_
  rintro q' result ⟨hloops', hfinal⟩
  refine (returnTime_follows hloops').bind ?_
  rintro _ _ rfl
  refine (increaseTime_follows hloops' _).bind ?_
  rintro _ _ rfl
  exact hfinal

end Neutral

/-! ## Updates -/

/-- How far a thread that serves an update is. -/
inductive Point where
  | started
  | locked
  | applied
  | tested
  | connected
  | waiting
  | done
  | released
  deriving DecidableEq

namespace Point

def stage : Point → Stage
  | started => .started
  | locked => .locked
  | applied => .applied
  | tested => .applied
  | connected => .applied
  | waiting => .waiting
  | done => .done
  | released => .released

/-- The call that leads on. Only a server that is not the last one sends. -/
def Makes (isLast : Bool) (u : Update) : Point → ServerCall → Prop
  | started, op => op = .enterWrite .table
  | locked, op => op = u.call
  | applied, op => op = .nextServerNodePath
  | tested, op => isLast = false ∧ op = .nextServerRtable
  | connected, op => isLast = false ∧ ∃ rtable, op = .messageSendAll rtable u.request
  | waiting, op => isLast = false ∧ ∃ rtable, op = .messageReceiveAll rtable
  | done, op => op = .exitWrite .table
  | released, _ => False

def next : Point → (op : ServerCall) → op.Res → Point
  | started, .enterWrite .table, _ => locked
  | locked, .tablePut _ _, _ => applied
  | locked, .tableRemove _, _ => applied
  | applied, .nextServerNodePath, path => if path = .empty then done else tested
  | tested, .nextServerRtable, _ => connected
  | connected, .messageSendAll _ _, _ => waiting
  | waiting, .messageReceiveAll _, _ => done
  | done, .exitWrite .table, _ => released
  | q, _, _ => q

theorem next_call (u : Update) (r : u.call.Res) : locked.next u.call r = applied := by
  cases u <;> rfl

end Point

/-- What a call returns to a thread of a chain: on the last server there is no path,
    and elsewhere the exchange works. -/
def Expected (isLast : Bool) : (op : ServerCall) → op.Res → Prop
  | .tablePut _ _, res => res = 0
  | .tableRemove _, res => res = 0 ∨ res = 1
  | .nextServerNodePath, path => path = .empty ↔ isLast
  | .nextServerRtable, rtable => ∃ live : Rtable, rtable = some live ∧ live.released = false
  | .messageSendAll _ _, sent => sent = 2
  | .messageReceiveAll _, received => ∃ res, received = (some res, false)
  | _, _ => True

/-- The protocol of a thread that serves `u`. -/
def updateProtocol (isLast : Bool) (u : Update) : Prog.Protocol Calls Point where
  allowed q op := op.Neutral ∨ q.Makes isLast u op
  expected _ op r := Expected isLast op r
  next := Point.next

/-- The end of `invoke`: the lock is released and there is a response to send. -/
def Served (q : Point) (result : MessageT × Int) : Prop :=
  q = .released ∧ 0 ≤ result.2 ∧ ∃ res, result.1.unpacked = .ok res

section Update

variable {isLast : Bool} {u : Update}

theorem updateProtocol_loops (q : Point) : Loops (updateProtocol isLast u) q := by
  intro op hop
  refine ⟨.inl hop, fun r => ?_⟩
  cases op with
  | enterWrite lock =>
    cases lock with
    | table => exact absurd hop id
    | stats => cases q <;> rfl
  | exitWrite lock =>
    cases lock with
    | table => exact absurd hop id
    | stats => cases q <;> rfl
  | enterRead lock => cases q <;> rfl
  | exitRead lock => cases q <;> rfl
  | hasGlobalStats => cases q <;> rfl
  | loadStat field => cases q <;> rfl
  | storeStat field value => cases q <;> rfl
  | gettimeofday => cases q <;> rfl
  | _ => exact absurd hop id

theorem networkSendReceive_follows (hlast : isLast = false) {rtable : Rtable}
    (hlive : rtable.released = false) :
    (networkSendReceive (some rtable) u.request).Follows (updateProtocol isLast u)
      (fun q _ => q = .done) .connected := by
  have hrtable : rtable.live = .ok rtable := Rtable.live_ok hlive
  rw [networkSendReceive, deref_some, memory_ok, Prog.ret_bind, hrtable, memory_ok, Prog.ret_bind]
  refine call_follows (.inr ⟨hlast, rtable, rfl⟩) fun sent hsent => ?_
  obtain rfl : sent = 2 := hsent
  rw [if_neg (show ¬ (2 : Int) = -1 by decide), if_neg (show ¬ (2 : Int) = 0 by decide)]
  refine call_follows (.inr ⟨hlast, rtable, rfl⟩) fun received hreceived => ?_
  obtain ⟨res, rfl⟩ : ∃ res, received = (some res, false) := hreceived
  rfl

/-- A stub that makes the exchange and looks at the response. -/
theorem forwardUpdate_follows {stub : Option Rtable → Prog Calls Int}
    (hstub : isLast = false → ∀ rtable : Rtable, rtable.released = false →
      (stub (some rtable)).Follows (updateProtocol isLast u) (fun q _ => q = .done) .connected) :
    (forwardUpdate stub).Follows (updateProtocol isLast u) (fun q _ => q = .done) .applied := by
  unfold forwardUpdate
  refine call_follows (.inr rfl) fun path hexpected => ?_
  change Prog.Follows _ _ (if path = .empty then Point.done else Point.tested) _
  by_cases hpath : path = .empty
  · rw [if_pos hpath, if_neg (by simp [hpath])]
    rfl
  · have hlast : isLast = false := by
      have hiff : path = .empty ↔ isLast = true := hexpected
      simpa [hpath] using hiff
    rw [if_neg hpath, if_pos fun hzero => hpath (CString.strcmp_eq_zero_iff.1 hzero)]
    refine call_follows (.inr ⟨hlast, rfl⟩) fun rtable hrtable => ?_
    obtain ⟨live, rfl, hlive⟩ : ∃ live : Rtable, rtable = some live ∧ live.released = false :=
      hrtable
    exact (hstub hlast live hlive).bind fun q _ hq => hq

/-- The section of an update, and what `invoke` makes of its result. -/
theorem writeSection_follows {α : Type} {body : Prog Calls α} {good : α → Prop}
    {k : α → Prog Calls (MessageT × Int)}
    (hbody : body.Follows (updateProtocol isLast u) (fun q a => q = .done ∧ good a) .locked)
    (hk : ∀ a, good a → (k a).Follows (updateProtocol isLast u) Served .released) :
    (writeSection body >>= k).Follows (updateProtocol isLast u) Served .started := by
  simp only [writeSection, locked, Prog.bind_assoc]
  refine call_follows (.inr rfl) fun _ _ => ?_
  have hcounted : (counted body).Follows (updateProtocol isLast u)
      (fun q a => q = .done ∧ good a) .locked := by
    refine counted_follows (updateProtocol_loops _) ?_
    refine (Prog.bind_ret body) ▸ hbody.bind fun q a ha => ?_
    exact ⟨updateProtocol_loops q, ha⟩
  refine hcounted.bind ?_
  rintro _ a ⟨rfl, ha⟩
  exact call_follows (.inr rfl) fun _ _ => hk a ha

theorem invokePut_follows (key : CString) {b : Bytes} (hb : b ≠ []) :
    (invoke (putRequest key (.ofBytes b))).Follows (updateProtocol isLast (.put key b)) Served
      .started := by
  have hdispatch : dispatch (putRequest key (.ofBytes b)) =
      invokePut (putRequest key (.ofBytes b)) := rfl
  have hforward :
    (forwardUpdate fun rtable => rtablePut rtable ⟨some key, some (.ofBytes b)⟩).Follows
      (updateProtocol isLast (.put key b)) (fun q _ => q = .done) .applied := by
    refine forwardUpdate_follows fun hlast rtable hlive => ?_
    rw [rtablePut, if_neg (by simp)]
    simp only [deref_some, memory_ok, Prog.ret_bind, Data.toBinary_ofBytes]
    exact (networkSendReceive_follows hlast hlive).bind fun q _ hq => hq
  have hbody : (putAndForward key (.ofBytes b) ⟨some key, some (.ofBytes b)⟩).Follows
      (updateProtocol isLast (.put key b)) (fun q res => q = .done ∧ res = 0) .locked := by
    refine call_follows (.inr rfl) fun res hres => ?_
    obtain rfl : res = 0 := hres
    exact hforward.bind fun q _ hq => ⟨hq, rfl⟩
  rw [invoke, hdispatch, invokePut_eq rfl (BinaryData.copyOut_ofBytes b) hb, Prog.bind_assoc]
  refine writeSection_follows hbody ?_
  rintro _ rfl
  exact ⟨rfl, le_rfl, _, unpacked_of_no_arrays rfl rfl (unpacked_entry key hb) rfl⟩

theorem invokeDel_follows (key : CString) :
    (invoke (delRequest key)).Follows (updateProtocol isLast (.del key)) Served .started := by
  have hdispatch : dispatch (delRequest key) = invokeDel (delRequest key) := rfl
  have hforward : (forwardUpdate fun rtable => rtableDel rtable key).Follows
      (updateProtocol isLast (.del key)) (fun q _ => q = .done) .applied :=
    forwardUpdate_follows fun hlast rtable hlive =>
      (networkSendReceive_follows hlast hlive).bind fun q _ hq => hq
  have hbody : (removeAndForward key).Follows (updateProtocol isLast (.del key))
      (fun q res => q = .done ∧ (res = 0 ∨ res = 1)) .locked := by
    refine call_follows (.inr rfl) fun res hres => ?_
    exact hforward.bind fun q _ hq => ⟨hq, hres⟩
  have hkey : (delRequest key).key = some key := rfl
  rw [invoke, hdispatch, invokeDel, hkey]
  simp only [Prog.bind_assoc]
  refine writeSection_follows hbody ?_
  rintro _ (rfl | rfl)
  · exact ⟨rfl, le_rfl, _, rfl⟩
  · exact ⟨rfl, zero_le_one, _, rfl⟩

theorem invokeUpdate_follows (hbytes : u.hasBytes) :
    (invoke u.request).Follows (updateProtocol isLast u) Served .started := by
  cases u with
  | put key b => exact invokePut_follows key (by simpa [Update.hasBytes] using hbytes)
  | del key => exact invokeDel_follows key

end Update

/-! ## Reads -/

/-- How far a thread that serves a read is, with the value that it found. -/
inductive ReadPoint where
  | started
  | inSection
  | read (value : Option Bytes)

namespace ReadPoint

def Makes (request : ReadRequest) : ReadPoint → ServerCall → Prop
  | started, op => op = .enterRead .table
  | inSection, op =>
    match request with
    | .get key => op = .tableGet key
    | .size => op = .tableSize
  | read _, op => op = .exitRead .table

def next : ReadPoint → (op : ServerCall) → op.Res → ReadPoint
  | started, .enterRead .table, _ => inSection
  | inSection, .tableGet _, block => read (block.bind Data.bytes)
  | inSection, .tableSize, _ => read none
  | q, _, _ => q

end ReadPoint

def readProtocol (request : ReadRequest) : Prog.Protocol Calls ReadPoint where
  allowed q op := op.Neutral ∨ q.Makes request op
  expected _ op r :=
    match op, r with
    | .tableGet _, block => ∃ value : Option Bytes, (∀ b ∈ value, b ≠ []) ∧
      block = value.map Data.ofBytes
    | .tableSize, size => 0 ≤ size
    | _, _ => True
  next := ReadPoint.next

/-- The response of OP_GET for a key that is bound to `value`. -/
def MessageT.Carries (res : MessageT) (value : Option Bytes) : Prop :=
  res.opcode = opGet + 1 ∧
    match value with
    | some b => res.cType = ctValue ∧ res.value = .ofBytes b
    | none => res.value.data = none

/-- The end of a read: OP_GET answers with the value that was found. -/
def ReadServed (request : ReadRequest) (q : ReadPoint) (result : MessageT × Int) : Prop :=
  0 ≤ result.2 ∧ ∃ value, q = .read value ∧ ∀ key, request = .get key → result.1.Carries value

section Read

variable {request : ReadRequest}

theorem readProtocol_loops (q : ReadPoint) : Loops (readProtocol request) q := by
  intro op hop
  refine ⟨.inl hop, fun r => ?_⟩
  cases q with
  | started =>
    cases op with
    | enterRead lock =>
      cases lock with
      | table => exact absurd hop id
      | stats => rfl
    | _ => rfl
  | inSection =>
    cases op with
    | tableGet key => exact absurd hop id
    | tableSize => exact absurd hop id
    | _ => rfl
  | read value => rfl

/-- The section of a read, and what `invoke` makes of what it found. -/
theorem readSection_follows {op : ServerCall} {k : op.Res → Prog Calls (MessageT × Int)}
    (hop : ReadPoint.inSection.Makes request op)
    (hread : ∀ r, ∃ value, ReadPoint.inSection.next op r = .read value)
    (hk : ∀ r value, (readProtocol request).expected .inSection op r →
      ReadPoint.inSection.next op r = .read value →
      (k r).Follows (readProtocol request) (ReadServed request) (.read value)) :
    (readSection (call op) >>= k).Follows (readProtocol request) (ReadServed request) .started := by
  simp only [readSection, locked, Prog.bind_assoc]
  refine call_follows (.inr rfl) fun _ _ => ?_
  have hcounted : (counted (call op)).Follows (readProtocol request)
      (fun q r => ∃ value, q = .read value ∧ ReadPoint.inSection.next op r = .read value ∧
        (readProtocol request).expected .inSection op r) .inSection := by
    refine counted_follows (readProtocol_loops _) ⟨.inr hop, fun r hr => ?_⟩
    obtain ⟨value, hvalue⟩ := hread r
    have hnext : (readProtocol request).next .inSection op r = .read value := hvalue
    rw [hnext]
    exact ⟨readProtocol_loops _, value, rfl, hvalue, hr⟩
  refine hcounted.bind ?_
  rintro _ r ⟨value, rfl, hvalue, hr⟩
  exact call_follows (.inr rfl) fun _ _ => hk r value hr hvalue

theorem invokeGet_follows (key : CString) :
    (invoke (getRequest key)).Follows (readProtocol (.get key)) (ReadServed (.get key))
      .started := by
  have hdispatch : dispatch (getRequest key) = invokeGet (getRequest key) := rfl
  have hkey : (getRequest key).key = some key := rfl
  rw [invoke, hdispatch, invokeGet, hkey]
  simp only [Prog.bind_assoc]
  refine readSection_follows rfl (fun r => ⟨_, rfl⟩) fun block value hblock hvalue => ?_
  obtain ⟨found, hne, rfl⟩ := hblock
  cases found with
  | none =>
    cases hvalue
    exact ⟨le_rfl, none, rfl, fun _ _ => ⟨rfl, rfl⟩⟩
  | some b =>
    have hb := hne b rfl
    have hread : ReadPoint.read (some b) = .read value := by
      rw [← hvalue]
      exact congrArg ReadPoint.read (Data.bytes_ofBytes hb).symm
    cases hread
    simp only [Option.map_some, Data.toBinary_ofBytes, memory_ok, Prog.ret_bind]
    exact ⟨le_rfl, some b, rfl, fun _ _ => ⟨rfl, rfl, rfl⟩⟩

theorem invokeSize_follows :
    (invoke sizeRequest).Follows (readProtocol .size) (ReadServed .size) .started := by
  have hdispatch : dispatch sizeRequest = invokeSize sizeRequest := rfl
  rw [invoke, hdispatch, invokeSize, Prog.bind_assoc]
  refine readSection_follows rfl (fun r => ⟨_, rfl⟩) fun size value hsize hvalue => ?_
  cases hvalue
  have hret : size ≥ 0 := hsize
  rw [if_pos hret]
  refine ⟨?_, none, rfl, fun key hkey => by cases hkey⟩
  rw [conclude, if_pos hret]
  exact hret

theorem invokeRead_follows (request : ReadRequest) :
    (invoke request.message).Follows (readProtocol request) (ReadServed request) .started := by
  cases request with
  | get key => exact invokeGet_follows key
  | size => exact invokeSize_follows

end Read

end ChainTable
