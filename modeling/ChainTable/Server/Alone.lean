-- SUMMARY: The state of a server, what each call does to it, and what invoke comes to when nothing interferes.
import ChainTable.Server.Skel
import ChainTable.Store.Refinement

open Base

/-!
# Serving alone

A thread that runs without interference acts on the state of its server and on its
connection to the successor, which is left open here: a `Link` says what sending and
receiving on it do to whatever is at the other end. The locks never block such a
thread.
-/

namespace ChainTable

open Calls

/-! ## State -/

/-- `struct statistics_t` -/
structure Statistics where
  nClientes : Int
  nOperacoes : Int
  totalTime : Int
  deriving DecidableEq

namespace Statistics

def load (stats : Statistics) : StatField → Int
  | .nClientes => stats.nClientes
  | .nOperacoes => stats.nOperacoes
  | .totalTime => stats.totalTime

def store (stats : Statistics) (value : Int) : StatField → Statistics
  | .nClientes => { stats with nClientes := value }
  | .nOperacoes => { stats with nOperacoes := value }
  | .totalTime => { stats with totalTime := value }

end Statistics

/-- The shared state of a server. `ticks` counts the readings of the clock. -/
structure ServerState where
  table : Table
  globalStats : Option Statistics
  nextServerNodePath : CString
  nextServerRtable : Option Rtable
  ticks : ℕ

/-- What `init_server_resources` sets up around a table that was created. -/
def ServerState.init (table : Table) : ServerState where
  table := table
  globalStats := some ⟨0, 0, 0⟩
  nextServerNodePath := .empty
  nextServerRtable := some ⟨.empty, false⟩
  ticks := 0

/-- The other end of a connection, as far as one end can tell. -/
structure Link (τ : Type) where
  send : MessageT → τ → Int × τ
  receive : τ → (Option MessageT × Bool) × τ
  close : τ → τ

/-- A connection that cannot be used. -/
def Link.broken : Link Unit where
  send _ _ := (-1, ())
  receive _ := ((none, true), ())
  close _ := ()

namespace ServerState

/-- One operation more, and the clock read at its start. -/
def counts (s : ServerState) : ServerState :=
  { s with
    globalStats := s.globalStats.map fun stats =>
      { stats with nOperacoes := stats.nOperacoes + 1 }
    ticks := s.ticks + 1 }

/-- The clock read at the end of an operation, and the time since its start added. -/
def timed (clock : ℕ → Timeval) (start : ℕ) (s : ServerState) : ServerState :=
  { s with
    globalStats := s.globalStats.map fun stats =>
      { stats with
        totalTime := int32 (stats.totalTime +
          int32 (microseconds (clock s.ticks) - microseconds (clock start))) }
    ticks := s.ticks + 1 }

/-- A server after an operation that leaves this table. -/
def served (clock : ℕ → Timeval) (table : Table) (s : ServerState) : ServerState :=
  { s.counts with table := table }.timed clock s.ticks

section Fields

variable (s : ServerState) (clock : ℕ → Timeval) (start : ℕ)

@[simp] theorem table_counts : s.counts.table = s.table := rfl

@[simp] theorem globalStats_counts :
    s.counts.globalStats = none ↔ s.globalStats = none := by simp [counts]

@[simp] theorem nextServerNodePath_counts :
    s.counts.nextServerNodePath = s.nextServerNodePath := rfl

@[simp] theorem nextServerRtable_counts : s.counts.nextServerRtable = s.nextServerRtable := rfl

theorem counts_eq {stats : Statistics} (hstats : s.globalStats = some stats) :
    s.counts = { s with
      globalStats := some { stats with nOperacoes := stats.nOperacoes + 1 }
      ticks := s.ticks + 1 } := by
  rw [counts, hstats]
  rfl

@[simp] theorem table_served (table : Table) : (s.served clock table).table = table := rfl

@[simp] theorem globalStats_served (table : Table) :
    (s.served clock table).globalStats = none ↔ s.globalStats = none := by
  simp [served, timed, counts]

@[simp] theorem nextServerNodePath_served (table : Table) :
    (s.served clock table).nextServerNodePath = s.nextServerNodePath := rfl

end Fields

end ServerState

/-! ## Calls -/

section Handler

variable {τ : Type} (clock : ℕ → Timeval) (link : Link τ)

/-- What a call does in a server that runs one thread. The clock gives the times of
    its readings one after the other. -/
def alone : Prog.Handler Calls (ServerState × τ) Fault
  | .enterRead _, s => .ok ((), s)
  | .exitRead _, s => .ok ((), s)
  | .enterWrite _, s => .ok ((), s)
  | .exitWrite _, s => .ok ((), s)
  | .hasGlobalStats, s => .ok (s.1.globalStats.isSome, s)
  | .loadStat field, s => do
    let stats ← deref s.1.globalStats
    return (stats.load field, s)
  | .storeStat field value, s => do
    let stats ← deref s.1.globalStats
    return ((), ({ s.1 with globalStats := some (stats.store value field) }, s.2))
  | .gettimeofday, s => .ok (clock s.1.ticks, ({ s.1 with ticks := s.1.ticks + 1 }, s.2))
  | .tablePut key value, s => do
    let (table, res) ← tablePut s.1.table (some key) (some value)
    return (res, ({ s.1 with table := table }, s.2))
  | .tableGet key, s => do
    let block ← tableGet s.1.table (some key)
    return (block, s)
  | .tableRemove key, s => do
    let (table, res) ← tableRemove s.1.table (some key)
    return (res, ({ s.1 with table := table }, s.2))
  | .tableSize, s => .ok (tableSize s.1.table, s)
  | .tableGetKeys, s => do
    let keys ← tableGetKeys s.1.table
    return (keys, s)
  | .tableGetEntries, s => do
    let entries ← tableGetEntries s.1.table
    return (entries, s)
  | .nextServerNodePath, s => .ok (s.1.nextServerNodePath, s)
  | .nextServerRtable, s => .ok (s.1.nextServerRtable, s)
  | .messageSendAll _ msg, s => .ok ((link.send msg s.2).1, (s.1, (link.send msg s.2).2))
  | .messageReceiveAll _, s => .ok ((link.receive s.2).1, (s.1, (link.receive s.2).2))
  | .networkClose _, s => .ok ((), (s.1, link.close s.2))
  | .fault f, _ => .error f

theorem run_call {α : Type} {op : ServerCall} {k : op.Res → Prog Calls α} {s : ServerState × τ} :
    (call op >>= k).run (alone clock link) s =
      alone clock link op s >>= fun rs => (k rs.1).run (alone clock link) rs.2 := rfl

/-! ## The link -/

/-- What `network_send_receive` comes to on a link. -/
def Link.exchange (msg : MessageT) (t : τ) : Option MessageT × τ :=
  let sent := link.send msg t
  if sent.1 = -1 ∨ sent.1 = 0 then (none, link.close sent.2)
  else
    let received := link.receive sent.2
    if received.1.2 ∨ received.1.1 = none then (none, link.close received.2)
    else (received.1.1, received.2)

theorem networkSendReceive_run {rtable : Rtable} (hlive : rtable.released = false)
    (msg : MessageT) (s : ServerState × τ) :
    (networkSendReceive (some rtable) msg).run (alone clock link) s =
      .ok ((link.exchange msg s.2).1, (s.1, (link.exchange msg s.2).2)) := by
  have hrtable : rtable.live = .ok rtable := Rtable.live_ok hlive
  rw [networkSendReceive, deref_some, memory_ok, Prog.ret_bind, hrtable, memory_ok, Prog.ret_bind,
    run_call]
  simp only [alone, C.ok_bind, Link.exchange]
  by_cases herror : (link.send msg s.2).1 = -1
  · rw [if_pos herror, if_pos (.inl herror)]
    rfl
  · rw [if_neg herror]
    by_cases hgone : (link.send msg s.2).1 = 0
    · rw [if_pos hgone, if_pos (.inr hgone)]
      rfl
    · rw [if_neg hgone, if_neg (not_or.2 ⟨herror, hgone⟩)]
      rw [run_call]
      simp only [alone, C.ok_bind]
      cases hreceived : (link.receive (link.send msg s.2).2).1 with
      | mk receivedMsg disconnected =>
        cases disconnected
        · cases receivedMsg
          · rfl
          · rfl
        · rfl

theorem run_memory {α : Type} (x : C α) (s : ServerState × τ) :
    (memory x).run (alone clock link) s = x >>= fun a => .ok (a, s) := by
  cases x with
  | ok a => rfl
  | error f => rfl

/-- A stub that decodes its response. -/
theorem networkSendReceive_memory_run {α : Type} {rtable : Rtable}
    (hlive : rtable.released = false) (msg : MessageT) (decode : Option MessageT → C α)
    (s : ServerState × τ) :
    (networkSendReceive (some rtable) msg >>= fun res => memory (decode res)).run
        (alone clock link) s =
      decode (link.exchange msg s.2).1 >>= fun a => .ok (a, (s.1, (link.exchange msg s.2).2)) := by
  rw [Prog.run_bind_ok (networkSendReceive_run clock link hlive msg s), run_memory]

theorem rtablePut_run {rtable : Rtable} (hlive : rtable.released = false) {value : Data}
    {b : Bytes} (hvalue : value.bytes = some b) (key : CString) (s : ServerState × τ) :
    (rtablePut (some rtable) ⟨some key, some value⟩).run (alone clock link) s =
      .ok (putResult (link.exchange (putRequest key (.ofBytes b)) s.2).1,
        (s.1, (link.exchange (putRequest key (.ofBytes b)) s.2).2)) := by
  rw [rtablePut, if_neg (by simp)]
  simp only [deref_some, memory_ok, Prog.ret_bind, Data.toBinary_of_bytes hvalue]
  rw [Prog.run_bind_ok (networkSendReceive_run clock link hlive _ s)]
  rfl

theorem rtableDel_run {rtable : Rtable} (hlive : rtable.released = false) (key : CString)
    (s : ServerState × τ) :
    (rtableDel (some rtable) key).run (alone clock link) s =
      .ok (delResult (link.exchange (delRequest key) s.2).1,
        (s.1, (link.exchange (delRequest key) s.2).2)) := by
  rw [rtableDel, Prog.run_bind_ok (networkSendReceive_run clock link hlive _ s)]
  rfl

/-! ## Sections -/

theorem returnTime_run (s : ServerState × τ) :
    returnTime.run (alone clock link) s =
      .ok (microseconds (clock s.1.ticks), ({ s.1 with ticks := s.1.ticks + 1 }, s.2)) := rfl

theorem increaseOperations_run {s : ServerState × τ} {stats : Statistics}
    (hstats : s.1.globalStats = some stats) :
    increaseOperations.run (alone clock link) s =
      .ok ((), ({ s.1 with
        globalStats := some { stats with nOperacoes := stats.nOperacoes + 1 } }, s.2)) := by
  obtain ⟨⟨table, globalStats, path, rtable, ticks⟩, t⟩ := s
  obtain rfl : globalStats = some stats := hstats
  rfl

theorem increaseTime_run {s : ServerState × τ} {stats : Statistics}
    (hstats : s.1.globalStats = some stats) (time : Int) :
    (increaseTime time).run (alone clock link) s =
      .ok ((), ({ s.1 with
        globalStats := some { stats with totalTime := int32 (stats.totalTime + time) } },
          s.2)) := by
  obtain ⟨⟨table, globalStats, path, rtable, ticks⟩, t⟩ := s
  obtain rfl : globalStats = some stats := hstats
  rfl

/-- A body that keeps the statistics is counted before and timed after it. -/
theorem counted_run {α : Type} {body : Prog Calls α} {s : ServerState × τ}
    (hstats : s.1.globalStats ≠ none)
    (hkept : ∀ r, body.run (alone clock link) (s.1.counts, s.2) = .ok r →
      r.2.1.globalStats ≠ none) :
    (counted body).run (alone clock link) s =
      body.run (alone clock link) (s.1.counts, s.2) >>= fun r =>
        .ok (r.1, (r.2.1.timed clock s.1.ticks, r.2.2)) := by
  obtain ⟨stats, hstats⟩ := Option.ne_none_iff_exists'.1 hstats
  have hcounts := s.1.counts_eq hstats
  rw [counted]
  refine (Prog.run_bind_ok (increaseOperations_run clock link hstats)).trans ?_
  refine (Prog.run_bind_ok (returnTime_run clock link _)).trans ?_
  cases hbody : body.run (alone clock link) (s.1.counts, s.2) with
  | error f =>
    rw [hcounts] at hbody
    exact Prog.run_bind_error hbody
  | ok r =>
    obtain ⟨stats₁, hkept⟩ := Option.ne_none_iff_exists'.1 (hkept r hbody)
    rw [hcounts] at hbody
    refine (Prog.run_bind_ok hbody).trans ?_
    refine (Prog.run_bind_ok (returnTime_run clock link _)).trans ?_
    refine (Prog.run_bind_ok (increaseTime_run clock link
      (s := ({ r.2.1 with ticks := r.2.1.ticks + 1 }, r.2.2)) hkept _)).trans ?_
    rw [C.ok_bind, ServerState.timed, hkept]
    rfl

/-- Nobody else holds the locks. -/
theorem locked_run {α : Type} {enter leave : Prog Calls Unit}
    (henter : ∀ s, enter.run (alone clock link) s = .ok ((), s))
    (hleave : ∀ s, leave.run (alone clock link) s = .ok ((), s)) (body : Prog Calls α)
    (s : ServerState × τ) :
    (locked enter leave body).run (alone clock link) s =
      (counted body).run (alone clock link) s := by
  rw [locked, Prog.run_bind_ok (henter s)]
  cases hcounted : (counted body).run (alone clock link) s with
  | error f => exact Prog.run_bind_error hcounted
  | ok r => exact (Prog.run_bind_ok hcounted).trans (Prog.run_bind_ok (hleave _))

theorem readSection_run_counted {α : Type} (body : Prog Calls α) (s : ServerState × τ) :
    (readSection body).run (alone clock link) s = (counted body).run (alone clock link) s :=
  locked_run clock link (fun _ => rfl) (fun _ => rfl) body s

theorem writeSection_run_counted {α : Type} (body : Prog Calls α) (s : ServerState × τ) :
    (writeSection body).run (alone clock link) s = (counted body).run (alone clock link) s :=
  locked_run clock link (fun _ => rfl) (fun _ => rfl) body s

section Section

variable {α : Type} {body : Prog Calls α} {s : ServerState × τ}
  (hstats : s.1.globalStats ≠ none)
  (hkept : ∀ r, body.run (alone clock link) (s.1.counts, s.2) = .ok r →
    r.2.1.globalStats ≠ none)

include hstats hkept

theorem readSection_run :
    (readSection body).run (alone clock link) s =
      body.run (alone clock link) (s.1.counts, s.2) >>= fun r =>
        .ok (r.1, (r.2.1.timed clock s.1.ticks, r.2.2)) :=
  (readSection_run_counted clock link body s).trans (counted_run clock link hstats hkept)

theorem writeSection_run :
    (writeSection body).run (alone clock link) s =
      body.run (alone clock link) (s.1.counts, s.2) >>= fun r =>
        .ok (r.1, (r.2.1.timed clock s.1.ticks, r.2.2)) :=
  (writeSection_run_counted clock link body s).trans (counted_run clock link hstats hkept)

end Section

/-! ## Operations on a well-formed table -/

/-- What forwarding an update comes to: nothing on the last server, and nothing that
    the caller would see of the response elsewhere. A missing connection is safe when
    the stub tests for it. -/
def forwardTo (path : CString) (rtable : Option Rtable) (nullSafe : Bool) (msg : MessageT)
    (t : τ) : C τ :=
  if path = .empty then .ok t
  else
    match rtable with
    | none => if nullSafe then .ok t else .error .nullDeref
    | some rtable => if rtable.released then .error .useAfterFree else .ok (link.exchange msg t).2

section ForwardTo

variable (nullSafe : Bool) (msg : MessageT) (t : τ)

@[simp] theorem forwardTo_empty (rtable : Option Rtable) :
    forwardTo link .empty rtable nullSafe msg t = .ok t := by
  simp [forwardTo]

theorem forwardTo_none {path : CString} (h : path ≠ .empty) :
    forwardTo link path none nullSafe msg t = if nullSafe then .ok t else .error .nullDeref := by
  simp [forwardTo, h]

theorem forwardTo_released {path : CString} (h : path ≠ .empty) {rtable : Rtable}
    (hreleased : rtable.released = true) :
    forwardTo link path (some rtable) nullSafe msg t = .error .useAfterFree := by
  simp [forwardTo, h, hreleased]

theorem forwardTo_live {path : CString} (h : path ≠ .empty) {rtable : Rtable}
    (hlive : rtable.released = false) :
    forwardTo link path (some rtable) nullSafe msg t = .ok (link.exchange msg t).2 := by
  simp [forwardTo, h, hlive]

end ForwardTo

theorem networkSendReceive_released {rtable : Rtable} (hreleased : rtable.released = true)
    (msg : MessageT) (s : ServerState × τ) :
    (networkSendReceive (some rtable) msg).run (alone clock link) s = .error .useAfterFree := by
  have hrtable : rtable.live = .error .useAfterFree := if_pos hreleased
  rw [networkSendReceive, deref_some, memory_ok, Prog.ret_bind, hrtable]
  rfl

theorem forwardUpdate_run {stub : Option Rtable → Prog Calls Int} {nullSafe : Bool}
    {msg : MessageT} {s : ServerState × τ}
    (hnull : (stub none).run (alone clock link) s =
      if nullSafe then .ok (-1, s) else .error .nullDeref)
    (hreleased : ∀ rtable : Rtable, rtable.released = true →
      (stub (some rtable)).run (alone clock link) s = .error .useAfterFree)
    (hlive : ∀ rtable : Rtable, rtable.released = false → ∃ ret,
      (stub (some rtable)).run (alone clock link) s =
        .ok (ret, (s.1, (link.exchange msg s.2).2))) :
    (forwardUpdate stub).run (alone clock link) s =
      forwardTo link s.1.nextServerNodePath s.1.nextServerRtable nullSafe msg s.2 >>= fun t =>
        .ok ((), (s.1, t)) := by
  obtain ⟨⟨table, globalStats, path, rtable, ticks⟩, t⟩ := s
  rw [forwardUpdate, run_call]
  simp only [alone, C.ok_bind]
  by_cases hpath : path = .empty
  · subst hpath
    rw [if_neg (by simp), forwardTo_empty]
    rfl
  -- there is a next server, so the stub is called with whatever the connection is
  · rw [if_pos (fun hzero => hpath (CString.strcmp_eq_zero_iff.1 hzero)), run_call]
    simp only [alone, C.ok_bind]
    cases rtable with
    | none =>
      rw [forwardTo_none link _ _ _ hpath]
      cases nullSafe with
      | true => exact Prog.run_bind_ok hnull
      | false => exact Prog.run_bind_error hnull
    | some rtable =>
      cases hr : rtable.released with
      | true =>
        rw [forwardTo_released link _ _ _ hpath hr]
        exact Prog.run_bind_error (hreleased rtable hr)
      | false =>
        obtain ⟨ret, hret⟩ := hlive rtable hr
        rw [forwardTo_live link _ _ _ hpath hr]
        exact Prog.run_bind_ok hret

theorem forwardPut_run {value : Data} {b : Bytes} (hvalue : value.bytes = some b) (key : CString)
    (s : ServerState × τ) :
    (forwardUpdate fun rtable => rtablePut rtable ⟨some key, some value⟩).run
        (alone clock link) s =
      forwardTo link s.1.nextServerNodePath s.1.nextServerRtable true
          (putRequest key (.ofBytes b)) s.2 >>= fun t =>
        .ok ((), (s.1, t)) := by
  refine forwardUpdate_run clock link rfl (fun rtable hreleased => ?_)
    fun rtable hlive => ⟨_, rtablePut_run clock link hlive hvalue key s⟩
  rw [rtablePut, if_neg (by simp)]
  simp only [deref_some, memory_ok, Prog.ret_bind, Data.toBinary_of_bytes hvalue]
  exact Prog.run_bind_error (networkSendReceive_released clock link hreleased _ _)

theorem forwardDel_run (key : CString) (s : ServerState × τ) :
    (forwardUpdate fun rtable => rtableDel rtable key).run (alone clock link) s =
      forwardTo link s.1.nextServerNodePath s.1.nextServerRtable false (delRequest key) s.2 >>=
        fun t => .ok ((), (s.1, t)) :=
  forwardUpdate_run clock link rfl
    (fun _ hreleased =>
      Prog.run_bind_error (networkSendReceive_released clock link hreleased _ _))
    fun _ hlive => ⟨_, rtableDel_run clock link hlive key s⟩

theorem putAndForward_run {st : Store} (key : CString) {value : Data} {b : Bytes}
    (hvalue : value.bytes = some b) {s : ServerState × τ} (htable : s.1.table = st.table) :
    (putAndForward key value ⟨some key, some value⟩).run (alone clock link) s =
      forwardTo link s.1.nextServerNodePath s.1.nextServerRtable true
          (putRequest key (.ofBytes b)) s.2 >>= fun t =>
        .ok (0, ({ s.1 with table := (st.put key b (Data.bytes_ne_nil hvalue)).table }, t)) := by
  rw [putAndForward, run_call]
  simp only [alone]
  rw [htable, st.tablePut_table key hvalue, C.ok_bind, C.pure_eq, C.ok_bind, Prog.run_bind,
    forwardPut_run clock link hvalue]
  cases forwardTo link s.1.nextServerNodePath s.1.nextServerRtable true
    (putRequest key (.ofBytes b)) s.2 <;> rfl

theorem removeAndForward_run {st : Store} (key : CString) {s : ServerState × τ}
    (htable : s.1.table = st.table) :
    (removeAndForward key).run (alone clock link) s =
      forwardTo link s.1.nextServerNodePath s.1.nextServerRtable false (delRequest key) s.2 >>=
        fun t => .ok (if key ∈ st.map then 0 else 1,
          ({ s.1 with table := (st.remove key).table }, t)) := by
  rw [removeAndForward, run_call]
  simp only [alone]
  rw [htable, st.tableRemove_table key, C.ok_bind, C.pure_eq, C.ok_bind, Prog.run_bind,
    forwardDel_run clock link]
  cases forwardTo link s.1.nextServerNodePath s.1.nextServerRtable false (delRequest key) s.2 <;>
    rfl

/-- A section that changes the table and then forwards. -/
theorem forwardingSection_run {α : Type} {body : Prog Calls α} {a : α} {table : Table}
    {forward : C τ} {s : ServerState × τ} (hstats : s.1.globalStats ≠ none)
    (hbody : body.run (alone clock link) (s.1.counts, s.2) =
      forward >>= fun t => .ok (a, ({ s.1.counts with table := table }, t))) :
    (writeSection body).run (alone clock link) s =
      forward >>= fun t => .ok (a, (s.1.served clock table, t)) := by
  cases forward with
  | error f =>
    rw [C.error_bind] at hbody
    rw [writeSection_run clock link hstats (by simp [hbody]), hbody]
    rfl
  | ok t =>
    rw [C.ok_bind] at hbody
    rw [writeSection_run clock link hstats (by simp [hbody, hstats]), hbody]
    rfl

/-! ## Requests on a well-formed table -/

section Requests

variable {st : Store} {s : ServerState × τ} (htable : s.1.table = st.table)
  (hstats : s.1.globalStats ≠ none)

include htable hstats

theorem invokePut_run {msg : MessageT} {key : CString} {value : BinaryData} {b : Bytes}
    (hentry : msg.entry = some ⟨some key, value⟩) (hvalue : value.copyOut = .ok b) (hb : b ≠ []) :
    (invokePut msg).run (alone clock link) s =
      forwardTo link s.1.nextServerNodePath s.1.nextServerRtable true
          (putRequest key (.ofBytes b)) s.2 >>= fun t =>
        .ok (({ msg with cType := ctNone }, 0), (s.1.served clock (st.put key b hb).table, t)) := by
  have hsection := forwardingSection_run clock link hstats
    (putAndForward_run clock link key (Data.bytes_ofBytes hb) (s := (s.1.counts, s.2)) htable)
  simp only [ServerState.nextServerNodePath_counts, ServerState.nextServerRtable_counts] at hsection
  rw [invokePut_eq hentry hvalue hb, Prog.run_bind, hsection]
  cases forwardTo link s.1.nextServerNodePath s.1.nextServerRtable true
    (putRequest key (.ofBytes b)) s.2 <;> rfl

theorem invokeDel_run {msg : MessageT} {key : CString} (hkey : msg.key = some key) :
    (invokeDel msg).run (alone clock link) s =
      forwardTo link s.1.nextServerNodePath s.1.nextServerRtable false (delRequest key) s.2 >>=
        fun t => .ok
          (if key ∈ st.map then ({ msg with cType := ctNone }, 0) else
            ({ msg with cType := ctBad }, 1),
            (s.1.served clock (st.remove key).table, t)) := by
  have hsection := forwardingSection_run clock link hstats
    (removeAndForward_run clock link key (s := (s.1.counts, s.2)) htable)
  simp only [ServerState.nextServerNodePath_counts, ServerState.nextServerRtable_counts] at hsection
  rw [invokeDel, hkey]
  simp only
  rw [Prog.run_bind, hsection]
  cases forwardTo link s.1.nextServerNodePath s.1.nextServerRtable false (delRequest key) s.2 with
  | error f => rfl
  | ok t =>
    by_cases hbound : key ∈ st.map
    · simp only [hbound, if_true]
      rfl
    · simp only [hbound, if_false]
      rfl

/-- A section that only reads the table. -/
theorem readSection_call_run {op : ServerCall} {a : op.Res}
    (hop : alone clock link op (s.1.counts, s.2) = .ok (a, (s.1.counts, s.2))) :
    (readSection (call op)).run (alone clock link) s =
      .ok (a, (s.1.served clock st.table, s.2)) := by
  have hbody : (call op).run (alone clock link) (s.1.counts, s.2) =
      .ok (a, (s.1.counts, s.2)) := by
    rw [call, Prog.perform, Prog.run_call_ok hop]
    rfl
  rw [readSection_run clock link hstats (by simp [hbody, hstats]), hbody, C.ok_bind,
    ServerState.served, ← htable]
  rfl

theorem invokeGet_run {msg : MessageT} {key : CString} (hkey : msg.key = some key) :
    (invokeGet msg).run (alone clock link) s =
      .ok ((match st.map.lookup key with
          | some b => { msg with value := .ofBytes b, cType := ctValue }
          | none => { msg with value := msg.value.dropData }, 0),
        (s.1.served clock st.table, s.2)) := by
  have hop : alone clock link (.tableGet key) (s.1.counts, s.2) =
      .ok ((st.map.lookup key).map Data.ofBytes, (s.1.counts, s.2)) := by
    simp only [alone, ServerState.table_counts, htable, st.tableGet_table key]
    rfl
  rw [invokeGet, hkey]
  simp only
  rw [Prog.run_bind, readSection_call_run clock link htable hstats hop]
  cases hlookup : st.map.lookup key with
  | none => rfl
  | some b =>
    have hbinary := Data.toBinary_of_bytes (Data.bytes_ofBytes (st.lookup_ne_nil hlookup))
    simp only [Option.map_some, C.ok_bind, hbinary, memory_ok, Prog.ret_bind]
    rfl

theorem invokeSize_run (msg : MessageT) :
    (invokeSize msg).run (alone clock link) s =
      .ok (({ msg with result := st.entries.length, cType := ctResult }, st.entries.length),
        (s.1.served clock st.table, s.2)) := by
  have hop : alone clock link .tableSize (s.1.counts, s.2) =
      .ok ((st.entries.length : Int), (s.1.counts, s.2)) := by
    simp only [alone, ServerState.table_counts, htable, st.tableSize_table]
  rw [invokeSize, Prog.run_bind, readSection_call_run clock link htable hstats hop, C.ok_bind,
    if_pos (by simp)]
  rfl

theorem invokeGetkeys_run (msg : MessageT) :
    (invokeGetkeys msg).run (alone clock link) s =
      .ok (({ msg with
          nKeys := st.entries.length
          keys := st.keys.map some ++ [none]
          cType := ctKeys }, 0),
        (s.1.served clock st.table, s.2)) := by
  have hop : alone clock link .tableGetKeys (s.1.counts, s.2) =
      .ok (st.keys.map some ++ [none], (s.1.counts, s.2)) := by
    simp only [alone, ServerState.table_counts, htable, st.tableGetKeys_table]
    rfl
  rw [invokeGetkeys, Prog.run_bind, readSection_call_run clock link htable hstats hop, C.ok_bind,
    getkeysReply, run_call]
  simp only [alone, ServerState.table_served, st.tableSize_table, C.ok_bind]
  rfl

theorem invokeGettable_run (msg : MessageT) :
    (invokeGettable msg).run (alone clock link) s =
      .ok (({ msg with
          nEntries := st.entries.length
          entries := (st.entries.map EntryT.ofPair).map some ++ [none]
          cType := ctTable }, 0),
        (s.1.served clock st.table, s.2)) := by
  have hop : alone clock link .tableSize (s.1.counts, s.2) =
      .ok ((st.entries.length : Int), (s.1.counts, s.2)) := by
    simp only [alone, ServerState.table_counts, htable, st.tableSize_table]
  have hcount : ((st.entries.length : Int) + 1).toNat = st.entries.length + 1 := by omega
  rw [invokeGettable, Prog.run_bind, readSection_call_run clock link htable hstats hop, C.ok_bind,
    gettableReply, run_call]
  simp only [alone, ServerState.table_served, st.tableGetEntries_table, C.ok_bind, C.pure_eq,
    Int.toNat_natCast, hcount, copyLoop_packEntry, memory_ok, Prog.ret_bind]
  rfl

end Requests

/-- The statistics are copied, and nothing changes. -/
theorem invokeStats_run {s : ServerState × τ} {stats : Statistics}
    (hstats : s.1.globalStats = some stats) (msg : MessageT) :
    (invokeStats msg).run (alone clock link) s =
      .ok (({ msg with
          stats := some ⟨stats.nClientes, stats.nOperacoes, stats.totalTime⟩
          cType := ctStats }, 0), s) := by
  obtain ⟨⟨table, globalStats, path, rtable, ticks⟩, t⟩ := s
  obtain rfl : globalStats = some stats := hstats
  rfl

/-! ## serve_conn -/

theorem invoke_run {msg : MessageT} {s s' : ServerState × τ} {result : MessageT × Int}
    (h : (dispatch msg).run (alone clock link) s = .ok (result, s')) :
    (invoke msg).run (alone clock link) s = .ok (conclude result, s') :=
  Prog.run_bind_ok h

/-- What `serve_conn` makes of one request: the response, when there is one, and what
    is left behind. A fault leaves nobody to respond. -/
def serve (msg : MessageT) (s : ServerState × τ) : Option MessageT × (ServerState × τ) :=
  match (invoke msg).run (alone clock link) s with
  | .ok ((res, ret), s) => (if ret < 0 then none else some res, s)
  | .error _ => (none, s)

theorem serve_of_dispatch {msg res : MessageT} {ret : Int} {s s' : ServerState × τ}
    (h : (dispatch msg).run (alone clock link) s = .ok ((res, ret), s')) (hret : 0 ≤ ret) :
    serve clock link msg s = (some (conclude (res, ret)).1, s') := by
  have hconclude : ¬ (conclude (res, ret)).2 < 0 := by
    rw [conclude, if_pos hret]
    exact not_lt.2 hret
  rw [serve, invoke_run clock link h]
  simp only [hconclude, if_false]

end Handler

end ChainTable
