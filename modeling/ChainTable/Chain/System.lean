-- SUMMARY: A chain of servers with their threads, locks and connections, stepping call by call.
import ChainTable.Base.Relay
import ChainTable.Server.Forward

open Base

/-!
# A chain of servers

The servers `0`, …, `last` are connected in a row. Threads of the first one serve the
updates of clients, a thread of each other one serves the connection from the server
before it, and threads of the last one serve reads. Every step is one call of one
thread. The locks exclude as mutex.c makes them, and a connection delivers what is sent
unchanged and in order.
-/

namespace ChainTable

open Calls Relay

/-! ## Nodes and connections -/

/-- A lock of mutex.c, as its callers see it. -/
structure RwLock where
  writerActive : Bool
  readersReading : ℕ

/-- A server of the chain. The updates that its table has carried out are kept as
    history. -/
structure Node where
  server : ServerState
  locks : LockName → RwLock
  applied : List Update

/-- What is under way between a server and the next one. -/
structure Channel where
  requests : List MessageT
  responses : List MessageT

/-- The update that a call on the table carries out. -/
def ServerCall.update? : ServerCall → Option Update
  | .tablePut key value => value.bytes.map (.put key)
  | .tableRemove key => some (.del key)
  | _ => none

def Node.setLock (node : Node) (lock : LockName) (state : RwLock) : Node :=
  { node with locks := Function.update node.locks lock state }

/-- What a call does at a server and on its connection to the next one; `none` while
    the call blocks. -/
def Node.perform (time : Timeval) (node : Node) (next : Channel) :
    (op : ServerCall) → Option (C (op.Res × Node × Channel))
  | .enterRead lock =>
    if (node.locks lock).writerActive then none
    else some (.ok ((), node.setLock lock
      { node.locks lock with readersReading := (node.locks lock).readersReading + 1 }, next))
  | .exitRead lock => some (.ok ((), node.setLock lock
      { node.locks lock with readersReading := (node.locks lock).readersReading - 1 }, next))
  | .enterWrite lock =>
    if (node.locks lock).writerActive ∨ 0 < (node.locks lock).readersReading then none
    else some (.ok ((), node.setLock lock { node.locks lock with writerActive := true }, next))
  | .exitWrite lock =>
    some (.ok ((), node.setLock lock { node.locks lock with writerActive := false }, next))
  | .messageSendAll _ msg =>
    some (msg.unpacked >>= fun msg =>
      .ok (2, node, { next with requests := next.requests ++ [msg] }))
  | .messageReceiveAll _ =>
    match next.responses with
    | [] => none
    | res :: rest => some (.ok ((some res, false), node, { next with responses := rest }))
  | op =>
    some (alone (fun _ => time) .broken op (node.server, ()) >>= fun rs =>
      .ok (rs.1, { node with
        server := rs.2.1
        applied := node.applied ++ op.update?.toList }, next))

/-! ## Threads -/

/-- A thread that serves an update. What it has put into the table is kept as history,
    with the position among all updates of the server. -/
structure UpdateThread where
  prog : Prog Calls (MessageT × Int)
  logged : Option (ℕ × Update)

/-- The requests that the last server gets from clients. -/
inductive ReadRequest where
  | get (key : CString)
  | size

def ReadRequest.message : ReadRequest → MessageT
  | get key => getRequest key
  | size => sizeRequest

/-- A thread that serves a read. History: the updates that were acknowledged before the
    request came, and those that the table had carried out when it was looked at. -/
structure ReadThread where
  request : ReadRequest
  prog : Prog Calls (MessageT × Int)
  acked : List (ℕ × Update)
  snapshot : List Update

/-- A read that has been answered. -/
structure ReadAnswer where
  request : ReadRequest
  acked : List (ℕ × Update)
  snapshot : List Update
  response : MessageT

/-- The calls that look at the table. -/
def ServerCall.reads : ServerCall → Bool
  | .tableGet _ => true
  | .tableSize => true
  | _ => false

/-! ## The chain -/

/-- Updates come from clients `κ`, and reads on connections `ρ`. The last part says
    that a thread has met a fault or closed its connection. -/
structure Chain (κ ρ : Type) where
  node : ℕ → Node
  channel : ℕ → Channel
  worker : Worker κ → Option UpdateThread
  reader : ρ → Option ReadThread
  acked : List (ℕ × Update)
  answers : List ReadAnswer
  failed : Bool

inductive ChainStep (κ ρ : Type) where
  /-- A client sends a request for an update to the first server. -/
  | request (c : κ) (u : Update)
  /-- A request reaches the next server. -/
  | deliver (i : ℕ)
  | call (w : Worker κ) (time : Timeval)
  | respond (w : Worker κ)
  /-- A client sends a read to the last server. -/
  | read (r : ρ) (request : ReadRequest)
  | readCall (r : ρ) (time : Timeval)
  | answer (r : ρ)

namespace Chain

variable {κ ρ : Type} [DecidableEq κ] [DecidableEq ρ]

def setNode (s : Chain κ ρ) (i : ℕ) (node : Node) : Chain κ ρ :=
  { s with node := Function.update s.node i node }

def setChannel (s : Chain κ ρ) (i : ℕ) (channel : Channel) : Chain κ ρ :=
  { s with channel := Function.update s.channel i channel }

def setWorker (s : Chain κ ρ) (w : Worker κ) (thread : Option UpdateThread) : Chain κ ρ :=
  { s with worker := Function.update s.worker w thread }

def setReader (s : Chain κ ρ) (r : ρ) (thread : Option ReadThread) : Chain κ ρ :=
  { s with reader := Function.update s.reader r thread }

def fail (s : Chain κ ρ) : Chain κ ρ := { s with failed := true }

/-! ## Steps -/

/-- A client puts no empty value. -/
def stepRequest (s : Chain κ ρ) (c : κ) (u : Update) : Option (Chain κ ρ) :=
  match s.worker (.client c) with
  | none =>
    if u.hasBytes then some (s.setWorker (.client c) (some ⟨invoke u.request, none⟩)) else none
  | some _ => none

def stepDeliver (last : ℕ) (s : Chain κ ρ) (i : ℕ) : Option (Chain κ ρ) :=
  if i < last then
    match s.worker (.link i), (s.channel i).requests with
    | none, msg :: rest =>
      some ((s.setChannel i { s.channel i with requests := rest }).setWorker (.link i)
        (some ⟨invoke msg, none⟩))
    | _, _ => none
  else none

def stepCall (s : Chain κ ρ) (w : Worker κ) (time : Timeval) : Option (Chain κ ρ) :=
  match s.worker w with
  | some ⟨.call op k, logged⟩ =>
    match (s.node w.node).perform time (s.channel w.node) op with
    | none => none
    | some (.error _) => some s.fail
    | some (.ok (r, node, channel)) =>
      some (((s.setNode w.node node).setChannel w.node channel).setWorker w
        (some ⟨k r, (op.update?.map fun u => ((s.node w.node).applied.length, u)) <|> logged⟩))
  | _ => none

/-- `serve_conn` sends the response of a request that was processed. -/
def stepRespond (s : Chain κ ρ) (w : Worker κ) : Option (Chain κ ρ) :=
  match w, s.worker w with
  | .client c, some ⟨.ret (_, ret), logged⟩ =>
    if ret < 0 then some s.fail
    else
      let s : Chain κ ρ := { s with acked := s.acked ++ logged.toList }
      some (s.setWorker (.client c) none)
  | .link i, some ⟨.ret (res, ret), _⟩ =>
    if ret < 0 then some s.fail
    else
      match res.unpacked with
      | .ok res => some ((s.setChannel i { s.channel i with
          responses := (s.channel i).responses ++ [res] }).setWorker (.link i) none)
      | .error _ => some s.fail
  | _, _ => none

def stepRead (s : Chain κ ρ) (r : ρ) (request : ReadRequest) : Option (Chain κ ρ) :=
  match s.reader r with
  | none => some (s.setReader r (some ⟨request, invoke request.message, s.acked, []⟩))
  | some _ => none

def stepReadCall (last : ℕ) (s : Chain κ ρ) (r : ρ) (time : Timeval) : Option (Chain κ ρ) :=
  match s.reader r with
  | some ⟨request, .call op k, acked, snapshot⟩ =>
    match (s.node last).perform time (s.channel last) op with
    | none => none
    | some (.error _) => some s.fail
    | some (.ok (res, node, channel)) =>
      some (((s.setNode last node).setChannel last channel).setReader r
        (some ⟨request, k res, acked, if op.reads then (s.node last).applied else snapshot⟩))
  | _ => none

def stepAnswer (s : Chain κ ρ) (r : ρ) : Option (Chain κ ρ) :=
  match s.reader r with
  | some ⟨request, .ret (res, ret), acked, snapshot⟩ =>
    if ret < 0 then some s.fail
    else
      let s : Chain κ ρ := { s with answers := s.answers ++ [⟨request, acked, snapshot, res⟩] }
      some (s.setReader r none)
  | _ => none

def step (last : ℕ) : ChainStep κ ρ → Chain κ ρ → Option (Chain κ ρ)
  | .request c u, s => s.stepRequest c u
  | .deliver i, s => s.stepDeliver last i
  | .call w time, s => s.stepCall w time
  | .respond w, s => s.stepRespond w
  | .read r request, s => s.stepRead r request
  | .readCall r time, s => s.stepReadCall last r time
  | .answer r, s => s.stepAnswer r

/-- The servers hold the same map, each in a table of its own size, and nothing has
    been asked for yet. -/
structure Start (last : ℕ) (m : Spec.Map) (s : Chain κ ρ) : Prop where
  table : ∀ i ≤ last, ∃ st : Store, (s.node i).server.table = st.table ∧ st.map = m
  stats : ∀ i ≤ last, (s.node i).server.globalStats ≠ none
  path : ∀ i ≤ last, (s.node i).server.nextServerNodePath = .empty ↔ i = last
  connected : ∀ i < last, ∃ rtable : Rtable,
    (s.node i).server.nextServerRtable = some rtable ∧ rtable.released = false
  locks : ∀ i lock, (s.node i).locks lock = ⟨false, 0⟩
  applied : ∀ i, (s.node i).applied = []
  channel : ∀ i, s.channel i = ⟨[], []⟩
  worker : ∀ w, s.worker w = none
  reader : ∀ r, s.reader r = none
  acked : s.acked = []
  answers : s.answers = []
  running : s.failed = false

def system (last : ℕ) (m : Spec.Map) : LTS (Chain κ ρ) (ChainStep κ ρ) where
  init := Start last m
  step := step last

end Chain

end ChainTable
