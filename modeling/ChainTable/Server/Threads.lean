-- SUMMARY: Any number of serve_conn threads on one server, with its two locks and the history of its statistics.
import ChainTable.Server.Alone
import ChainTable.Server.Connection
import ChainTable.Sync.Waiting

open Base

/-!
# Threads of a server

Each thread runs `serve_conn` on a connection of its own. A step is one call of one
thread: the locks let it through or put it to sleep, the shared state is read or
written, and what comes from the network is any answer at all. A fault ends the process.
-/

namespace ChainTable

open Calls

/-! ## State -/

/-- What a call gets from outside of the server. -/
structure Answer where
  time : Timeval
  received : Option MessageT
  disconnected : Bool
  sent : Int

def Answer.link (answer : Answer) : Link Unit where
  send _ _ := (answer.sent, ())
  receive _ := ((answer.received, answer.disconnected), ())
  close _ := ()

/-- A server with its threads. The rest is history: how many sections of the table have been
    left, whether a thread has changed the statistics since it last got the table, and all
    statistics that held while nobody had their lock for writing. -/
structure Threads (ι : Type) where
  server : ServerState
  lock : LockName → LockState ι
  thread : ι → ServeConn
  terminated : Bool
  crashed : Bool
  sections : ℕ
  counted : ι → Bool
  moments : List Statistics

inductive ThreadStep (ι : Type) where
  | call (t : ι) (answer : Answer)
  /-- A thread that sleeps in an entering function tests its condition again. -/
  | wake (t : ι)
  /-- The end of a part of `serve_conn`. -/
  | test (t : ι)
  | terminate

namespace Threads

variable {ι : Type} [DecidableEq ι]

def setThread (s : Threads ι) (t : ι) (c : ServeConn) : Threads ι :=
  { s with thread := Function.update s.thread t c }

def setProg (s : Threads ι) (t : ι) (prog : Prog Conn Bool) : Threads ι :=
  s.setThread t { s.thread t with prog := prog }

/-! ## History -/

/-- A section begins. -/
def enterSection (s : Threads ι) (t : ι) : LockName → Threads ι
  | .table => { s with counted := Function.update s.counted t false }
  | .stats => s

section EnterSection

variable (s : Threads ι) (t : ι) (l : LockName)

@[simp] theorem enterSection_server : (s.enterSection t l).server = s.server := by
  cases l <;> rfl

@[simp] theorem enterSection_lock : (s.enterSection t l).lock = s.lock := by
  cases l <;> rfl

@[simp] theorem enterSection_thread : (s.enterSection t l).thread = s.thread := by
  cases l <;> rfl

@[simp] theorem enterSection_sections : (s.enterSection t l).sections = s.sections := by
  cases l <;> rfl

@[simp] theorem enterSection_moments : (s.enterSection t l).moments = s.moments := by
  cases l <;> rfl

end EnterSection

/-- A section of the table is left. -/
def leaveTable (s : Threads ι) : Threads ι := { s with sections := s.sections + 1 }

/-- A section that changes the statistics is left. -/
def leaveStats (s : Threads ι) (t : ι) : Threads ι :=
  { s with
    counted := Function.update s.counted t true
    moments := s.moments ++ s.server.globalStats.toList }

/-! ## Steps -/

/-- A call of an entering function, or a new test in it: the thread goes on when it has
    the lock. -/
def enter (s : Threads ι) (t : ι) (l : LockName) (step : LockStep ι) (next : Prog Conn Bool) :
    Option (Threads ι) :=
  (LockState.step step (s.lock l)).map fun lock =>
    let s : Threads ι := { s with lock := Function.update s.lock l lock }
    if lock.place t = .reading ∨ lock.place t = .writing then (s.enterSection t l).setProg t next
    else s

def exit (s : Threads ι) (t : ι) (l : LockName) (step : LockStep ι) (next : Prog Conn Bool) :
    Option (Threads ι) :=
  (LockState.step step (s.lock l)).map fun lock =>
    { s with lock := Function.update s.lock l lock }.setProg t next

/-- A call that is not about a lock. -/
def access (s : Threads ι) (t : ι) (answer : Answer) (op : ServerCall)
    (k : op.Res → Prog Conn Bool) : Threads ι :=
  match alone (fun _ => answer.time) answer.link op (s.server, ()) with
  | .ok (r, server, _) => { s with server := server }.setProg t (k r)
  | .error _ => { s with crashed := true }

/-- The next call of a thread. -/
def call (s : Threads ι) (t : ι) (answer : Answer) : Prog Conn Bool → Option (Threads ι)
  | .ret _ => none
  | .call (.server (.enterRead l)) k => s.enter t l (.enterRead t) (k ())
  | .call (.server (.enterWrite l)) k => s.enter t l (.enterWrite t) (k ())
  | .call (.server (.exitRead .table)) k => (s.exit t .table (.exitRead t) (k ())).map leaveTable
  | .call (.server (.exitRead .stats)) k => s.exit t .stats (.exitRead t) (k ())
  | .call (.server (.exitWrite .table)) k => (s.exit t .table (.exitWrite t) (k ())).map leaveTable
  | .call (.server (.exitWrite .stats)) k =>
    (s.exit t .stats (.exitWrite t) (k ())).map fun s => s.leaveStats t
  | .call (.server op) k => some (s.access t answer op k)
  | .call .terminated k => some (s.setProg t (k s.terminated))
  | .call .networkReceive k => some (s.setProg t (k answer.received))
  | .call (.networkSend _) k => some (s.setProg t (k answer.sent))
  | .call .close k => some (s.setProg t (k ()))

/-- The thread sleeps in the entering function that it has called. -/
def wake (s : Threads ι) (t : ι) : Prog Conn Bool → Option (Threads ι)
  | .call (.server (.enterRead l)) k => s.enter t l (.wake t) (k ())
  | .call (.server (.enterWrite l)) k => s.enter t l (.wake t) (k ())
  | _ => none

def test (s : Threads ι) (t : ι) : ServeConn → Option (Threads ι)
  | ⟨.finished, _⟩ => none
  | ⟨part, .ret processingError⟩ =>
    some (s.setThread t (.test part processingError s.terminated))
  | _ => none

def step (l : ThreadStep ι) (s : Threads ι) : Option (Threads ι) :=
  if s.crashed then none
  else
    match l with
    | .call t answer => s.call t answer (s.thread t).prog
    | .wake t => s.wake t (s.thread t).prog
    | .test t => s.test t (s.thread t)
    | .terminate => some { s with terminated := true }

/-- No thread has begun, and the statistics are those of `init_server_resources`. -/
structure Start (s : Threads ι) : Prop where
  stats : s.server.globalStats = some ⟨0, 0, 0⟩
  lock : ∀ l, s.lock l = ⟨.zero, fun _ => .outside⟩
  thread : ∀ t, s.thread t = .start
  running : s.crashed = false
  sections : s.sections = 0
  counted : ∀ t, s.counted t = false
  moments : s.moments = [⟨0, 0, 0⟩]

end Threads

def threadSystem (ι : Type) [DecidableEq ι] : LTS (Threads ι) (ThreadStep ι) where
  init := Threads.Start
  step := Threads.step

end ChainTable
