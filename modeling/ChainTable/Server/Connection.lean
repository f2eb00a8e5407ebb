-- SUMMARY: serve_conn of server_thread.c, as the thread of one connection with its loop.
import ChainTable.Server.Skel

open Base

/-!
# The thread of a connection

`serve_conn` counts its client, answers requests until something fails or the server is
asked to stop, closes the connection and takes its client out of the count. Everything
that it shares with others is behind calls: those of the server, the flag `terminated`,
and the calls on its descriptor.
-/

namespace ChainTable

/-! ## Calls -/

inductive ConnCall where
  | server (op : ServerCall)
  | terminated
  | networkReceive
  | networkSend (msg : MessageT)
  | close

abbrev ConnCall.Res : ConnCall → Type
  | .server op => op.Res
  | .terminated => Bool
  | .networkReceive => Option MessageT
  | .networkSend _ => Int
  | .close => Unit

abbrev Conn : Sig := ⟨ConnCall, ConnCall.Res⟩

/-- The program that makes one call. -/
def conn (op : ConnCall) : Prog Conn op.Res := .perform (S := Conn) op

/-- A program of the server inside the thread. -/
def onServer {α : Type} : Prog Calls α → Prog Conn α
  | .ret a => .ret a
  | .call op k => .call (S := Conn) (.server op) fun r => onServer (k r)

@[simp] theorem onServer_call {α : Type} (op : ServerCall) (k : op.Res → Prog Calls α) :
    onServer (.call (S := Calls) op k) =
      .call (S := Conn) (.server op) fun r => onServer (k r) := rfl

/-! ## serve_conn -/

/-- The end of a round that failed: the new value of `processing_error`. -/
def failRound : Prog Conn Bool := do
  conn .close
  let terminated ← conn .terminated
  return !terminated

/-- One round of the loop. `network_send` is asked to send what `invoke` left of the
    request. -/
def serveRound : Prog Conn Bool := do
  let msg ← conn .networkReceive
  match msg with
  | none => failRound
  | some msg => do
    let (msg, ret) ← onServer (invoke msg)
    if ret < 0 then failRound
    else do
      let sent ← conn (.networkSend msg)
      if sent ≤ 0 then failRound else return false

inductive Part where
  | opening
  | serving
  | closing
  | finished
  deriving DecidableEq

/-- A thread that runs `serve_conn`. The program of a part returns the value of
    `processing_error` at its end. -/
structure ServeConn where
  part : Part
  prog : Prog Conn Bool

namespace ServeConn

def start : ServeConn where
  part := .opening
  prog := do
    onServer (changeClientNum 1)
    return false

def round : ServeConn := ⟨.serving, serveRound⟩

def leave : ServeConn where
  part := .closing
  prog := do
    conn .close
    onServer (changeClientNum (-1))
    return false

/-- What follows a part that has ended: the test of the loop, and the end of the
    thread. -/
def test (part : Part) (processingError terminated : Bool) : ServeConn :=
  match part with
  | .closing => ⟨.finished, .ret false⟩
  | .finished => ⟨.finished, .ret false⟩
  | _ => if !processingError && !terminated then round else leave

/-- The thread has completed the call that counts its client, and not the one that takes
    it out of the count. -/
def Connected (c : ServeConn) : Prop :=
  match c.part, c.prog with
  | .opening, .ret _ => True
  | .serving, _ => True
  | .closing, .call _ _ => True
  | _, _ => False

instance : DecidablePred Connected := fun c => by
  unfold Connected
  split <;> infer_instance

end ServeConn

end ChainTable
