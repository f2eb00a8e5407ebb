-- SUMMARY: The socket descriptors of the stubs: network_connect, network_close and rtable_disconnect over the descriptors of a process.
import ChainTable.Base.Descriptors
import ChainTable.Base.Transition
import ChainTable.Server.Stub

open Base

/-!
# Sockets of the stubs

A process connects, exchanges requests and responses, and disconnects, while the rest of
it opens and closes descriptors of its own. Each attempt to connect has a number. The
network decides about every call; what counts here is which descriptors are open and who
closes them.
-/

namespace ChainTable

/-! ## The descriptors of a process -/

/-- What an open descriptor stands for: something else, or the socket of an attempt. -/
inductive SocketOwner where
  | other
  | socket (r : ℕ)
  deriving DecidableEq

/-- A `struct rtable_t` with its descriptor. -/
structure RtableT extends Rtable where
  sockfd : Int

/-- The results of the calls of `network_connect`: the new descriptor, when there is
    one, and the results of `inet_pton` and `connect`. -/
structure ConnectOutcome where
  socket : Option ℕ
  inetPton : Int
  connect : Int

/-- The descriptors of the process and what each attempt to connect has returned. The
    rest is history: the number of each socket, how often it was closed, whether a stub
    has closed, read or written a number that stood for something else, or read or
    written a socket that it had closed, and the descriptors before and after each
    `network_connect` that returned -1. -/
structure Sockets where
  owner : Descriptors SocketOwner
  attempts : ℕ
  rtable : ℕ → Option RtableT
  number : ℕ → Option ℕ
  closes : ℕ → ℕ
  foreign : Bool
  stale : Bool
  failed : List (Descriptors SocketOwner × Descriptors SocketOwner)

namespace Sockets

/-- The call `close` of attempt `r`. -/
def close (s : Sockets) (r fd : ℕ) : Sockets :=
  { s with
    owner := s.owner.closed fd
    closes :=
      if s.number r = some fd then Function.update s.closes r (s.closes r + 1) else s.closes
    foreign := s.foreign || s.owner.foreign fd (.socket r) }

/-- `network_close`, given the field of the `rtable`. No negative number is open. -/
def networkClose (s : Sockets) (r : ℕ) (sockfd : Int) : Sockets :=
  match sockfd.toNat? with
  | some fd => s.close r fd
  | none => s

/-- The calls `write` and `read` of attempt `r`. -/
def transfer (s : Sockets) (r : ℕ) (sockfd : Int) : Sockets :=
  match sockfd.toNat? with
  | some fd =>
    { s with
      foreign := s.foreign || s.owner.foreign fd (.socket r)
      stale := s.stale || s.closes r ≠ 0 }
  | none => s

/-- The call `socket` of attempt `r`. -/
def socket (s : Sockets) (r fd : ℕ) : Sockets :=
  { s with
    owner := s.owner.opened fd (.socket r)
    number := Function.update s.number r (some fd) }

/-! ## network_client.c and client_stub.c -/

/-- `network_connect`, given what the field `sockfd` holds before it is set. The result
    comes with the field. -/
def networkConnect (s : Sockets) (r : ℕ) (sockfd : Int) (outcome : ConnectOutcome) :
    (Int × Int) × Sockets :=
  match outcome.socket with
  | none => ((-1, sockfd), s)
  | some fd =>
    let s := s.socket r fd
    if outcome.inetPton < 1 then ((-1, sockfd), s.networkClose r sockfd)
    else if outcome.connect < 0 then ((-1, sockfd), s.networkClose r sockfd)
    else ((0, fd), s)

/-- `rtable_connect`, the next attempt. -/
def rtableConnect (s : Sockets) (addressPort : Option CString) (sockfd : Int)
    (outcome : ConnectOutcome) : Sockets :=
  let r := s.attempts
  match addressPort with
  | none => { s with attempts := r + 1 }
  | some address =>
    let ((ret, sockfd), s') := s.networkConnect r sockfd outcome
    if ret < 0 then
      { s' with attempts := r + 1, failed := (s.owner, s'.owner) :: s'.failed }
    else
      { s' with
        attempts := r + 1
        rtable := Function.update s'.rtable r (some ⟨⟨address, false⟩, sockfd⟩) }

/-- `rtable_disconnect`. -/
def rtableDisconnect (s : Sockets) (r : ℕ) : C Sockets :=
  match s.rtable r with
  | none => .ok s
  | some rtable => do
    let _ ← rtable.live
    return { s.networkClose r rtable.sockfd with
      rtable := Function.update s.rtable r (some { rtable with released := true }) }

/-! ## Operations -/

end Sockets

/-- A call of a stub. -/
inductive StubOp where
  | put (entry : Entry)
  | get (key : CString)
  | del (key : CString)
  | size
  | getKeys
  | getTable
  | stats

/-- The stub without its result. -/
def StubOp.program (rtable : Option Rtable) : StubOp → Prog Calls Unit
  | .put entry => do let _ ← rtablePut rtable entry
  | .get key => do let _ ← rtableGet rtable key
  | .del key => do let _ ← rtableDel rtable key
  | .size => do let _ ← rtableSize rtable
  | .getKeys => do let _ ← rtableGetKeys rtable
  | .getTable => do let _ ← rtableGetTable rtable
  | .stats => do let _ ← rtableStats rtable

namespace Sockets

/-- A call on the connection of attempt `r`, with the results that the network gives. No
    stub makes any other call. -/
def onConnection (r : ℕ) (sent : Int) (received : Option MessageT × Bool) :
    Prog.Handler Calls Sockets Fault
  | .messageSendAll _ _, s =>
    .ok (sent, match s.rtable r with
      | some rtable => s.transfer r rtable.sockfd
      | none => s)
  | .messageReceiveAll _, s =>
    .ok (received, match s.rtable r with
      | some rtable => s.transfer r rtable.sockfd
      | none => s)
  | .networkClose _, s =>
    .ok ((), match s.rtable r with
      | some rtable => s.networkClose r rtable.sockfd
      | none => s)
  | .fault f, _ => .error f
  | _, _ => .error .nullDeref

end Sockets

inductive SocketStep where
  | connect (addressPort : Option CString) (sockfd : Int) (outcome : ConnectOutcome)
  | operate (r : ℕ) (op : StubOp) (sent : Int) (received : Option MessageT × Bool)
  | disconnect (r : ℕ)
  /-- The rest of the process opens a descriptor. -/
  | openOther (fd : ℕ)
  | closeOther (fd : ℕ)

namespace Sockets

/-- A fault ends the run. -/
def step : SocketStep → Sockets → Option Sockets
  | .connect addressPort sockfd outcome, s =>
    if ∀ fd ∈ outcome.socket, s.owner.Lowest fd then
      some (s.rtableConnect addressPort sockfd outcome)
    else none
  | .operate r op sent received, s =>
    match (op.program ((s.rtable r).map RtableT.toRtable)).run (onConnection r sent received) s with
    | .ok (_, s') => some s'
    | .error _ => none
  | .disconnect r, s => (s.rtableDisconnect r).toOption
  | .openOther fd, s =>
    if s.owner.Lowest fd then some { s with owner := s.owner.opened fd .other } else none
  | .closeOther fd, s =>
    if s.owner fd = some .other then some { s with owner := s.owner.closed fd } else none

/-- No attempt yet. -/
structure Start (s : Sockets) : Prop where
  owner : ∀ fd r, s.owner fd ≠ some (.socket r)
  rtable : ∀ r, s.rtable r = none
  number : ∀ r, s.number r = none
  closes : ∀ r, s.closes r = 0
  foreign : s.foreign = false
  stale : s.stale = false
  failed : s.failed = []

/-- Each socket is open until it is closed, which happens once: when its attempt fails,
    on a failed exchange or by `rtable_disconnect`. The stubs close nothing else, use no
    socket after that, and leave nothing open when they cannot connect. -/
structure LifeCycle (s : Sockets) : Prop where
  kept : ∀ r fd, s.number r = some fd → s.closes r = 0 → s.owner fd = some (.socket r)
  once : ∀ r, s.closes r ≤ 1
  dropped : ∀ r fd, s.number r = some fd → s.rtable r = none → s.closes r = 1
  released : ∀ r rtable, s.rtable r = some rtable → rtable.released = true → s.closes r = 1
  own : s.foreign = false
  fresh : s.stale = false
  unchanged : ∀ before after, (before, after) ∈ s.failed →
    ∀ fd, (before fd).isSome = (after fd).isSome

end Sockets

def socketSystem : LTS Sockets SocketStep where
  init := Sockets.Start
  step := Sockets.step

/-- An attempt that has a socket connects it, or the field of its `rtable` happens to hold
    the new number already; and nothing goes through an `rtable` whose socket is closed. -/
def Unbroken : SocketStep → Sockets → Prop
  | .connect addressPort sockfd outcome, _ =>
    addressPort ≠ none → ∀ fd, outcome.socket = some fd →
      sockfd = fd ∨ 1 ≤ outcome.inetPton ∧ 0 ≤ outcome.connect
  | .operate r _ _ _, s => ∀ rtable, s.rtable r = some rtable → s.closes r = 0
  | .disconnect r, s => ∀ rtable, s.rtable r = some rtable → s.closes r = 0
  | _, _ => True

instance : (l : SocketStep) → (s : Sockets) → Decidable (Unbroken l s)
  | .connect addressPort sockfd outcome, _ =>
    inferInstanceAs (Decidable (addressPort ≠ none → ∀ fd, outcome.socket = some fd →
      sockfd = fd ∨ 1 ≤ outcome.inetPton ∧ 0 ≤ outcome.connect))
  | .operate r _ _ _, s =>
    inferInstanceAs (Decidable (∀ rtable, s.rtable r = some rtable → s.closes r = 0))
  | .disconnect r, s =>
    inferInstanceAs (Decidable (∀ rtable, s.rtable r = some rtable → s.closes r = 0))
  | .openOther _, _ => .isTrue trivial
  | .closeOther _, _ => .isTrue trivial

/-! ## What a stub does with its connection -/

/-- A stub uses its connection until it closes it, which it does once. -/
def connectionProtocol : Prog.Protocol Calls Bool where
  allowed closed op :=
    match op with
    | .messageSendAll _ _ => closed = false
    | .messageReceiveAll _ => closed = false
    | .networkClose _ => closed = false
    | _ => True
  expected _ _ _ := True
  next closed op _ :=
    match op with
    | .networkClose _ => true
    | _ => closed

section Stubs

variable {α β : Type} {closed : Bool}

/-- The stub keeps to the protocol, and it does not matter where that ends. -/
def Behaves (p : Prog Calls α) (closed : Bool) : Prop :=
  p.Follows connectionProtocol (fun _ _ => True) closed

theorem Behaves.bind {p : Prog Calls α} {f : α → Prog Calls β} (hp : Behaves p closed)
    (hf : ∀ closed a, Behaves (f a) closed) : Behaves (p >>= f) closed :=
  Prog.Follows.bind hp fun closed a _ => hf closed a

theorem behaves_call {op : ServerCall} {f : op.Res → Prog Calls β}
    (hop : connectionProtocol.allowed closed op)
    (hf : ∀ r, Behaves (f r) (connectionProtocol.next closed op r)) :
    Behaves (Calls.call op >>= f) closed :=
  ⟨hop, fun r _ => hf r⟩

/-- Local memory comes before or after an exchange. -/
theorem behaves_memory_bind {m : C α} {f : α → Prog Calls β} (hf : ∀ a, Behaves (f a) closed) :
    Behaves (Calls.memory m >>= f) closed := by
  cases m with
  | ok a => exact hf a
  | error fault => exact ⟨trivial, fun r => r.elim⟩

theorem behaves_memory (m : C α) : Behaves (Calls.memory m) closed := by
  cases m with
  | ok a => exact trivial
  | error fault => exact ⟨trivial, fun r => r.elim⟩

theorem networkSendReceive_behaves (rtable : Option Rtable) (msg : MessageT) :
    Behaves (networkSendReceive rtable msg) false := by
  have hclose : ∀ rtable, Behaves (Calls.call (.networkClose rtable) >>= fun _ =>
      (pure none : Prog Calls (Option MessageT))) false := by
    intro rtable
    refine behaves_call ?_ fun _ => trivial
    exact rfl
  apply behaves_memory_bind
  intro rtable
  apply behaves_memory_bind
  intro rtable
  apply behaves_call
  case hop => exact rfl
  intro sent
  split_ifs
  · exact hclose rtable
  · exact hclose rtable
  · apply behaves_call
    case hop => exact rfl
    rintro ⟨receivedMsg, disconnected⟩
    dsimp only
    split_ifs
    · exact hclose rtable
    · exact hclose rtable
    · exact trivial

/-- What all stubs have in common behind the exchange. -/
theorem exchange_behaves (rtable : Option Rtable) (msg : MessageT)
    (decode : Option MessageT → C α) :
    Behaves (networkSendReceive rtable msg >>= fun res => Calls.memory (decode res)) false := by
  apply (networkSendReceive_behaves rtable msg).bind
  intro _ res
  exact behaves_memory (decode res)

theorem program_behaves (op : StubOp) (rtable : Option Rtable) :
    Behaves (op.program rtable) false := by
  cases op with
  | put entry =>
    refine Behaves.bind ?_ fun _ _ => trivial
    rw [rtablePut]
    split_ifs
    · exact trivial
    · apply behaves_memory_bind
      intro key
      apply behaves_memory_bind
      intro value
      apply behaves_memory_bind
      intro value
      exact exchange_behaves rtable _ fun res => .ok (putResult res)
  | get key =>
    refine Behaves.bind ?_ fun _ _ => trivial
    rw [rtableGet]
    split_ifs
    · exact trivial
    · exact exchange_behaves rtable _ getResult
  | del key =>
    refine Behaves.bind ?_ fun _ _ => trivial
    exact exchange_behaves rtable _ fun res => .ok (delResult res)
  | size =>
    refine Behaves.bind ?_ fun _ _ => trivial
    rw [rtableSize]
    split_ifs
    · exact trivial
    · exact exchange_behaves rtable _ fun res => .ok (sizeResult res)
  | getKeys =>
    refine Behaves.bind ?_ fun _ _ => trivial
    rw [rtableGetKeys]
    split_ifs
    · exact trivial
    · exact exchange_behaves rtable _ getKeysResult
  | getTable =>
    refine Behaves.bind ?_ fun _ _ => trivial
    rw [rtableGetTable]
    split_ifs
    · exact trivial
    · exact exchange_behaves rtable _ getTableResult
  | stats =>
    refine Behaves.bind ?_ fun _ _ => trivial
    rw [rtableStats]
    split_ifs
    · exact trivial
    · exact exchange_behaves rtable _ statsResult

end Stubs

/-! ## The invariant -/

namespace Sockets

variable {s s' : Sockets} {r fd : ℕ} {rtable : RtableT}

/-- The life cycle so far, and that attempts are numbered in order and each `rtable` holds
    the number of its socket. -/
structure Sound (s : Sockets) : Prop extends s.LifeCycle where
  later : ∀ r, s.attempts ≤ r → s.number r = none
  idle : ∀ r, s.number r = none → s.closes r = 0 ∧ s.rtable r = none
  numbered : ∀ r rtable, s.rtable r = some rtable →
    ∃ fd, s.number r = some fd ∧ rtable.sockfd = (fd : Int)

theorem Start.sound (h : s.Start) : s.Sound where
  kept r fd hnumber := by
    rw [h.number r] at hnumber
    cases hnumber
  once r := (h.closes r).le.trans zero_le_one
  dropped r fd hnumber := by
    rw [h.number r] at hnumber
    cases hnumber
  released r rtable hrtable := by
    rw [h.rtable r] at hrtable
    cases hrtable
  own := h.foreign
  fresh := h.stale
  unchanged before after hmem := by
    rw [h.failed] at hmem
    cases hmem
  later r _ := h.number r
  idle r _ := ⟨h.closes r, h.rtable r⟩
  numbered r rtable hrtable := by
    rw [h.rtable r] at hrtable
    cases hrtable

/-! ## One attempt -/

/-- What `Sound` says of attempt `r`. -/
structure OfAttempt (s : Sockets) (r : ℕ) : Prop where
  kept : ∀ fd, s.number r = some fd → s.closes r = 0 → s.owner fd = some (.socket r)
  once : s.closes r ≤ 1
  dropped : ∀ fd, s.number r = some fd → s.rtable r = none → s.closes r = 1
  released : ∀ rtable, s.rtable r = some rtable → rtable.released = true → s.closes r = 1
  idle : s.number r = none → s.closes r = 0 ∧ s.rtable r = none
  numbered : ∀ rtable, s.rtable r = some rtable →
    ∃ fd, s.number r = some fd ∧ rtable.sockfd = (fd : Int)

theorem Sound.ofAttempt (h : s.Sound) (r : ℕ) : s.OfAttempt r :=
  ⟨h.kept r, h.once r, h.dropped r, h.released r, h.idle r, h.numbered r⟩

theorem Sound.of_attempts (h : ∀ r, s.OfAttempt r)
    (hlater : ∀ r, s.attempts ≤ r → s.number r = none)
    (hown : s.foreign = false) (hfresh : s.stale = false)
    (hunchanged : ∀ before after, (before, after) ∈ s.failed →
      ∀ fd, (before fd).isSome = (after fd).isSome) : s.Sound where
  kept r := (h r).kept
  once r := (h r).once
  dropped r := (h r).dropped
  released r := (h r).released
  own := hown
  fresh := hfresh
  unchanged := hunchanged
  later := hlater
  idle r := (h r).idle
  numbered r := (h r).numbered

/-- An attempt that a step leaves alone. -/
theorem OfAttempt.frame (h : s.OfAttempt r) (hnumber : s'.number r = s.number r)
    (hcloses : s'.closes r = s.closes r) (hrtable : s'.rtable r = s.rtable r)
    (hkept : ∀ fd, s.owner fd = some (.socket r) → s'.owner fd = some (.socket r)) :
    s'.OfAttempt r where
  kept fd hfd hopen := hkept fd (h.kept fd (hnumber.symm.trans hfd) (hcloses.symm.trans hopen))
  once := hcloses ▸ h.once
  dropped fd hfd hnone :=
    hcloses.trans (h.dropped fd (hnumber.symm.trans hfd) (hrtable.symm.trans hnone))
  released rtable hsome hreleased :=
    hcloses.trans (h.released rtable (hrtable.symm.trans hsome) hreleased)
  idle hnone := by
    rw [hcloses, hrtable]
    exact h.idle (hnumber.symm.trans hnone)
  numbered rtable hsome := by
    rw [hnumber]
    exact h.numbered rtable (hrtable.symm.trans hsome)

/-- An attempt whose socket is closed, with its number in the `rtable` if there is one. -/
theorem OfAttempt.of_closed (hnumber : s.number r = some fd) (hcloses : s.closes r = 1)
    (hsockfd : ∀ rtable, s.rtable r = some rtable →
      rtable.sockfd = (fd : Int)) : s.OfAttempt r where
  kept _ _ hopen := absurd (hcloses.symm.trans hopen) one_ne_zero
  once := hcloses.le
  dropped _ _ _ := hcloses
  released _ _ _ := hcloses
  idle hnone := absurd (hnumber.symm.trans hnone) (by simp)
  numbered rtable hsome := ⟨fd, hnumber, hsockfd rtable hsome⟩

/-- An attempt whose socket is open and belongs to an `rtable` that is not released. -/
theorem OfAttempt.of_open (hnumber : s.number r = some fd) (hcloses : s.closes r = 0)
    (howner : s.owner fd = some (.socket r)) (hrtable : s.rtable r = some rtable)
    (hlive : rtable.released = false) (hsockfd : rtable.sockfd = (fd : Int)) : s.OfAttempt r where
  kept fd' hfd' _ := by
    obtain rfl := Option.some.inj (hnumber.symm.trans hfd')
    exact howner
  once := hcloses.le.trans zero_le_one
  dropped _ _ hnone := absurd (hrtable.symm.trans hnone) (by simp)
  released rtable' hsome hreleased := by
    obtain rfl := Option.some.inj (hrtable.symm.trans hsome)
    exact absurd (hlive.symm.trans hreleased) Bool.false_ne_true
  idle hnone := absurd (hnumber.symm.trans hnone) (by simp)
  numbered rtable' hsome := by
    obtain rfl := Option.some.inj (hrtable.symm.trans hsome)
    exact ⟨fd, hnumber, hsockfd⟩

/-! ## Exchanges -/

/-- Reading and writing an open socket leaves no trace here. -/
theorem Sound.transfer (h : s.Sound) (hrtable : s.rtable r = some rtable) (hopen : s.closes r = 0) :
    s.transfer r rtable.sockfd = s := by
  obtain ⟨fd, hnumber, hsockfd⟩ := h.numbered r rtable hrtable
  have hforeign : (s.foreign || s.owner.foreign fd (.socket r)) = s.foreign := by
    rw [Descriptors.foreign_of_open (h.kept r fd hnumber hopen), Bool.or_false]
  have hstale : (s.stale || decide (s.closes r ≠ 0)) = s.stale := by
    simp [hopen]
  rw [hsockfd]
  change { s with
    foreign := s.foreign || s.owner.foreign fd (.socket r)
    stale := s.stale || decide (s.closes r ≠ 0) } = s
  rw [hforeign, hstale]

theorem close_closes (hnumber : s.number r = some fd) :
    (s.close r fd).closes = Function.update s.closes r (s.closes r + 1) :=
  if_pos hnumber

/-- A socket that is closed through its `rtable`. -/
theorem Sound.close (h : s.Sound) (hnumber : s.number r = some fd)
    (hrtable : s.rtable r = some rtable) (hopen : s.closes r = 0) :
    (s.close r fd).Sound ∧ (s.close r fd).closes r = 1 := by
  have howner : s.owner fd = some (.socket r) := h.kept r fd hnumber hopen
  have hself : (s.close r fd).closes r = 1 := by
    rw [close_closes hnumber, Function.update_self, hopen]
  refine ⟨.of_attempts (fun r' => ?_) h.later ?_ h.fresh h.unchanged, hself⟩
  · by_cases hne : r' = r
    · subst hne
      obtain ⟨fd', hnumber', hsockfd⟩ := h.numbered _ rtable hrtable
      obtain rfl := Option.some.inj (hnumber.symm.trans hnumber')
      refine .of_closed hnumber hself fun rtable' hsome => ?_
      obtain rfl := Option.some.inj (hrtable.symm.trans hsome)
      exact hsockfd
    · refine (h.ofAttempt r').frame rfl ?_ rfl ?_
      · rw [close_closes hnumber, Function.update_of_ne hne]
      · intro fd' howner'
        refine Descriptors.closed_of_open howner' howner ?_
        intro heq
        exact hne (SocketOwner.socket.inj heq)
  · change (s.foreign || s.owner.foreign fd (.socket r)) = false
    rw [h.own, Descriptors.foreign_of_open howner]
    rfl

theorem Sound.networkClose (h : s.Sound) (hrtable : s.rtable r = some rtable)
    (hopen : s.closes r = 0) :
    (s.networkClose r rtable.sockfd).Sound ∧ (s.networkClose r rtable.sockfd).closes r = 1 ∧
      (s.networkClose r rtable.sockfd).rtable = s.rtable := by
  obtain ⟨fd, hnumber, hsockfd⟩ := h.numbered r rtable hrtable
  obtain ⟨hsound, hcloses⟩ := h.close hnumber hrtable hopen
  rw [hsockfd]
  exact ⟨hsound, hcloses, rfl⟩

/-- A sound state in which the socket of attempt `r` is closed or not, if there is one. -/
def At (r : ℕ) (closed : Bool) (s : Sockets) : Prop :=
  s.Sound ∧ ∀ rtable, s.rtable r = some rtable → s.closes r = closed.toNat

theorem At.transfer {closed : Bool} (h : At r closed s) (hopen : closed = false)
    (hs' : s' = match s.rtable r with
      | some rtable => s.transfer r rtable.sockfd
      | none => s) : At r closed s' := by
  cases hrtable : s.rtable r with
  | none =>
    rw [hrtable] at hs'
    exact hs' ▸ h
  | some rtable =>
    rw [hrtable] at hs'
    have hcloses : s.closes r = 0 := by
      rw [h.2 rtable hrtable, hopen]
      rfl
    obtain rfl : s' = s := hs'.trans (h.1.transfer hrtable hcloses)
    exact h

theorem At.networkClose (h : At r false s)
    (hs' : s' = match s.rtable r with
      | some rtable => s.networkClose r rtable.sockfd
      | none => s) : At r true s' := by
  cases hrtable : s.rtable r with
  | none =>
    rw [hrtable] at hs'
    subst hs'
    refine ⟨h.1, fun rtable hsome => ?_⟩
    rw [hrtable] at hsome
    cases hsome
  | some rtable =>
    rw [hrtable] at hs'
    obtain ⟨hsound, hcloses, -⟩ := h.1.networkClose hrtable (h.2 rtable hrtable)
    subst hs'
    exact ⟨hsound, fun _ _ => hcloses⟩

/-- One call of a stub. -/
theorem At.call {closed : Bool} {sent : Int} {received : Option MessageT × Bool} {op : ServerCall}
    {res : op.Res} (h : At r closed s) (hallowed : connectionProtocol.allowed closed op)
    (hcall : onConnection r sent received op s = .ok (res, s')) :
    At r (connectionProtocol.next closed op res) s' := by
  cases op with
  | messageSendAll rtable' msg =>
      exact h.transfer hallowed (Prod.mk.inj (Except.ok.inj hcall)).2.symm
  | messageReceiveAll rtable' =>
      exact h.transfer hallowed (Prod.mk.inj (Except.ok.inj hcall)).2.symm
  | networkClose rtable' =>
    obtain rfl : closed = false := hallowed
    exact h.networkClose (Prod.mk.inj (Except.ok.inj hcall)).2.symm
  | _ => cases hcall

theorem Sound.operate {op : StubOp} {sent : Int} {received : Option MessageT × Bool} (h : s.Sound)
    (hok : Unbroken (.operate r op sent received) s)
    (hstep : step (.operate r op sent received) s = some s') : s'.Sound := by
  have hat : At r false s := ⟨h, hok⟩
  rw [step] at hstep
  split at hstep
  · rename_i _ s₁ hrun
    obtain rfl := Option.some.inj hstep
    have hbehaves := program_behaves op ((s.rtable r).map RtableT.toRtable)
    obtain ⟨closed, -, hat'⟩ := hbehaves.run (R := At r)
      (fun _ _ _ _ _ hR hallowed hcall => ⟨trivial, hR.call hallowed hcall⟩) hat hrun
    exact hat'.1
  · cases hstep

/-! ## Connecting and disconnecting -/

/-- The `rtable` of a closed socket is released. -/
theorem Sound.release (h : s.Sound) (hrtable : s.rtable r = some rtable)
    (hcloses : s.closes r = 1) :
    { s with
      rtable := Function.update s.rtable r (some { rtable with released := true }) }.Sound := by
  refine .of_attempts (fun r' => ?_) h.later h.own h.fresh h.unchanged
  by_cases hne : r' = r
  · subst hne
    obtain ⟨fd, hnumber, hsockfd⟩ := h.numbered _ rtable hrtable
    refine .of_closed hnumber hcloses fun rtable' hsome => ?_
    change Function.update s.rtable r' _ r' = some rtable' at hsome
    rw [Function.update_self] at hsome
    obtain rfl := Option.some.inj hsome
    exact hsockfd
  · exact (h.ofAttempt r').frame rfl rfl (Function.update_of_ne hne ..) fun _ howner => howner

theorem Sound.disconnect (h : s.Sound) (hok : Unbroken (.disconnect r) s)
    (hstep : step (.disconnect r) s = some s') : s'.Sound := by
  rw [step, rtableDisconnect] at hstep
  cases hrtable : s.rtable r with
  | none =>
    rw [hrtable] at hstep
    obtain rfl := Option.some.inj hstep
    exact h
  | some rtable =>
    rw [hrtable] at hstep
    obtain ⟨hsound, hcloses, hsame⟩ := h.networkClose hrtable (hok rtable hrtable)
    have hrelease := hsound.release ((congrFun hsame r).trans hrtable) hcloses
    rw [hsame] at hrelease
    cases hreleased : rtable.released with
    | true =>
      have hlive : rtable.live = .error .useAfterFree := if_pos hreleased
      dsimp only at hstep
      rw [hlive] at hstep
      cases hstep
    | false =>
      have hlive : rtable.live = .ok rtable.toRtable := Rtable.live_ok hreleased
      dsimp only at hstep
      rw [hlive] at hstep
      obtain rfl := Option.some.inj hstep
      exact hrelease

/-- An attempt that opens nothing. -/
theorem Sound.skip (h : s.Sound) : { s with attempts := s.attempts + 1 }.Sound where
  kept := h.kept
  once := h.once
  dropped := h.dropped
  released := h.released
  own := h.own
  fresh := h.fresh
  unchanged := h.unchanged
  later r hr := h.later r ((Nat.le_succ _).trans hr)
  idle := h.idle
  numbered := h.numbered

/-- `network_connect` has returned -1. -/
theorem Sound.fail (h : s.Sound) {before : Descriptors SocketOwner}
    (hsame : ∀ fd, (before fd).isSome = (s.owner fd).isSome) :
    { s with failed := (before, s.owner) :: s.failed }.Sound where
  kept := h.kept
  once := h.once
  dropped := h.dropped
  released := h.released
  own := h.own
  fresh := h.fresh
  unchanged before' after hmem := by
    rcases List.mem_cons.1 hmem with heq | hmem
    · obtain ⟨rfl, rfl⟩ := Prod.mk.inj heq
      exact hsame
    · exact h.unchanged before' after hmem
  later := h.later
  idle := h.idle
  numbered := h.numbered

/-- The attempt has its socket. -/
theorem Sound.connected (h : s.Sound) (hfd : s.owner fd = none) (address : CString) :
    Sound { s.socket s.attempts fd with
      attempts := s.attempts + 1
      rtable := Function.update s.rtable s.attempts (some ⟨⟨address, false⟩, fd⟩) } := by
  refine .of_attempts (fun r => ?_) (fun r hr => ?_) h.own h.fresh h.unchanged
  · by_cases hne : r = s.attempts
    · subst hne
      exact .of_open (Function.update_self ..) (h.idle _ (h.later _ le_rfl)).1
        (Descriptors.opened_self _) (Function.update_self ..) rfl rfl
    · refine (h.ofAttempt r).frame (Function.update_of_ne hne ..) rfl
        (Function.update_of_ne hne ..) ?_
      intro fd' howner
      exact Descriptors.opened_of_open hfd howner
  · exact (Function.update_of_ne (Nat.ne_of_gt hr) ..).trans (h.later r ((Nat.le_succ _).trans hr))

/-- The socket of the attempt is closed at once. -/
theorem Sound.givenUp (h : s.Sound) (hfd : s.owner fd = none) :
    Sound { (s.socket s.attempts fd).close s.attempts fd with attempts := s.attempts + 1 } ∧
      ((s.socket s.attempts fd).close s.attempts fd).owner = s.owner := by
  have hidle := h.idle _ (h.later _ le_rfl)
  have hnumber : (s.socket s.attempts fd).number s.attempts = some fd := Function.update_self ..
  have hsame : ((s.socket s.attempts fd).close s.attempts fd).owner = s.owner :=
    Descriptors.closed_opened hfd
  have hcloses := close_closes hnumber
  refine ⟨.of_attempts (fun r => ?_) (fun r hr => ?_) ?_ h.fresh h.unchanged, hsame⟩
  · by_cases hne : r = s.attempts
    · subst hne
      refine .of_closed hnumber ?_ fun rtable hsome => ?_
      · rw [hcloses, Function.update_self]
        exact congrArg (· + 1) hidle.1
      · exact absurd (hidle.2.symm.trans hsome) (by simp)
    · refine (h.ofAttempt r).frame (Function.update_of_ne hne ..) ?_ rfl fun fd' howner => ?_
      · rw [hcloses, Function.update_of_ne hne]
        rfl
      · exact (congrFun hsame fd').trans howner
  · exact (Function.update_of_ne (Nat.ne_of_gt hr) ..).trans (h.later r ((Nat.le_succ _).trans hr))
  · have howner : (s.socket s.attempts fd).owner fd = some (.socket s.attempts) :=
      Descriptors.opened_self _
    change (s.foreign || (s.socket s.attempts fd).owner.foreign fd (.socket s.attempts)) = false
    rw [Descriptors.foreign_of_open howner, h.own]
    rfl

/-- What an unbroken attempt to connect does with a new socket. -/
theorem networkConnect_cases {sockfd : Int} {outcome : ConnectOutcome}
    (hsocket : outcome.socket = some fd)
    (hok : sockfd = fd ∨ 1 ≤ outcome.inetPton ∧ 0 ≤ outcome.connect) :
    s.networkConnect r sockfd outcome = ((0, (fd : Int)), s.socket r fd) ∨
      s.networkConnect r sockfd outcome = ((-1, sockfd), (s.socket r fd).close r fd) := by
  have hclose : sockfd = fd →
    (s.socket r fd).networkClose r sockfd = (s.socket r fd).close r fd := by
    rintro rfl
    rfl
  rw [networkConnect, hsocket]
  dsimp only
  split_ifs
  · right
    rw [hclose (by omega)]
  · right
    rw [hclose (by omega)]
  · exact .inl rfl

theorem Sound.connect {addressPort : Option CString} {sockfd : Int} {outcome : ConnectOutcome}
    (h : s.Sound) (hok : Unbroken (.connect addressPort sockfd outcome) s)
    (hstep : step (.connect addressPort sockfd outcome) s = some s') : s'.Sound := by
  rw [step] at hstep
  split_ifs at hstep with hlowest
  obtain rfl := Option.some.inj hstep
  cases addressPort with
  | none => exact h.skip
  | some address =>
    rw [rtableConnect]
    cases hsocket : outcome.socket with
    | none =>
      have hconnect : s.networkConnect s.attempts sockfd outcome = ((-1, sockfd), s) := by
        rw [networkConnect, hsocket]
      rw [hconnect]
      exact h.skip.fail fun _ => rfl
    | some fd =>
      have hfd : s.owner fd = none := (hlowest fd hsocket).1
      rcases networkConnect_cases (s := s) (r := s.attempts) hsocket (hok (by simp) fd hsocket) with
        hconnect | hconnect
      · rw [hconnect]
        exact h.connected hfd address
      · obtain ⟨hsound, hsame⟩ := h.givenUp hfd
        rw [hconnect]
        refine hsound.fail fun fd' => ?_
        exact congrArg (fun owner => (owner fd').isSome) hsame.symm

/-! ## The rest of the process -/

/-- Descriptors that no stub has. -/
theorem Sound.setOwner {owner : Descriptors SocketOwner} (h : s.Sound)
    (hkept : ∀ r fd, s.owner fd = some (.socket r) → owner fd = some (.socket r)) :
    { s with owner := owner }.Sound where
  kept r fd hnumber hopen := hkept r fd (h.kept r fd hnumber hopen)
  once := h.once
  dropped := h.dropped
  released := h.released
  own := h.own
  fresh := h.fresh
  unchanged := h.unchanged
  later := h.later
  idle := h.idle
  numbered := h.numbered

theorem Sound.step {l : SocketStep} (h : s.Sound) (hok : Unbroken l s)
    (hstep : step l s = some s') : s'.Sound := by
  cases l with
  | connect addressPort sockfd outcome => exact h.connect hok hstep
  | operate r op sent received => exact h.operate hok hstep
  | disconnect r => exact h.disconnect hok hstep
  | openOther fd =>
    rw [Sockets.step] at hstep
    split_ifs at hstep with hlowest
    obtain rfl := Option.some.inj hstep
    apply h.setOwner
    intro r fd' howner
    exact Descriptors.opened_of_open hlowest.1 howner
  | closeOther fd =>
    rw [Sockets.step] at hstep
    split_ifs at hstep with hother
    obtain rfl := Option.some.inj hstep
    apply h.setOwner
    intro r fd' howner
    exact Descriptors.closed_of_open howner hother (by simp)

/-! ## The life cycle -/

theorem lifeCycle_of_reachable {s : Sockets} (h : socketSystem.ReachableUnder Unbroken s) :
    s.LifeCycle := by
  have hsound : s.Sound := by
    refine h.invariant (I := Sound) ?_ ?_
    · intro s hstart
      exact Start.sound hstart
    · intro l s s' hsound hok hstep
      exact hsound.step hok hstep
  exact hsound.toLifeCycle

/-! ## A connection that goes well, and two that fail -/

/-- Input and output, and no attempt to connect. -/
def console : Sockets where
  owner fd := if fd < 3 then some .other else none
  attempts := 0
  rtable _ := none
  number _ := none
  closes _ := 0
  foreign := false
  stale := false
  failed := []

theorem console_start : console.Start where
  owner fd r := by
    change (if fd < 3 then some SocketOwner.other else none) ≠ some (SocketOwner.socket r)
    split_ifs <;> simp
  rtable _ := rfl
  number _ := rfl
  closes _ := rfl
  foreign := rfl
  stale := rfl
  failed := rfl

/-- The attempt gets descriptor 3, and the field of its `rtable` holds 1 before that. -/
def connectStep (connect : Int) : SocketStep := .connect (some .empty) 1 ⟨some 3, 1, connect⟩

/-- An exchange of attempt 0 whose `write` has the result `sent`. -/
def sizeStep (sent : Int) : SocketStep := .operate 0 .size sent (some sizeRequest, false)

theorem lifeCycle_served :
    ∃ s, socketSystem.run [connectStep 0, sizeStep 2, .disconnect 0] console = some s ∧
      s.closes 0 = 1 ∧ s.owner 3 = none ∧ s.LifeCycle := by
  have hmeets : socketSystem.RunMeets Unbroken
    [connectStep 0, sizeStep 2, .disconnect 0] console := by
    decide
  refine ⟨_, rfl, rfl, rfl, lifeCycle_of_reachable ?_⟩
  exact LTS.ReachableUnder.run (.init console_start) hmeets rfl

/-- The server refuses the connection. `network_connect` closes the output of the
    process and leaves the new socket open. -/
theorem not_lifeCycle_refused :
    ∃ s, socketSystem.Reachable s ∧ s.owner 1 = none ∧ s.owner 3 = some (.socket 0) ∧
      s.rtable 0 = none ∧ s.foreign = true ∧ ¬ s.LifeCycle := by
  have hrun : ∃ s, socketSystem.run [connectStep (-1)] console = some s ∧ s.owner 1 = none ∧
      s.owner 3 = some (.socket 0) ∧ s.rtable 0 = none ∧ s.foreign = true :=
    ⟨_, rfl, rfl, rfl, rfl, rfl⟩
  obtain ⟨s, hrun, hclosed, hopen, hnull, hforeign⟩ := hrun
  refine ⟨s, LTS.reachable_of_run console_start hrun, hclosed, hopen, hnull, hforeign, ?_⟩
  intro h
  exact absurd (h.own.symm.trans hforeign) Bool.false_ne_true

/-- An exchange fails and closes the socket, its number goes to the next attempt, and the
    process tries again with the first one. -/
example : (socketSystem.run [connectStep 0, sizeStep (-1), connectStep 0, sizeStep 2] console).map
    (fun s => (s.stale, s.foreign)) = some (true, true) := rfl

end Sockets

end ChainTable
