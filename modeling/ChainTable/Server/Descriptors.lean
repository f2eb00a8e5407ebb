-- SUMMARY: The descriptors of the connections of a server, which serve_conn closes in its loop and once more behind it.
import ChainTable.Base.Descriptors
import ChainTable.Base.Transition
import ChainTable.Server.Connection

open Base

/-!
# Descriptors of connections

The accept loop hands every connection with its descriptor to a thread of its own. What
the threads get from the network and from `invoke` is left open; of what they do only the
calls on their descriptors count here.
-/

namespace ChainTable

/-! ## The process -/

/-- What an open descriptor stands for. -/
inductive Owner where
  | other
  | conn (c : ℕ)
  deriving DecidableEq

/-- The descriptors of a server process and its threads, each with the number that
    `accept` returned for its connection. The rest is history: how often each thread has
    closed its number, and whether a thread has read, written or closed a number that stood
    for something else. -/
structure Process where
  owner : Descriptors Owner
  accepted : ℕ
  thread : ℕ → Option (ℕ × ServeConn)
  terminated : Bool
  closes : ℕ → ℕ
  foreign : Bool

inductive ProcessStep where
  | accept (fd : ℕ)
  /-- The next call of a thread, with any result that the call may have. -/
  | call (c : ℕ) (answer : (op : ConnCall) → Option op.Res)
  | test (c : ℕ)
  | terminate

namespace Process

def setThread (s : Process) (c fd : ℕ) (conn : ServeConn) : Process :=
  { s with thread := Function.update s.thread c (some (fd, conn)) }

/-- What a call does to the descriptors. -/
def act (s : Process) (c fd : ℕ) : ConnCall → Process
  | .close =>
    { s with
      owner := s.owner.closed fd
      closes := Function.update s.closes c (s.closes c + 1)
      foreign := s.foreign || s.owner.foreign fd (.conn c) }
  | .networkReceive => { s with foreign := s.foreign || s.owner.foreign fd (.conn c) }
  | .networkSend _ => { s with foreign := s.foreign || s.owner.foreign fd (.conn c) }
  | _ => s

def result (s : Process)
    (answer : (op : ConnCall) → Option op.Res) : (op : ConnCall) → Option op.Res
  | .terminated => some s.terminated
  | op => answer op

def call (s : Process) (c : ℕ) (answer : (op : ConnCall) → Option op.Res) :
    ℕ × ServeConn → Option Process
  | (fd, ⟨part, .call op k⟩) =>
    (s.result answer op).map fun r => (s.act c fd op).setThread c fd ⟨part, k r⟩
  | _ => none

def test (s : Process) (c : ℕ) : ℕ × ServeConn → Option Process
  | (_, ⟨.finished, _⟩) => none
  | (fd, ⟨part, .ret processingError⟩) =>
    some (s.setThread c fd (.test part processingError s.terminated))
  | _ => none

def step : ProcessStep → Process → Option Process
  | .accept fd, s =>
    if s.owner.Lowest fd then
      some { s.setThread s.accepted fd .start with
        owner := s.owner.opened fd (.conn s.accepted)
        accepted := s.accepted + 1 }
    else none
  | .call c answer, s => (s.thread c).bind (s.call c answer)
  | .test c, s => (s.thread c).bind (s.test c)
  | .terminate, s => some { s with terminated := true }

/-- No connection yet. -/
structure Start (s : Process) : Prop where
  owner : ∀ fd c, s.owner fd ≠ some (.conn c)
  thread : ∀ c, s.thread c = none
  closes : ∀ c, s.closes c = 0
  foreign : s.foreign = false

/-- Each descriptor belongs to its thread until that closes it, which it does once and has
    done at its end, and no thread has touched another's. -/
structure OneOwner (s : Process) : Prop where
  kept : ∀ c fd conn, s.thread c = some (fd, conn) → s.closes c = 0 → s.owner fd = some (.conn c)
  once : ∀ c, s.closes c ≤ 1
  finished : ∀ c fd prog, s.thread c = some (fd, ⟨.finished, prog⟩) → s.closes c = 1
  own : s.foreign = false

end Process

def processSystem : LTS Process ProcessStep where
  init := Process.Start
  step := Process.step

/-- The next call of thread `c` is the `close` of a round that failed. -/
def Process.closesInLoop (s : Process) (c : ℕ) : Bool :=
  match s.thread c with
  | some (_, ⟨.serving, .call .close _⟩) => true
  | _ => false

/-- The step does not close a connection in the loop of `serve_conn`. -/
def NoErrorBranch : ProcessStep → Process → Prop
  | .call c _, s => s.closesInLoop c = false
  | _, _ => True

instance : (l : ProcessStep) → (s : Process) → Decidable (NoErrorBranch l s)
  | .call c _, s => inferInstanceAs (Decidable (s.closesInLoop c = false))
  | .accept _, _ => .isTrue trivial
  | .test _, _ => .isTrue trivial
  | .terminate, _ => .isTrue trivial

/-! ## What a thread does with its descriptor -/

/-- Whether the descriptor is closed at the end of a part. -/
def Part.leavesClosed : Part → Bool
  | .closing => true
  | .finished => true
  | _ => false

/-- A thread uses its descriptor while it is open and closes it in the closing part. The
    branches of a round that close it are not followed further. -/
def fdProtocol (part : Part) : Prog.Protocol Conn Bool where
  allowed closed op := part ≠ .finished ∧
    match op with
    | .close => closed = false
    | .networkReceive => closed = false
    | .networkSend _ => closed = false
    | _ => True
  expected _ op _ :=
    match op with
    | .close => part ≠ .serving
    | _ => True
  next closed op _ :=
    match op with
    | .close => true
    | _ => closed

/-- From here on the thread closes its descriptor when and where it should. -/
def Tidy (conn : ServeConn) (closed : Bool) : Prop :=
  conn.prog.Follows (fdProtocol conn.part) (fun q _ => q = conn.part.leavesClosed) closed

section Tidy

variable {part : Part} {closed : Bool}

theorem onServer_tidy {α : Type} (hpart : part ≠ .finished) (p : Prog Calls α)
    {final : Bool → α → Prop} (hfinal : ∀ a, final closed a) :
    (onServer p).Follows (fdProtocol part) final closed := by
  induction p with
  | ret a => exact hfinal a
  | call op k ih => exact ⟨⟨hpart, trivial⟩, fun r _ => ih r⟩

theorem start_tidy : Tidy .start false := by
  have hcount : (onServer (changeClientNum 1)).Follows (fdProtocol .opening)
      (fun q _ => q = false) false :=
    onServer_tidy (by decide) _ fun _ => rfl
  exact hcount.bind fun _ _ h => h

theorem round_tidy : Tidy .round false := by
  have hfail : failRound.Follows (fdProtocol .serving) (fun q _ => q = false) false :=
    ⟨⟨by decide, rfl⟩, fun _ h => absurd rfl h⟩
  refine ⟨⟨by decide, rfl⟩, fun received _ => ?_⟩
  cases received with
  | none => exact hfail
  | some msg =>
    have hinvoke : (onServer (invoke msg)).Follows (fdProtocol .serving)
      (fun q _ => q = false) false :=
      onServer_tidy (by decide) _ fun _ => rfl
    refine hinvoke.bind ?_
    rintro _ ⟨res, ret⟩ rfl
    dsimp only
    split_ifs
    · exact hfail
    · refine ⟨⟨by decide, rfl⟩, fun (sent : Int) _ => ?_⟩
      change Prog.Follows _ _ false (if sent ≤ 0 then failRound else .ret false)
      split_ifs
      · exact hfail
      · exact rfl

theorem leave_tidy : Tidy .leave false := by
  refine ⟨⟨by decide, rfl⟩, fun _ _ => ?_⟩
  have hcount : (onServer (changeClientNum (-1))).Follows (fdProtocol .closing)
      (fun q _ => q = true) true :=
    onServer_tidy (by decide) _ fun _ => rfl
  exact hcount.bind fun _ _ h => h

/-- The next part begins as the last one has left the descriptor. -/
theorem test_tidy {processingError : Bool} (hpart : part ≠ .finished)
    (h : Tidy ⟨part, .ret processingError⟩ closed) (terminated : Bool) :
    Tidy (.test part processingError terminated) closed := by
  obtain rfl : closed = part.leavesClosed := h
  have hloops : Tidy (if !processingError && !terminated then .round else .leave) false := by
    split_ifs
    · exact round_tidy
    · exact leave_tidy
  cases part with
  | opening => exact hloops
  | serving => exact hloops
  | closing => exact rfl
  | finished => exact absurd rfl hpart

end Tidy

/-! ## The invariant -/

namespace Process

variable {s s' : Process} {c fd : ℕ} {conn : ServeConn}

/-- Thread `c` has its descriptor as long as it has not closed it. -/
structure Keeps (s : Process) (c fd : ℕ) (conn : ServeConn) (closed : Bool) : Prop where
  tidy : Tidy conn closed
  closes : s.closes c = closed.toNat
  owner : closed = false → s.owner fd = some (.conn c)

structure Owned (s : Process) : Prop where
  fresh : ∀ c, s.accepted ≤ c → s.thread c = none
  idle : ∀ c, s.thread c = none → s.closes c = 0
  keeps : ∀ c fd conn, s.thread c = some (fd, conn) → ∃ closed, s.Keeps c fd conn closed
  own : s.foreign = false

theorem Owned.oneOwner (h : s.Owned) : s.OneOwner where
  kept c fd conn hthread hcloses := by
    obtain ⟨closed, hkeeps⟩ := h.keeps c fd conn hthread
    cases closed with
    | false => exact hkeeps.owner rfl
    | true =>
      rw [hkeeps.closes] at hcloses
      cases hcloses
  once c := by
    cases hthread : s.thread c with
    | none => exact (h.idle c hthread).le.trans zero_le_one
    | some fdConn =>
      obtain ⟨closed, hkeeps⟩ := h.keeps c fdConn.1 fdConn.2 hthread
      exact hkeeps.closes ▸ closed.toNat_le
  finished c fd prog hthread := by
    obtain ⟨closed, hkeeps⟩ := h.keeps c fd _ hthread
    cases prog with
    | ret processingError =>
      obtain rfl : closed = true := hkeeps.tidy
      exact hkeeps.closes
    | call op k => exact absurd rfl hkeeps.tidy.1.1
  own := h.own

/-- A move of thread `c` that leaves the descriptors of the others alone. -/
theorem Owned.moved (h : s.Owned) (c fd : ℕ) (closed : Bool) (hc : s'.accepted ≤ c → False)
    (haccepted : s.accepted ≤ s'.accepted)
    (hthread : s'.thread = Function.update s.thread c (some (fd, conn)))
    (hcloses : ∀ c' ≠ c, s'.closes c' = s.closes c')
    (howner : ∀ c' ≠ c, ∀ fd', s.owner fd' = some (.conn c') → s'.owner fd' = some (.conn c'))
    (hself : s'.Keeps c fd conn closed) (hown : s'.foreign = false) : s'.Owned where
  fresh c' hc' := by
    have hne : c' ≠ c := by
      rintro rfl
      exact hc hc'
    rw [hthread, Function.update_of_ne hne]
    exact h.fresh c' (haccepted.trans hc')
  idle c' hnone := by
    rw [hthread] at hnone
    have hne : c' ≠ c := by
      rintro rfl
      simp at hnone
    rw [Function.update_of_ne hne] at hnone
    rw [hcloses c' hne, h.idle c' hnone]
  keeps c' fd' conn' hsome := by
    rw [hthread] at hsome
    by_cases hne : c' = c
    · subst hne
      obtain ⟨rfl, rfl⟩ : fd = fd' ∧ conn = conn' := by simpa using hsome
      exact ⟨closed, hself⟩
    · rw [Function.update_of_ne hne] at hsome
      obtain ⟨closed', hkeeps⟩ := h.keeps c' fd' conn' hsome
      refine ⟨closed', hkeeps.tidy, ?_, fun hopen => ?_⟩
      · rw [hcloses c' hne, hkeeps.closes]
      · exact howner c' hne fd' (hkeeps.owner hopen)
  own := hown

theorem Owned.lt_accepted (h : s.Owned) (hthread : s.thread c = some (fd, conn)) :
    c < s.accepted := by
  by_contra hc
  rw [h.fresh c (not_lt.1 hc)] at hthread
  cases hthread

theorem Start.owned (h : s.Start) : s.Owned where
  fresh c _ := h.thread c
  idle c _ := h.closes c
  keeps c fd conn hthread := by
    rw [h.thread c] at hthread
    cases hthread
  own := h.foreign

/-! ## The steps -/

theorem Owned.accept (h : s.Owned) (hstep : step (.accept fd) s = some s') : s'.Owned := by
  rw [step] at hstep
  split_ifs at hstep with hlowest
  obtain rfl := Option.some.inj hstep
  have hnone : s.thread s.accepted = none := h.fresh _ le_rfl
  refine h.moved s.accepted fd false (Nat.not_succ_le_self _)
    (Nat.le_succ _) rfl (fun _ _ => rfl) ?_ ⟨start_tidy, h.idle _ hnone, fun _ => ?_⟩ h.own
  · intro c' _ fd' howner
    exact Descriptors.opened_of_open hlowest.1 howner
  · exact Descriptors.opened_self _

/-- A call that leaves the table of descriptors alone. -/
theorem Owned.quietCall {conn' : ServeConn} {closed foreign : Bool} (h : s.Owned)
    (hthread : s.thread c = some (fd, conn)) (hkeeps : s.Keeps c fd conn closed)
    (htidy : Tidy conn' closed) (hown : foreign = false) :
    ({ s with foreign := foreign }.setThread c fd conn').Owned :=
  h.moved c fd closed (h.lt_accepted hthread).not_ge le_rfl rfl
    (fun _ _ => rfl) (fun _ _ _ howner => howner) ⟨htidy, hkeeps.closes, hkeeps.owner⟩ hown

/-- A thread closes the descriptor that it has. -/
theorem Owned.closeCall {conn' : ServeConn} (h : s.Owned) (hthread : s.thread c = some (fd, conn))
    (hkeeps : s.Keeps c fd conn false) (htidy : Tidy conn' true) :
    ((s.act c fd .close).setThread c fd conn').Owned := by
  have howner : s.owner fd = some (.conn c) := hkeeps.owner rfl
  have hcloses : Function.update s.closes c (s.closes c + 1) c = true.toNat := by
    rw [Function.update_self, hkeeps.closes]
    rfl
  refine h.moved c fd true (h.lt_accepted hthread).not_ge le_rfl rfl
    ?_ ?_ ⟨htidy, hcloses, nofun⟩ ?_
  · intro c' hne
    exact Function.update_of_ne hne ..
  · intro c' hne fd' howner'
    refine Descriptors.closed_of_open howner' howner ?_
    intro heq
    exact hne (Owner.conn.inj heq)
  · change (s.foreign || s.owner.foreign fd (.conn c)) = false
    rw [h.own, Descriptors.foreign_of_open howner]
    rfl

theorem Owned.call {answer : (op : ConnCall) → Option op.Res} (h : s.Owned)
    (hok : NoErrorBranch (.call c answer) s) (hstep : step (.call c answer) s = some s') :
    s'.Owned := by
  obtain ⟨⟨fd, part, prog⟩, hthread, hcall⟩ := Option.bind_eq_some_iff.1 hstep
  obtain ⟨closed, hkeeps⟩ := h.keeps c fd _ hthread
  cases prog with
  | ret processingError => cases hcall
  | call op k =>
    obtain ⟨r, -, rfl⟩ := Option.map_eq_some_iff.1 hcall
    obtain ⟨⟨-, hallowed⟩, hrest⟩ := hkeeps.tidy
    -- a call on the descriptor is made while the thread has it
    have hown : closed = false → (s.foreign || s.owner.foreign fd (.conn c)) = false := by
      intro hopen
      rw [h.own, Descriptors.foreign_of_open (hkeeps.owner hopen)]
      rfl
    cases op with
    | server op => exact h.quietCall hthread hkeeps (hrest r trivial) h.own
    | terminated => exact h.quietCall hthread hkeeps (hrest r trivial) h.own
    | networkReceive => exact h.quietCall hthread hkeeps (hrest r trivial) (hown hallowed)
    | networkSend msg => exact h.quietCall hthread hkeeps (hrest r trivial) (hown hallowed)
    | close =>
      obtain rfl : closed = false := hallowed
      have hpart : part ≠ .serving := by
        rintro rfl
        simp [NoErrorBranch, closesInLoop, hthread] at hok
      exact h.closeCall hthread hkeeps (hrest r hpart)

theorem Owned.test (h : s.Owned) (hstep : step (.test c) s = some s') : s'.Owned := by
  obtain ⟨⟨fd, part, prog⟩, hthread, htest⟩ := Option.bind_eq_some_iff.1 hstep
  obtain ⟨closed, hkeeps⟩ := h.keeps c fd _ hthread
  cases prog with
  | call op k => cases part <;> cases htest
  | ret processingError =>
    have hpart : part ≠ .finished := by
      rintro rfl
      cases htest
    obtain rfl : s.setThread c fd (.test part processingError s.terminated) = s' := by
      cases part with
      | finished => exact absurd rfl hpart
      | opening => exact Option.some.inj htest
      | serving => exact Option.some.inj htest
      | closing => exact Option.some.inj htest
    exact h.quietCall hthread hkeeps (test_tidy hpart hkeeps.tidy s.terminated) h.own

theorem Owned.terminate (h : s.Owned) : ({ s with terminated := true } : Process).Owned where
  fresh := h.fresh
  idle := h.idle
  keeps c fd conn hthread := by
    obtain ⟨closed, hkeeps⟩ := h.keeps c fd conn hthread
    exact ⟨closed, hkeeps.tidy, hkeeps.closes, hkeeps.owner⟩
  own := h.own

theorem Owned.step {l : ProcessStep} (h : s.Owned) (hok : NoErrorBranch l s)
    (hstep : step l s = some s') : s'.Owned := by
  cases l with
  | accept fd => exact h.accept hstep
  | call c answer => exact h.call hok hstep
  | test c => exact h.test hstep
  | terminate =>
    obtain rfl := Option.some.inj hstep
    exact h.terminate

/-! ## One owner -/

/-- Where no round closes its connection, every thread closes its descriptor once and
    meets no other one. -/
theorem oneOwner_of_reachable {s : Process} (h : processSystem.ReachableUnder NoErrorBranch s) :
    s.OneOwner := by
  have howned : s.Owned := by
    refine h.invariant (I := Owned) ?_ ?_
    · intro s hstart
      exact Start.owned hstart
    · intro l s s' howned hok hstep
      exact howned.step hok hstep
  exact howned.oneOwner

/-! ## A connection that ends, and one that fails -/

/-- Input and output, and no connection. -/
def console : Process where
  owner fd := if fd < 3 then some .other else none
  accepted := 0
  thread _ := none
  terminated := false
  closes _ := 0
  foreign := false

theorem console_start : console.Start where
  owner fd c := by
    change (if fd < 3 then some Owner.other else none) ≠ some (Owner.conn c)
    split_ifs <;> simp
  thread _ := rfl
  closes _ := rfl
  foreign := rfl

/-- The calls of a thread at a server whose counters are all zero and that is asked for the size
    of its table, or for nothing. -/
def clientCalls (received : Option MessageT) : (op : ConnCall) → Option op.Res
  | .server (.enterRead _) => some ()
  | .server (.exitRead _) => some ()
  | .server (.enterWrite _) => some ()
  | .server (.exitWrite _) => some ()
  | .server (.loadStat _) => some 0
  | .server (.storeStat _ _) => some ()
  | .server .gettimeofday => some ⟨0, 0⟩
  | .server .tableSize => some 0
  | .networkReceive => some received
  | .networkSend _ => some 6
  | .close => some ()
  | _ => none

/-- A client that sends nothing. -/
def silentClient : (op : ConnCall) → Option op.Res := clientCalls none

/-- Thread `c` counts its client, or takes it out of the count. -/
def countClient (c : ℕ) : List ProcessStep := List.replicate 4 (.call c silentClient)

/-- Thread `c` answers a request. -/
def serveSize (c : ℕ) : List ProcessStep :=
  List.replicate 15 (.call c (clientCalls (some sizeRequest)))

/-- Thread `c` leaves its loop. -/
def leaveLoop (c : ℕ) : List ProcessStep :=
  .test c :: .call c silentClient :: countClient c ++ [.test c]

/-- Connection 0 has a request answered before and after connection 1 comes. The server is asked
    to stop, both leave, and in between the number of connection 1 goes to connection 2. -/
def stopped : List ProcessStep :=
  .accept 3 :: countClient 0 ++ .test 0 :: serveSize 0 ++ .test 0 :: .accept 4 :: countClient 1 ++
    .terminate :: leaveLoop 1 ++ .accept 4 :: serveSize 0 ++ leaveLoop 0

theorem oneOwner_stopped :
    ∃ s, processSystem.run stopped console = some s ∧ s.closes 0 = 1 ∧ s.closes 1 = 1 ∧
      s.owner 3 = none ∧ s.owner 4 = some (.conn 2) ∧ s.OneOwner := by
  have hmeets : processSystem.RunMeets NoErrorBranch stopped console := by decide +kernel
  refine ⟨_, rfl, rfl, rfl, rfl, rfl, oneOwner_of_reachable ?_⟩
  exact LTS.ReachableUnder.run (.init console_start) hmeets rfl

/-- The number of connection 0 goes to the next client between the `close` in the loop and
    the one behind it. -/
def reused : List ProcessStep :=
  [.accept 3] ++ countClient 0 ++ [.test 0] ++ List.replicate 3 (.call 0 silentClient) ++
    [.accept 3, .test 0, .call 0 silentClient]

/-- The client of connection 0 is gone, and its thread closes the descriptor of
    connection 1. -/
theorem not_oneOwner_reused :
    ∃ s, processSystem.Reachable s ∧ s.closes 0 = 2 ∧ s.closes 1 = 0 ∧
      s.thread 1 = some (3, .start) ∧ s.owner 3 = none ∧ s.foreign = true ∧ ¬ s.OneOwner := by
  have hrun : ∃ s, processSystem.run reused console = some s ∧ s.closes 0 = 2 ∧ s.closes 1 = 0 ∧
      s.thread 1 = some (3, .start) ∧ s.owner 3 = none ∧ s.foreign = true :=
    ⟨_, rfl, rfl, rfl, rfl, rfl, rfl⟩
  obtain ⟨s, hrun, hcloses, hopen, hthread, howner, hforeign⟩ := hrun
  refine ⟨s, LTS.reachable_of_run console_start hrun, hcloses, hopen, hthread, howner, hforeign, ?_⟩
  intro h
  exact absurd (h.own.symm.trans hforeign) Bool.false_ne_true

end Process

end ChainTable
