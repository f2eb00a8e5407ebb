-- SUMMARY: The direction in which servers forward, and for whose replies the threads wait that hold a table lock meanwhile.
import ChainTable.Zoo.Startup
import ChainTable.Chain.Protocol

open Base

/-!
# The direction of forwards

An update is forwarded inside its write section, and its thread keeps the table lock
until the reply has come. Any number of servers start and run side by side here, each
with threads that are anywhere in `invoke` while the callback moves the pointer to the
successor. Of the calls of a thread only the two that read this pointer and its
connection return what the server has; the others return anything, or nothing.
-/

namespace ChainTable

open Calls

/-! ## Threads that forward -/

/-- What a thread holds: the write lock of the table, and the connection that it has read
    last. -/
structure Holding where
  inSection : Bool
  connection : Option Rtable

namespace Holding

def next (q : Holding) : (op : ServerCall) → op.Res → Holding
  | .enterWrite .table, _ => { q with inSection := true }
  | .exitWrite .table, _ => { q with inSection := false }
  | .nextServerRtable, rtable => { q with connection := rtable }
  | _, _ => q

def Allows (q : Holding) : ServerCall → Prop
  | .messageSendAll rtable _ => q.inSection = true ∧ q.connection = some rtable
  | .messageReceiveAll rtable => q.inSection = true ∧ q.connection = some rtable
  | _ => True

end Holding

/-- Messages are exchanged in a write section, over the connection that was read. -/
def forwardProtocol : Prog.Protocol Calls Holding where
  allowed := Holding.Allows
  expected _ _ _ := True
  next := Holding.next

/-- The program takes a thread from `q` to `q'`. -/
def Brings {α : Type} (p : Prog Calls α) (q q' : Holding) : Prop :=
  p.Follows forwardProtocol (fun r _ => r = q') q

theorem forwardProtocol_loops (q : Holding) : Loops forwardProtocol q := by
  intro op hop
  cases op with
  | enterRead lock => exact ⟨trivial, fun _ => rfl⟩
  | exitRead lock => exact ⟨trivial, fun _ => rfl⟩
  | enterWrite lock =>
    cases lock with
    | table => exact absurd hop id
    | stats => exact ⟨trivial, fun _ => rfl⟩
  | exitWrite lock =>
    cases lock with
    | table => exact absurd hop id
    | stats => exact ⟨trivial, fun _ => rfl⟩
  | hasGlobalStats => exact ⟨trivial, fun _ => rfl⟩
  | loadStat field => exact ⟨trivial, fun _ => rfl⟩
  | storeStat field value => exact ⟨trivial, fun _ => rfl⟩
  | gettimeofday => exact ⟨trivial, fun _ => rfl⟩
  | _ => exact absurd hop id

section Invoke

variable {α β : Type} {q q' : Holding} {final : Holding → α → Prop}

theorem brings_memory (x : C α) (q : Holding) : Brings (memory x) q q := by
  cases x with
  | ok a => exact rfl
  | error f => exact ⟨trivial, nofun⟩

theorem Brings.bind {p : Prog Calls β} {f : β → Prog Calls α} (hp : Brings p q q')
    (hf : ∀ a, (f a).Follows forwardProtocol final q') :
    (p >>= f).Follows forwardProtocol final q := by
  refine Prog.Follows.bind hp ?_
  rintro _ a rfl
  exact hf a

/-- The exchange over the connection that was read. -/
theorem brings_networkSendReceive (hsection : q.inSection = true) (msg : MessageT) :
    Brings (networkSendReceive q.connection msg) q q := by
  cases hconnection : q.connection with
  | none => exact ⟨trivial, fun r _ => r.elim⟩
  | some rtable =>
    cases hreleased : rtable.released with
    | true =>
      have hrtable : rtable.live = .error .useAfterFree := if_pos hreleased
      rw [networkSendReceive, deref_some, memory_ok, Prog.ret_bind, hrtable]
      exact ⟨trivial, fun r _ => r.elim⟩
    | false =>
      rw [networkSendReceive, deref_some, memory_ok, Prog.ret_bind, Rtable.live_ok hreleased,
        memory_ok, Prog.ret_bind]
      refine call_follows ⟨hsection, hconnection⟩ fun sent _ => ?_
      split_ifs
      · exact call_follows trivial fun _ _ => rfl
      · exact call_follows trivial fun _ _ => rfl
      · refine call_follows ⟨hsection, hconnection⟩ fun received _ => ?_
        dsimp only
        split_ifs
        · exact call_follows trivial fun _ _ => rfl
        · exact call_follows trivial fun _ _ => rfl
        · exact rfl

theorem brings_rtablePut (hsection : q.inSection = true) (entry : Entry) :
    Brings (rtablePut q.connection entry) q q := by
  rw [rtablePut]
  split_ifs
  · exact rfl
  · refine (brings_memory _ q).bind fun key => (brings_memory _ q).bind fun value => ?_
    refine (brings_memory _ q).bind fun value => ?_
    exact (brings_networkSendReceive hsection _).bind fun _ => rfl

theorem brings_rtableDel (hsection : q.inSection = true) (key : CString) :
    Brings (rtableDel q.connection key) q q :=
  (brings_networkSendReceive hsection _).bind fun _ => rfl

/-- The forward of an update: the connection is read, and the stub uses it. -/
theorem forwardUpdate_forwards {stub : Option Rtable → Prog Calls Int}
    (hstub : ∀ q : Holding, q.inSection = true → Brings (stub q.connection) q q)
    (hsection : q.inSection = true) :
    (forwardUpdate stub).Follows forwardProtocol (fun r _ => r.inSection = true) q := by
  rw [forwardUpdate]
  refine call_follows trivial fun path _ => ?_
  split_ifs
  · refine call_follows trivial fun rtable _ => ?_
    exact (hstub { q with connection := rtable } hsection).bind fun _ => hsection
  · exact hsection

theorem readSection_forwards {op : ServerCall} {k : op.Res → Prog Calls α}
    (hallowed : q.Allows op) (hnext : ∀ r, q.next op r = q)
    (hk : ∀ r, (k r).Follows forwardProtocol final q) :
    (readSection (call op) >>= k).Follows forwardProtocol final q := by
  simp only [readSection, locked, Prog.bind_assoc]
  refine call_follows trivial fun _ _ => ?_
  have hcounted : Brings (counted (call op)) q q := by
    refine counted_follows (forwardProtocol_loops q) ⟨hallowed, fun r _ => ?_⟩
    have hsame : forwardProtocol.next q op r = q := hnext r
    rw [hsame]
    exact ⟨forwardProtocol_loops q, rfl⟩
  exact hcounted.bind fun r => call_follows trivial fun _ _ => hk r

theorem writeSection_forwards {body : Prog Calls β} {k : β → Prog Calls α}
    (hbody : ∀ q : Holding, q.inSection = true →
      body.Follows forwardProtocol (fun r _ => r.inSection = true) q)
    (hk : ∀ q a, (k a).Follows forwardProtocol final q) :
    (writeSection body >>= k).Follows forwardProtocol final q := by
  simp only [writeSection, locked, Prog.bind_assoc]
  refine call_follows trivial fun _ _ => ?_
  have hcounted : (counted body).Follows forwardProtocol (fun r _ => r.inSection = true)
      { q with inSection := true } := by
    refine counted_follows (forwardProtocol_loops _) ?_
    refine (Prog.bind_ret body) ▸ (hbody _ rfl).bind fun r a hr => ?_
    exact ⟨forwardProtocol_loops r, hr⟩
  refine hcounted.bind fun r a _ => ?_
  exact call_follows trivial fun _ _ => hk _ a

end Invoke

/-- The thread may end in any way. -/
def Ends (_ : Holding) (_ : MessageT × Int) : Prop := True

theorem invokePut_forwards (msg : MessageT) (q : Holding) :
    (invokePut msg).Follows forwardProtocol Ends q := by
  rw [invokePut]
  refine (brings_memory _ q).bind fun entry => (brings_memory _ q).bind fun v => ?_
  refine (brings_memory _ q).bind fun key => ?_
  dsimp only
  split
  · refine writeSection_forwards (fun q hsection => ?_) fun q res => ?_
    · refine call_follows trivial fun res _ => ?_
      exact (forwardUpdate_forwards (fun q hq => brings_rtablePut hq _) hsection).bind
        fun r _ hr => hr
    · split_ifs <;> exact trivial
  · exact trivial

theorem invokeDel_forwards (msg : MessageT) (q : Holding) :
    (invokeDel msg).Follows forwardProtocol Ends q := by
  rw [invokeDel]
  split
  · exact trivial
  · refine writeSection_forwards (fun q hsection => ?_) fun q res => ?_
    · refine call_follows trivial fun res _ => ?_
      exact (forwardUpdate_forwards (fun q hq => brings_rtableDel hq _) hsection).bind
        fun r _ hr => hr
    · split_ifs <;> exact trivial

theorem invokeGet_forwards (msg : MessageT) (q : Holding) :
    (invokeGet msg).Follows forwardProtocol Ends q := by
  rw [invokeGet]
  split
  · exact trivial
  · refine readSection_forwards trivial (fun _ => rfl) fun value => ?_
    split
    · exact (brings_memory _ q).bind fun _ => trivial
    · exact trivial

theorem invokeStats_forwards (msg : MessageT) (q : Holding) :
    (invokeStats msg).Follows forwardProtocol Ends q := by
  rw [invokeStats]
  refine call_follows trivial fun _ _ => call_follows trivial fun present _ => ?_
  split_ifs
  · exact call_follows trivial fun _ _ => trivial
  · exact call_follows trivial fun _ _ => call_follows trivial fun _ _ =>
      call_follows trivial fun _ _ => call_follows trivial fun _ _ => trivial

theorem invoke_forwards (msg : MessageT) (q : Holding) :
    (invoke msg).Follows forwardProtocol Ends q := by
  have hdispatch : (dispatch msg).Follows forwardProtocol Ends q := by
    have hcase := dispatched msg
    generalize dispatch msg = handler at hcase ⊢
    cases hcase with
    | put => exact invokePut_forwards msg q
    | get => exact invokeGet_forwards msg q
    | del => exact invokeDel_forwards msg q
    | size =>
      refine readSection_forwards trivial (fun _ => rfl) fun res => ?_
      split_ifs <;> exact trivial
    | getkeys =>
      refine readSection_forwards trivial (fun _ => rfl) fun keys => ?_
      exact call_follows trivial fun _ _ => trivial
    | gettable =>
      refine readSection_forwards trivial (fun _ => rfl) fun size => ?_
      refine call_follows trivial fun entries _ => ?_
      exact (brings_memory _ q).bind fun _ => trivial
    | stats => exact invokeStats_forwards msg q
    | unknown => exact trivial
  exact hdispatch.bind fun _ _ _ => trivial

/-! ## Servers -/

/-- A thread in `invoke`. `path` is the pointer as it was beside the connection that the
    thread has read. -/
structure Executing where
  prog : Prog Calls (MessageT × Int)
  holding : Holding
  path : CString

/-- A server with its threads. -/
structure Replica (κ : Type) where
  startup : Startup
  thread : κ → Option Executing

/-- The steps of a server. A call may return whatever `outcome` says. -/
inductive ReplicaStep (κ : Type) where
  | startup (l : StartupStep)
  | request (c : κ) (msg : MessageT)
  | call (c : κ) (outcome : (op : ServerCall) → Option op.Res)
  | respond (c : κ)

namespace Replica

variable {κ : Type}

/-- What a call returns, if it does. -/
def answer (s : Replica κ) (outcome : (op : ServerCall) → Option op.Res) :
    (op : ServerCall) → Option op.Res
  | .nextServerNodePath => some s.startup.successor.nextServerNodePath
  | .nextServerRtable => some s.startup.successor.nextServerRtable
  | op => outcome op

/-- The path that a thread has seen after a call. -/
def pathAfter (s : Replica κ) (path : CString) : ServerCall → CString
  | .nextServerRtable => s.startup.successor.nextServerNodePath
  | _ => path

variable [DecidableEq κ]

def setThread (s : Replica κ) (c : κ) (thread : Option Executing) : Replica κ :=
  { s with thread := Function.update s.thread c thread }

@[simp] theorem thread_setThread_self (s : Replica κ) (c : κ) (thread : Option Executing) :
    (s.setThread c thread).thread c = thread := Function.update_self ..

@[simp] theorem thread_setThread_of_ne (s : Replica κ) {c c' : κ} (h : c' ≠ c)
    (thread : Option Executing) : (s.setThread c thread).thread c' = s.thread c' :=
  Function.update_of_ne h ..

/-- Requests are served once the server is running. -/
def step (nodePath : CString) : ReplicaStep κ → Replica κ → Option (Replica κ)
  | .startup l, s => (Startup.step nodePath l s.startup).map fun startup =>
      { s with startup := startup }
  | .request c msg, s =>
    match s.thread c with
    | none =>
      if s.startup.phase = .running then
        some (s.setThread c (some ⟨invoke msg, ⟨false, none⟩, .empty⟩))
      else none
    | some _ => none
  | .call c outcome, s =>
    match s.thread c with
    | some ⟨.call op k, holding, path⟩ =>
      (s.answer outcome op).map fun r =>
        s.setThread c (some ⟨k r, holding.next op r, s.pathAfter path op⟩)
    | _ => none
  | .respond c, s =>
    match s.thread c with
    | some ⟨.ret _, _, _⟩ => some (s.setThread c none)
    | _ => none

/-- A server whose node gets the path `nodePath`. -/
def system (nodePath : CString) : LTS (Replica κ) (ReplicaStep κ) where
  init s := s.startup = .initial ∧ ∀ c, s.thread c = none
  step := step nodePath

/-- The condition on the child events of a start-up. -/
def EarlyEventForward (nodePath : CString) : ReplicaStep κ → Replica κ → Prop
  | .startup l, s => Startup.EarlyEventForward nodePath l s.startup
  | _, _ => True

instance (nodePath : CString) : (l : ReplicaStep κ) → (s : Replica κ) →
    Decidable (EarlyEventForward nodePath l s)
  | .startup l, s => inferInstanceAs (Decidable (Startup.EarlyEventForward nodePath l s.startup))
  | .request _ _, _ => .isTrue trivial
  | .call _ _, _ => .isTrue trivial
  | .respond _, _ => .isTrue trivial

/-- A thread forwards in its section alone, and over a connection that leads forward. -/
structure Proceeds (nodePath : CString) (thread : Executing) : Prop where
  follows : thread.prog.Follows forwardProtocol Ends thread.holding
  path : thread.path = .empty ∨ nodePath < thread.path

structure Forward (nodePath : CString) (s : Replica κ) : Prop where
  startup : Startup.Forward nodePath s.startup
  threads : ∀ c thread, s.thread c = some thread → Proceeds nodePath thread

variable {nodePath : CString} {s s' : Replica κ}

theorem Forward.setThread (h : Forward nodePath s) {c : κ} {thread : Option Executing}
    (hthread : ∀ t, thread = some t → Proceeds nodePath t) :
    Forward nodePath (s.setThread c thread) where
  startup := h.startup
  threads c' t ht := by
    by_cases hc : c' = c
    · subst hc
      rw [thread_setThread_self] at ht
      exact hthread t ht
    · rw [thread_setThread_of_ne s hc] at ht
      exact h.threads c' t ht

/-- A call of a thread, which may read the pointer at any time. -/
theorem Forward.call (h : Forward nodePath s) {c : κ} {op : ServerCall}
    {k : op.Res → Prog Calls (MessageT × Int)} {holding : Holding} {path : CString}
    (hthread : s.thread c = some ⟨.call (S := Calls) op k, holding, path⟩) (r : op.Res) :
    Forward nodePath (s.setThread c (some ⟨k r, holding.next op r, s.pathAfter path op⟩)) := by
  obtain ⟨hfollows, hpath⟩ := h.threads c _ hthread
  refine h.setThread fun t ht => ?_
  obtain rfl := Option.some.inj ht
  refine ⟨hfollows.2 r trivial, ?_⟩
  cases op with
  | nextServerRtable => exact h.startup.next
  | _ => exact hpath

theorem Forward.step {l : ReplicaStep κ} (h : Forward nodePath s)
    (hok : EarlyEventForward nodePath l s) (hstep : step nodePath l s = some s') :
    Forward nodePath s' := by
  cases l with
  | startup l =>
    obtain ⟨startup, hstartup, rfl⟩ := Option.map_eq_some_iff.1 hstep
    exact ⟨h.startup.step hok hstartup, h.threads⟩
  | request c msg =>
    simp only [Replica.step] at hstep
    split at hstep
    · obtain ⟨-, hs'⟩ := Option.ite_none_right_eq_some.1 hstep
      obtain rfl := Option.some.inj hs'
      refine h.setThread fun t ht => ?_
      obtain rfl := Option.some.inj ht
      exact ⟨invoke_forwards msg _, .inl rfl⟩
    · cases hstep
  | call c outcome =>
    simp only [Replica.step] at hstep
    split at hstep
    · rename_i hthread
      obtain ⟨r, -, rfl⟩ := Option.map_eq_some_iff.1 hstep
      exact h.call hthread r
    · cases hstep
  | respond c =>
    simp only [Replica.step] at hstep
    split at hstep
    · obtain rfl := Option.some.inj hstep
      exact h.setThread nofun
    · cases hstep

theorem forward_of_reachable
    (h : (system nodePath).ReachableUnder (EarlyEventForward nodePath) s) : Forward nodePath s := by
  refine h.invariant (fun s hs => ?_) fun _ _ _ hs hok hstep => hs.step hok hstep
  refine ⟨hs.1 ▸ Startup.forward_initial nodePath, fun c thread hthread => ?_⟩
  rw [hs.2 c] at hthread
  cases hthread

end Replica

/-! ## Forwarding among servers -/

section Servers

variable {ι κ : Type}

/-- Server `t` serves requests and forwards its updates to server `u`. -/
def Forwards (s : ι → Replica κ) (t u : ι) : Prop :=
  (s t).startup.phase = .running ∧ (s t).startup.successor.nextServerNodePath ≠ .empty ∧
    (s t).startup.successor.nextServerNodePath = (s u).startup.successor.thisNodePath

/-- A thread of server `t` is at the receiving of a reply, over a connection that it has
    read when the pointer was that to server `u`. -/
def WaitsFor (s : ι → Replica κ) (t u : ι) : Prop :=
  ∃ c rtable k holding path, (s t).thread c =
      some ⟨.call (S := Calls) (.messageReceiveAll rtable) k, holding, path⟩ ∧
    path ≠ .empty ∧ (s u).startup.phase = .running ∧
    path = (s u).startup.successor.thisNodePath

/-- No running server points backwards or to itself, and no chain of forwards leads back
    to where it began. A thread receives only while it holds the table lock, and over the
    connection that it has read; no chain of such waits leads back either, whatever the
    pointers are by now, so that nobody waits for a reply that needs the same lock. -/
structure PointsForward (s : ι → Replica κ) : Prop where
  pointer : ∀ t, (s t).startup.phase = .running →
    (s t).startup.successor.nextServerNodePath = .empty ∨
      (s t).startup.successor.thisNodePath < (s t).startup.successor.nextServerNodePath
  acyclic : ∀ t, ¬ Relation.TransGen (Forwards s) t t
  receives : ∀ t c rtable k holding path, (s t).thread c =
      some ⟨.call (S := Calls) (.messageReceiveAll rtable) k, holding, path⟩ →
    holding.inSection = true ∧ holding.connection = some rtable
  waits : ∀ t, ¬ Relation.TransGen (WaitsFor s) t t

/-- What goes up in an order does not lead back. -/
theorem not_transGen_self {r : ι → ι → Prop} {f : ι → CString} (h : ∀ t u, r t u → f t < f u)
    (t : ι) : ¬ Relation.TransGen r t t := by
  intro hcycle
  have hlt : Relation.TransGen (· < ·) (f t) (f t) := hcycle.lift f h
  rw [Relation.transGen_eq_self] at hlt
  exact lt_irrefl _ hlt

variable [DecidableEq ι] [DecidableEq κ]

/-- Every interleaving of the steps of all servers. -/
def replicaSystem (nodePath : ι → CString) : LTS (ι → Replica κ) (ι × ReplicaStep κ) :=
  LTS.family fun t => Replica.system (nodePath t)

/-- The condition of one server, on the steps of all of them. -/
def EarlyEventsForward (nodePath : ι → CString) (l : ι × ReplicaStep κ)
    (s : ι → Replica κ) : Prop :=
  Replica.EarlyEventForward (nodePath l.1) l.2 (s l.1)

instance (nodePath : ι → CString) (l : ι × ReplicaStep κ) (s : ι → Replica κ) :
    Decidable (EarlyEventsForward nodePath l s) :=
  inferInstanceAs (Decidable (Replica.EarlyEventForward (nodePath l.1) l.2 (s l.1)))

/-- In a run in which all early events point forward, replication never points
    backwards. -/
theorem pointsForward_of_reachable {nodePath : ι → CString} {s : ι → Replica κ}
    (h : (replicaSystem nodePath).ReachableUnder (EarlyEventsForward nodePath) s) :
    PointsForward s := by
  have hforward : ∀ t, Replica.Forward (nodePath t) (s t) := fun t =>
    Replica.forward_of_reachable
      (LTS.ReachableUnder.component (fun t => Replica.EarlyEventForward (nodePath t)) h t)
  refine ⟨fun t hrunning => ?_, not_transGen_self (f := nodePath) ?_, ?_,
    not_transGen_self (f := nodePath) ?_⟩
  · rw [(hforward t).startup.running hrunning]
    exact (hforward t).startup.next
  · rintro t u ⟨-, hne, hnext⟩
    have hlt := (hforward t).startup.next.resolve_left hne
    rw [hnext] at hne hlt
    rwa [(hforward u).startup.own.resolve_left hne] at hlt
  · intro t c rtable k holding path hthread
    exact ((hforward t).threads c _ hthread).follows.1
  -- the pointer may have moved since, but not the path that the thread has seen
  · rintro t u ⟨c, rtable, k, holding, path, hthread, hne, hrunning, rfl⟩
    have hlt := ((hforward t).threads c _ hthread).path.resolve_left hne
    rwa [(hforward u).startup.running hrunning] at hlt

end Servers

/-! ## A removal -/

namespace Replica

/-- A server that has not started, and has one thread. -/
def initial : Replica Unit := ⟨.initial, fun _ => none⟩

theorem initial_init (nodePath : CString) : (system nodePath).init initial := ⟨rfl, fun _ => rfl⟩

end Replica

/-- The path of the node of each server. -/
def pathOf (t : Fin 10) : CString := concatZpath (node t)

/-- The start-up of a server whose calls succeed. -/
def startsUp (t : Fin 10) : List (Fin 10 × ReplicaStep Unit) :=
  [(t, .startup (.wgetChildren true)), (t, .startup (.create true)), (t, .startup .copyPath)]

/-- A child event whose calls succeed. -/
def hearsOf (t : Fin 10) (children : List CString) : Fin 10 × ReplicaStep Unit :=
  (t, .startup (.event ⟨some children, some .empty, true⟩))

/-- Calls that return nothing of interest. -/
def someOutcome : (op : ServerCall) → Option op.Res
  | .enterWrite _ => some ()
  | .exitWrite _ => some ()
  | .loadStat _ => some (0 : Int)
  | .storeStat _ _ => some ()
  | .gettimeofday => some ⟨0, 0⟩
  | .tableRemove _ => some (0 : Int)
  | .messageSendAll _ _ => some (2 : Int)
  | _ => none

/-- A request to remove a key, up to the reply of the next server. -/
def removesKey (t : Fin 10) : List (Fin 10 × ReplicaStep Unit) :=
  (t, .request () (delRequest .empty)) :: List.replicate 10 (t, .call () someOutcome)

/-- Server 0 hears of server 1 and removes a key. -/
def removal : List (Fin 10 × ReplicaStep Unit) :=
  startsUp 0 ++ startsUp 1 ++ hearsOf 0 [node 0, node 1] :: removesKey 0

theorem pointsForward_removal :
    ∃ s : Fin 10 → Replica Unit, WaitsFor s 0 1 ∧ PointsForward s := by
  have hmeets : (replicaSystem pathOf).RunMeets (EarlyEventsForward pathOf) removal
      (fun _ => .initial) := by
    decide
  have hrun : ∃ s, (replicaSystem pathOf).run removal (fun _ => .initial) = some s ∧
      WaitsFor s 0 1 := by
    refine ⟨_, rfl, (), _, _, _, _, rfl, ?_, rfl, rfl⟩
    exact concatZpath_ne_empty _
  obtain ⟨s, hrun, hwaits⟩ := hrun
  have hreach := LTS.ReachableUnder.run (.init fun t => Replica.initial_init (pathOf t)) hmeets hrun
  exact ⟨s, hwaits, pointsForward_of_reachable hreach⟩

/-- Server 0 hears of its own node before it knows that this is its own. -/
def removalFromItself : List (Fin 10 × ReplicaStep Unit) :=
  [(0, .startup (.wgetChildren true)), (0, .startup (.create true)), hearsOf 0 [node 0],
    (0, .startup .copyPath)] ++ removesKey 0

/-- It forwards to itself, and the thread that has the table lock waits for its own server. -/
theorem not_pointsForward_itself :
    ∃ (nodePath : Fin 10 → CString) (s : Fin 10 → Replica Unit),
      (replicaSystem nodePath).Reachable s ∧ Forwards s 0 0 ∧ WaitsFor s 0 0 ∧
        ¬ PointsForward s := by
  have hrun : ∃ s, (replicaSystem pathOf).run removalFromItself
      (fun _ => .initial) = some s ∧ Forwards s 0 0 ∧ WaitsFor s 0 0 := by
    refine ⟨_, rfl, ⟨rfl, ?_, rfl⟩, (), _, _, _, _, rfl, ?_, rfl, rfl⟩
    · exact concatZpath_ne_empty _
    · exact concatZpath_ne_empty _
  obtain ⟨s, hrun, hforwards, hwaits⟩ := hrun
  refine ⟨_, s, LTS.reachable_of_run (fun t => Replica.initial_init (pathOf t)) hrun,
    hforwards, hwaits, ?_⟩
  exact fun h => h.waits 0 (.single hwaits)

end ChainTable
