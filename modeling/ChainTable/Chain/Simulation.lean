-- SUMMARY: The relation between a chain and the relay that it is, and the calls of the threads that serve updates.
import ChainTable.Chain.Node

open Base

/-!
# Chains as relays

Each state of the chain corresponds to a state of a relay, in which a thread is only as
far as its protocol says. A call of a thread that serves an update is a step of the
relay, or nothing that the relay sees.
-/

namespace ChainTable

open Calls Relay

variable {κ ρ : Type}

/-! ## The relation -/

/-- A thread and the worker that it is in the relay. -/
inductive WorkerRel (last : ℕ) (w : Worker κ) :
    Option UpdateThread → Option (Relay.Task Update) → Prop where
  | idle : WorkerRel last w none none
  | busy {thread : UpdateThread} {t : Relay.Task Update} (q : Point) (hnode : w.node ≤ last)
      (hbytes : t.update.hasBytes)
      (hfollows : thread.prog.Follows (updateProtocol (w.node = last) t.update) Served q)
      (hstage : q.stage = t.stage)
      (hlogged : ¬ t.stage.Early → thread.logged = some (t.position, t.update)) :
      WorkerRel last w (some thread) (some t)

structure ChannelRel (channel : Channel) (wire : Wire Update) : Prop where
  requests : channel.requests = wire.requests.map Update.request
  bytes : ∀ u ∈ wire.requests, u.hasBytes
  responses : channel.responses.length = wire.replies

/-- What a read has seen of the last server: the updates up to some point, with all
    that were acknowledged before. -/
structure Seen (log : List Update) (acked : List (ℕ × Update)) (snapshot : List Update) :
    Prop where
  isPrefix : snapshot <+: log
  acked : ∀ p u, (p, u) ∈ acked → snapshot[p]? = some u

/-- A thread that serves a read: once it has looked at the table it knows the value. -/
structure ReaderRel (m : Spec.Map) (log : List Update) (acked : List (ℕ × Update))
    (thread : ReadThread) (q : ReadPoint) : Prop where
  follows : thread.prog.Follows (readProtocol thread.request) (ReadServed thread.request) q
  acked : ∀ x ∈ thread.acked, x ∈ acked
  seen : ∀ value, q = .read value → Seen log thread.acked thread.snapshot
  value : ∀ value key, q = .read value → thread.request = .get key →
    value = (Spec.replay thread.snapshot m).lookup key

structure AnswerRel (m : Spec.Map) (log : List Update) (answer : ReadAnswer) : Prop where
  seen : Seen log answer.acked answer.snapshot
  value : ∀ key, answer.request = .get key →
    answer.response.Carries ((Spec.replay answer.snapshot m).lookup key)

/-- A chain and the relay that it is. -/
structure Simulates (last : ℕ) (m : Spec.Map) (s : Chain κ ρ) (a : Relay.State κ Update) :
    Prop where
  node : ∀ i ≤ last, (s.node i).Good last m i (a.log i)
  lock : ∀ i ≤ last, ((s.node i).locks .table).writerActive = false → a.Free i
  channel : ∀ i < last, ChannelRel (s.channel i) (a.wire i)
  worker : ∀ w, WorkerRel last w (s.worker w) (a.task w)
  acked : s.acked = a.acked
  reader : ∀ r thread, s.reader r = some thread → ∃ q, ReaderRel m (a.log last) a.acked thread q
  answers : ∀ answer ∈ s.answers, AnswerRel m (a.log last) answer
  running : s.failed = false

theorem Seen.mono {log log' : List Update} {acked : List (ℕ × Update)} {snapshot : List Update}
    (h : Seen log acked snapshot) (hgrows : log <+: log') : Seen log' acked snapshot :=
  ⟨h.isPrefix.trans hgrows, h.acked⟩

theorem ReaderRel.mono {m : Spec.Map} {log log' : List Update} {acked acked' : List (ℕ × Update)}
    {thread : ReadThread} {q : ReadPoint} (h : ReaderRel m log acked thread q)
    (hgrows : log <+: log') (hacked : ∀ x ∈ acked, x ∈ acked') :
    ReaderRel m log' acked' thread q where
  follows := h.follows
  acked x hx := hacked x (h.acked x hx)
  seen value hq := (h.seen value hq).mono hgrows
  value := h.value

theorem AnswerRel.mono {m : Spec.Map} {log log' : List Update} {answer : ReadAnswer}
    (h : AnswerRel m log answer) (hgrows : log <+: log') : AnswerRel m log' answer :=
  ⟨h.seen.mono hgrows, h.value⟩

section Step

variable {last : ℕ} {m : Spec.Map} {s s' : Chain κ ρ} {a a' : Relay.State κ Update}

theorem simulates_start (h : s.Start last m) :
    Simulates last m s ⟨fun _ => [], fun _ => none, fun _ => ⟨[], 0⟩, []⟩ where
  node i hi := ⟨h.applied i, h.table i hi, h.stats i hi, h.path i hi, h.connected i⟩
  lock i hi _ w t _ ht := by cases ht
  channel i hi := by
    rw [h.channel i]
    exact ⟨rfl, nofun, rfl⟩
  worker w := by
    rw [h.worker w]
    exact .idle
  acked := h.acked
  reader r thread hthread := by
    rw [h.reader r] at hthread
    cases hthread
  answers answer hanswer := by
    rw [h.answers] at hanswer
    cases hanswer
  running := h.running

/-- A thread of the chain at its next call. -/
structure AtCall (last : ℕ) (s : Chain κ ρ) (a : Relay.State κ Update) (w : Worker κ)
    (op : ServerCall) (k : op.Res → Prog Calls (MessageT × Int)) (logged : Option (ℕ × Update))
    (t : Relay.Task Update) (q : Point) : Prop where
  thread : s.worker w = some ⟨.call (S := Calls) op k, logged⟩
  task : a.task w = some t
  node : w.node ≤ last
  bytes : t.update.hasBytes
  next : ∀ r, Expected (w.node = last) op r →
    (k r).Follows (updateProtocol (w.node = last) t.update) Served (q.next op r)
  stage : q.stage = t.stage
  logged : ¬ t.stage.Early → logged = some (t.position, t.update)

variable {w : Worker κ} {op : ServerCall} {k : op.Res → Prog Calls (MessageT × Int)}
  {logged : Option (ℕ × Update)} {t : Relay.Task Update} {q : Point} {time : Timeval}

theorem AtCall.task_eq (hcall : AtCall last s a w op k logged t q) :
    a.task w = some ⟨q.stage, t.update, t.position⟩ := by
  rw [hcall.stage]
  exact hcall.task

/-- The thread that makes a call follows its protocol. -/
theorem Simulates.atCall (h : Simulates last m s a)
    (hthread : s.worker w = some ⟨.call (S := Calls) op k, logged⟩) :
    ∃ t q, AtCall last s a w op k logged t q ∧
      (op.Neutral ∨ q.Makes (w.node = last) t.update op) := by
  have hworker := h.worker w
  rw [hthread] at hworker
  generalize htask : a.task w = task at hworker
  cases hworker with
  | busy q hnode hbytes hfollows hstage hlogged =>
    exact ⟨_, q, ⟨hthread, htask, hnode, hbytes, hfollows.2, hstage, hlogged⟩, hfollows.1⟩

/-- A worker that has the lock keeps the others out. -/
theorem Simulates.writerActive (h : Simulates last m s a) (hnode : w.node ≤ last)
    (htask : a.task w = some t) (hholds : t.stage.Holds) :
    ((s.node w.node).locks .table).writerActive ≠ false :=
  fun hwriter => h.lock _ hnode hwriter w t rfl htask hholds

variable [DecidableEq κ]

/-- A call of a worker changes its server, the connection of that to the next one, and
    the worker itself. -/
theorem Simulates.call_step (h : Simulates last m s a) {w : Worker κ} (hw : w.node ≤ last)
    {node : Node} {channel : Channel} {thread : UpdateThread}
    (hnode : node.Good last m w.node (a'.log w.node))
    (hlock : (node.locks .table).writerActive = false → a'.Free w.node)
    (hchannel : w.node < last → ChannelRel channel (a'.wire w.node))
    (hworker : WorkerRel last w (some thread) (a'.task w))
    (hlogs : ∀ i ≠ w.node, a'.log i = a.log i) (hwires : ∀ i ≠ w.node, a'.wire i = a.wire i)
    (htasks : ∀ w' ≠ w, a'.task w' = a.task w') (hacked : a'.acked = a.acked)
    (hgrows : ∀ i, a.log i <+: a'.log i) :
    Simulates last m (((s.setNode w.node node).setChannel w.node channel).setWorker w
      (some thread)) a' where
  node i hi := by
    by_cases hiw : i = w.node
    · subst hiw
      simpa [Chain.setNode, Chain.setChannel, Chain.setWorker] using hnode
    · simpa [Chain.setNode, Chain.setChannel, Chain.setWorker, hiw, hlogs i hiw] using h.node i hi
  lock i hi hwriter := by
    by_cases hiw : i = w.node
    · subst hiw
      exact hlock (by simpa [Chain.setNode, Chain.setChannel, Chain.setWorker] using hwriter)
    -- the lock of another server, so of none that this worker can hold
    · have hfree := h.lock i hi
        (by simpa [Chain.setNode, Chain.setChannel, Chain.setWorker, hiw] using hwriter)
      intro w' t hw' ht
      have hne : w' ≠ w := by
        rintro rfl
        exact hiw hw'.symm
      rw [htasks w' hne] at ht
      exact hfree w' t hw' ht
  channel i hi := by
    by_cases hiw : i = w.node
    · subst hiw
      simpa [Chain.setNode, Chain.setChannel, Chain.setWorker] using hchannel hi
    · simpa [Chain.setNode, Chain.setChannel, Chain.setWorker, hiw, hwires i hiw]
        using h.channel i hi
  worker w' := by
    by_cases hww : w' = w
    · subst hww
      simpa [Chain.setWorker] using hworker
    · simpa [Chain.setNode, Chain.setChannel, Chain.setWorker, hww, htasks w' hww] using h.worker w'
  acked := h.acked.trans hacked.symm
  reader r thread hr := by
    obtain ⟨q, hq⟩ := h.reader r thread hr
    exact ⟨q, hq.mono (hgrows last) fun x hx => hacked ▸ hx⟩
  answers answer hanswer := (h.answers answer hanswer).mono (hgrows last)
  running := h.running

theorem Chain.stepCall_call {w : Worker κ} {op : ServerCall}
    {k : op.Res → Prog Calls (MessageT × Int)} {logged : Option (ℕ × Update)}
    (hw : s.worker w = some ⟨.call (S := Calls) op k, logged⟩) (time : Timeval) :
    s.stepCall w time =
      match (s.node w.node).perform time (s.channel w.node) op with
      | none => none
      | some (.error _) => some s.fail
      | some (.ok (r, node, channel)) =>
        some (((s.setNode w.node node).setChannel w.node channel).setWorker w
          (some ⟨k r, (op.update?.map fun u => ((s.node w.node).applied.length, u)) <|> logged⟩)) := by
  unfold Chain.stepCall
  rw [hw]
  rfl

/-- Calls that the relay does not see. -/
theorem Simulates.quiet_step (h : Simulates last m s a) (hcall : AtCall last s a w op k logged t q)
    {r : op.Res} {node : Node} (hlike : (s.node w.node).Like node)
    (hexpected : Expected (w.node = last) op r) (hstage : (q.next op r).stage = q.stage)
    (hupdate : op.update? = none) :
    Simulates last m (((s.setNode w.node node).setChannel w.node (s.channel w.node)).setWorker w
      (some ⟨k r, (op.update?.map fun u => ((s.node w.node).applied.length, u)) <|> logged⟩)) a := by
  refine h.call_step hcall.node ((h.node _ hcall.node).like hlike) ?_ (fun hw => h.channel _ hw) ?_
    (fun _ _ => rfl) (fun _ _ => rfl) (fun _ _ => rfl) rfl fun _ => List.prefix_rfl
  · rw [hlike.writer]
    exact h.lock _ hcall.node
  · rw [hcall.task]
    refine .busy (q.next op r) hcall.node hcall.bytes (hcall.next r hexpected)
      (hstage.trans hcall.stage) fun hearly => ?_
    rw [hupdate]
    exact hcall.logged hearly

/-- A call on the way to the next stage changes the task of the worker. -/
theorem AtCall.worker_setTask (hcall : AtCall last s a w op k logged t q) {r : op.Res}
    (hexpected : Expected (w.node = last) op r) (b : Relay.State κ Update) {stage : Stage}
    {position : ℕ} {logged' : Option (ℕ × Update)} (hstage : (q.next op r).stage = stage)
    (hlogged : ¬ stage.Early → logged' = some (position, t.update)) :
    WorkerRel last w (some ⟨k r, logged'⟩)
      ((b.setTask w (some ⟨stage, t.update, position⟩)).task w) := by
  rw [State.task_setTask_self]
  exact .busy (q.next op r) hcall.node hcall.bytes (hcall.next r hexpected) hstage hlogged

theorem AtCall.not_blocked (hcall : AtCall last s a w op k logged t q)
    (hstep : s.stepCall w time = some s') :
    (s.node w.node).perform time (s.channel w.node) op ≠ none := by
  intro hblocked
  rw [Chain.stepCall_call hcall.thread, hblocked] at hstep
  cases hstep

theorem AtCall.returns (hcall : AtCall last s a w op k logged t q)
    (hstep : s.stepCall w time = some s') {r : op.Res} {node : Node} {channel : Channel}
    (hperform : (s.node w.node).perform time (s.channel w.node) op =
      some (.ok (r, node, channel))) :
    s' = ((s.setNode w.node node).setChannel w.node channel).setWorker w
      (some ⟨k r, (op.update?.map fun u => ((s.node w.node).applied.length, u)) <|> logged⟩) := by
  rw [Chain.stepCall_call hcall.thread, hperform] at hstep
  exact (Option.some.inj hstep).symm

/-! ## The calls of a worker -/

theorem Expected.of_neutral {isLast : Bool} (hop : op.Neutral) (r : op.Res) :
    Expected isLast op r := by
  cases op with
  | tablePut key value => exact absurd hop id
  | tableRemove key => exact absurd hop id
  | nextServerNodePath => exact absurd hop id
  | nextServerRtable => exact absurd hop id
  | messageSendAll rtable msg => exact absurd hop id
  | messageReceiveAll rtable => exact absurd hop id
  | _ => trivial

theorem ServerCall.update?_of_neutral (hop : op.Neutral) : op.update? = none := by
  cases op with
  | tablePut key value => exact absurd hop id
  | tableRemove key => exact absurd hop id
  | _ => rfl

theorem Simulates.neutral_step (h : Simulates last m s a)
    (hcall : AtCall last s a w op k logged t q) (hop : op.Neutral)
    (hstep : s.stepCall w time = some s') : Simulates last m s' a := by
  rcases Node.perform_neutral (h.node _ hcall.node).stats hop with
    hblocked | ⟨r, node, hperform, hlike⟩
  · exact absurd hblocked (hcall.not_blocked hstep)
  · rw [hcall.returns hstep hperform]
    have hloops : Loops (updateProtocol (w.node = last) t.update) q := updateProtocol_loops q
    have hnext : q.next op r = q := (hloops op hop).2 r
    exact h.quiet_step hcall hlike (.of_neutral hop r) (by rw [hnext])
      (ServerCall.update?_of_neutral hop)

theorem Simulates.lock_step (h : Simulates last m s a)
    (hcall : AtCall last s a w op k logged t .started) (hop : op = .enterWrite .table)
    (hstep : s.stepCall w time = some s') :
    ∃ a', Relay.Step last a a' ∧ Simulates last m s' a' := by
  subst hop
  rcases Node.perform_enterWrite with hblocked | ⟨hwriter, state, hstate, hperform⟩
  · exact absurd hblocked (hcall.not_blocked hstep)
  · rw [hcall.returns hstep hperform]
    refine ⟨_, .lock hcall.task_eq (h.lock _ hcall.node hwriter), ?_⟩
    refine h.call_step hcall.node ((h.node _ hcall.node).setLock _ _) ?_ (fun hw => h.channel _ hw)
      (hcall.worker_setTask trivial a rfl fun hearly => absurd trivial hearly)
      (fun _ _ => rfl) (fun _ _ => rfl) (fun _ hne => State.task_setTask_of_ne _ _ _ hne) rfl
      fun _ => List.prefix_rfl
    intro hfree
    simp [Node.setLock, hstate] at hfree

theorem Simulates.apply_step (h : Simulates last m s a)
    (hcall : AtCall last s a w op k logged t .locked) (hop : op = t.update.call)
    (hstep : s.stepCall w time = some s') :
    ∃ a', Relay.Step last a a' ∧ Simulates last m s' a' := by
  subst hop
  have hgood := h.node _ hcall.node
  obtain ⟨r, node, hperform, hexpected, hgood', hwriter⟩ :=
    hgood.perform_update hcall.bytes (w.node = last)
  rw [hcall.returns hstep hperform]
  have htask := hcall.task_eq
  have hmove : Relay.Step last a _ := .apply htask
  refine ⟨_, hmove, ?_⟩
  refine h.call_step hcall.node ?_ ?_ (fun hw => h.channel _ hw)
    (hcall.worker_setTask hexpected (a.append w.node t.update) ?_ fun _ => ?_) ?_ (fun _ _ => rfl)
    (fun _ hne => State.task_setTask_of_ne _ _ _ hne) rfl ?_
  · rwa [State.log_setTask, State.log_append_self]
  · rw [hwriter]
    exact fun hfree => absurd hfree (h.writerActive hcall.node htask trivial)
  · rw [Point.next_call]
    rfl
  · rw [Update.update?_call hcall.bytes, hgood.applied]
    rfl
  · intro i hi
    rw [State.log_setTask, State.log_append_of_ne _ _ _ hi]
  · exact hmove.log_prefix

theorem Simulates.path_step (h : Simulates last m s a)
    (hcall : AtCall last s a w op k logged t .applied) (hop : op = .nextServerNodePath)
    (hstep : s.stepCall w time = some s') :
    ∃ a', (a' = a ∨ Relay.Step last a a') ∧ Simulates last m s' a' := by
  subst hop
  have hgood := h.node _ hcall.node
  obtain ⟨node, hperform, hlike⟩ := Node.perform_path
  rw [hcall.returns hstep hperform]
  have hexpected : Expected (w.node = last) .nextServerNodePath
      (s.node w.node).server.nextServerNodePath := by
    change _ ↔ decide _ = true
    rw [decide_eq_true_iff]
    exact hgood.path
  have htask := hcall.task_eq
  by_cases hpath : (s.node w.node).server.nextServerNodePath = .empty
  · refine ⟨_, .inr (.skip htask (hgood.path.1 hpath)), ?_⟩
    refine h.call_step hcall.node (hgood.like hlike) ?_ (fun hw => h.channel _ hw)
      (hcall.worker_setTask hexpected a ?_ fun _ => ?_) (fun _ _ => rfl) (fun _ _ => rfl)
      (fun _ hne => State.task_setTask_of_ne _ _ _ hne) rfl fun _ => List.prefix_rfl
    · rw [hlike.writer]
      exact fun hfree => absurd hfree (h.writerActive hcall.node htask trivial)
    · rw [Point.next, if_pos hpath]
      rfl
    · exact hcall.logged (by rw [← hcall.stage]; exact id)
  · refine ⟨a, .inl rfl, h.quiet_step hcall hlike hexpected ?_ rfl⟩
    rw [Point.next, if_neg hpath]
    rfl

theorem Simulates.rtable_step (h : Simulates last m s a) (hw : w.node < last)
    (hcall : AtCall last s a w op k logged t .tested) (hop : op = .nextServerRtable)
    (hstep : s.stepCall w time = some s') : Simulates last m s' a := by
  subst hop
  obtain ⟨node, hperform, hlike⟩ := Node.perform_rtable
  rw [hcall.returns hstep hperform]
  exact h.quiet_step hcall hlike ((h.node _ hcall.node).connected hw) rfl rfl

theorem Simulates.send_step (h : Simulates last m s a) (hw : w.node < last) {rtable : Rtable}
    (hcall : AtCall last s a w op k logged t .connected)
      (hop : op = .messageSendAll rtable t.update.request)
    (hstep : s.stepCall w time = some s') :
    ∃ a', Relay.Step last a a' ∧ Simulates last m s' a' := by
  subst hop
  rw [hcall.returns hstep (Node.perform_send hcall.bytes rtable)]
  have htask := hcall.task_eq
  have hchannel := h.channel _ hw
  refine ⟨_, .send htask hw, ?_⟩
  refine h.call_step hcall.node (h.node _ hcall.node) ?_ (fun _ => ?_)
    (hcall.worker_setTask rfl _ rfl fun _ => ?_) (fun _ _ => rfl) ?_
    (fun _ hne => State.task_setTask_of_ne _ _ _ hne) rfl fun _ => List.prefix_rfl
  · exact fun hfree => absurd hfree (h.writerActive hcall.node htask trivial)
  · rw [State.wire_setTask, State.wire_setWire_self]
    refine ⟨?_, ?_, hchannel.responses⟩
    · rw [List.map_append, ← hchannel.requests]
      rfl
    · intro u hu
      rcases List.mem_append.1 hu with hu | hu
      · exact hchannel.bytes u hu
      · rw [List.mem_singleton.1 hu]
        exact hcall.bytes
  · exact hcall.logged (by rw [← hcall.stage]; exact id)
  · intro i hi
    rw [State.wire_setTask, State.wire_setWire_of_ne _ _ _ hi]

theorem Simulates.receive_step (h : Simulates last m s a) (hw : w.node < last) {rtable : Rtable}
    (hcall : AtCall last s a w op k logged t .waiting) (hop : op = .messageReceiveAll rtable)
    (hstep : s.stepCall w time = some s') :
    ∃ a', Relay.Step last a a' ∧ Simulates last m s' a' := by
  subst hop
  have hchannel := h.channel _ hw
  have hperform := @Node.perform_receive time (s.node w.node) (s.channel w.node) rtable
  cases hresponses : (s.channel w.node).responses with
  | nil =>
    rw [hresponses] at hperform
    exact absurd hperform (hcall.not_blocked hstep)
  | cons res rest =>
    rw [hresponses] at hperform
    rw [hcall.returns hstep hperform]
    have htask := hcall.task_eq
    have hreplies : (a.wire w.node).replies = rest.length + 1 := by
      rw [← hchannel.responses, hresponses]
      rfl
    refine ⟨_, .receive htask hreplies, ?_⟩
    refine h.call_step hcall.node (h.node _ hcall.node) ?_ (fun _ => ?_)
      (hcall.worker_setTask ⟨res, rfl⟩ _ rfl fun _ => ?_) (fun _ _ => rfl) ?_
      (fun _ hne => State.task_setTask_of_ne _ _ _ hne) rfl fun _ => List.prefix_rfl
    · exact fun hfree => absurd hfree (h.writerActive hcall.node htask trivial)
    · rw [State.wire_setTask, State.wire_setWire_self]
      exact ⟨hchannel.requests, hchannel.bytes, rfl⟩
    · exact hcall.logged (by rw [← hcall.stage]; exact id)
    · intro i hi
      rw [State.wire_setTask, State.wire_setWire_of_ne _ _ _ hi]

theorem Simulates.unlock_step (hreach : Relay.Reachable last a) (h : Simulates last m s a)
    (hcall : AtCall last s a w op k logged t .done) (hop : op = .exitWrite .table)
    (hstep : s.stepCall w time = some s') :
    ∃ a', Relay.Step last a a' ∧ Simulates last m s' a' := by
  subst hop
  rw [hcall.returns hstep rfl]
  have htask := hcall.task_eq
  refine ⟨_, .unlock htask, ?_⟩
  refine h.call_step hcall.node ((h.node _ hcall.node).setLock _ _) (fun _ => ?_)
    (fun hw => h.channel _ hw) (hcall.worker_setTask trivial a rfl fun _ => ?_) (fun _ _ => rfl)
    (fun _ _ => rfl) (fun _ hne => State.task_setTask_of_ne _ _ _ hne) rfl fun _ => List.prefix_rfl
  · refine hreach.invariant.unique.free_of_release htask trivial ?_
    rintro t' ⟨⟩
    exact id
  · exact hcall.logged (by rw [← hcall.stage]; exact id)

theorem Chain.stepCall_some (hstep : s.stepCall w time = some s') :
    ∃ op k logged, s.worker w = some ⟨.call (S := Calls) op k, logged⟩ := by
  cases hworker : s.worker w with
  | none =>
    unfold Chain.stepCall at hstep
    rw [hworker] at hstep
    cases hstep
  | some thread =>
    obtain ⟨prog, logged⟩ := thread
    cases prog with
    | call op k => exact ⟨op, k, logged, rfl⟩
    | ret result =>
      unfold Chain.stepCall at hstep
      rw [hworker] at hstep
      cases hstep

/-- A call of a worker is a step of the relay, or nothing that the relay sees. -/
theorem Simulates.stepCall (hreach : Relay.Reachable last a) (h : Simulates last m s a)
    (hstep : s.stepCall w time = some s') :
    ∃ a', (a' = a ∨ Relay.Step last a a') ∧ Simulates last m s' a' := by
  obtain ⟨op, k, logged, hthread⟩ := Chain.stepCall_some hstep
  obtain ⟨t, q, hcall, hop⟩ := h.atCall hthread
  have hnode : decide (w.node = last) = false → w.node < last :=
    fun hlast => lt_of_le_of_ne hcall.node (of_decide_eq_false hlast)
  have hmoves : (∃ a', Relay.Step last a a' ∧ Simulates last m s' a') →
      ∃ a', (a' = a ∨ Relay.Step last a a') ∧ Simulates last m s' a' := by
    rintro ⟨a', ha', h'⟩
    exact ⟨a', .inr ha', h'⟩
  rcases hop with hneutral | hmakes
  · exact ⟨a, .inl rfl, h.neutral_step hcall hneutral hstep⟩
  cases q with
  | started => exact hmoves (h.lock_step hcall hmakes hstep)
  | locked => exact hmoves (h.apply_step hcall hmakes hstep)
  | applied => exact h.path_step hcall hmakes hstep
  | tested => exact ⟨a, .inl rfl, h.rtable_step (hnode hmakes.1) hcall hmakes.2 hstep⟩
  | connected =>
    obtain ⟨hlast, rtable, hop⟩ := hmakes
    exact hmoves (h.send_step (hnode hlast) hcall hop hstep)
  | waiting =>
    obtain ⟨hlast, rtable, hop⟩ := hmakes
    exact hmoves (h.receive_step (hnode hlast) hcall hop hstep)
  | done => exact hmoves (h.unlock_step hreach hcall hmakes hstep)
  | released => exact absurd hmakes id

end Step

end ChainTable
