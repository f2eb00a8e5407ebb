-- SUMMARY: The remaining steps of a chain, and the agreement of its servers in every reachable state.
import ChainTable.Chain.Simulation

open Base

/-!
# Agreement of a chain

With the requests, the responses and the reads, each step of a chain is a step of the
relay, or nothing that the relay sees. What holds of relays then holds of the servers:
the order of the updates, how far a server may be behind, and where an acknowledged
update is.
-/

namespace ChainTable

open Calls Relay

variable {κ ρ : Type}

/-! ## Requests and responses -/

section Step

variable {last : ℕ} {m : Spec.Map} {s s' : Chain κ ρ} {a a' : Relay.State κ Update}

theorem Simulates.task_eq_none (h : Simulates last m s a) {w : Worker κ}
    (hidle : s.worker w = none) : a.task w = none := by
  have hworker := h.worker w
  rw [hidle] at hworker
  generalize a.task w = task at hworker ⊢
  cases hworker
  rfl

/-- A request makes a thread start. -/
theorem WorkerRel.started {w : Worker κ} (hnode : w.node ≤ last) {u : Update}
    (hbytes : u.hasBytes) :
    WorkerRel last w (some ⟨invoke u.request, none⟩) (some ⟨.started, u, 0⟩) :=
  .busy .started hnode hbytes (invokeUpdate_follows hbytes) rfl fun hearly => absurd trivial hearly

/-- A thread that has returned from `invoke`. -/
theorem Simulates.returned (h : Simulates last m s a) {w : Worker κ} {result : MessageT × Int}
    {logged : Option (ℕ × Update)} (hthread : s.worker w = some ⟨.ret result, logged⟩) :
    ∃ u p, a.task w = some ⟨.released, u, p⟩ ∧ w.node ≤ last ∧ logged = some (p, u) ∧
      0 ≤ result.2 ∧ ∃ res, result.1.unpacked = .ok res := by
  have hworker := h.worker w
  rw [hthread] at hworker
  generalize htask : a.task w = task at hworker
  cases hworker with
  | @busy _ t q hnode hbytes hfollows hstage hlogged =>
    obtain ⟨hq, hret, hunpacked⟩ : Served q result := hfollows
    obtain ⟨stage, u, p⟩ := t
    obtain rfl : Stage.released = stage := by
      subst hq
      exact hstage
    exact ⟨u, p, rfl, hnode, hlogged id, hret, hunpacked⟩

section Messages

variable [DecidableEq κ]

/-- A step that changes one worker and connections, and nothing at the servers. -/
theorem Simulates.message_step (h : Simulates last m s a) (w : Worker κ)
    (hnode : s'.node = s.node) (hreader : s'.reader = s.reader) (hanswers : s'.answers = s.answers)
    (hfailed : s'.failed = s.failed) (hlog : a'.log = a.log)
    (hfree : ∀ i, a.Free i → a'.Free i)
    (hchannel : ∀ i < last, ChannelRel (s'.channel i) (a'.wire i))
    (hworker : WorkerRel last w (s'.worker w) (a'.task w))
    (hothers : ∀ w' ≠ w, s'.worker w' = s.worker w' ∧ a'.task w' = a.task w')
    (hacked : s'.acked = a'.acked) (hgrows : ∀ x ∈ a.acked, x ∈ a'.acked) :
    Simulates last m s' a' where
  node i hi := by
    rw [hnode, hlog]
    exact h.node i hi
  lock i hi hwriter := hfree i (h.lock i hi (hnode ▸ hwriter))
  channel := hchannel
  worker w' := by
    by_cases hww : w' = w
    · subst hww
      exact hworker
    · obtain ⟨hthread, htask⟩ := hothers w' hww
      rw [hthread, htask]
      exact h.worker w'
  acked := hacked
  reader r thread hr := by
    rw [hreader] at hr
    obtain ⟨q, hq⟩ := h.reader r thread hr
    exact ⟨q, hq.mono (hlog ▸ List.prefix_rfl) hgrows⟩
  answers answer hanswer := by
    rw [hanswers] at hanswer
    exact (h.answers answer hanswer).mono (hlog ▸ List.prefix_rfl)
  running := hfailed.trans h.running

theorem Chain.worker_setWorker_of_ne (s : Chain κ ρ) {w w' : Worker κ} (hne : w' ≠ w)
    (thread : Option UpdateThread) : (s.setWorker w thread).worker w' = s.worker w' :=
  Function.update_of_ne hne ..

theorem Simulates.stepRequest (h : Simulates last m s a) {c : κ} {u : Update}
    (hstep : s.stepRequest c u = some s') :
    ∃ a', Relay.Step last a a' ∧ Simulates last m s' a' := by
  unfold Chain.stepRequest at hstep
  cases hidle : s.worker (.client c) with
  | some thread =>
    rw [hidle] at hstep
    cases hstep
  | none =>
    rw [hidle] at hstep
    obtain ⟨hbytes, hsome⟩ := Option.ite_none_right_eq_some.1 hstep
    obtain rfl := Option.some.inj hsome
    refine ⟨_, .start u (h.task_eq_none hidle), ?_⟩
    refine h.message_step (.client c) rfl rfl rfl rfl rfl (fun i hfree => ?_) h.channel ?_ ?_
      h.acked fun _ hx => hx
    · refine hfree.setTask fun _ t' ht' => ?_
      obtain rfl := Option.some.inj ht'
      exact id
    · rw [State.task_setTask_self]
      simpa [Chain.setWorker] using WorkerRel.started (Nat.zero_le last) hbytes
    · exact fun w' hne => ⟨s.worker_setWorker_of_ne hne _, State.task_setTask_of_ne _ _ _ hne⟩

theorem Simulates.stepDeliver (h : Simulates last m s a) {i : ℕ}
    (hstep : s.stepDeliver last i = some s') :
    ∃ a', Relay.Step last a a' ∧ Simulates last m s' a' := by
  unfold Chain.stepDeliver at hstep
  obtain ⟨hi, hstep⟩ := Option.ite_none_right_eq_some.1 hstep
  have hchannel := h.channel i hi
  cases hidle : s.worker (.link i) with
  | some thread =>
    rw [hidle] at hstep
    cases hstep
  | none =>
    cases hrequests : (a.wire i).requests with
    | nil =>
      have hnone : (s.channel i).requests = [] := by rw [hchannel.requests, hrequests]; rfl
      rw [hidle, hnone] at hstep
      cases hstep
    | cons u rest =>
      have hfirst : (s.channel i).requests = u.request :: rest.map Update.request := by
        rw [hchannel.requests, hrequests]
        rfl
      rw [hidle, hfirst] at hstep
      obtain rfl := Option.some.inj hstep
      have hbytes : u.hasBytes := hchannel.bytes u (by simp [hrequests])
      refine ⟨_, .deliver (h.task_eq_none hidle) hrequests, ?_⟩
      refine h.message_step (.link i) rfl rfl rfl rfl rfl (fun j hfree => ?_) (fun j hj => ?_) ?_ ?_
        h.acked fun _ hx => hx
      · refine State.Free.setTask (s := a.setWire i _) hfree fun _ t' ht' => ?_
        obtain rfl := Option.some.inj ht'
        exact id
      · rw [State.wire_setTask]
        by_cases hji : j = i
        · subst hji
          rw [State.wire_setWire_self]
          refine ⟨?_, fun u' hu' => hchannel.bytes u' (by simp [hrequests, hu']), ?_⟩
          · simp [Chain.setWorker, Chain.setChannel]
          · simpa [Chain.setWorker, Chain.setChannel] using hchannel.responses
        · rw [State.wire_setWire_of_ne _ _ _ hji]
          simpa [Chain.setWorker, Chain.setChannel, hji] using h.channel j hj
      · rw [State.task_setTask_self]
        simpa [Chain.setWorker] using WorkerRel.started (w := .link i) hi hbytes
      · exact fun w' hne => ⟨Function.update_of_ne hne .., State.task_setTask_of_ne _ _ _ hne⟩

theorem Simulates.acknowledge_step (h : Simulates last m s a) {c : κ}
    (hstep : s.stepRespond (.client c) = some s') :
    ∃ a', Relay.Step last a a' ∧ Simulates last m s' a' := by
  unfold Chain.stepRespond at hstep
  split at hstep
  case h_1 c' res ret logged heq hthread =>
    obtain rfl : c = c' := Worker.client.inj heq
    obtain ⟨u, p, htask, -, rfl, hret, -⟩ := h.returned hthread
    rw [if_neg (not_lt.2 hret)] at hstep
    obtain rfl := Option.some.inj hstep
    refine ⟨_, .acknowledge htask, ?_⟩
    refine h.message_step (.client c) rfl rfl rfl rfl rfl (fun i hfree => ?_) h.channel ?_ ?_ ?_ ?_
    · exact State.Free.setTask (s := { a with acked := a.acked ++ [(p, u)] }) hfree nofun
    · rw [State.task_setTask_self]
      simpa [Chain.setWorker] using WorkerRel.idle
    · exact fun w' hne => ⟨Function.update_of_ne hne .., State.task_setTask_of_ne _ _ _ hne⟩
    · change s.acked ++ [(p, u)] = a.acked ++ [(p, u)]
      rw [h.acked]
    · exact fun x hx => List.mem_append_left _ hx
  case h_2 heq _ => cases heq
  case h_3 => cases hstep

theorem Simulates.reply_step (h : Simulates last m s a) {i : ℕ}
    (hstep : s.stepRespond (.link i) = some s') :
    ∃ a', Relay.Step last a a' ∧ Simulates last m s' a' := by
  unfold Chain.stepRespond at hstep
  split at hstep
  case h_1 heq _ => cases heq
  case h_2 i' res ret logged heq hthread =>
    obtain rfl : i = i' := Worker.link.inj heq
    obtain ⟨u, p, htask, hi, -, hret, res', hres'⟩ := h.returned hthread
    rw [if_neg (not_lt.2 hret), show res.unpacked = .ok res' from hres'] at hstep
    obtain rfl := Option.some.inj hstep
    have hchannel := h.channel i hi
    refine ⟨_, .reply htask, ?_⟩
    refine h.message_step (.link i) rfl rfl rfl rfl rfl (fun j hfree => ?_) (fun j hj => ?_) ?_ ?_
      h.acked fun _ hx => hx
    · exact State.Free.setTask (s := a.setWire i _) hfree nofun
    · rw [State.wire_setTask]
      by_cases hji : j = i
      · subst hji
        rw [State.wire_setWire_self]
        refine ⟨?_, hchannel.bytes, ?_⟩
        · simpa [Chain.setWorker, Chain.setChannel] using hchannel.requests
        · simpa [Chain.setWorker, Chain.setChannel] using hchannel.responses
      · rw [State.wire_setWire_of_ne _ _ _ hji]
        simpa [Chain.setWorker, Chain.setChannel, hji] using h.channel j hj
    · rw [State.task_setTask_self]
      simpa [Chain.setWorker] using WorkerRel.idle
    · exact fun w' hne => ⟨Function.update_of_ne hne .., State.task_setTask_of_ne _ _ _ hne⟩
  case h_3 => cases hstep

end Messages

/-! ## Reads -/

/-- A read that looks at the table sees all updates so far. -/
theorem Simulates.seen [DecidableEq κ] (hreach : Relay.Reachable last a) (h : Simulates last m s a)
    {acked : List (ℕ × Update)} (hacked : ∀ x ∈ acked, x ∈ a.acked) :
    Seen (a.log last) acked (s.node last).applied := by
  rw [(h.node last le_rfl).applied]
  exact ⟨List.prefix_rfl, fun p u hmem => hreach.everywhere_of_acked (hacked _ hmem) last le_rfl⟩

section Reads

variable [DecidableEq ρ]

theorem Simulates.stepRead (h : Simulates last m s a) {r : ρ} {request : ReadRequest}
    (hstep : s.stepRead r request = some s') : Simulates last m s' a := by
  unfold Chain.stepRead at hstep
  split at hstep
  case h_1 hidle =>
    obtain rfl := Option.some.inj hstep
    refine ⟨h.node, h.lock, h.channel, h.worker, h.acked, fun r' thread hr' => ?_, h.answers,
      h.running⟩
    by_cases hrr : r' = r
    · subst hrr
      obtain rfl : ⟨request, invoke request.message, s.acked, []⟩ = thread := by
        simpa [Chain.setReader] using hr'
      exact ⟨.started, invokeRead_follows request, fun x hx => h.acked ▸ hx, nofun, nofun⟩
    · exact h.reader r' thread (by simpa [Chain.setReader, hrr] using hr')
  case h_2 => cases hstep

/-- A read leaves the last server as it is, and changes only its own thread. -/
theorem Simulates.reader_step (h : Simulates last m s a) {r : ρ} {node : Node} {thread : ReadThread}
    {q : ReadPoint} (hlike : (s.node last).Like node)
    (hthread : ReaderRel m (a.log last) a.acked thread q) :
    Simulates last m (((s.setNode last node).setChannel last (s.channel last)).setReader r
      (some thread)) a where
  node i hi := by
    by_cases hil : i = last
    · subst hil
      simpa [Chain.setNode, Chain.setChannel, Chain.setReader] using (h.node i hi).like hlike
    · simpa [Chain.setNode, Chain.setChannel, Chain.setReader, hil] using h.node i hi
  lock i hi hwriter := by
    refine h.lock i hi ?_
    by_cases hil : i = last
    · subst hil
      rw [← hlike.writer]
      simpa [Chain.setNode, Chain.setChannel, Chain.setReader] using hwriter
    · simpa [Chain.setNode, Chain.setChannel, Chain.setReader, hil] using hwriter
  channel i hi := by
    simpa [Chain.setNode, Chain.setChannel, Chain.setReader, hi.ne] using h.channel i hi
  worker := h.worker
  acked := h.acked
  reader r' thread' hr' := by
    by_cases hrr : r' = r
    · subst hrr
      obtain rfl : thread = thread' := by simpa [Chain.setReader] using hr'
      exact ⟨q, hthread⟩
    · exact h.reader r' thread' ((Function.update_of_ne hrr ..).symm.trans hr')
  answers := h.answers
  running := h.running

section ReadCall

variable {r : ρ} {request : ReadRequest} {op : ServerCall}
  {k : op.Res → Prog Calls (MessageT × Int)} {acked : List (ℕ × Update)} {snapshot : List Update}
  {time : Timeval}

theorem Chain.stepReadCall_call
    (hthread : s.reader r = some ⟨request, .call (S := Calls) op k, acked, snapshot⟩) :
    s.stepReadCall last r time =
      match (s.node last).perform time (s.channel last) op with
      | none => none
      | some (.error _) => some s.fail
      | some (.ok (res, node, channel)) =>
        some (((s.setNode last node).setChannel last channel).setReader r
          (some ⟨request, k res, acked, if op.reads then (s.node last).applied else snapshot⟩)) := by
  unfold Chain.stepReadCall
  rw [hthread]
  rfl

/-- Calls that only the thread of a read sees. -/
theorem Simulates.quiet_readCall (h : Simulates last m s a) {q : ReadPoint}
    (hthread : s.reader r = some ⟨request, .call (S := Calls) op k, acked, snapshot⟩)
    (hrel : ReaderRel m (a.log last) a.acked ⟨request, .call (S := Calls) op k, acked, snapshot⟩ q)
    (hquiet : (s.node last).Quiet time (s.channel last) op) (hreads : op.reads = false)
    (hexpected : ∀ r, (readProtocol request).expected q op r)
    (hnext : ∀ r, q.next op r = q ∨ q.next op r = .inSection)
    (hstep : s.stepReadCall last r time = some s') : Simulates last m s' a := by
  rw [Chain.stepReadCall_call hthread] at hstep
  rcases hquiet with hblocked | ⟨res, node, hperform, hlike⟩
  · rw [hblocked] at hstep
    cases hstep
  · rw [hperform] at hstep
    obtain rfl := Option.some.inj hstep
    refine h.reader_step hlike (q := q.next op res) ?_
    have hfollows : (k res).Follows (readProtocol request) (ReadServed request) (q.next op res) :=
      hrel.follows.2 res (hexpected res)
    rw [if_neg (by simp [hreads])]
    rcases hnext res with hsame | hsection
    · rw [hsame] at hfollows ⊢
      exact ⟨hfollows, hrel.acked, hrel.seen, hrel.value⟩
    · rw [hsection] at hfollows ⊢
      exact ⟨hfollows, hrel.acked, nofun, nofun⟩

theorem ServerCall.reads_of_neutral (hop : op.Neutral) : op.reads = false := by
  cases op with
  | tableGet key => exact absurd hop id
  | tableSize => exact absurd hop id
  | _ => rfl

theorem readProtocol_expected_of_not_reads {q : ReadPoint} (hop : op.reads = false) (r : op.Res) :
    (readProtocol request).expected q op r := by
  cases op with
  | tableGet key => cases hop
  | tableSize => cases hop
  | _ => trivial

variable [DecidableEq κ]

/-- The look at the table is where a read takes effect. -/
theorem Simulates.get_readCall (hreach : Relay.Reachable last a) (h : Simulates last m s a)
    {key : CString} {k : (ServerCall.tableGet key).Res → Prog Calls (MessageT × Int)}
    (hthread : s.reader r = some ⟨.get key, .call (S := Calls) (.tableGet key) k, acked, snapshot⟩)
    (hrel : ReaderRel m (a.log last) a.acked
      ⟨.get key, .call (S := Calls) (.tableGet key) k, acked, snapshot⟩ .inSection)
    (hstep : s.stepReadCall last r time = some s') : Simulates last m s' a := by
  have hgood := h.node last le_rfl
  obtain ⟨node, hperform, hlike, hvalues⟩ := hgood.perform_get key
  rw [Chain.stepReadCall_call hthread, hperform] at hstep
  obtain rfl := Option.some.inj hstep
  have hbind : ((((Spec.replay (a.log last) m).lookup key).map Data.ofBytes).bind Data.bytes) =
      (Spec.replay (a.log last) m).lookup key := by
    cases hlookup : (Spec.replay (a.log last) m).lookup key with
    | none => rfl
    | some b => exact Data.bytes_ofBytes (hvalues b hlookup)
  have hfollows := hrel.follows.2 (((Spec.replay (a.log last) m).lookup key).map Data.ofBytes)
    ⟨_, hvalues, rfl⟩
  refine h.reader_step hlike ⟨hfollows, hrel.acked, fun _ _ => h.seen hreach hrel.acked, ?_⟩
  intro value key' hq hrequest
  obtain rfl := ReadRequest.get.inj hrequest
  have hvalue : ReadPoint.read _ = .read value := hq
  rw [hbind] at hvalue
  rw [← ReadPoint.read.inj hvalue]
  exact congrArg (fun log => (Spec.replay log m).lookup key) hgood.applied.symm

theorem Simulates.size_readCall (hreach : Relay.Reachable last a) (h : Simulates last m s a)
    {k : ServerCall.tableSize.Res → Prog Calls (MessageT × Int)}
    (hthread : s.reader r = some ⟨.size, .call (S := Calls) .tableSize k, acked, snapshot⟩)
    (hrel : ReaderRel m (a.log last) a.acked
      ⟨.size, .call (S := Calls) .tableSize k, acked, snapshot⟩ .inSection)
    (hstep : s.stepReadCall last r time = some s') : Simulates last m s' a := by
  obtain ⟨size, node, hperform, hlike⟩ := (h.node last le_rfl).perform_size
  rw [Chain.stepReadCall_call hthread, hperform] at hstep
  obtain rfl := Option.some.inj hstep
  have hfollows := hrel.follows.2 (size : Int) (Int.natCast_nonneg size)
  exact h.reader_step hlike ⟨hfollows, hrel.acked, fun _ _ => h.seen hreach hrel.acked, nofun⟩

theorem Simulates.stepReadCall (hreach : Relay.Reachable last a) (h : Simulates last m s a)
    (hstep : s.stepReadCall last r time = some s') : Simulates last m s' a := by
  have hcall := hstep
  unfold Chain.stepReadCall at hcall
  split at hcall
  case h_2 => cases hcall
  case h_1 request op k acked snapshot hthread =>
    clear hcall
    obtain ⟨q, hrel⟩ := h.reader r _ hthread
    have hgood := h.node last le_rfl
    rcases hrel.follows.1 with hneutral | hmakes
    -- a call that neither reads the table nor takes its lock moves the reader alone
    · have hreads := ServerCall.reads_of_neutral hneutral
      have hloops : Loops (readProtocol request) q := readProtocol_loops q
      exact h.quiet_readCall hthread hrel (Node.perform_neutral hgood.stats hneutral) hreads
        (readProtocol_expected_of_not_reads hreads)
        (fun r => .inl ((hloops op hneutral).2 r)) hstep
    · cases q with
      | started =>
        obtain rfl : op = .enterRead .table := hmakes
        exact h.quiet_readCall hthread hrel (Node.perform_readLock (.inl rfl)) rfl
          (fun _ => trivial) (fun _ => .inr rfl) hstep
      | inSection =>
        cases request with
        | get key =>
          obtain rfl : op = .tableGet key := hmakes
          exact h.get_readCall hreach hthread hrel hstep
        | size =>
          obtain rfl : op = .tableSize := hmakes
          exact h.size_readCall hreach hthread hrel hstep
      | read value =>
        obtain rfl : op = .exitRead .table := hmakes
        exact h.quiet_readCall hthread hrel (Node.perform_readLock (.inr rfl)) rfl
          (fun _ => trivial) (fun _ => .inl rfl) hstep

end ReadCall

theorem Simulates.stepAnswer (h : Simulates last m s a) {r : ρ}
    (hstep : s.stepAnswer r = some s') : Simulates last m s' a := by
  unfold Chain.stepAnswer at hstep
  split at hstep
  case h_2 => cases hstep
  case h_1 request res ret acked snapshot hthread =>
    obtain ⟨q, hrel⟩ := h.reader r _ hthread
    obtain ⟨hret, value, hq, hcarries⟩ : ReadServed request q (res, ret) := hrel.follows
    rw [if_neg (not_lt.2 hret)] at hstep
    obtain rfl := Option.some.inj hstep
    refine ⟨h.node, h.lock, h.channel, h.worker, h.acked, fun r' thread hr' => ?_,
      fun answer hanswer => ?_, h.running⟩
    · by_cases hrr : r' = r
      · subst hrr
        simp [Chain.setReader] at hr'
      · exact h.reader r' thread ((Function.update_of_ne hrr ..).symm.trans hr')
    · rcases List.mem_append.1 hanswer with hmem | hmem
      · exact h.answers answer hmem
      · obtain rfl := List.mem_singleton.1 hmem
        refine ⟨hrel.seen value hq, fun key hrequest => ?_⟩
        have hlookup : value = (Spec.replay snapshot m).lookup key :=
          hrel.value value key hq hrequest
        rw [← hlookup]
        exact hcarries key hrequest

end Reads

/-! ## The simulation -/

variable [DecidableEq κ] [DecidableEq ρ]

theorem Simulates.step (hreach : Relay.Reachable last a) (h : Simulates last m s a)
    {l : ChainStep κ ρ} (hstep : s.step last l = some s') :
    ∃ a', Relay.Reachable last a' ∧ Simulates last m s' a' := by
  have hmoves : (∃ a', Relay.Step last a a' ∧ Simulates last m s' a') →
      ∃ a', Relay.Reachable last a' ∧ Simulates last m s' a' := by
    rintro ⟨a', ha', h'⟩
    exact ⟨a', hreach.step ha', h'⟩
  cases l with
  | request c u => exact hmoves (h.stepRequest hstep)
  | deliver i => exact hmoves (h.stepDeliver hstep)
  | call w time =>
    obtain ⟨a', rfl | ha', h'⟩ := h.stepCall hreach hstep
    · exact ⟨a', hreach, h'⟩
    · exact ⟨a', hreach.step ha', h'⟩
  | respond w =>
    cases w with
    | client c => exact hmoves (h.acknowledge_step hstep)
    | link i => exact hmoves (h.reply_step hstep)
  | read r request => exact ⟨a, hreach, h.stepRead hstep⟩
  | readCall r time => exact ⟨a, hreach, h.stepReadCall hreach hstep⟩
  | answer r => exact ⟨a, hreach, h.stepAnswer hstep⟩

theorem Chain.simulates (h : (Chain.system last m).Reachable s) :
    ∃ a, Relay.Reachable last a ∧ Simulates last m s a := by
  refine h.simulation (fun s hs => ?_) fun l s s' a hreach h hstep => h.step hreach hstep
  exact ⟨_, .start ⟨fun _ => rfl, fun _ => rfl, fun _ => rfl, rfl⟩, simulates_start hs⟩

end Step

/-! ## Agreement -/

/-- The server has the map in its table. -/
def Node.Holds (node : Node) (map : Spec.Map) : Prop :=
  ∃ st : Store, node.server.table = st.table ∧ st.map = map

/-- No update of a client is in progress. -/
def Chain.Idle (s : Chain κ ρ) : Prop :=
  ∀ c, s.worker (.client c) = none

/-- An answered OP_GET carries, for its key, an update that was acknowledged before the
    request came, or a later one; the one it carries is the last that the table had
    carried out. -/
def ReadAnswer.Current (answer : ReadAnswer) : Prop :=
  ∀ p u, (p, u) ∈ answer.acked → answer.request = .get u.key →
    ∃ q u', p ≤ q ∧ answer.snapshot[q]? = some u' ∧ u'.key = u.key ∧
      (∀ r u'', q < r → answer.snapshot[r]? = some u'' → u''.key ≠ u.key) ∧
      answer.response.Carries u'.value

/-- The servers `0`, …, `last` agree, as far as updates under way let them. -/
structure Chain.Agrees (last : ℕ) (m : Spec.Map) (s : Chain κ ρ) : Prop where
  running : s.failed = false
  holds : ∀ i ≤ last, (s.node i).Holds (Spec.replay (s.node i).applied m)
  behind : ∀ i < last, (s.node (i + 1)).applied <+: (s.node i).applied ∧
    (s.node i).applied.length ≤ (s.node (i + 1)).applied.length + 1
  idle : s.Idle → ∃ map, ∀ i ≤ last, (s.node i).Holds map
  /-- A request that a client gets a response for has been carried out everywhere. -/
  carriedOut : ∀ c result logged, s.worker (.client c) = some ⟨.ret result, logged⟩ →
    ∃ p u, logged = some (p, u) ∧ ∀ i ≤ last, (s.node i).applied[p]? = some u
  current : ∀ answer ∈ s.answers, answer.snapshot <+: (s.node last).applied ∧ answer.Current

section Results

variable {last : ℕ} {m : Spec.Map} {s : Chain κ ρ} {a : Relay.State κ Update}

theorem Node.Good.holds {i : ℕ} {node : Node} {log : List Update} (h : node.Good last m i log) :
    node.Holds (Spec.replay log m) :=
  h.table

theorem AnswerRel.current {log : List Update} {answer : ReadAnswer} (h : AnswerRel m log answer) :
    answer.Current := by
  intro p u hmem hrequest
  obtain ⟨q, u', hpq, hq, hkey, hlast, hlookup⟩ := Spec.lookup_replay (h.seen.acked p u hmem) m
  refine ⟨q, u', hpq, hq, hkey, hlast, ?_⟩
  rw [← hlookup]
  exact h.value u.key hrequest

theorem Simulates.idle (h : Simulates last m s a) (hidle : s.Idle) (c : κ) :
    a.task (.client c) = none :=
  h.task_eq_none (hidle c)

variable [DecidableEq κ]

theorem Simulates.carriedOut (hreach : Relay.Reachable last a) (h : Simulates last m s a) {c : κ}
    {result : MessageT × Int} {logged : Option (ℕ × Update)}
    (hthread : s.worker (.client c) = some ⟨.ret result, logged⟩) :
    ∃ p u, logged = some (p, u) ∧ ∀ i ≤ last, (s.node i).applied[p]? = some u := by
  obtain ⟨u, p, htask, -, hlogged, -⟩ := h.returned hthread
  refine ⟨p, u, hlogged, fun i hi => ?_⟩
  rw [(h.node i hi).applied]
  exact (hreach.invariant.clients c _ htask).finished (.inr rfl) i hi

theorem Simulates.agrees (hreach : Relay.Reachable last a) (h : Simulates last m s a) :
    s.Agrees last m where
  running := h.running
  holds i hi := by
    rw [(h.node i hi).applied]
    exact (h.node i hi).holds
  behind i hi := by
    rw [(h.node i hi.le).applied, (h.node (i + 1) hi).applied]
    exact hreach.log_prefix hi
  idle hidle := by
    refine ⟨Spec.replay (a.log 0) m, fun i hi => ?_⟩
    rw [← hreach.log_eq_of_idle (h.idle hidle) hi]
    exact (h.node i hi).holds
  carriedOut c _ _ hthread := h.carriedOut hreach hthread
  current answer hanswer := by
    have hrel := h.answers answer hanswer
    rw [(h.node last le_rfl).applied]
    exact ⟨hrel.seen.isPrefix, hrel.current⟩

theorem chain_agrees [DecidableEq ρ] (h : (Chain.system last m).Reachable s) : s.Agrees last m := by
  obtain ⟨a, hreach, hsimulates⟩ := Chain.simulates h
  exact hsimulates.agrees hreach

end Results

/-! ## A put and a get -/

def oneList : Store := .create 1 Store.one_pos

/-- Two servers with empty tables. -/
def twoServers : Chain Unit Unit where
  node i := {
    server :=
      if i = 0 then { ServerState.init oneList.table with
        nextServerNodePath := ⟨[47], CString.zero_notMem_slash⟩ }
      else .init oneList.table
    locks := fun _ => ⟨false, 0⟩
    applied := [] }
  channel _ := ⟨[], []⟩
  worker _ := none
  reader _ := none
  acked := []
  answers := []
  failed := false

theorem twoServers_start : twoServers.Start 1 ∅ where
  table i _ := by
    refine ⟨oneList, ?_, Store.map_create 1 (by decide)⟩
    by_cases hi : i = 0
    · simp [twoServers, hi, ServerState.init]
    · simp [twoServers, hi, ServerState.init]
  stats i _ := by
    by_cases hi : i = 0
    · simp [twoServers, hi, ServerState.init]
    · simp [twoServers, hi, ServerState.init]
  path i hi := by
    cases i with
    | zero => simp [twoServers, CString.empty]
    | succ i =>
      simp [twoServers, ServerState.init]
      omega
  connected i hi := by
    obtain rfl : i = 0 := by omega
    exact ⟨_, rfl, rfl⟩
  locks _ _ := rfl
  applied _ := rfl
  channel _ := rfl
  worker _ := rfl
  reader _ := rfl
  acked := rfl
  answers := rfl
  running := rfl

/-- The first server puts and forwards, the second one puts and replies, the client gets
    its response, and then the key is asked for. -/
def putThenGet : List (ChainStep Unit Unit) :=
  List.flatten [[.request () (.put .empty [1])], List.replicate 10 (.call (.client ()) ⟨0, 0⟩),
    [.deliver 0], List.replicate 14 (.call (.link 0) ⟨0, 0⟩), [.respond (.link 0)],
    List.replicate 7 (.call (.client ()) ⟨0, 0⟩), [.respond (.client ())],
    [.read () (.get .empty)], List.replicate 13 (.readCall () ⟨0, 0⟩), [.answer ()]]

theorem chain_agrees_putThenGet :
    ∃ s : Chain Unit Unit, (Chain.system 1 ∅).Reachable s ∧ s.acked = [(0, .put .empty [1])] ∧
      (s.answers.map fun answer => (answer.acked, answer.response.value)) =
        [([(0, .put .empty [1])], .ofBytes [1])] ∧ s.Agrees 1 ∅ := by
  have hend : ((Chain.system 1 ∅).run putThenGet twoServers).map (fun s =>
      (s.acked, s.answers.map fun answer => (answer.acked, answer.response.value))) =
        some ([(0, .put .empty [1])], [([(0, .put .empty [1])], .ofBytes [1])]) := rfl
  obtain ⟨s, hrun, hs⟩ := Option.map_eq_some_iff.1 hend
  obtain ⟨hacked, hanswers⟩ := Prod.mk.inj hs
  have hreach : (Chain.system 1 ∅).Reachable s := LTS.reachable_of_run twoServers_start hrun
  exact ⟨s, hreach, hacked, hanswers, chain_agrees hreach⟩

end ChainTable
