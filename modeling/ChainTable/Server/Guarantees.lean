-- SUMMARY: Threads of a server never all sleep in vain, and their statistics lose no update.
import ChainTable.Server.Concurrency

open Base

/-!
# Guarantees of the locks

A thread that holds a lock never sleeps in vain: it has the statistics only for calls that
enter nothing, and the table while it sleeps at most at the statistics. So whoever sleeps
un-notified waits for somebody that can move. And since the ledger of the threads counts
what it should, so do the statistics themselves.
-/

namespace ChainTable

open Calls

variable {ι : Type} [DecidableEq ι]

/-! ## Statistics -/

section Statistics

variable {s : Threads ι} {a : Ledger ι} {t : ι}

/-- The thread has not been counted, or the change of the count is over. -/
theorem LedgerRel.connected_iff (h : LedgerRel s a)
    (hfree : ((s.lock .stats).place t).held ≠ .writing) :
    Contributes (a.thread t) ↔ (s.thread t).Connected := by
  have ht := h.disciplined.thread t
  rcases hx : a.thread t with ⟨part, q⟩
  rw [hx] at ht
  rcases hthread : s.thread t with ⟨part', prog⟩
  have hpart : part' = part := by
    have hpart := ht.part
    rw [hthread] at hpart
    exact hpart
  subst hpart
  have hfollows := ht.follows
  rw [hthread] at hfollows
  have hheld : q.stats.held ≠ .writing := by
    rw [← ht.held .stats] at hfree
    exact hfree
  rcases prog with processingError | ⟨op, k⟩
  · have hended : part'.Ended q := hfollows
    cases part' with
    | opening => exact iff_of_true (hended.changed (by simp [Part.change])) trivial
    | serving => exact Iff.rfl
    | closing =>
      have hchanged := hended.changed (by simp [Part.change])
      exact iff_of_false (by simp [Contributes, hchanged]) id
    | finished => exact Iff.rfl
  -- the change is made inside one section, so outside of it nothing is pending
  · have hover := hfollows.1.2.1
    cases part' with
    | opening =>
      have hchanged : ¬ q.changed = true := fun hc => hover ⟨by simp [Part.change], hc, hheld⟩
      exact iff_of_false hchanged id
    | serving => exact Iff.rfl
    | closing =>
      have hchanged : ¬ q.changed = true := fun hc => hover ⟨by simp [Part.change], hc, hheld⟩
      exact iff_of_true (by simpa [Contributes] using hchanged) trivial
    | finished => exact Iff.rfl

/-- The thread is in a section of the table, and its call of `increase_operations` is over. -/
def Threads.Operated (s : Threads ι) (t : ι) : Prop :=
  ((s.lock .table).place t).held ≠ .nothing ∧ s.counted t = true

instance (s : Threads ι) : DecidablePred s.Operated := fun t => by
  unfold Threads.Operated
  infer_instance

/-- How many calls of `increase_operations` are over: one in each section of the table that
    has been left, and those of the sections that are past it. -/
def Threads.operations [Fintype ι] (s : Threads ι) : ℕ :=
  s.sections + (Finset.univ.filter s.Operated).card

/-- In the ledger an operation is counted from its store on, which comes to the same while
    nobody writes. -/
theorem LedgerRel.operated_iff (h : LedgerRel s a)
    (hfree : ((s.lock .stats).place t).held ≠ .writing) :
    Operates (a.thread t) ↔ s.Operated t := by
  have ht := h.disciplined.thread t
  have hstats : (a.thread t).2.stats ≠ .writing (.stored .nOperacoes) := by
    intro hstats
    rw [← ht.held, Standing.held, hstats] at hfree
    exact hfree rfl
  have htable : (a.thread t).2.table = ((s.lock .table).place t).held := ht.held .table
  simp [Operates, Threads.Operated, hstats, htable, h.counted]

/-- What the statistics of a server say about its threads. -/
structure Threads.Exact [Fintype ι] (s : Threads ι) (stats : Statistics) : Prop where
  clients : (s.lock .stats).locks.writerActive = false →
    stats.nClientes = countThreads ServeConn.Connected s.thread
  operations : (s.lock .stats).locks.writerActive = false →
    stats.nOperacoes = s.operations
  replies : ∀ t msg k, (s.thread t).prog = .call (S := Conn) (.networkSend msg) k →
    msg.opcode = opStats + 1 → ∃ loaded, msg.stats = some loaded ∧
      ∃ moment ∈ s.moments, moment.nClientes = loaded.nClientes ∧
        moment.nOperacoes = loaded.nOperacoes

theorem LedgerRel.exact [Fintype ι] (h : LedgerRel s a) (ha : a.Counted) : s.Exact a.stats := by
  have hfree : (s.lock .stats).locks.writerActive = false → ∀ u,
      ((s.lock .stats).place u).held ≠ .writing := by
    intro hactive
    have hexclusive := LockState.exclusive_of_reachable (h.disciplined.lock .stats)
    exact hexclusive.not_writing (by rw [hactive]; exact Bool.false_ne_true)
  refine ⟨fun hactive => ?_, fun hactive => ?_, fun t msg k hprog hop => ?_⟩
  · have hsame : ∀ u, Contributes (a.thread u) ↔ (s.thread u).Connected := fun u =>
      h.connected_iff (hfree hactive u)
    rw [ha.clients]
    simp only [countThreads, hsame]
  · have hsame : ∀ u, Operates (a.thread u) ↔ s.Operated u := fun u =>
      h.operated_iff (hfree hactive u)
    rw [ha.operations, Threads.operations, h.sections]
    simp only [countThreads, hsame]
    push_cast
    rfl
  · have hfollows := (h.disciplined.thread t).follows
    rw [hprog] at hfollows
    obtain ⟨loaded, hstats, hclientes, hoperacoes⟩ := hfollows.1.2.2 hop
    rw [h.moments]
    exact ⟨loaded, hstats, ha.moment_of_loaded (t := t) hclientes hoperacoes⟩

/-- In every interleaving the statistics are there, and while nobody writes them they count
    the connected clients and the operations; what a reply reports held at one moment. -/
theorem statistics_exact [Fintype ι] {s : Threads ι} (h : (threadSystem ι).Reachable s) :
    ∃ stats, s.server.globalStats = some stats ∧ s.Exact stats := by
  obtain ⟨a, ha, hrel⟩ := exists_ledger h
  exact ⟨a.stats, hrel.stats, hrel.exact ha⟩

/-- A server whose threads have not begun. -/
def freshThreads (n : ℕ) : Threads (Fin n) where
  server := .init ⟨1, [listCreate], rfl⟩
  lock _ := ⟨.zero, fun _ => .outside⟩
  thread _ := .start
  terminated := false
  crashed := false
  sections := 0
  counted _ := false
  moments := [⟨0, 0, 0⟩]

theorem freshThreads_start (n : ℕ) : (freshThreads n).Start :=
  ⟨rfl, fun _ => rfl, fun _ => rfl, rfl, rfl, fun _ => rfl, rfl⟩

/-- What a thread gets with a request. -/
def answerOf (opcode : Int) : Answer where
  time := ⟨0, 0⟩
  received := some { MessageT.init with opcode := opcode }
  disconnected := false
  sent := 1

/-- The first thread answers an OP_SIZE and is about to answer an OP_STATS, while the second
    one is in the section of its OP_SIZE and has counted it. -/
def statsRun : List (ThreadStep (Fin 2)) :=
  List.replicate 4 (.call 0 (answerOf opSize)) ++ .test 0 ::
  List.replicate 15 (.call 0 (answerOf opSize)) ++ .test 0 ::
  List.replicate 4 (.call 1 (answerOf opSize)) ++ .test 1 ::
  List.replicate 6 (.call 1 (answerOf opSize)) ++
  List.replicate 7 (.call 0 (answerOf opStats))

theorem statistics_exact_reply :
    ∃ s : Threads (Fin 2), (threadSystem (Fin 2)).Reachable s ∧
      (s.lock .stats).locks.writerActive = false ∧ s.operations = 2 ∧
      (∃ msg k, (s.thread 0).prog = .call (S := Conn) (.networkSend msg) k ∧
        msg.opcode = opStats + 1) ∧
      ∃ stats, s.server.globalStats = some stats ∧ stats.nOperacoes = 2 ∧ s.Exact stats := by
  obtain ⟨s, hrun, hactive, hoperations, hprog, hvalue⟩ : ∃ s : Threads (Fin 2),
      (threadSystem (Fin 2)).run statsRun (freshThreads 2) = some s ∧
        (s.lock .stats).locks.writerActive = false ∧ s.operations = 2 ∧
        (∃ msg k, (s.thread 0).prog = .call (S := Conn) (.networkSend msg) k ∧
          msg.opcode = opStats + 1) ∧
        s.server.globalStats = some ⟨2, 2, 0⟩ := ⟨_, rfl, rfl, rfl, ⟨_, _, rfl, rfl⟩, rfl⟩
  have hreach := LTS.reachable_of_run (freshThreads_start 2) hrun
  obtain ⟨stats, hstats, hexact⟩ := statistics_exact hreach
  obtain rfl : stats = ⟨2, 2, 0⟩ := Option.some.inj (hstats.symm.trans hvalue)
  exact ⟨s, hreach, hactive, hoperations, hprog, _, hstats, rfl, hexact⟩

end Statistics

/-! ## Sleepers -/

/-- A thread in `pthread_cond_wait` that no broadcast has reached. -/
def Place.Asleep (p : Place) : Prop := p = .readSleep false ∨ p = .writeSleep false

namespace Threads

/-- The thread sleeps un-notified at one of the locks. -/
def Asleep (s : Threads ι) (t : ι) : Prop := ∃ l, ((s.lock l).place t).Asleep

def Unfinished (s : Threads ι) (t : ι) : Prop := (s.thread t).part ≠ .finished

end Threads

section Sleepers

variable {s : Threads ι} {x : ι → Part × Standing} {t : ι} {l : LockName}

/-- Whoever sleeps has nothing of the statistics, and nothing of the table either when it
    sleeps there. -/
theorem Disciplined.asleep (h : Disciplined s x) (ht : ((s.lock l).place t).Asleep) :
    (x t).2.stats = .outside ∧ (l = .table → (x t).2.table = .nothing) := by
  have hrel := h.thread t
  have hfollows := hrel.follows
  rcases ht with hplace | hplace
  · obtain ⟨k, hprog⟩ := hrel.readSleep l false hplace
    rw [hprog] at hfollows
    exact outside_of_allows_enter (.inl rfl) hfollows.1.2.2
  · obtain ⟨k, hprog⟩ := hrel.writeSleep l false hplace
    rw [hprog] at hfollows
    exact outside_of_allows_enter (.inr rfl) hfollows.1.2.2

/-- A thread that has something of a lock is not at its end. -/
theorem Disciplined.unfinished (h : Disciplined s x) (ht : ((s.lock l).place t).held ≠ .nothing) :
    s.Unfinished t := by
  intro hpart
  have hrel := h.thread t
  have hfinished : (x t).1 = .finished := hrel.part.symm.trans hpart
  have hfollows := hrel.follows
  rw [← hrel.held] at ht
  cases hprog : (s.thread t).prog with
  | ret processingError =>
    rw [hprog] at hfollows
    have hrests := hfollows.rests
    cases l with
    | table => exact ht hrests.table
    | stats => exact ht (by rw [Standing.held, hrests.stats]; rfl)
  | call op k =>
    rw [hprog] at hfollows
    exact hfollows.1.1 hfinished

/-- Somebody has what a sleeper waits for. -/
theorem exists_holder [Fintype ι] {lock : LockState ι} (h : (LockState.system ι).Reachable lock)
    (ht : (lock.place t).Asleep) : ∃ u, (lock.place u).held ≠ .nothing := by
  have hexclusive := LockState.exclusive_of_reachable h
  have hjustified := LockState.justified_of_reachable h
  have hwriter : lock.locks.writerActive = true → ∃ u, (lock.place u).held ≠ .nothing := by
    intro hactive
    obtain ⟨u, hu⟩ := hexclusive.active.1 hactive
    exact ⟨u, by rw [hu]; nofun⟩
  rcases ht with hplace | hplace
  · exact hwriter (hjustified.reader t hplace)
  · rcases hjustified.writer t hplace with hactive | hreaders
    · exact hwriter hactive
    · rw [hexclusive.readers, Nat.cast_pos, countThreads_pos] at hreaders
      obtain ⟨u, hu⟩ := hreaders
      exact ⟨u, by rw [hu]; nofun⟩

/-- Whoever has something of the statistics is awake. -/
theorem Disciplined.awake_of_stats (h : Disciplined s x)
    (ht : ((s.lock .stats).place t).held ≠ .nothing) : ¬ s.Asleep t := by
  rintro ⟨l, hl⟩
  rw [← (h.thread t).held .stats] at ht
  exact ht (by rw [Standing.held, (h.asleep hl).1]; rfl)

/-- Not all threads sleep: a sleeper at the statistics waits for somebody that is awake, and
    one at the table for somebody that is awake or sleeps at the statistics. -/
theorem Disciplined.exists_awake [Fintype ι] (h : Disciplined s x) (ht : s.Unfinished t) :
    ∃ u, s.Unfinished u ∧ ¬ s.Asleep u := by
  have hstats : ∀ u, ((s.lock .stats).place u).Asleep → ∃ v, s.Unfinished v ∧ ¬ s.Asleep v := by
    intro u hu
    obtain ⟨v, hv⟩ := exists_holder (h.lock .stats) hu
    exact ⟨v, h.unfinished hv, h.awake_of_stats hv⟩
  by_cases hasleep : s.Asleep t
  · obtain ⟨l, hl⟩ := hasleep
    cases l with
    | stats => exact hstats t hl
    | table =>
      obtain ⟨u, hu⟩ := exists_holder (h.lock .table) hl
      by_cases hawake : s.Asleep u
      · obtain ⟨l, hl'⟩ := hawake
        cases l with
        | stats => exact hstats u hl'
        | table =>
          rw [← (h.thread u).held .table] at hu
          exact absurd ((h.asleep hl').2 rfl) hu
      · exact ⟨u, h.unfinished hu, hawake⟩
  · exact ⟨t, ht, hasleep⟩

/-- The thread has a step of its own. -/
def Threads.Moves (s : Threads ι) (t : ι) : Prop :=
  ∃ label s', (label = .test t ∨ label = .wake t ∨ ∃ answer, label = .call t answer) ∧
    Threads.step label s = some s'

theorem moves_of_call (hrunning : s.crashed = false) (answer : Answer)
    (h : ∃ s', s.call t answer (s.thread t).prog = some s') : s.Moves t := by
  obtain ⟨s', hcall⟩ := h
  refine ⟨.call t answer, s', .inr (.inr ⟨answer, rfl⟩), ?_⟩
  rw [Threads.step, if_neg (by rw [hrunning]; exact Bool.false_ne_true)]
  exact hcall

theorem moves_of_wake (hrunning : s.crashed = false)
    (h : ∃ s', s.wake t (s.thread t).prog = some s') : s.Moves t := by
  obtain ⟨s', hwake⟩ := h
  refine ⟨.wake t, s', .inr (.inl rfl), ?_⟩
  rw [Threads.step, if_neg (by rw [hrunning]; exact Bool.false_ne_true)]
  exact hwake

/-- A thread that has nothing of a lock can test whether it may enter. -/
theorem moves_of_enter (hrunning : s.crashed = false) {op : ServerCall}
    {k : op.Res → Prog Conn Bool} (hprog : (s.thread t).prog = .call (S := Conn) (.server op) k)
    (hop : op = .enterRead l ∨ op = .enterWrite l)
    (hnothing : ((s.lock l).place t).held = .nothing) : s.Moves t := by
  cases hplace : (s.lock l).place t with
  | reading =>
    rw [hplace] at hnothing
    cases hnothing
  | writing =>
    rw [hplace] at hnothing
    cases hnothing
  | outside =>
    refine moves_of_call hrunning ⟨⟨0, 0⟩, none, false, 0⟩ ?_
    rw [hprog]
    rcases hop with rfl | rfl <;> simp [Threads.call, Threads.enter, LockState.step, hplace]
  | _ =>
    refine moves_of_wake hrunning ?_
    rw [hprog]
    rcases hop with rfl | rfl <;> simp [Threads.wake, Threads.enter, LockState.step, hplace]

theorem Disciplined.moves (h : Disciplined s x) (hrunning : s.crashed = false)
    (ht : s.Unfinished t) : s.Moves t := by
  have hrel := h.thread t
  have hfollows := hrel.follows
  let answer : Answer := ⟨⟨0, 0⟩, none, false, 0⟩
  rcases hprog : (s.thread t).prog with processingError | ⟨op, k⟩
  · refine ⟨.test t, s.setThread t (.test (s.thread t).part processingError s.terminated),
      .inl rfl, ?_⟩
    rw [Threads.step, if_neg (by rw [hrunning]; exact Bool.false_ne_true)]
    rcases hthread : s.thread t with ⟨part, prog⟩
    rw [Threads.Unfinished, hthread] at ht
    rw [hthread] at hprog
    obtain rfl : prog = .ret processingError := hprog
    cases part with
    | finished => exact absurd rfl ht
    | _ => rfl
  · rw [hprog] at hfollows
    have hallow := hfollows.1.2.2
    cases op with
    | server op =>
      cases op with
      | enterRead l =>
        have hnothing := held_of_allows_enter (.inl rfl) hallow
        exact moves_of_enter hrunning hprog (.inl rfl) ((hrel.held l).symm.trans hnothing)
      | enterWrite l =>
        have hnothing := held_of_allows_enter (.inr rfl) hallow
        exact moves_of_enter hrunning hprog (.inr rfl) ((hrel.held l).symm.trans hnothing)
      -- a thread that leaves a section is in it, and leaving does not wait
      | exitRead l =>
        refine moves_of_call hrunning answer ?_
        have hheld := (hrel.held l).symm.trans (held_of_allows_exitRead hallow)
        rw [hprog]
        cases l <;>
          simp [Threads.call, Threads.exit, LockState.step, Place.held_eq_reading hheld]
      | exitWrite l =>
        refine moves_of_call hrunning answer ?_
        have hheld := (hrel.held l).symm.trans (held_of_allows_exitWrite hallow)
        rw [hprog]
        cases l <;>
          simp [Threads.call, Threads.exit, LockState.step, Place.held_eq_writing hheld]
      | _ =>
        refine moves_of_call hrunning answer ?_
        rw [hprog]
        exact ⟨_, rfl⟩
    | _ =>
      refine moves_of_call hrunning answer ?_
      rw [hprog]
      exact ⟨_, rfl⟩

/-- Nobody sleeps in vain, and not everybody sleeps. -/
structure Threads.Live (s : Threads ι) : Prop where
  reader : ∀ l t, (s.lock l).place t = .readSleep false → (s.lock l).locks.writerActive = true
  writer : ∀ l t, (s.lock l).place t = .writeSleep false →
    (s.lock l).locks.writerActive = true ∨ 0 < (s.lock l).locks.readersReading
  awake : (∃ t, s.Unfinished t) →
    ∃ t, s.Unfinished t ∧ ¬ s.Asleep t ∧ (s.crashed = false → s.Moves t)

/-- In every interleaving whoever sleeps un-notified waits for a section of that lock, and
    while threads are unfinished one of them is awake and can move. -/
theorem threads_live [Fintype ι] (h : (threadSystem ι).Reachable s) : s.Live := by
  obtain ⟨a, -, hrel⟩ := exists_ledger h
  have hdisc := hrel.disciplined
  refine ⟨fun l t => ?_, fun l t => ?_, fun ⟨t, ht⟩ => ?_⟩
  · exact (LockState.justified_of_reachable (hdisc.lock l)).reader t
  · exact (LockState.justified_of_reachable (hdisc.lock l)).writer t
  · obtain ⟨u, hu, hawake⟩ := hdisc.exists_awake ht
    exact ⟨u, hu, hawake, fun hrunning => hdisc.moves hrunning hu⟩

/-- While the first thread counts its client the second one sleeps. -/
theorem threads_live_sleeper :
    ∃ s : Threads (Fin 2), (threadSystem (Fin 2)).Reachable s ∧ s.Asleep 1 ∧ s.Live := by
  obtain ⟨s, hrun, hasleep⟩ : ∃ s : Threads (Fin 2),
      (threadSystem (Fin 2)).run
        [.call 0 ⟨⟨0, 0⟩, none, false, 0⟩, .call 1 ⟨⟨0, 0⟩, none, false, 0⟩] (freshThreads 2) =
          some s ∧
        (s.lock .stats).place 1 = .writeSleep false := ⟨_, rfl, rfl⟩
  have hreach := LTS.reachable_of_run (freshThreads_start 2) hrun
  exact ⟨s, hreach, ⟨.stats, .inr hasleep⟩, threads_live hreach⟩

end Sleepers

end ChainTable
