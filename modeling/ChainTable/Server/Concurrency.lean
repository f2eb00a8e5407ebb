-- SUMMARY: Threads of a server never wait for each other in vain, and their statistics lose no update.
import ChainTable.Server.Ledger

open Base

/-!
# Concurrent threads

Every thread of a server stands where the discipline of `serve_conn` puts it, and has of
each lock what it should have. From this follow that a thread which sleeps waits for one
that can move, and that the counters agree with what the threads have completed.
-/

namespace ChainTable

open Calls

variable {ι : Type} [DecidableEq ι]

/-! ## Places -/

/-- What a thread at this place has of the lock. -/
def Place.held : Place → Held
  | .reading => .reading
  | .writing => .writing
  | _ => .nothing

@[simp] theorem Place.held_notify (p : Place) : p.notify.held = p.held := by
  cases p <;> rfl

theorem Place.held_eq_writing {p : Place} (h : p.held = .writing) : p = .writing := by
  cases p <;> first | rfl | cases h

theorem Place.held_eq_reading {p : Place} (h : p.held = .reading) : p = .reading := by
  cases p <;> first | rfl | cases h

namespace LockState

variable {s : LockState ι} {t u : ι}

theorem place_tryRead_self (s : LockState ι) (t : ι) :
    ((s.tryRead t).place t = .reading ∧ ¬ s.locks.writerActive = true) ∨
      (s.tryRead t).place t = .readSleep false := by
  unfold tryRead
  split
  · exact .inr (by simp [setPlace])
  · rename_i locks hlocks
    have hfree := (MutexLocks.enterRead_eq_some.1 hlocks).1
    exact .inl ⟨by simp [setPlace], fun hactive => hfree (.inr hactive)⟩

theorem place_tryRead_of_ne (h : u ≠ t) : (s.tryRead t).place u = s.place u := by
  unfold tryRead
  split
  · simp [setPlace, h]
  · simp [setPlace, h]

theorem place_tryWrite_self (s : LockState ι) (t : ι) :
    ((s.tryWrite t).place t = .writing ∧
        ¬ (s.locks.readersReading > 0 ∨ s.locks.writerActive = true)) ∨
      (s.tryWrite t).place t = .writeSleep false := by
  unfold tryWrite
  split
  · exact .inr (by simp [setPlace])
  · rename_i locks hlocks
    exact .inl ⟨by simp [setPlace], (MutexLocks.enterWrite_eq_some.1 hlocks).1⟩

theorem place_tryWrite_of_ne (h : u ≠ t) : (s.tryWrite t).place u = s.place u := by
  unfold tryWrite
  split
  · simp [setPlace, h]
  · simp [setPlace, h]

theorem place_leave_self (s : LockState ι) (t : ι) (result : MutexLocks × Bool) :
    (s.leave t result).place t = .outside := by
  simp [leave]

theorem place_leave_of_ne (h : u ≠ t) (result : MutexLocks × Bool) :
    (s.leave t result).place u = s.place u ∨ (s.leave t result).place u = (s.place u).notify := by
  cases hb : result.2 with
  | true => exact .inr (by simp [leave, h, hb])
  | false => exact .inl (by simp [leave, h, hb])

theorem outside_of_enterRead {lock : LockState ι} (h : step (.enterRead t) s = some lock) :
    s.place t = .outside ∧ lock = s.tryRead t := by
  obtain ⟨hplace, hlock⟩ := Option.ite_none_right_eq_some.1 h
  exact ⟨hplace, (Option.some.inj hlock).symm⟩

theorem outside_of_enterWrite {lock : LockState ι} (h : step (.enterWrite t) s = some lock) :
    s.place t = .outside ∧ lock = s.tryWrite t := by
  obtain ⟨hplace, hlock⟩ := Option.ite_none_right_eq_some.1 h
  exact ⟨hplace, (Option.some.inj hlock).symm⟩

theorem asleep_of_wake {lock : LockState ι} (h : step (.wake t) s = some lock) :
    (∃ notified, s.place t = .readSleep notified ∧ lock = s.tryRead t) ∨
      ∃ notified, s.place t = .writeSleep notified ∧ lock = s.tryWrite t := by
  cases hplace : s.place t with
  | readSleep notified =>
    simp only [step, hplace, Option.some.injEq] at h
    exact .inl ⟨notified, rfl, h.symm⟩
  | writeSleep notified =>
    simp only [step, hplace, Option.some.injEq] at h
    exact .inr ⟨notified, rfl, h.symm⟩
  | _ => simp [step, hplace] at h

theorem eq_leave_of_exitRead {lock : LockState ι} (h : step (.exitRead t) s = some lock) :
    lock = s.leave t s.locks.exitRead :=
  (Option.some.inj (Option.ite_none_right_eq_some.1 h).2).symm

theorem eq_leave_of_exitWrite {lock : LockState ι} (h : step (.exitWrite t) s = some lock) :
    lock = s.leave t s.locks.exitWrite :=
  (Option.some.inj (Option.ite_none_right_eq_some.1 h).2).symm

variable [Fintype ι]

omit [DecidableEq ι] in
theorem Exclusive.not_writing (h : s.Exclusive) (hactive : ¬ s.locks.writerActive = true) (u : ι) :
    (s.place u).held ≠ .writing := by
  intro hu
  exact hactive (h.active.2 ⟨u, Place.held_eq_writing hu⟩)

omit [DecidableEq ι] in
theorem Exclusive.nothing (h : s.Exclusive)
    (hfree : ¬ (s.locks.readersReading > 0 ∨ s.locks.writerActive = true)) (u : ι) :
    (s.place u).held = .nothing := by
  cases hu : (s.place u).held with
  | nothing => rfl
  | reading =>
    have hpos := countThreads_pos (p := (· = Place.reading)).2 ⟨u, Place.held_eq_reading hu⟩
    have hreaders := h.readers
    exact absurd (.inl (by omega)) hfree
  | writing => exact absurd hu (h.not_writing (fun hactive => hfree (.inr hactive)) u)

end LockState

/-! ## The relation -/

/-- What a standing says about a lock. -/
def Standing.held (q : Standing) : LockName → Held
  | .table => q.table
  | .stats => q.stats.held

section Allows

variable {change : Option Int} {q : Standing} {l : LockName}

theorem outside_of_allows_enter {op : ServerCall} (hop : op = .enterRead l ∨ op = .enterWrite l)
    (h : q.Allows change op) : q.stats = .outside ∧ (l = .table → q.table = .nothing) := by
  rcases hop with rfl | rfl <;>
    cases l with
    | table => exact ⟨h.2, fun _ => h.1⟩
    | stats => exact ⟨h, nofun⟩

theorem held_of_allows_enter {op : ServerCall} (hop : op = .enterRead l ∨ op = .enterWrite l)
    (h : q.Allows change op) : q.held l = .nothing := by
  obtain ⟨hstats, htable⟩ := outside_of_allows_enter hop h
  cases l with
  | table => exact htable rfl
  | stats => exact congrArg StatsPoint.held hstats

theorem held_of_allows_exitRead (h : q.Allows change (.exitRead l)) : q.held l = .reading := by
  cases l with
  | table => exact h.1
  | stats => exact congrArg StatsPoint.held h

theorem held_of_allows_exitWrite (h : q.Allows change (.exitWrite l)) : q.held l = .writing := by
  cases l with
  | table => exact h.1
  | stats =>
    obtain ⟨pending, hstats, -⟩ := h
    exact congrArg StatsPoint.held hstats

end Allows

/-- The next call of the program is this one. -/
def AtServerCall (prog : Prog Conn Bool) (op : ServerCall) : Prop :=
  ∃ k, prog = .call (S := Conn) (.server op) k

/-- A thread, and the part and the standing that it has. -/
structure ThreadRel (s : Threads ι) (t : ι) (x : Part × Standing) : Prop where
  part : (s.thread t).part = x.1
  follows : (s.thread t).prog.Follows (connProtocol x.1) (fun q _ => x.1.Ended q) x.2
  held : ∀ l, x.2.held l = ((s.lock l).place t).held
  readSleep : ∀ l notified, (s.lock l).place t = .readSleep notified →
    AtServerCall (s.thread t).prog (.enterRead l)
  writeSleep : ∀ l notified, (s.lock l).place t = .writeSleep notified →
    AtServerCall (s.thread t).prog (.enterWrite l)

structure Disciplined (s : Threads ι) (x : ι → Part × Standing) : Prop where
  lock : ∀ l, (LockState.system ι).Reachable (s.lock l)
  thread : ∀ t, ThreadRel s t (x t)

/-- The place of another thread is the same, but for a notification. -/
def SamePlace (lock lock' : LockState ι) (u : ι) : Prop :=
  lock'.place u = lock.place u ∨ lock'.place u = (lock.place u).notify

omit [DecidableEq ι] in
theorem SamePlace.held {lock lock' : LockState ι} {u : ι} (h : SamePlace lock lock' u) :
    (lock'.place u).held = (lock.place u).held := by
  rcases h with h | h
  · rw [h]
  · rw [h, Place.held_notify]

omit [DecidableEq ι] in
theorem SamePlace.readSleep {lock lock' : LockState ι} {u : ι} (h : SamePlace lock lock' u)
    {notified : Bool} (hu : lock'.place u = .readSleep notified) :
    ∃ notified', lock.place u = .readSleep notified' := by
  rcases h with h | h
  · exact ⟨notified, h ▸ hu⟩
  · rw [h] at hu
    cases hp : lock.place u with
    | readSleep notified' => exact ⟨notified', rfl⟩
    | _ =>
      rw [hp] at hu
      cases hu

omit [DecidableEq ι] in
theorem SamePlace.writeSleep {lock lock' : LockState ι} {u : ι} (h : SamePlace lock lock' u)
    {notified : Bool} (hu : lock'.place u = .writeSleep notified) :
    ∃ notified', lock.place u = .writeSleep notified' := by
  rcases h with h | h
  · exact ⟨notified, h ▸ hu⟩
  · rw [h] at hu
    cases hp : lock.place u with
    | writeSleep notified' => exact ⟨notified', rfl⟩
    | _ =>
      rw [hp] at hu
      cases hu

omit [DecidableEq ι] in
theorem ThreadRel.other {s s' : Threads ι} {u : ι} {x : Part × Standing} (h : ThreadRel s u x)
    (hthread : s'.thread u = s.thread u) (hplace : ∀ l, SamePlace (s.lock l) (s'.lock l) u) :
    ThreadRel s' u x where
  part := by rw [hthread, h.part]
  follows := by
    rw [hthread]
    exact h.follows
  held l := by rw [(hplace l).held, h.held]
  readSleep l notified hu := by
    obtain ⟨notified', hu'⟩ := (hplace l).readSleep hu
    rw [hthread]
    exact h.readSleep l notified' hu'
  writeSleep l notified hu := by
    obtain ⟨notified', hu'⟩ := (hplace l).writeSleep hu
    rw [hthread]
    exact h.writeSleep l notified' hu'

/-- One thread moves. -/
theorem Disciplined.move {s s' : Threads ι} {x : ι → Part × Standing} (h : Disciplined s x) {t : ι}
    {y : Part × Standing} (hlock : ∀ l, (LockState.system ι).Reachable (s'.lock l))
    (hthread : ∀ u ≠ t, s'.thread u = s.thread u)
    (hplace : ∀ u ≠ t, ∀ l, SamePlace (s.lock l) (s'.lock l) u) (ht : ThreadRel s' t y) :
    Disciplined s' (Function.update x t y) where
  lock := hlock
  thread u := by
    by_cases hut : u = t
    · subst hut
      rw [Function.update_self]
      exact ht
    · rw [Function.update_of_ne hut]
      exact (h.thread u).other (hthread u hut) (hplace u hut)

/-- A thread that does not touch a lock goes on with its program. -/
theorem Disciplined.proceed {s s' : Threads ι} {x : ι → Part × Standing} (h : Disciplined s x)
    {t : ι} {c : ServeConn} {y : Part × Standing} (hlock : s'.lock = s.lock)
    (hthread : s'.thread = Function.update s.thread t c) (hpart : c.part = y.1)
    (hfollows : c.prog.Follows (connProtocol y.1) (fun q _ => y.1.Ended q) y.2)
    (hheld : ∀ l, y.2.held l = (x t).2.held l)
    (hawake : ∀ l, ¬ AtServerCall (s.thread t).prog (.enterRead l) ∧
      ¬ AtServerCall (s.thread t).prog (.enterWrite l)) :
    Disciplined s' (Function.update x t y) := by
  have hself : s'.thread t = c := by rw [hthread, Function.update_self]
  have ht := h.thread t
  refine h.move (fun l => ?_) (fun u hut => ?_) (fun u _ l => ?_) ?_
  · rw [hlock]
    exact h.lock l
  · rw [hthread, Function.update_of_ne hut]
  · rw [hlock]
    exact .inl rfl
  · refine ⟨by rw [hself, hpart], ?_, fun l => ?_, fun l notified hl => ?_, fun l notified hl => ?_⟩
    · rw [hself]
      exact hfollows
    · rw [hheld, ht.held, hlock]
    · rw [hlock] at hl
      exact absurd (ht.readSleep l notified hl) (hawake l).1
    · rw [hlock] at hl
      exact absurd (ht.writeSleep l notified hl) (hawake l).2

/-! ## Calls of a lock -/

theorem held_enterRead (q : Standing) (l l' : LockName) :
    (q.next (.enterRead l) ()).held l' = if l' = l then .reading else q.held l' := by
  cases l <;> cases l' <;> rfl

theorem held_enterWrite (q : Standing) (l l' : LockName) :
    (q.next (.enterWrite l) ()).held l' = if l' = l then .writing else q.held l' := by
  cases l <;> cases l' <;> rfl

theorem held_exitRead (q : Standing) (l l' : LockName) :
    (q.next (.exitRead l) ()).held l' = if l' = l then .nothing else q.held l' := by
  cases l <;> cases l' <;> rfl

theorem held_exitWrite (q : Standing) (l l' : LockName) :
    (q.next (.exitWrite l) ()).held l' = if l' = l then .nothing else q.held l' := by
  cases l <;> cases l' <;> rfl

omit [DecidableEq ι] in
/-- A thread that sleeps makes a call of the lock it sleeps at. -/
theorem ThreadRel.place_of_call {s : Threads ι} {t : ι} {x : Part × Standing} (h : ThreadRel s t x)
    {op : ServerCall} {k : op.Res → Prog Conn Bool}
    (hprog : (s.thread t).prog = .call (S := Conn) (.server op) k) (l : LockName)
      (notified : Bool) :
    ((s.lock l).place t = .readSleep notified → op = .enterRead l) ∧
      ((s.lock l).place t = .writeSleep notified → op = .enterWrite l) := by
  refine ⟨fun hplace => ?_, fun hplace => ?_⟩
  · obtain ⟨k', hk⟩ := h.readSleep l notified hplace
    rw [hprog] at hk
    cases hk
    rfl
  · obtain ⟨k', hk⟩ := h.writeSleep l notified hplace
    rw [hprog] at hk
    cases hk
    rfl

section Lock

variable {s s' : Threads ι} {x : ι → Part × Standing} {t : ι} {l : LockName} {op : ServerCall}
  {k : op.Res → Prog Conn Bool} {lock : LockState ι}

/-- A call of one lock, by a thread that sleeps at no other. -/
theorem Disciplined.moveLock (h : Disciplined s x) {y : Part × Standing}
    (hlock : s'.lock = Function.update s.lock l lock)
    (hthread : ∀ u ≠ t, s'.thread u = s.thread u)
    (hreach : (LockState.system ι).Reachable lock)
    (hother : ∀ u ≠ t, SamePlace (s.lock l) lock u) (hpart : (s'.thread t).part = y.1)
    (hfollows : (s'.thread t).prog.Follows (connProtocol y.1) (fun q _ => y.1.Ended q) y.2)
    (hheld : ∀ l', y.2.held l' = if l' = l then (lock.place t).held else (x t).2.held l')
    (hawake : ∀ l' ≠ l, ∀ notified, (s.lock l').place t ≠ .readSleep notified ∧
      (s.lock l').place t ≠ .writeSleep notified)
    (hself : ∀ notified,
      (lock.place t = .readSleep notified → AtServerCall (s'.thread t).prog (.enterRead l)) ∧
        (lock.place t = .writeSleep notified → AtServerCall (s'.thread t).prog (.enterWrite l))) :
    Disciplined s' (Function.update x t y) := by
  have hsame : s'.lock l = lock := by rw [hlock, Function.update_self]
  have hne : ∀ l' ≠ l, s'.lock l' = s.lock l' := fun l' hl => by
    rw [hlock, Function.update_of_ne hl]
  refine h.move (fun l' => ?_) hthread (fun u hut l' => ?_)
    ⟨hpart, hfollows, fun l' => ?_, fun l' notified hl' => ?_, fun l' notified hl' => ?_⟩
  all_goals by_cases hl : l' = l
  · rw [hl, hsame]
    exact hreach
  · rw [hne l' hl]
    exact h.lock l'
  · rw [hl, hsame]
    exact hother u hut
  · rw [hne l' hl]
    exact .inl rfl
  · rw [hheld, if_pos hl, hl, hsame]
  · rw [hheld, if_neg hl, hne l' hl, (h.thread t).held]
  · rw [hl, hsame] at hl'
    exact hl ▸ (hself notified).1 hl'
  · rw [hne l' hl] at hl'
    exact absurd hl' (hawake l' hl notified).1
  · rw [hl, hsame] at hl'
    exact hl ▸ (hself notified).2 hl'
  · rw [hne l' hl] at hl'
    exact absurd hl' (hawake l' hl notified).2

/-- The thread goes to sleep in the entering function that it calls. -/
theorem Disciplined.sleep (h : Disciplined s x)
    (hprog : (s.thread t).prog = .call (S := Conn) (.server op) k)
    (hop : op = .enterRead l ∨ op = .enterWrite l)
    (hlock : s' = { s with lock := Function.update s.lock l lock })
    (hreach : (LockState.system ι).Reachable lock) (hother : ∀ u ≠ t, SamePlace (s.lock l) lock u)
    (hnothing : ((s.lock l).place t).held = .nothing)
    (hself : (op = .enterRead l ∧ lock.place t = .readSleep false) ∨
      (op = .enterWrite l ∧ lock.place t = .writeSleep false)) : Disciplined s' x := by
  have ht := h.thread t
  have hthread : s'.thread = s.thread := by rw [hlock]
  suffices hmoved : Disciplined s' (Function.update x t (x t)) by
    rwa [Function.update_eq_self] at hmoved
  refine h.moveLock (by rw [hlock]) (fun _ _ => by rw [hthread]) hreach hother
    (by rw [hthread]; exact ht.part) (by rw [hthread]; exact ht.follows) (fun l' => ?_)
    (fun l' hl notified => ⟨fun hp => ?_, fun hp => ?_⟩)
      (fun notified => ⟨fun hp => ?_, fun hp => ?_⟩)
  · split_ifs with hl
    · rw [hl, ht.held, hnothing]
      rcases hself with ⟨-, hplace⟩ | ⟨-, hplace⟩ <;> rw [hplace] <;> rfl
    · rfl
  · have hcall := (ht.place_of_call hprog l' notified).1 hp
    rcases hop with rfl | rfl
    · cases hcall
      exact hl rfl
    · cases hcall
  · have hcall := (ht.place_of_call hprog l' notified).2 hp
    rcases hop with rfl | rfl
    · cases hcall
    · cases hcall
      exact hl rfl
  · rcases hself with ⟨rfl, -⟩ | ⟨-, hplace⟩
    · exact ⟨k, by rw [hthread, hprog]⟩
    · cases hplace.symm.trans hp
  · rcases hself with ⟨-, hplace⟩ | ⟨rfl, -⟩
    · cases hplace.symm.trans hp
    · exact ⟨k, by rw [hthread, hprog]⟩

/-- The call returns, and the thread has of the lock what the protocol says. -/
theorem Disciplined.goOn (h : Disciplined s x) (r : op.Res)
    (hprog : (s.thread t).prog = .call (S := Conn) (.server op) k)
    (hop : ∀ l', op = .enterRead l' ∨ op = .enterWrite l' → l' = l)
    (hlock : s'.lock = Function.update s.lock l lock)
    (hthread : s'.thread = Function.update s.thread t { s.thread t with prog := k r })
    (hreach : (LockState.system ι).Reachable lock) (hother : ∀ u ≠ t, SamePlace (s.lock l) lock u)
    (hheld : ∀ l', ((x t).2.next op r).held l' =
      if l' = l then (lock.place t).held else (x t).2.held l')
    (hself : ∀ notified, lock.place t ≠ .readSleep notified ∧ lock.place t ≠ .writeSleep notified) :
    Disciplined s' (Function.update x t ((x t).1, (x t).2.next op r)) := by
  have ht := h.thread t
  have hnew : s'.thread t = { s.thread t with prog := k r } := by
    rw [hthread, Function.update_self]
  have hfollows := ht.follows
  rw [hprog] at hfollows
  refine h.moveLock hlock (fun u hut => ?_) hreach hother ?_ ?_ hheld
    (fun l' hl notified => ⟨fun hp => ?_, fun hp => ?_⟩)
    (fun notified => ⟨fun hp => absurd hp (hself notified).1,
      fun hp => absurd hp (hself notified).2⟩)
  · rw [hthread, Function.update_of_ne hut]
  · rw [hnew]
    exact ht.part
  · rw [hnew]
    exact hfollows.step (r := r) trivial
  · exact hl (hop l' (.inl ((ht.place_of_call hprog l' notified).1 hp)))
  · exact hl (hop l' (.inr ((ht.place_of_call hprog l' notified).2 hp)))

end Lock

/-! ## Threads keep the ledger -/

/-- The ledger of a server with its threads. -/
structure LedgerRel (s : Threads ι) (a : Ledger ι) : Prop where
  disciplined : Disciplined s a.thread
  stats : s.server.globalStats = some a.stats
  sections : s.sections = a.sections
  counted : ∀ t, s.counted t = (a.thread t).2.counted
  moments : s.moments = a.moments

/-- The server goes on in step with its ledger. -/
def Proceeds (s : Threads ι) (a : Ledger ι) : Prop :=
  ∃ a', (a' = a ∨ a.Step a') ∧ LedgerRel s a'

section LedgerRel

variable {s s' : Threads ι} {a : Ledger ι} {t : ι} {l : LockName}

theorem counted_update {counted : ι → Bool} {x : ι → Part × Standing}
    (h : ∀ u, counted u = (x u).2.counted) (y : Part × Standing) (u : ι) :
    Function.update counted t y.2.counted u = (Function.update x t y u).2.counted := by
  by_cases hut : u = t
  · rw [hut, Function.update_self, Function.update_self]
  · rw [Function.update_of_ne hut, Function.update_of_ne hut, h]

theorem counted_same {counted : ι → Bool} {x : ι → Part × Standing}
    (h : ∀ u, counted u = (x u).2.counted) {y : Part × Standing}
      (hy : y.2.counted = (x t).2.counted)
    (u : ι) : counted u = (Function.update x t y u).2.counted := by
  by_cases hut : u = t
  · rw [hut, Function.update_self, hy, h]
  · rw [Function.update_of_ne hut, h]

/-- In a section that begins nothing is counted yet. -/
theorem counted_enterSection {x : ι → Part × Standing} (h : ∀ u, s.counted u = (x u).2.counted)
    {op : ServerCall} (hop : op = .enterRead l ∨ op = .enterWrite l) (r : op.Res) (u : ι) :
    (s.enterSection t l).counted u =
      (Function.update x t ((x t).1, (x t).2.next op r) u).2.counted := by
  cases l with
  | table => rcases hop with rfl | rfl <;> exact counted_update h ((x t).1, (x t).2.next _ r) u
  | stats =>
    have hsame : ((x t).2.next op r).counted = (x t).2.counted := by
      rcases hop with rfl | rfl <;> rfl
    exact counted_same (y := ((x t).1, (x t).2.next op r)) h hsame u

/-- An entering function sleeps, or the lock grants its section. -/
theorem LedgerRel.enter (h : LedgerRel s a) {op : ServerCall} {k : op.Res → Prog Conn Bool}
    {r : op.Res} {step : LockStep ι} {lock : LockState ι}
    (hprog : (s.thread t).prog = .call (S := Conn) (.server op) k)
    (hop : op = .enterRead l ∨ op = .enterWrite l)
    (hstep : LockState.step step (s.lock l) = some lock)
    (hother : ∀ u ≠ t, SamePlace (s.lock l) lock u)
    (hnothing : ((s.lock l).place t).held = .nothing)
    (hself : (lock.place t = .reading ∨ lock.place t = .writing) ∧ a.Grants op r ∧
        (∀ l', ((a.thread t).2.next op r).held l' =
          if l' = l then (lock.place t).held else (a.thread t).2.held l') ∨
      (op = .enterRead l ∧ lock.place t = .readSleep false) ∨
      (op = .enterWrite l ∧ lock.place t = .writeSleep false))
    (henter : s.enter t l step (k r) = some s') : Proceeds s' a := by
  have hreach : (LockState.system ι).Reachable lock := .step (h.disciplined.lock l) trivial hstep
  have hallow := (h.disciplined.thread t).follows
  rw [hprog] at hallow
  rw [Threads.enter, hstep, Option.map_some, Option.some.injEq] at henter
  rcases hself with ⟨hplace, hgrants, hheld⟩ | hself
  · rw [if_pos hplace] at henter
    subst henter
    have hrecord : a.record op = a := by rcases hop with rfl | rfl <;> rfl
    have hone : ∀ l', op = .enterRead l' ∨ op = .enterWrite l' → l' = l := by
      rcases hop with rfl | rfl <;> rintro l' (⟨⟨⟩⟩ | ⟨⟨⟩⟩) <;> rfl
    have hawake : ∀ notified, lock.place t ≠ .readSleep notified ∧
        lock.place t ≠ .writeSleep notified := by
      rcases hplace with hplace | hplace <;> rw [hplace] <;> exact fun _ => ⟨nofun, nofun⟩
    refine ⟨a.call t op r, .inr (.call t op r hallow.1.2.2 hgrants), ?_⟩
    rw [Ledger.call, hrecord]
    refine ⟨h.disciplined.goOn r hprog hone ?_ ?_ hreach hother hheld hawake, ?_, ?_, ?_, ?_⟩
    · simp [Threads.setProg, Threads.setThread]
    · simp [Threads.setProg, Threads.setThread]
    · simpa [Threads.setProg, Threads.setThread, Ledger.setThread] using h.stats
    · simpa [Threads.setProg, Threads.setThread, Ledger.setThread] using h.sections
    · exact counted_enterSection (s := { s with lock := Function.update s.lock l lock })
        h.counted hop r
    · simpa [Threads.setProg, Threads.setThread, Ledger.setThread] using h.moments
  -- the thread sleeps, which the ledger does not see
  · have hsleeps : ¬ (lock.place t = .reading ∨ lock.place t = .writing) := by
      rcases hself with ⟨-, hplace⟩ | ⟨-, hplace⟩ <;> rw [hplace] <;> simp
    rw [if_neg hsleeps] at henter
    subst henter
    exact ⟨a, .inl rfl, h.disciplined.sleep hprog hop rfl hreach hother hnothing hself, h.stats,
      h.sections, h.counted, h.moments⟩

theorem LedgerRel.enterRead [Fintype ι] (h : LedgerRel s a) {k : Unit → Prog Conn Bool}
    (hprog : (s.thread t).prog = .call (S := Conn) (.server (.enterRead l)) k)
    {step : LockStep ι} (hstep : LockState.step step (s.lock l) = some ((s.lock l).tryRead t))
    (hnothing : ((s.lock l).place t).held = .nothing)
    (henter : s.enter t l step (k ()) = some s') : Proceeds s' a := by
  refine h.enter hprog (.inl rfl) hstep (fun u hut => .inl (LockState.place_tryRead_of_ne hut))
    hnothing ?_ henter
  rcases LockState.place_tryRead_self (s.lock l) t with ⟨hplace, hactive⟩ | hplace
  · refine .inl ⟨.inl hplace, ?_, fun l' => by rw [held_enterRead, hplace]; rfl⟩
    cases l with
    | table => trivial
    | stats =>
      intro u hu
      refine (LockState.exclusive_of_reachable (h.disciplined.lock .stats)).not_writing hactive u ?_
      rw [← (h.disciplined.thread u).held]
      exact hu
  · exact .inr (.inl ⟨rfl, hplace⟩)

theorem LedgerRel.enterWrite [Fintype ι] (h : LedgerRel s a) {k : Unit → Prog Conn Bool}
    (hprog : (s.thread t).prog = .call (S := Conn) (.server (.enterWrite l)) k)
    {step : LockStep ι} (hstep : LockState.step step (s.lock l) = some ((s.lock l).tryWrite t))
    (hnothing : ((s.lock l).place t).held = .nothing)
    (henter : s.enter t l step (k ()) = some s') : Proceeds s' a := by
  refine h.enter hprog (.inr rfl) hstep (fun u hut => .inl (LockState.place_tryWrite_of_ne hut))
    hnothing ?_ henter
  rcases LockState.place_tryWrite_self (s.lock l) t with ⟨hplace, hfree⟩ | hplace
  · refine .inl ⟨.inr hplace, ?_, fun l' => by rw [held_enterWrite, hplace]; rfl⟩
    cases l with
    | table => trivial
    | stats =>
      intro u
      change (a.thread u).2.held .stats = .nothing
      rw [(h.disciplined.thread u).held]
      exact (LockState.exclusive_of_reachable (h.disciplined.lock .stats)).nothing hfree u
  · exact .inr (.inr ⟨rfl, hplace⟩)

/-- A section ends; its history is left to the ledger. -/
theorem LedgerRel.exit (h : LedgerRel s a) {op : ServerCall} {k : op.Res → Prog Conn Bool}
    {r : op.Res} {step : LockStep ι} {result : MutexLocks × Bool}
    (hprog : (s.thread t).prog = .call (S := Conn) (.server op) k)
    (hop : op = .exitRead l ∨ op = .exitWrite l)
    (hstep : ∀ lock, LockState.step step (s.lock l) = some lock → lock = (s.lock l).leave t result)
    (hexit : s.exit t l step (k r) = some s') :
    (a.thread t).2.Allows (a.thread t).1.change op ∧
      Disciplined s' (Function.update a.thread t ((a.thread t).1, (a.thread t).2.next op r)) ∧
      s'.server = s.server ∧ s'.sections = s.sections ∧ s'.counted = s.counted ∧
      s'.moments = s.moments := by
  have hallow := (h.disciplined.thread t).follows
  rw [hprog] at hallow
  obtain ⟨lock, hlock, rfl⟩ := Option.map_eq_some_iff.1 hexit
  obtain rfl := hstep lock hlock
  have hself := LockState.place_leave_self (s.lock l) t result
  refine ⟨hallow.1.2.2, h.disciplined.goOn r hprog ?_ rfl rfl
    (.step (h.disciplined.lock l) trivial hlock)
    (fun u hut => LockState.place_leave_of_ne hut result) (fun l' => ?_) (fun notified => ?_),
    rfl, rfl, rfl, rfl⟩
  · rcases hop with rfl | rfl <;> rintro l' (⟨⟨⟩⟩ | ⟨⟨⟩⟩)
  · rw [hself]
    rcases hop with rfl | rfl
    · exact held_exitRead _ l l'
    · exact held_exitWrite _ l l'
  · rw [hself]
    exact ⟨nofun, nofun⟩

/-- A call that leaves what the thread has of the locks. -/
theorem Disciplined.access {x : ι → Part × Standing} (h : Disciplined s x) {op : ServerCall}
    {k : op.Res → Prog Conn Bool} {r : op.Res}
    (hprog : (s.thread t).prog = .call (S := Conn) (.server op) k)
    (hop : ∀ l, op ≠ .enterRead l ∧ op ≠ .enterWrite l) (hlock : s'.lock = s.lock)
    (hthread : s'.thread = Function.update s.thread t { s.thread t with prog := k r })
    (hheld : ∀ l, ((x t).2.next op r).held l = (x t).2.held l) :
    Disciplined s' (Function.update x t ((x t).1, (x t).2.next op r)) := by
  have ht := h.thread t
  have hfollows := ht.follows
  rw [hprog] at hfollows
  refine h.proceed hlock hthread ht.part (hfollows.step (r := r) trivial) hheld fun l => ⟨?_, ?_⟩
  · rintro ⟨k', hk⟩
    rw [hprog] at hk
    cases hk
    exact (hop l).1 rfl
  · rintro ⟨k', hk⟩
    rw [hprog] at hk
    cases hk
    exact (hop l).2 rfl

theorem held_load (q : Standing) (field : StatField) (value : Int) (l : LockName) :
    (q.load field value).held l = q.held l := by
  obtain ⟨table, stats, nClientes, nOperacoes, changed, counted⟩ := q
  cases stats <;> cases field <;> cases l <;> rfl

theorem counted_load (q : Standing) (field : StatField) (value : Int) :
    (q.load field value).counted = q.counted := by
  obtain ⟨table, stats, nClientes, nOperacoes, changed, counted⟩ := q
  cases stats <;> cases field <;> rfl

/-- Only a store changes the statistics. -/
theorem globalStats_of_free {op : ServerCall} (hfree : op.free = true) {clock : ℕ → Timeval}
    {link : Link Unit} {server server' : ServerState × Unit} {r : op.Res}
    (h : alone clock link op server = .ok (r, server')) :
    server'.1.globalStats = server.1.globalStats := by
  cases op with
  | tablePut key value =>
    obtain ⟨⟨table, res⟩, -, h⟩ := C.bind_eq_ok h
    cases h
    rfl
  | tableRemove key =>
    obtain ⟨⟨table, res⟩, -, h⟩ := C.bind_eq_ok h
    cases h
    rfl
  | tableGet key =>
    obtain ⟨block, -, h⟩ := C.bind_eq_ok h
    cases h
    rfl
  | tableGetKeys =>
    obtain ⟨block, -, h⟩ := C.bind_eq_ok h
    cases h
    rfl
  | tableGetEntries =>
    obtain ⟨block, -, h⟩ := C.bind_eq_ok h
    cases h
    rfl
  | fault f => exact r.elim
  | _ => first | (cases h; rfl) | cases hfree

theorem LedgerRel.crash (h : LedgerRel s a) : LedgerRel { s with crashed := true } a :=
  ⟨⟨h.disciplined.lock, fun u => (h.disciplined.thread u).other rfl fun _ => .inl rfl⟩, h.stats,
    h.sections, h.counted, h.moments⟩

/-- A call that is neither about a lock nor about the statistics. -/
theorem LedgerRel.free (h : LedgerRel s a) {op : ServerCall} {k : op.Res → Prog Conn Bool}
    {answer : Answer} (hprog : (s.thread t).prog = .call (S := Conn) (.server op) k)
    (hfree : op.free = true) : Proceeds (s.access t answer op k) a := by
  have hallow := (h.disciplined.thread t).follows
  rw [hprog] at hallow
  unfold Threads.access
  split
  · rename_i r server _ hrun
    have hstats := globalStats_of_free hfree hrun
    have hgrants : a.Grants op r := by cases op <;> trivial
    have hrecord : a.record op = a := by cases op <;> first | rfl | cases hfree
    have hop : ∀ l, op ≠ .enterRead l ∧ op ≠ .enterWrite l := by
      rintro l
      constructor <;> rintro rfl <;> cases hfree
    have hheld : ∀ l, ((a.thread t).2.next op r).held l = (a.thread t).2.held l := fun l => by
      rw [next_of_free hfree]
    refine ⟨a.call t op r, .inr (.call t op r hallow.1.2.2 hgrants), ?_⟩
    rw [Ledger.call, hrecord]
    exact ⟨h.disciplined.access hprog hop rfl rfl hheld, hstats.trans h.stats, h.sections,
      counted_same h.counted (by rw [next_of_free hfree]), h.moments⟩
  · exact ⟨a, .inl rfl, h.crash⟩

theorem LedgerRel.loadStat (h : LedgerRel s a) {field : StatField} {k : Int → Prog Conn Bool}
    {answer : Answer}
    (hprog : (s.thread t).prog = .call (S := Conn) (.server (.loadStat field)) k) :
    Proceeds (s.access t answer (.loadStat field) k) a := by
  have hallow := (h.disciplined.thread t).follows
  rw [hprog] at hallow
  have hload : alone (fun _ => answer.time) answer.link (.loadStat field) (s.server, ()) =
      .ok (a.stats.load field, (s.server, ())) := by
    rw [alone, h.stats]
    rfl
  have haccess : s.access t answer (.loadStat field) k = s.setProg t (k (a.stats.load field)) := by
    unfold Threads.access
    simp only [hload]
  rw [haccess]
  exact ⟨a.call t (.loadStat field) (a.stats.load field), .inr (.call t _ _ hallow.1.2.2 rfl),
    h.disciplined.access hprog (fun _ => ⟨by simp, by simp⟩) rfl rfl (held_load _ field _), h.stats,
    h.sections, counted_same h.counted (counted_load _ field _), h.moments⟩

theorem LedgerRel.storeStat (h : LedgerRel s a) {field : StatField} {value : Int}
    {k : Unit → Prog Conn Bool} {answer : Answer}
    (hprog : (s.thread t).prog = .call (S := Conn) (.server (.storeStat field value)) k) :
    Proceeds (s.access t answer (.storeStat field value) k) a := by
  have hallow := (h.disciplined.thread t).follows
  rw [hprog] at hallow
  have hstore : alone (fun _ => answer.time) answer.link (.storeStat field value) (s.server, ()) =
      .ok ((), ({ s.server with globalStats := some (a.stats.store value field) }, ())) := by
    rw [alone, h.stats]
    rfl
  have haccess : s.access t answer (.storeStat field value) k =
      { s with
        server := { s.server with globalStats := some (a.stats.store value field) } }.setProg t
          (k ()) := by
    unfold Threads.access
    simp only [hstore]
  rw [haccess]
  have hheld : ∀ l, ((a.thread t).2.next (.storeStat field value) ()).held l =
      (a.thread t).2.held l := by
    intro l
    obtain ⟨current, hstats, -⟩ := hallow.1.2.2
    cases l with
    | table => rfl
    | stats => simp [Standing.held, Standing.next, hstats, StatsPoint.held]
  exact ⟨a.call t (.storeStat field value) (), .inr (.call t _ _ hallow.1.2.2 trivial),
    h.disciplined.access hprog (fun _ => ⟨by simp, by simp⟩) rfl rfl hheld, rfl,
    h.sections, counted_same h.counted rfl, h.moments⟩

/-- A call that is not one of the server. -/
theorem LedgerRel.outside (h : LedgerRel s a) {op : ConnCall} {k : op.Res → Prog Conn Bool}
    {r : op.Res} (hprog : (s.thread t).prog = .call (S := Conn) op k)
    (hop : ∀ op', op ≠ .server op') : Proceeds (s.setProg t (k r)) a := by
  have ht := h.disciplined.thread t
  have hfollows := ht.follows
  rw [hprog] at hfollows
  have hnext : (connProtocol (a.thread t).1).next (a.thread t).2 op r = (a.thread t).2 := by
    cases op with
    | server op' => exact absurd rfl (hop op')
    | _ => rfl
  have hlater := hfollows.step (r := r) trivial
  rw [hnext] at hlater
  have hawake : ∀ op', ¬ AtServerCall (s.thread t).prog op' := by
    rintro op' ⟨k', hk⟩
    rw [hprog] at hk
    cases hk
    exact hop op' rfl
  have hmoved : Disciplined (s.setProg t (k r)) (Function.update a.thread t (a.thread t)) :=
    h.disciplined.proceed rfl rfl ht.part hlater (fun _ => rfl) fun l => ⟨hawake _, hawake _⟩
  rw [Function.update_eq_self] at hmoved
  exact ⟨a, .inl rfl, hmoved, h.stats, h.sections, h.counted, h.moments⟩

/-- A section of the table is left, and the history counts it. -/
theorem LedgerRel.exitTable (h : LedgerRel s a) {op : ServerCall} {k : op.Res → Prog Conn Bool}
    {r : op.Res} {step : LockStep ι} {result : MutexLocks × Bool}
    (hprog : (s.thread t).prog = .call (S := Conn) (.server op) k)
    (hop : op = .exitRead .table ∨ op = .exitWrite .table)
    (hstep : ∀ lock, LockState.step step (s.lock .table) = some lock →
      lock = (s.lock .table).leave t result)
    (hexit : s.exit t .table step (k r) = some s') : Proceeds s'.leaveTable a := by
  obtain ⟨hallow, hdisc, hserver, hsections, hcounted, hmoments⟩ := h.exit hprog hop hstep hexit
  have hgrants : a.Grants op r := by rcases hop with rfl | rfl <;> trivial
  have hrecord : a.record op = { a with sections := a.sections + 1 } := by
    rcases hop with rfl | rfl <;> rfl
  have hsame : ((a.thread t).2.next op r).counted = (a.thread t).2.counted := by
    rcases hop with rfl | rfl <;> rfl
  refine ⟨a.call t op r, .inr (.call t op r hallow hgrants), ?_⟩
  rw [Ledger.call, hrecord]
  refine ⟨⟨hdisc.lock, fun u => (hdisc.thread u).other rfl fun _ => .inl rfl⟩, ?_, ?_, ?_, ?_⟩
  · exact (congrArg ServerState.globalStats hserver).trans h.stats
  · exact congrArg (· + 1) (hsections.trans h.sections)
  · exact counted_same (fun u => (congrFun hcounted u).trans (h.counted u)) hsame
  · exact hmoments.trans h.moments

/-- A reader of the statistics leaves. -/
theorem LedgerRel.exitReadStats (h : LedgerRel s a) {k : Unit → Prog Conn Bool}
    (hprog : (s.thread t).prog = .call (S := Conn) (.server (.exitRead .stats)) k)
    (hexit : s.exit t .stats (.exitRead t) (k ()) = some s') : Proceeds s' a := by
  obtain ⟨hallow, hdisc, hserver, hsections, hcounted, hmoments⟩ :=
    h.exit (r := ()) hprog (.inl rfl) (fun _ hlock => LockState.eq_leave_of_exitRead hlock) hexit
  refine ⟨a.call t (.exitRead .stats) (), .inr (.call t _ () hallow trivial), hdisc, ?_, ?_, ?_, ?_⟩
  · exact (congrArg ServerState.globalStats hserver).trans h.stats
  · exact hsections.trans h.sections
  · exact counted_same (fun u => (congrFun hcounted u).trans (h.counted u)) rfl
  · exact hmoments.trans h.moments

/-- The end of a section that changed the statistics is a moment at which they hold. -/
theorem LedgerRel.exitWriteStats (h : LedgerRel s a) {k : Unit → Prog Conn Bool}
    (hprog : (s.thread t).prog = .call (S := Conn) (.server (.exitWrite .stats)) k)
    (hexit : s.exit t .stats (.exitWrite t) (k ()) = some s') : Proceeds (s'.leaveStats t) a := by
  obtain ⟨hallow, hdisc, hserver, hsections, hcounted, hmoments⟩ :=
    h.exit (r := ()) hprog (.inr rfl) (fun _ hlock => LockState.eq_leave_of_exitWrite hlock) hexit
  refine ⟨a.call t (.exitWrite .stats) (), .inr (.call t _ () hallow trivial), ?_⟩
  refine ⟨⟨hdisc.lock, fun u => (hdisc.thread u).other rfl fun _ => .inl rfl⟩, ?_, ?_, ?_, ?_⟩
  · exact (congrArg ServerState.globalStats hserver).trans h.stats
  · exact hsections.trans h.sections
  · intro u
    simp only [Threads.leaveStats, hcounted]
    exact counted_update h.counted ((a.thread t).1, (a.thread t).2.next (.exitWrite .stats) ()) u
  · simp only [Threads.leaveStats, Ledger.call, Ledger.record, Ledger.setThread, hmoments, hserver,
      h.moments, h.stats, Option.toList_some]

theorem LedgerRel.serverCall [Fintype ι] (h : LedgerRel s a) {answer : Answer} {op : ServerCall}
    {k : op.Res → Prog Conn Bool}
    (hprog : (s.thread t).prog = .call (S := Conn) (.server op) k)
    (hcall : s.call t answer (.call (S := Conn) (.server op) k) = some s') : Proceeds s' a := by
  cases op with
  | enterRead l =>
    obtain ⟨lock, hstep, -⟩ := Option.map_eq_some_iff.1 hcall
    obtain ⟨hplace, hlock⟩ := LockState.outside_of_enterRead hstep
    exact h.enterRead hprog (hlock ▸ hstep) (by rw [hplace]; rfl) hcall
  | enterWrite l =>
    obtain ⟨lock, hstep, -⟩ := Option.map_eq_some_iff.1 hcall
    obtain ⟨hplace, hlock⟩ := LockState.outside_of_enterWrite hstep
    exact h.enterWrite hprog (hlock ▸ hstep) (by rw [hplace]; rfl) hcall
  | exitRead l =>
    cases l with
    | table =>
      obtain ⟨s₁, hexit, rfl⟩ := Option.map_eq_some_iff.1 hcall
      exact h.exitTable (r := ()) hprog (.inl rfl)
        (fun _ hlock => LockState.eq_leave_of_exitRead hlock) hexit
    | stats => exact h.exitReadStats hprog hcall
  | exitWrite l =>
    cases l with
    | table =>
      obtain ⟨s₁, hexit, rfl⟩ := Option.map_eq_some_iff.1 hcall
      exact h.exitTable (r := ()) hprog (.inr rfl)
        (fun _ hlock => LockState.eq_leave_of_exitWrite hlock) hexit
    | stats =>
      obtain ⟨s₁, hexit, rfl⟩ := Option.map_eq_some_iff.1 hcall
      exact h.exitWriteStats hprog hexit
  | loadStat field =>
    rw [← Option.some.inj hcall]
    exact h.loadStat hprog
  | storeStat field value =>
    rw [← Option.some.inj hcall]
    exact h.storeStat hprog
  | _ =>
    rw [← Option.some.inj hcall]
    exact h.free hprog rfl

theorem LedgerRel.call [Fintype ι] (h : LedgerRel s a) {answer : Answer}
    (hcall : s.call t answer (s.thread t).prog = some s') : Proceeds s' a := by
  cases hprog : (s.thread t).prog with
  | ret processingError =>
    rw [hprog] at hcall
    cases hcall
  | call op k =>
    rw [hprog] at hcall
    cases op with
    | server op => exact h.serverCall hprog hcall
    | terminated =>
      rw [← Option.some.inj hcall]
      exact h.outside (r := s.terminated) hprog fun _ => nofun
    | networkReceive =>
      rw [← Option.some.inj hcall]
      exact h.outside (r := answer.received) hprog fun _ => nofun
    | networkSend msg =>
      rw [← Option.some.inj hcall]
      exact h.outside (r := answer.sent) hprog fun _ => nofun
    | close =>
      rw [← Option.some.inj hcall]
      exact h.outside (r := ()) hprog fun _ => nofun

theorem wake_cases {prog : Prog Conn Bool} (h : s.wake t prog = some s') :
    (∃ l k, prog = .call (S := Conn) (.server (.enterRead l)) k ∧
        s.enter t l (.wake t) (k ()) = some s') ∨
      ∃ l k, prog = .call (S := Conn) (.server (.enterWrite l)) k ∧
        s.enter t l (.wake t) (k ()) = some s' := by
  unfold Threads.wake at h
  split at h
  · exact .inl ⟨_, _, rfl, h⟩
  · exact .inr ⟨_, _, rfl, h⟩
  · cases h

theorem LedgerRel.wake [Fintype ι] (h : LedgerRel s a)
    (hwake : s.wake t (s.thread t).prog = some s') : Proceeds s' a := by
  have ht := h.disciplined.thread t
  rcases wake_cases hwake with ⟨l, k, hprog, henter⟩ | ⟨l, k, hprog, henter⟩
  · obtain ⟨lock, hstep, -⟩ := Option.map_eq_some_iff.1 henter
    have hsleeps := fun notified => (ht.place_of_call hprog l notified).2
    obtain ⟨notified, hplace, hlock⟩ | ⟨notified, hplace, -⟩ := LockState.asleep_of_wake hstep
    · exact h.enterRead hprog (hlock ▸ hstep) (by rw [hplace]; rfl) henter
    · cases hsleeps notified hplace
  · obtain ⟨lock, hstep, -⟩ := Option.map_eq_some_iff.1 henter
    have hsleeps := fun notified => (ht.place_of_call hprog l notified).1
    obtain ⟨notified, hplace, -⟩ | ⟨notified, hplace, hlock⟩ := LockState.asleep_of_wake hstep
    · cases hsleeps notified hplace
    · exact h.enterWrite hprog (hlock ▸ hstep) (by rw [hplace]; rfl) henter

/-- What comes after the end of a part. -/
theorem test_follows {part : Part} (hpart : part ≠ .finished) {q : Standing} (hrests : q.Rests)
    (hchanged : q.changed = false) (processingError terminated : Bool) :
    let next := ServeConn.test part processingError terminated
    part.Next next.part ∧
      next.prog.Follows (connProtocol next.part) (fun q _ => next.part.Ended q) q := by
  have hloops : ∀ part, (∀ next : ServeConn, next.part = .serving ∨ next.part = .closing →
      Part.Next part next.part) →
      let next := if !processingError && !terminated then ServeConn.round else ServeConn.leave
      Part.Next part next.part ∧
        next.prog.Follows (connProtocol next.part) (fun q _ => next.part.Ended q) q := by
    intro part hnext
    dsimp only
    split_ifs
    · exact ⟨hnext _ (.inl rfl), round_follows hrests⟩
    · exact ⟨hnext _ (.inr rfl), leave_follows hrests hchanged⟩
  cases part with
  | opening => exact hloops .opening fun _ h => h
  | serving => exact hloops .serving fun _ h => h
  | closing => exact ⟨rfl, hrests, fun h => absurd rfl h⟩
  | finished => exact absurd rfl hpart

/-- A part of `serve_conn` ends, and the next one begins. -/
theorem LedgerRel.test (h : LedgerRel s a) (htest : s.test t (s.thread t) = some s') :
    Proceeds s' a := by
  have ht := h.disciplined.thread t
  rcases hthread : s.thread t with ⟨part, prog⟩
  rw [hthread] at htest
  rcases prog with processingError | ⟨op, k⟩
  · have hpart : part ≠ .finished := by
      rintro rfl
      cases htest
    have hs' : s' = s.setThread t (.test part processingError s.terminated) := by
      cases part <;> first | exact (Option.some.inj htest).symm | exact absurd rfl hpart
    have hsame : (a.thread t).1 = part := by rw [← ht.part, hthread]
    have hended : (a.thread t).1.Ended (a.thread t).2 := by
      have hfollows := ht.follows
      rw [hthread] at hfollows
      exact hfollows
    have hawake : ∀ op, ¬ AtServerCall (s.thread t).prog op := by
      rintro op ⟨k, hk⟩
      rw [hthread] at hk
      cases hk
    have hrests : Standing.Rests { (a.thread t).2 with changed := false } :=
      ⟨hended.rests.table, hended.rests.stats⟩
    obtain ⟨hnext, hfollows⟩ := test_follows hpart hrests rfl processingError s.terminated
    rw [← hsame] at hnext
    rw [hs', ← hsame]
    rw [← hsame] at hfollows
    exact ⟨_, .inr (.part t _ hended hnext), h.disciplined.proceed rfl rfl rfl hfollows
      (fun l => by cases l <;> rfl) (fun l => ⟨hawake _, hawake _⟩), h.stats, h.sections,
      counted_same h.counted rfl, h.moments⟩
  · cases part <;> cases htest

theorem LedgerRel.step [Fintype ι] (h : LedgerRel s a) {label : ThreadStep ι}
    (hstep : Threads.step label s = some s') : Proceeds s' a := by
  obtain ⟨-, hstep⟩ := Option.ite_none_left_eq_some.1 hstep
  cases label with
  | call t answer => exact h.call hstep
  | wake t => exact h.wake hstep
  | test t => exact h.test hstep
  | terminate =>
    rw [← Option.some.inj hstep]
    exact ⟨a, .inl rfl, ⟨h.disciplined.lock, fun u =>
      (h.disciplined.thread u).other rfl fun _ => .inl rfl⟩, h.stats, h.sections, h.counted,
      h.moments⟩

end LedgerRel

/-! ## Runs -/

/-- The ledger of a server in which no thread has begun. -/
def Ledger.start : Ledger ι where
  stats := ⟨0, 0, 0⟩
  sections := 0
  moments := [⟨0, 0, 0⟩]
  thread _ := (.opening, ⟨.nothing, .outside, none, none, false, false⟩)

theorem ledgerRel_start {s : Threads ι} (h : s.Start) : LedgerRel s .start where
  disciplined.lock l := .init (h.lock l)
  disciplined.thread t := by
    refine ⟨by rw [h.thread]; rfl, ?_, fun l => ?_, fun l notified hl => ?_, fun l notified hl => ?_⟩
    · rw [h.thread]
      exact start_follows ⟨rfl, rfl⟩ rfl
    · rw [h.lock]
      cases l <;> rfl
    · rw [h.lock] at hl
      cases hl
    · rw [h.lock] at hl
      cases hl
  stats := h.stats
  sections := h.sections
  counted := h.counted
  moments := h.moments

omit [DecidableEq ι] in
theorem counted_start [Fintype ι] : (Ledger.start (ι := ι)).Counted where
  clients := by
    have hzero : countThreads Contributes (Ledger.start (ι := ι)).thread = 0 :=
      countThreads_eq_zero.2 fun _ => Bool.false_ne_true
    rw [hzero]
    rfl
  operations := by
    have hzero : countThreads Operates (Ledger.start (ι := ι)).thread = 0 :=
      countThreads_eq_zero.2 fun _ hop => hop.1 rfl
    rw [hzero]
    rfl
  loaded _ _ _ := nofun
  alone _ _ := nofun
  settled _ := List.mem_singleton.2 rfl
  informed _ := nofun

/-- A reachable server has a ledger that counts what it should. -/
theorem exists_ledger [Fintype ι] {s : Threads ι} (h : (threadSystem ι).Reachable s) :
    ∃ a : Ledger ι, a.Counted ∧ LedgerRel s a := by
  refine h.simulation (fun s hs => ⟨.start, counted_start, ledgerRel_start hs⟩) ?_
  intro label s s' a ha hrel hstep
  obtain ⟨a', rfl | ha', hrel'⟩ := hrel.step hstep
  · exact ⟨a', ha, hrel'⟩
  · exact ⟨a', ha.step ha', hrel'⟩

end ChainTable
