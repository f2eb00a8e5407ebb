-- SUMMARY: Who waits at the lock of mutex.c: nobody sleeps without a reason, and writers_waiting counts no writer.
import ChainTable.Sync.Mutex

open Base

/-!
# Waiting at the lock

A sleeping thread that no broadcast has reached waits for somebody who is inside.
This holds although `writers_waiting` does not say how many writers wait:
`enter_write` only ever takes from it.
-/

namespace ChainTable

/-! ## Tests of the loop conditions -/

namespace MutexLocks

variable {locks locks' : MutexLocks}

theorem enterRead_eq_none :
    locks.enterRead = none ↔ locks.writersWaiting > 0 ∨ locks.writerActive = true := by
  unfold enterRead
  split_ifs with h
  · exact iff_of_true rfl h
  · exact iff_of_false nofun h

theorem enterRead_eq_some :
    locks.enterRead = some locks' ↔ ¬ (locks.writersWaiting > 0 ∨ locks.writerActive = true) ∧
      locks' = { locks with readersReading := locks.readersReading + 1 } := by
  rw [enterRead, Option.ite_none_left_eq_some, Option.some.injEq, eq_comm (a := locks')]

theorem enterWrite_eq_none :
    locks.enterWrite = none ↔ locks.readersReading > 0 ∨ locks.writerActive = true := by
  unfold enterWrite
  split_ifs with h
  · exact iff_of_true rfl h
  · exact iff_of_false nofun h

theorem enterWrite_eq_some :
    locks.enterWrite = some locks' ↔ ¬ (locks.readersReading > 0 ∨ locks.writerActive = true) ∧
      locks' = { locks with
        writerActive := true, writersWaiting := locks.writersWaiting - 1 } := by
  rw [enterWrite, Option.ite_none_left_eq_some, Option.some.injEq, eq_comm (a := locks')]

end MutexLocks

namespace LockState

variable {ι : Type} [DecidableEq ι]

/-! ## Sleepers -/

/-- A thread that sleeps un-notified has a reason to. -/
structure Justified (s : LockState ι) : Prop where
  waiting : s.locks.writersWaiting ≤ 0
  reader : ∀ t, s.place t = .readSleep false → s.locks.writerActive = true
  writer : ∀ t, s.place t = .writeSleep false →
    s.locks.writerActive = true ∨ 0 < s.locks.readersReading

omit [DecidableEq ι] in
theorem justified_init : Justified (⟨.zero, fun _ => .outside⟩ : LockState ι) :=
  ⟨le_rfl, nofun, nofun⟩

theorem place_setPlace_cases {s : LockState ι} {t u : ι} {p q : Place}
    (h : (s.setPlace t p).place u = q) : s.place u = q ∨ p = q := by
  by_cases hut : u = t
  · subst hut
    exact .inr (by simpa [setPlace] using h)
  · exact .inl (by simpa [setPlace, hut] using h)

theorem Justified.tryRead {s : LockState ι} (h : s.Justified)
    (t : ι) : (s.tryRead t).Justified := by
  unfold LockState.tryRead
  split
  · rename_i hlocks
    have hactive : s.locks.writerActive = true :=
      (MutexLocks.enterRead_eq_none.1 hlocks).resolve_left (not_lt.2 h.waiting)
    exact ⟨h.waiting, fun _ _ => hactive, fun _ _ => .inl hactive⟩
  · rename_i locks hlocks
    obtain ⟨-, rfl⟩ := MutexLocks.enterRead_eq_some.1 hlocks
    refine ⟨h.waiting, fun u hu => ?_, fun u hu => ?_⟩
    · exact h.reader u ((place_setPlace_cases hu).resolve_right nofun)
    · have hreason := h.writer u ((place_setPlace_cases hu).resolve_right nofun)
      exact hreason.imp_right fun hreaders => hreaders.trans (lt_add_one _)

theorem Justified.tryWrite {s : LockState ι} (h : s.Justified) (t : ι) :
    (s.tryWrite t).Justified := by
  unfold LockState.tryWrite
  split
  · rename_i hlocks
    refine ⟨h.waiting, fun u hu => ?_, fun _ _ => (MutexLocks.enterWrite_eq_none.1 hlocks).symm⟩
    exact h.reader u ((place_setPlace_cases hu).resolve_right nofun)
  · rename_i locks hlocks
    obtain ⟨-, rfl⟩ := MutexLocks.enterWrite_eq_some.1 hlocks
    exact ⟨(sub_one_lt _).le.trans h.waiting, fun _ _ => rfl, fun _ _ => .inl rfl⟩

/-- After a broadcast nobody sleeps un-notified. -/
theorem place_leave_broadcast {s : LockState ι} {t u : ι} {result : MutexLocks × Bool}
    (h : result.2 = true) :
    (s.leave t result).place u ≠ .readSleep false ∧
      (s.leave t result).place u ≠ .writeSleep false := by
  by_cases hut : u = t
  · simp [leave, hut]
  · cases hp : s.place u <;> simp [leave, hut, h, hp, Place.notify]

theorem place_leave_silent {s : LockState ι} {t u : ι} {result : MutexLocks × Bool}
    (h : result.2 = false) {p : Place} (hp : p ≠ .outside)
    (hplace : (s.leave t result).place u = p) : s.place u = p := by
  by_cases hut : u = t
  · subst hut
    exact absurd (by simpa [leave] using hplace.symm) hp
  · simpa [leave, hut, h] using hplace

/-- The last reader wakes everybody; another one leaves a reader behind. -/
theorem Justified.exitRead {s : LockState ι} (h : s.Justified) (t : ι) :
    (s.leave t s.locks.exitRead).Justified := by
  cases hlast : s.locks.exitRead.2 with
  | true =>
    exact ⟨h.waiting, fun u hu => absurd hu (place_leave_broadcast hlast).1,
      fun u hu => absurd hu (place_leave_broadcast hlast).2⟩
  | false =>
    have hleft : s.locks.readersReading - 1 ≠ 0 := by
      simpa [MutexLocks.exitRead] using hlast
    refine ⟨h.waiting, fun u hu =>
      h.reader u (place_leave_silent hlast (by simp) hu), fun u hu => ?_⟩
    have hreason := h.writer u (place_leave_silent hlast (by simp) hu)
    refine hreason.imp_right fun hreaders => ?_
    simp only [leave, MutexLocks.exitRead]
    omega

theorem Justified.exitWrite {s : LockState ι} (h : s.Justified) (t : ι) :
    (s.leave t s.locks.exitWrite).Justified :=
  ⟨h.waiting, fun _ hu => absurd hu (place_leave_broadcast rfl).1,
    fun _ hu => absurd hu (place_leave_broadcast rfl).2⟩

theorem Justified.step {l : LockStep ι} {s s' : LockState ι} (h : s.Justified)
    (hstep : LockState.step l s = some s') : s'.Justified := by
  obtain ⟨t, -, -, rfl | rfl⟩ | ⟨t, -, rfl⟩ | ⟨t, -, rfl⟩ := step_cases hstep
  · exact h.tryRead t
  · exact h.tryWrite t
  · exact h.exitRead t
  · exact h.exitWrite t

theorem justified_of_reachable {s : LockState ι} (h : (system ι).Reachable s) : s.Justified :=
  h.invariant (fun _ hs => hs ▸ justified_init) fun _ _ _ hs hstep => hs.step hstep

/-! ## Waiting writers -/

end LockState

/-- A thread is inside `enter_write` and has not got the lock. -/
def Place.Blocked : Place → Prop
  | .writeSleep _ => True
  | _ => False

instance : DecidablePred Place.Blocked := fun p => by
  cases p <;> unfold Place.Blocked <;> infer_instance

/-- A thread has nothing to do with `enter_write`. -/
def Place.Reads : Place → Prop
  | .writeSleep _ => False
  | .writing => False
  | _ => True

theorem Place.Reads.not_blocked {p : Place} (h : p.Reads) : ¬ p.Blocked := by
  cases p with
  | writeSleep notified => exact absurd h id
  | _ => exact id

theorem Place.Reads.notify {p : Place} (h : p.Reads) : p.notify.Reads := by
  cases p with
  | writeSleep notified => exact absurd h id
  | writing => exact absurd h id
  | _ => trivial

theorem Place.Blocked.notify {p : Place} (h : p.Blocked) : p.notify.Blocked := by
  cases p with
  | writeSleep notified => trivial
  | _ => exact absurd h id

namespace LockState

variable {ι : Type} [DecidableEq ι]

/-- `writers_waiting` counts the writers that wait, and while there are any no reader
    gets in. -/
structure Prioritised [Fintype ι] (s : LockState ι) : Prop where
  counted : s.locks.writersWaiting = countThreads Place.Blocked s.place
  writersFirst : ∀ l s', step l s = some s' → (∃ u, (s.place u).Blocked) →
    ∀ t, s'.place t = .reading → s.place t = .reading

/-- Nobody has called `enter_write` yet. -/
structure Untouched (s : LockState ι) : Prop where
  waiting : s.locks.writersWaiting = 0
  reads : ∀ t, (s.place t).Reads

/-- Somebody has called `enter_write`: it went through, or still waits. -/
def Touched (s : LockState ι) : Prop :=
  s.locks.writersWaiting < 0 ∨ ∃ t, (s.place t).Blocked

omit [DecidableEq ι] in
theorem untouched_init : Untouched (⟨.zero, fun _ => .outside⟩ : LockState ι) :=
  ⟨rfl, fun _ => trivial⟩

theorem Untouched.prioritised [Fintype ι] {s : LockState ι} (h : s.Untouched) : s.Prioritised where
  counted := by
    rw [h.waiting, countThreads_eq_zero.2 fun t => (h.reads t).not_blocked]
    rfl
  writersFirst _ _ _ := fun ⟨u, hu⟩ => absurd hu (h.reads u).not_blocked

theorem Touched.not_prioritised [Fintype ι] {s : LockState ι} (h : s.Touched) (hs : s.Justified) :
    ¬ s.Prioritised := by
  intro hprio
  have hcounted := hprio.counted
  have hwaiting := hs.waiting
  rcases h with hneg | hblocked
  · omega
  · have hpos := countThreads_pos.2 hblocked
    omega

theorem forall_place_setPlace {s : LockState ι} {P : Place → Prop} (h : ∀ u, P (s.place u)) {t : ι}
    {p : Place} (hp : P p) (u : ι) : P ((s.setPlace t p).place u) := by
  rcases place_setPlace_cases (s := s) (t := t) (u := u) (p := p) rfl with hu | hu
  · rw [← hu]
    exact h u
  · rw [← hu]
    exact hp

theorem Untouched.tryRead {s : LockState ι} (h : s.Untouched)
    (t : ι) : (s.tryRead t).Untouched := by
  unfold LockState.tryRead
  split
  · exact ⟨h.waiting, forall_place_setPlace h.reads trivial⟩
  · rename_i locks hlocks
    obtain ⟨-, rfl⟩ := MutexLocks.enterRead_eq_some.1 hlocks
    exact ⟨h.waiting, forall_place_setPlace h.reads trivial⟩

theorem Untouched.exitRead {s : LockState ι} (h : s.Untouched) (t : ι) :
    (s.leave t s.locks.exitRead).Untouched := by
  refine ⟨h.waiting, fun u => ?_⟩
  simp only [leave]
  split_ifs
  · trivial
  · exact (h.reads u).notify
  · exact h.reads u

/-- Only `enter_write` touches the count. -/
theorem Untouched.step {l : LockStep ι} {s s' : LockState ι} (h : s.Untouched)
    (hl : ∀ t, l ≠ .enterWrite t) (hstep : LockState.step l s = some s') : s'.Untouched := by
  cases l with
  | enterRead t =>
    obtain ⟨-, hs'⟩ := Option.ite_none_right_eq_some.1 hstep
    rw [← Option.some.inj hs']
    exact h.tryRead t
  | enterWrite t => exact absurd rfl (hl t)
  | wake t =>
    have hreads := h.reads t
    cases hp : s.place t with
    | readSleep notified =>
      simp only [LockState.step, hp] at hstep
      rw [← Option.some.inj hstep]
      exact h.tryRead t
    | writeSleep notified =>
      rw [hp] at hreads
      exact absurd hreads id
    | _ => simp [LockState.step, hp] at hstep
  | exitRead t =>
    obtain ⟨-, hs'⟩ := Option.ite_none_right_eq_some.1 hstep
    rw [← Option.some.inj hs']
    exact h.exitRead t
  | exitWrite t =>
    obtain ⟨hp, -⟩ := Option.ite_none_right_eq_some.1 hstep
    have hreads := h.reads t
    rw [hp] at hreads
    exact absurd hreads id

theorem touched_tryWrite {s : LockState ι} (h : s.Justified) (t : ι) : (s.tryWrite t).Touched := by
  unfold LockState.tryWrite
  split
  · refine .inr ⟨t, ?_⟩
    simp [setPlace, Place.Blocked]
  · rename_i locks hlocks
    obtain ⟨-, rfl⟩ := MutexLocks.enterWrite_eq_some.1 hlocks
    exact .inl ((sub_one_lt _).trans_le h.waiting)

omit [DecidableEq ι] in
/-- A thread that does not wait to write is not the one that makes `Touched` true. -/
theorem Touched.others {s : LockState ι} (h : s.Touched) {t : ι} (ht : ¬ (s.place t).Blocked) :
    s.locks.writersWaiting < 0 ∨ ∃ u ≠ t, (s.place u).Blocked := by
  rcases h with hneg | ⟨u, hu⟩
  · exact .inl hneg
  · refine .inr ⟨u, ?_, hu⟩
    rintro rfl
    exact ht hu

theorem Touched.leave {s : LockState ι} (h : s.Touched) {t : ι} (ht : ¬ (s.place t).Blocked)
    {result : MutexLocks × Bool} (hwaiting : result.1.writersWaiting = s.locks.writersWaiting) :
    (s.leave t result).Touched := by
  rcases h.others ht with hneg | ⟨u, hut, hu⟩
  · exact .inl (hwaiting ▸ hneg)
  · refine .inr ⟨u, ?_⟩
    simp only [LockState.leave, if_neg hut]
    split_ifs
    · exact hu.notify
    · exact hu

theorem Touched.tryRead {s : LockState ι} (h : s.Touched) {t : ι} (ht : ¬ (s.place t).Blocked) :
    (s.tryRead t).Touched := by
  have hother : ∀ p locks, locks.writersWaiting = s.locks.writersWaiting →
      Touched { s.setPlace t p with locks := locks } := by
    intro p locks hwaiting
    rcases h.others ht with hneg | ⟨u, hut, hu⟩
    · exact .inl (hwaiting ▸ hneg)
    · exact .inr ⟨u, by simpa [setPlace, hut] using hu⟩
  unfold LockState.tryRead
  split
  · exact hother _ s.locks rfl
  · rename_i locks hlocks
    obtain ⟨-, rfl⟩ := MutexLocks.enterRead_eq_some.1 hlocks
    exact hother _ _ rfl

theorem Touched.step {l : LockStep ι} {s s' : LockState ι} (h : s.Touched) (hs : s.Justified)
    (hstep : LockState.step l s = some s') : s'.Touched := by
  cases l with
  | enterRead t =>
    obtain ⟨hp, hs'⟩ := Option.ite_none_right_eq_some.1 hstep
    rw [← Option.some.inj hs']
    exact h.tryRead (by rw [hp]; exact id)
  | enterWrite t =>
    obtain ⟨-, hs'⟩ := Option.ite_none_right_eq_some.1 hstep
    rw [← Option.some.inj hs']
    exact touched_tryWrite hs t
  | wake t =>
    cases hp : s.place t with
    | readSleep notified =>
      simp only [LockState.step, hp] at hstep
      rw [← Option.some.inj hstep]
      exact h.tryRead (by rw [hp]; exact id)
    | writeSleep notified =>
      simp only [LockState.step, hp] at hstep
      rw [← Option.some.inj hstep]
      exact touched_tryWrite hs t
    | _ => simp [LockState.step, hp] at hstep
  | exitRead t =>
    obtain ⟨hp, hs'⟩ := Option.ite_none_right_eq_some.1 hstep
    rw [← Option.some.inj hs']
    exact h.leave (by rw [hp]; exact id) rfl
  | exitWrite t =>
    obtain ⟨hp, hs'⟩ := Option.ite_none_right_eq_some.1 hstep
    rw [← Option.some.inj hs']
    exact h.leave (by rw [hp]; exact id) rfl

theorem touched_of_run {ls : List (LockStep ι)} {s s' : LockState ι} (hs : s.Justified)
    (h : s.Touched ∨ ∃ t, .enterWrite t ∈ ls) (hrun : (system ι).run ls s = some s') :
    s'.Touched := by
  induction ls generalizing s with
  | nil =>
    obtain rfl : s = s' := by simpa using hrun
    exact h.resolve_right (by simp)
  | cons l ls ih =>
    obtain ⟨s₁, hstep, hrest⟩ := Option.bind_eq_some_iff.1 hrun
    refine ih (hs.step hstep) ?_ hrest
    rcases h with htouched | ⟨t, ht⟩
    · exact .inl (htouched.step hs hstep)
    · rcases List.mem_cons.1 ht with rfl | ht
      · obtain ⟨-, hs₁⟩ := Option.ite_none_right_eq_some.1 hstep
        rw [← Option.some.inj hs₁]
        exact .inl (touched_tryWrite hs t)
      · exact .inr ⟨t, ht⟩

theorem untouched_of_run {ls : List (LockStep ι)} {s : LockState ι} (hls : ∀ t, .enterWrite t ∉ ls)
    (hrun : (system ι).run ls ⟨.zero, fun _ => .outside⟩ = some s) : s.Untouched := by
  have hmeets : (system ι).RunMeets (fun l _ => ∀ t, l ≠ .enterWrite t) ls
      ⟨.zero, fun _ => .outside⟩ := by
    refine LTS.runMeets_of_forall (fun l hl _ t hcall => ?_) _
    exact hls t (hcall ▸ hl)
  have hreach := LTS.ReachableUnder.run (.init rfl) hmeets hrun
  refine hreach.invariant ?_ fun l s s' h hl hstep => h.step hl hstep
  rintro s rfl
  exact untouched_init

/-- The count and the priority of writers hold until somebody calls `enter_write`, and
    never again after that. -/
theorem prioritised_iff [Fintype ι] {ls : List (LockStep ι)} {s : LockState ι}
    (hrun : (system ι).run ls ⟨.zero, fun _ => .outside⟩ = some s) :
    s.Prioritised ↔ ∀ t, .enterWrite t ∉ ls := by
  constructor
  · intro hprio t ht
    have hjustified := justified_of_reachable (LTS.reachable_of_run rfl hrun)
    have htouched := touched_of_run justified_init (.inr ⟨t, ht⟩) hrun
    exact htouched.not_prioritised hjustified hprio
  · intro hls
    have huntouched := untouched_of_run hls hrun
    exact huntouched.prioritised

/-- Two readers, one inside and one gone. -/
theorem prioritised_readers :
    ∃ s : LockState (Fin 2), s.place 0 = .reading ∧ s.Prioritised := by
  have hrun : (system (Fin 2)).run [.enterRead 0, .enterRead 1, .exitRead 1]
      ⟨.zero, fun _ => .outside⟩ = some _ := rfl
  exact ⟨_, rfl, (prioritised_iff hrun).2 (by simp)⟩

/-- A reader is inside, a writer waits for it, and another reader gets in. -/
theorem not_prioritised_overtaken :
    ∃ s : LockState (Fin 3), (system (Fin 3)).Reachable s ∧ s.place 1 = .writeSleep false ∧
      ¬ s.Prioritised := by
  let s₀ : LockState (Fin 3) := ⟨.zero, fun _ => .outside⟩
  have hrun : (system (Fin 3)).run [.enterRead 0, .enterWrite 1] s₀ =
      some ((s₀.tryRead 0).tryWrite 1) := rfl
  refine ⟨_, LTS.reachable_of_run rfl hrun, rfl, fun hprio => ?_⟩
  have hreading := hprio.writersFirst (.enterRead 2) (((s₀.tryRead 0).tryWrite 1).tryRead 2) rfl
    ⟨1, trivial⟩ 2 rfl
  exact absurd hreading (by decide)

end LockState

end ChainTable
