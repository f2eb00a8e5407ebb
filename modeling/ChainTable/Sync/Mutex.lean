-- SUMMARY: The readers-writer lock of mutex.c: the four operations, the system of threads that call them, and mutual exclusion.
import ChainTable.Base.Threads
import ChainTable.Base.Transition

open Base

/-!
# The readers-writer lock

Each of the four functions runs its body under the mutex `m`, so a body up to its
unlock, or up to the `pthread_cond_wait` in which it blocks, is one atomic step.
A thread that blocks sleeps until a broadcast or a spurious wake-up, and then
tests its condition again. The threads are any finite type.
-/

namespace ChainTable

/-- The counters of `mutex_locks`. -/
@[ext] structure MutexLocks where
  writersWaiting : Int
  readersReading : Int
  writerActive : Bool
  deriving DecidableEq

namespace MutexLocks

/-- The state that `init_server_resources` gives to a lock. -/
def zero : MutexLocks := ⟨0, 0, false⟩

/-! ## The operations

The body of an entering function either waits (`none`) or leaves the counters of
a successful entry. The body of a leaving function says whether it broadcasts. -/

def enterRead (locks : MutexLocks) : Option MutexLocks :=
  if locks.writersWaiting > 0 ∨ locks.writerActive then none
  else some { locks with readersReading := locks.readersReading + 1 }

def exitRead (locks : MutexLocks) : MutexLocks × Bool :=
  let locks := { locks with readersReading := locks.readersReading - 1 }
  (locks, locks.readersReading = 0)

/-- `enter_write` counts a writer out of `writers_waiting` without ever having
    counted it in. -/
def enterWrite (locks : MutexLocks) : Option MutexLocks :=
  if locks.readersReading > 0 ∨ locks.writerActive then none
  else some { locks with writerActive := true, writersWaiting := locks.writersWaiting - 1 }

def exitWrite (locks : MutexLocks) : MutexLocks × Bool :=
  ({ locks with writerActive := false }, true)

end MutexLocks

/-! ## Threads -/

/-- Where a thread is with respect to one lock. A sleeping thread may have been
    notified by a broadcast since it began to wait. -/
inductive Place where
  | outside
  | readSleep (notified : Bool)
  | reading
  | writeSleep (notified : Bool)
  | writing
  deriving DecidableEq

/-- What a broadcast does to a thread. -/
def Place.notify : Place → Place
  | .readSleep _ => .readSleep true
  | .writeSleep _ => .writeSleep true
  | p => p

@[simp] theorem Place.notify_eq_reading {p : Place} : p.notify = .reading ↔ p = .reading := by
  cases p <;> simp [notify]

@[simp] theorem Place.notify_eq_writing {p : Place} : p.notify = .writing ↔ p = .writing := by
  cases p <;> simp [notify]

/-- A lock and the threads around it. -/
structure LockState (ι : Type) where
  locks : MutexLocks
  place : ι → Place

/-- The steps of a thread: the call of an entering function up to its first wait
    or its end, the return from a wait with a new test, and a leaving call. -/
inductive LockStep (ι : Type) where
  | enterRead (t : ι)
  | enterWrite (t : ι)
  | wake (t : ι)
  | exitRead (t : ι)
  | exitWrite (t : ι)

namespace LockState

variable {ι : Type} [DecidableEq ι]

def setPlace (s : LockState ι) (t : ι) (p : Place) : LockState ι :=
  { s with place := Function.update s.place t p }

/-- One test of the loop condition of `enter_read`. -/
def tryRead (s : LockState ι) (t : ι) : LockState ι :=
  match s.locks.enterRead with
  | none => s.setPlace t (.readSleep false)
  | some locks => { s.setPlace t .reading with locks := locks }

/-- One test of the loop condition of `enter_write`. -/
def tryWrite (s : LockState ι) (t : ι) : LockState ι :=
  match s.locks.enterWrite with
  | none => s.setPlace t (.writeSleep false)
  | some locks => { s.setPlace t .writing with locks := locks }

/-- The end of a section, with the broadcast when there is one. -/
def leave (s : LockState ι) (t : ι) (result : MutexLocks × Bool) : LockState ι where
  locks := result.1
  place u :=
    if u = t then .outside else if result.2 then (s.place u).notify else s.place u

def step : LockStep ι → LockState ι → Option (LockState ι)
  | .enterRead t, s => if s.place t = .outside then some (s.tryRead t) else none
  | .enterWrite t, s => if s.place t = .outside then some (s.tryWrite t) else none
  | .wake t, s =>
    match s.place t with
    | .readSleep _ => some (s.tryRead t)
    | .writeSleep _ => some (s.tryWrite t)
    | _ => none
  | .exitRead t, s => if s.place t = .reading then some (s.leave t s.locks.exitRead) else none
  | .exitWrite t, s => if s.place t = .writing then some (s.leave t s.locks.exitWrite) else none

/-- Every interleaving of lock operations, from the all-zero lock. -/
def system (ι : Type) [DecidableEq ι] : LTS (LockState ι) (LockStep ι) where
  init s := s = ⟨.zero, fun _ => .outside⟩
  step := step

/-- What a step does: a new test by a thread that is outside or asleep, or the
    end of a section. -/
theorem step_cases {l : LockStep ι} {s s' : LockState ι} (h : step l s = some s') :
    (∃ t, s.place t ≠ .reading ∧ s.place t ≠ .writing ∧
        (s' = s.tryRead t ∨ s' = s.tryWrite t)) ∨
      (∃ t, s.place t = .reading ∧ s' = s.leave t s.locks.exitRead) ∨
      (∃ t, s.place t = .writing ∧ s' = s.leave t s.locks.exitWrite) := by
  cases l with
  | enterRead t =>
    obtain ⟨hp, hs'⟩ := Option.ite_none_right_eq_some.1 h
    exact .inl ⟨t, by simp [hp], by simp [hp], .inl (Option.some.inj hs').symm⟩
  | enterWrite t =>
    obtain ⟨hp, hs'⟩ := Option.ite_none_right_eq_some.1 h
    exact .inl ⟨t, by simp [hp], by simp [hp], .inr (Option.some.inj hs').symm⟩
  | wake t =>
    cases hp : s.place t <;> simp only [step, hp, Option.some.injEq, reduceCtorEq] at h
    · exact .inl ⟨t, by simp [hp], by simp [hp], .inl h.symm⟩
    · exact .inl ⟨t, by simp [hp], by simp [hp], .inr h.symm⟩
  | exitRead t =>
    obtain ⟨hp, hs'⟩ := Option.ite_none_right_eq_some.1 h
    exact .inr (.inl ⟨t, hp, (Option.some.inj hs').symm⟩)
  | exitWrite t =>
    obtain ⟨hp, hs'⟩ := Option.ite_none_right_eq_some.1 h
    exact .inr (.inr ⟨t, hp, (Option.some.inj hs').symm⟩)

/-! ## Mutual exclusion -/

/-- The counters agree with the places of the threads, and a writer is alone. -/
structure Exclusive [Fintype ι] (s : LockState ι) : Prop where
  readers : s.locks.readersReading = countThreads (· = Place.reading) s.place
  active : s.locks.writerActive = true ↔ ∃ t, s.place t = .writing
  oneWriter : ∀ t u, s.place t = .writing → s.place u = .writing → t = u
  noReader : ∀ t u, s.place t = .writing → s.place u ≠ .reading

/-- A thread that is not at the place that was set has not moved. -/
theorem place_of_setPlace {s : LockState ι} {t u : ι} {p q : Place}
    (hu : (s.setPlace t p).place u = q) (hpq : p ≠ q) : u ≠ t ∧ s.place u = q := by
  unfold setPlace at hu
  by_cases hut : u = t
  · subst hut
    exact absurd (by simpa using hu) hpq
  · exact ⟨hut, by simpa [hut] using hu⟩

variable [Fintype ι]

/-- Going to sleep is invisible to the counters. -/
theorem Exclusive.setSleep {s : LockState ι} (h : s.Exclusive) {t : ι}
    (hread : s.place t ≠ .reading) (hwrite : s.place t ≠ .writing) {p : Place}
    (hp : p ≠ .reading) (hp' : p ≠ .writing) : (s.setPlace t p).Exclusive where
  readers := by
    have hcount := countThreads_update_same (f := s.place) (t := t) (a := p)
      (p := (· = Place.reading)) (iff_of_false hread hp)
    simp only [setPlace, hcount, h.readers]
  active := by
    rw [setPlace, h.active]
    constructor
    · rintro ⟨u, hu⟩
      have hut : u ≠ t := fun heq => hwrite (heq ▸ hu)
      exact ⟨u, by simpa [hut] using hu⟩
    · rintro ⟨u, hu⟩
      exact ⟨u, (place_of_setPlace hu hp').2⟩
  oneWriter u v hu hv :=
    h.oneWriter u v (place_of_setPlace hu hp').2 (place_of_setPlace hv hp').2
  noReader u v hu hv :=
    h.noReader u v (place_of_setPlace hu hp').2 (place_of_setPlace hv hp).2

theorem Exclusive.tryRead {s : LockState ι} (h : s.Exclusive) {t : ι}
    (hread : s.place t ≠ .reading) (hwrite : s.place t ≠ .writing) : (s.tryRead t).Exclusive := by
  unfold LockState.tryRead
  split
  · exact h.setSleep hread hwrite (by simp) (by simp)
  · rename_i locks hlocks
    obtain ⟨hcond, rfl⟩ : ¬ (s.locks.writersWaiting > 0 ∨ s.locks.writerActive) ∧
        { s.locks with readersReading := s.locks.readersReading + 1 } = locks := by
      simpa [MutexLocks.enterRead] using hlocks
    -- nobody writes, so a new reader meets no writer
    have hnone : ∀ u, s.place u ≠ .writing := fun u hu => hcond (.inr (h.active.2 ⟨u, hu⟩))
    have hnone' : ∀ u, (s.setPlace t .reading).place u ≠ .writing := by
      intro u hu
      exact hnone u (place_of_setPlace hu (by simp)).2
    refine ⟨?_, ?_, fun u _ hu => absurd hu (hnone' u), fun u _ hu => absurd hu (hnone' u)⟩
    · have hcount := countThreads_update_enter (p := (· = Place.reading)) hread rfl
      simp only [setPlace, hcount, h.readers]
      push_cast
      rfl
    · exact ⟨fun hact => absurd (.inr hact) hcond, fun ⟨u, hu⟩ => absurd hu (hnone' u)⟩

theorem Exclusive.tryWrite {s : LockState ι} (h : s.Exclusive) {t : ι}
    (hread : s.place t ≠ .reading) (hwrite : s.place t ≠ .writing) :
    (s.tryWrite t).Exclusive := by
  unfold LockState.tryWrite
  split
  · exact h.setSleep hread hwrite (by simp) (by simp)
  · rename_i locks hlocks
    obtain ⟨hcond, rfl⟩ : ¬ (s.locks.readersReading > 0 ∨ s.locks.writerActive) ∧
        { s.locks with writerActive := true, writersWaiting := s.locks.writersWaiting - 1 } =
          locks := by
      simpa [MutexLocks.enterWrite] using hlocks
    -- nobody writes and nobody reads, so the new writer is alone
    have hnoWriter : ∀ u, s.place u ≠ .writing := fun u hu => hcond (.inr (h.active.2 ⟨u, hu⟩))
    have hzero : countThreads (· = Place.reading) s.place = 0 := by
      by_contra hne
      apply hcond
      left
      rw [h.readers]
      omega
    have hnoReader := countThreads_eq_zero.1 hzero
    have honly : ∀ u, Function.update s.place t .writing u = .writing → u = t := by
      intro u hu
      by_contra hut
      exact hnoWriter u (by simpa [hut] using hu)
    refine ⟨?_, ?_, fun u v hu hv => (honly u hu).trans (honly v hv).symm, ?_⟩
    · have hcount := countThreads_update_same (f := s.place) (t := t) (a := Place.writing)
        (p := (· = Place.reading)) (iff_of_false hread (by simp))
      simp only [setPlace, hcount, h.readers]
    · exact ⟨fun _ => ⟨t, by simp [setPlace]⟩, fun _ => rfl⟩
    · intro _ v _ hv
      exact hnoReader v (place_of_setPlace hv (by simp)).2

omit [Fintype ι] in
/-- After leaving, a thread reads or writes only if it did before, and the
    leaving thread does neither. -/
theorem leave_place {s : LockState ι} {t u : ι} {result : MutexLocks × Bool} {p : Place}
    (hp : p = .reading ∨ p = .writing) :
    (s.leave t result).place u = p ↔ u ≠ t ∧ s.place u = p := by
  by_cases hut : u = t
  · rcases hp with rfl | rfl <;> simp [leave, hut]
  · rcases hp with rfl | rfl <;> cases hb : result.2 <;> simp [leave, hut, hb]

private theorem countThreads_leave {s : LockState ι} {t : ι} {result : MutexLocks × Bool} :
    countThreads (· = Place.reading) (s.leave t result).place =
      countThreads (· = Place.reading) (Function.update s.place t .outside) := by
  have h : ∀ u, (s.leave t result).place u = .reading ↔
      Function.update s.place t .outside u = .reading := by
    intro u
    rw [leave_place (.inl rfl)]
    by_cases hut : u = t
    · simp [hut]
    · simp [hut]
  simp only [countThreads, h]

theorem Exclusive.exitRead {s : LockState ι} (h : s.Exclusive) {t : ι}
    (hread : s.place t = .reading) : (s.leave t s.locks.exitRead).Exclusive := by
  have hnoWriter : ∀ u, s.place u ≠ .writing := fun u hu => h.noReader u t hu hread
  have hnone : ∀ u, (s.leave t s.locks.exitRead).place u ≠ .writing := fun u hu =>
    hnoWriter u ((leave_place (.inr rfl)).1 hu).2
  refine ⟨?_, ?_, fun u _ hu => absurd hu (hnone u), fun u _ hu => absurd hu (hnone u)⟩
  · have hcount := countThreads_update_leave (p := (· = Place.reading)) (a := Place.outside) hread
      (by simp)
    rw [countThreads_leave]
    simp only [leave, MutexLocks.exitRead, h.readers]
    omega
  · have hinactive : ¬ s.locks.writerActive = true := fun hact =>
      (h.active.1 hact).elim fun u hu => hnoWriter u hu
    exact ⟨fun hact => absurd hact hinactive, fun ⟨u, hu⟩ => absurd hu (hnone u)⟩

theorem Exclusive.exitWrite {s : LockState ι} (h : s.Exclusive) {t : ι}
    (hwrite : s.place t = .writing) : (s.leave t s.locks.exitWrite).Exclusive := by
  -- the leaving thread was the only writer
  have hnone : ∀ u, (s.leave t s.locks.exitWrite).place u ≠ .writing := fun u hu =>
    have hu := (leave_place (.inr rfl)).1 hu
    hu.1 (h.oneWriter u t hu.2 hwrite)
  refine ⟨?_, ?_, fun u _ hu => absurd hu (hnone u), fun u _ hu => absurd hu (hnone u)⟩
  · have hcount := countThreads_update_same (f := s.place) (t := t) (a := Place.outside)
      (p := (· = Place.reading)) (iff_of_false (by simp [hwrite]) (by simp))
    rw [countThreads_leave, hcount, ← h.readers]
    rfl
  · exact ⟨fun hact => absurd hact (by simp [leave, MutexLocks.exitWrite]),
      fun ⟨u, hu⟩ => absurd hu (hnone u)⟩

theorem Exclusive.step {l : LockStep ι} {s s' : LockState ι} (h : s.Exclusive)
    (hstep : LockState.step l s = some s') : s'.Exclusive := by
  obtain ⟨t, hread, hwrite, rfl | rfl⟩ | ⟨t, hread, rfl⟩ | ⟨t, hwrite, rfl⟩ := step_cases hstep
  · exact h.tryRead hread hwrite
  · exact h.tryWrite hread hwrite
  · exact h.exitRead hread
  · exact h.exitWrite hwrite

omit [DecidableEq ι] in
theorem exclusive_init : Exclusive (⟨.zero, fun _ => .outside⟩ : LockState ι) where
  readers := by
    have hzero : countThreads (· = Place.reading) (fun _ : ι => Place.outside) = 0 :=
      countThreads_eq_zero.2 fun _ => by simp
    rw [hzero]
    rfl
  active := by simp [MutexLocks.zero]
  oneWriter _ _ h := by simp at h
  noReader _ _ h := by simp at h

theorem exclusive_of_reachable {s : LockState ι} (h : (system ι).Reachable s) : s.Exclusive :=
  h.invariant (fun _ hs => hs ▸ exclusive_init) fun _ _ _ hs hstep => hs.step hstep

/-- In every interleaving at most one thread writes, nobody reads while it does,
    `readers_reading` counts the readers and `writer_active` tells whether there
    is a writer. -/
theorem mutual_exclusion {s : LockState ι} (h : (system ι).Reachable s) :
    (∀ t u, s.place t = .writing → s.place u = .writing → t = u) ∧
      (∀ t u, s.place t = .writing → s.place u ≠ .reading) ∧
      s.locks.readersReading = countThreads (· = Place.reading) s.place ∧
      (s.locks.writerActive = true ↔ ∃ t, s.place t = .writing) :=
  have hs := exclusive_of_reachable h
  ⟨hs.oneWriter, hs.noReader, hs.readers, hs.active⟩

/-- Mutual exclusion in a run of two threads, where the second writes after the
    first has read. -/
theorem mutual_exclusion_handover :
    ∃ s : LockState (Fin 2), (system (Fin 2)).Reachable s ∧ s.place 1 = .writing ∧
      s.place 0 ≠ .reading ∧ s.locks.readersReading = 0 := by
  let s₀ : LockState (Fin 2) := ⟨.zero, fun _ => .outside⟩
  let s₁ : LockState (Fin 2) := (s₀.tryRead 0).leave 0 (s₀.tryRead 0).locks.exitRead
  have hrun : (system (Fin 2)).run [.enterRead 0, .exitRead 0, .enterWrite 1] s₀ =
      some (s₁.tryWrite 1) := rfl
  have hreach : (system (Fin 2)).Reachable (s₁.tryWrite 1) := LTS.reachable_of_run rfl hrun
  obtain ⟨-, hexcl, hread, -⟩ := mutual_exclusion hreach
  have hwrite : (s₁.tryWrite 1).place 1 = .writing := rfl
  refine ⟨_, hreach, hwrite, hexcl 1 0 hwrite, ?_⟩
  rw [hread]
  decide

end LockState

end ChainTable
