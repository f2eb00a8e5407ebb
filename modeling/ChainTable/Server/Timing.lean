-- SUMMARY: Whether total_time is the time that the operations of a server have taken.
import ChainTable.Server.Conversation
import ChainTable.Server.Effects

open Base

/-!
# The total service time

An operation is timed by two readings of the clock, each cut to an `int`, and their
difference is added to `total_time`, which is an `int` too. The difference is right
when the operation is short, whatever the clock shows. The sum is right as long as it
fits.
-/

namespace ChainTable

open Calls

/-! ## 32-bit arithmetic -/

theorem int32_eq_self {x : Int} (hlow : -2 ^ 31 ≤ x) (hhigh : x < 2 ^ 31) : int32 x = x := by
  rw [int32]
  apply Int.bmod_eq_of_le
  · omega
  · omega

theorem int32_lt (x : Int) : int32 x < 2 ^ 31 := by
  have h := Int.bmod_lt (x := x) (m := 2 ^ 32) (by decide)
  rw [int32]
  omega

/-- The difference of two numbers does not depend on how far they were cut. -/
theorem int32_sub_int32 (x y : Int) : int32 (int32 x - int32 y) = int32 (x - y) := by
  rw [int32, int32, int32, int32, Int.bmod_sub_bmod, Int.sub_bmod_bmod]

/-! ## Runs -/

/-- The time that a reading shows, in microseconds. -/
def Timeval.usec (tv : Timeval) : Int := tv.tvUsec + tv.tvSec * 1000000

/-- How long a request took, and `total_time` after it. -/
structure Timing where
  elapsed : Int
  total : Int
  deriving DecidableEq

def ServerState.totalTime (s : ServerState) : Int := (s.globalStats.map Statistics.totalTime).getD 0

section Run

variable {τ : Type} (clock : ℕ → Timeval) (link : Link τ)

/-- From the first to the last reading of the clock between two states. -/
def elapsed (s s' : ServerState) : Int :=
  if s'.ticks = s.ticks then 0 else (clock (s'.ticks - 1)).usec - (clock s.ticks).usec

/-- Requests that `invoke` executes one after the other. -/
def timedRun : List MessageT → ServerState × τ → C (List Timing × (ServerState × τ))
  | [], s => .ok ([], s)
  | msg :: msgs, s => do
    let (_, s₁) ← (invoke msg).run (alone clock link) s
    let (timings, s₂) ← timedRun msgs s₁
    return (⟨elapsed clock s.1 s₁.1, s₁.1.totalTime⟩ :: timings, s₂)

end Run

/-- After each request `total_time` is the time that all requests so far have taken, on
    top of what it was at first, and it has not become less. -/
structure ExactFrom (start : Int) (timings : List Timing) : Prop where
  sum : ∀ front last back, timings = front ++ last :: back →
    last.total = start + ((front ++ [last]).map Timing.elapsed).sum
  increasing : (start :: timings.map Timing.total).Pairwise (· ≤ ·)

/-! ## One request -/

section Request

variable {τ : Type} {clock : ℕ → Timeval} {link : Link τ} {msg res : MessageT} {ret : Int}
  {st : Store} {s s' : ServerState × τ}

theorem ServerState.totalTime_served {s : ServerState} (hstats : s.globalStats ≠ none)
    (table : Table) :
    (s.served clock table).totalTime =
      int32 (s.totalTime + int32 ((clock (s.ticks + 1)).usec - (clock s.ticks).usec)) := by
  obtain ⟨stats, hstats⟩ := Option.ne_none_iff_exists'.1 hstats
  rw [← int32_sub_int32]
  simp only [totalTime, served, timed, counts, hstats, microseconds]
  rfl

theorem elapsed_served (s : ServerState) (table : Table) :
    elapsed clock s (s.served clock table) = (clock (s.ticks + 1)).usec - (clock s.ticks).usec := by
  have hticks : (s.served clock table).ticks = s.ticks + 2 := rfl
  rw [elapsed, hticks, if_neg (by omega)]
  rfl

/-- A request that is timed adds its elapsed time, and any other leaves the total. -/
theorem Ended.totalTime (hend : Ended clock link msg st s res ret s')
    (hstats : s.1.globalStats ≠ none) (htotal : int32 s.1.totalTime = s.1.totalTime) :
    s'.1.totalTime = int32 (s.1.totalTime + int32 (elapsed clock s.1 s'.1)) := by
  have hself : s.1.totalTime = int32 (s.1.totalTime + int32 (elapsed clock s.1 s.1)) := by
    have hzero : int32 0 = 0 := by decide
    rw [elapsed, if_pos rfl, hzero, add_zero, htotal]
  cases hend with
  | refused => exact hself
  | stats => exact hself
  | put => rw [elapsed_served, ServerState.totalTime_served hstats]
  | get => rw [elapsed_served, ServerState.totalTime_served hstats]
  | del => rw [elapsed_served, ServerState.totalTime_served hstats]
  | size => rw [elapsed_served, ServerState.totalTime_served hstats]
  | getkeys => rw [elapsed_served, ServerState.totalTime_served hstats]
  | gettable => rw [elapsed_served, ServerState.totalTime_served hstats]

theorem elapsed_nonneg (hclock : Monotone fun i => (clock i).usec) {s s' : ServerState}
    (h : s.ticks ≤ s'.ticks) : 0 ≤ elapsed clock s s' := by
  rw [elapsed]
  split
  · exact le_rfl
  · exact sub_nonneg.2 (hclock (show s.ticks ≤ s'.ticks - 1 by omega))

theorem Ended.ticks (hend : Ended clock link msg st s res ret s') : s.1.ticks ≤ s'.1.ticks := by
  cases hend with
  | refused => exact le_rfl
  | stats => exact le_rfl
  | put => exact Nat.le_add_right _ 2
  | get => exact Nat.le_add_right _ 2
  | del => exact Nat.le_add_right _ 2
  | size => exact Nat.le_add_right _ 2
  | getkeys => exact Nat.le_add_right _ 2
  | gettable => exact Nat.le_add_right _ 2

end Request

/-! ## Runs of requests -/

/-- Each request adds its elapsed time, which is not negative, and the sum is cut to 32
    bits. -/
def Accumulates : Int → List Timing → Prop
  | _, [] => True
  | total, timing :: timings => timing.total = int32 (total + timing.elapsed) ∧
    0 ≤ timing.elapsed ∧ Accumulates timing.total timings

namespace Accumulates

variable {total : Int} {timings : List Timing}

theorem sum_nonneg (h : Accumulates total timings) : 0 ≤ (timings.map Timing.elapsed).sum := by
  induction timings generalizing total with
  | nil => exact le_rfl
  | cons timing timings ih =>
    obtain ⟨-, helapsed, hrest⟩ := h
    rw [List.map_cons, List.sum_cons]
    exact add_nonneg helapsed (ih hrest)

theorem total_lt (h : Accumulates total timings) {timing : Timing} (ht : timing ∈ timings) :
    timing.total < 2 ^ 31 := by
  induction timings generalizing total with
  | nil => cases ht
  | cons first timings ih =>
    obtain ⟨hfirst, -, hrest⟩ := h
    rcases List.mem_cons.1 ht with rfl | ht
    · rw [hfirst]
      exact int32_lt _
    · exact ih hrest ht

/-- As long as the sum fits nothing is cut. -/
theorem exactFrom (h : Accumulates total timings) (htotal : 0 ≤ total)
    (hfits : total + (timings.map Timing.elapsed).sum < 2 ^ 31) : ExactFrom total timings := by
  induction timings generalizing total with
  | nil =>
    refine ⟨fun front last back hsplit => ?_, List.pairwise_singleton _ _⟩
    exact absurd hsplit (by simp)
  | cons timing timings ih =>
    obtain ⟨htiming, helapsed, hrest⟩ := h
    have hpos := hrest.sum_nonneg
    rw [List.map_cons, List.sum_cons] at hfits
    have hsum : timing.total = total + timing.elapsed := by
      rw [htiming]
      exact int32_eq_self (by omega) (by omega)
    have hexact := ih hrest (by omega) (by omega)
    refine ⟨fun front last back hsplit => ?_, ?_⟩
    · cases front with
      | nil =>
        obtain ⟨rfl, -⟩ := List.cons.inj hsplit
        simpa using hsum
      | cons first front =>
        obtain ⟨rfl, htail⟩ := List.cons.inj hsplit
        rw [hexact.sum front last back htail, hsum, List.cons_append, List.map_cons, List.sum_cons,
          add_assoc]
    · refine List.pairwise_cons.2 ⟨?_, hexact.increasing⟩
      have hle : total ≤ timing.total := by omega
      intro later hlater
      rcases List.mem_cons.1 hlater with rfl | hlater
      · exact hle
      · exact hle.trans ((List.pairwise_cons.1 hexact.increasing).1 later hlater)

/-- What is not cut fits. -/
theorem sum_lt (h : Accumulates 0 timings) (hexact : ExactFrom 0 timings) :
    (timings.map Timing.elapsed).sum < 2 ^ 31 := by
  rcases List.eq_nil_or_concat timings with rfl | ⟨front, last, rfl⟩
  · decide
  · rw [List.concat_eq_append] at h hexact ⊢
    have hsum := hexact.sum front last [] rfl
    rw [zero_add] at hsum
    rw [← hsum]
    exact h.total_lt (by simp)

end Accumulates

section Run

variable {τ : Type} {clock : ℕ → Timeval} {link : Link τ}

/-- A run of requests in a server whose table holds a store. -/
theorem accumulates_of_timedRun (hclock : Monotone fun i => (clock i).usec) {msgs : List MessageT}
    {st : Store} {s s' : ServerState × τ} {timings : List Timing} (htable : s.1.table = st.table)
    (hstats : s.1.globalStats ≠ none) (htotal : int32 s.1.totalTime = s.1.totalTime)
    (hrun : timedRun clock link msgs s = .ok (timings, s'))
    (hshort : ∀ timing ∈ timings, timing.elapsed < 2 ^ 31) :
    Accumulates s.1.totalTime timings := by
  induction msgs generalizing st s timings with
  | nil =>
    cases hrun
    trivial
  | cons msg msgs ih =>
    obtain ⟨⟨⟨res, ret⟩, s₁⟩, hinvoke, hrun⟩ := C.bind_eq_ok hrun
    obtain ⟨⟨rest, s₂⟩, hrest, hrun⟩ := C.bind_eq_ok hrun
    cases hrun
    obtain ⟨hfirst, hlater⟩ := List.forall_mem_cons.1 hshort
    obtain ⟨res', -, hend⟩ := ended_of_invoke htable hstats hinvoke
    obtain ⟨⟨st₁, htable₁⟩, hsame⟩ := hend.keeps htable
    have helapsed := elapsed_nonneg hclock hend.ticks
    have htime := hend.totalTime hstats htotal
    dsimp only at hfirst
    have hcut : int32 (elapsed clock s.1 s₁.1) = elapsed clock s.1 s₁.1 :=
      int32_eq_self (by omega) hfirst
    rw [hcut] at htime
    refine ⟨htime, helapsed, ih htable₁ (mt hsame.stats.1 hstats) ?_ hrest hlater⟩
    rw [htime, int32, int32, Int.bmod_bmod]

end Run

/-- On requests that each take less than 2^31 microseconds, `total_time` is the time that
    they have taken exactly as long as this is less than 2^31 in all. -/
theorem totalTime_exact_iff {τ : Type} {clock : ℕ → Timeval} {link : Link τ}
    (hclock : Monotone fun i => (clock i).usec) {n : Int32} {s s' : ServerState × τ}
    (htable : s.1.table.Reached n) (hstats : s.1.globalStats ≠ none)
    (hstart : s.1.totalTime = 0) {msgs : List MessageT} {timings : List Timing}
    (hrun : timedRun clock link msgs s = .ok (timings, s'))
    (hshort : ∀ timing ∈ timings, timing.elapsed < 2 ^ 31) :
    ExactFrom 0 timings ↔ (timings.map Timing.elapsed).sum < 2 ^ 31 := by
  obtain ⟨st, -, hstore⟩ := htable.store
  have hzero : int32 s.1.totalTime = s.1.totalTime := by rw [hstart]; decide
  have hacc := accumulates_of_timedRun hclock hstore hstats hzero hrun hshort
  rw [hstart] at hacc
  constructor
  · exact hacc.sum_lt
  · intro hfits
    exact hacc.exactFrom le_rfl (by omega)

theorem timedRun_sizeRequest {τ : Type} (clock : ℕ → Timeval) (link : Link τ) {st : Store}
    {s : ServerState × τ} (hs : s.1.Holds st) (msgs : List MessageT) :
    timedRun clock link (sizeRequest :: msgs) s =
      timedRun clock link msgs (s.1.served clock st.table, s.2) >>= fun rest =>
        .ok (⟨(clock (s.1.ticks + 1)).usec - (clock s.1.ticks).usec,
          int32 (s.1.totalTime + int32 ((clock (s.1.ticks + 1)).usec - (clock s.1.ticks).usec))⟩ ::
          rest.1, rest.2) := by
  have hdispatch : dispatch sizeRequest = invokeSize sizeRequest := rfl
  have hrun := invokeSize_run clock link hs.table hs.stats sizeRequest
  rw [← hdispatch] at hrun
  rw [timedRun, invoke_run clock link hrun, C.ok_bind]
  dsimp only
  rw [elapsed_served, ServerState.totalTime_served hs.stats]
  rfl

/-- A clock that shows some seconds more at every other reading. -/
def stepClock (seconds : ℕ) (i : ℕ) : Timeval := ⟨(seconds * ((i + 1) / 2) : ℕ), 0⟩

theorem monotone_stepClock (seconds : ℕ) : Monotone fun i => (stepClock seconds i).usec := by
  intro i j hij
  have hhalf : (i + 1) / 2 ≤ (j + 1) / 2 := Nat.div_le_div_right (by omega)
  have hseconds := Nat.mul_le_mul_left seconds hhalf
  simp only [Timeval.usec, stepClock]
  omega

theorem freshServer_holds : freshServer.1.Holds (Store.create 1 (by decide)) :=
  ServerState.holds_init _

/-- Two requests by that clock. -/
theorem timedRun_stepClock (seconds : ℕ) :
    ∃ s', timedRun (stepClock seconds) .broken [sizeRequest, sizeRequest] freshServer =
      .ok ([⟨(stepClock seconds 1).usec - (stepClock seconds 0).usec,
          int32 (int32 ((stepClock seconds 1).usec - (stepClock seconds 0).usec))⟩,
        ⟨(stepClock seconds 3).usec - (stepClock seconds 2).usec,
          int32 (int32 (int32 ((stepClock seconds 1).usec - (stepClock seconds 0).usec)) +
            int32 ((stepClock seconds 3).usec - (stepClock seconds 2).usec))⟩], s') := by
  have hsecond := freshServer_holds.served (stepClock seconds) (Store.create 1 (by decide))
  rw [timedRun_sizeRequest _ _ freshServer_holds, timedRun_sizeRequest _ _ hsecond,
    ServerState.totalTime_served freshServer_holds.stats]
  exact ⟨_, by rw [show freshServer.1.totalTime = 0 from rfl, zero_add]; rfl⟩

theorem totalTime_exact_sizes :
    ∃ s', timedRun (stepClock 1) .broken [sizeRequest, sizeRequest] freshServer =
        .ok ([⟨1000000, 1000000⟩, ⟨1000000, 2000000⟩], s') ∧
      ExactFrom 0 [⟨1000000, 1000000⟩, ⟨1000000, 2000000⟩] := by
  obtain ⟨s', hrun⟩ := timedRun_stepClock 1
  have hreached : freshServer.1.table.Reached 1 := Store.reached_create 1 (by decide)
  exact ⟨s', hrun, (totalTime_exact_iff (monotone_stepClock 1) hreached freshServer_holds.stats
    rfl hrun (by decide)).2 (by decide)⟩

/-- Two requests of 1100 seconds each. -/
theorem not_exactFrom_sizes :
    ∃ s', (Monotone fun i => (stepClock 1100 i).usec) ∧
      timedRun (stepClock 1100) .broken [sizeRequest, sizeRequest] freshServer =
        .ok ([⟨1100000000, 1100000000⟩, ⟨1100000000, -2094967296⟩], s') ∧
      ¬ ExactFrom 0 [⟨1100000000, 1100000000⟩, ⟨1100000000, -2094967296⟩] := by
  obtain ⟨s', hrun⟩ := timedRun_stepClock 1100
  refine ⟨s', monotone_stepClock 1100, hrun, ?_⟩
  intro hexact
  exact absurd (hexact.sum [⟨1100000000, 1100000000⟩] ⟨1100000000, -2094967296⟩ [] rfl) (by decide)

end ChainTable
