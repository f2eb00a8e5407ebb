-- SUMMARY: The slots of network_main_loop, and the threads that they stand for while threads are created, joined and killed.
import ChainTable.Base.Handles
import ChainTable.Base.Transition

open Base

/-!
# The slots of the accept loop

`network_main_loop` keeps what `pthread_create` stores in `threads`, and marks in
`active_threads` the slots whose thread it has not joined. What the calls return is up to
the system: `accept`, `pthread_create` and `pthread_tryjoin_np` can come out in any way,
and `pthread_join` waits for its thread.
-/

namespace ChainTable

/-! ## The loop -/

/-- `n_threads` -/
abbrev nThreads : ℕ := 5000

/-- `EBUSY` -/
abbrev ebusy : Int := 16

/-- How far `network_main_loop` has come. -/
inductive LoopPhase where
  | test
  | reap (i : ℕ)
  | accept (vacantThread : ℕ)
  | create (vacantThread : ℕ)
  | shutDown (i : ℕ)
  | join (i : ℕ)
  | returned
  deriving DecidableEq

/-- The variables of `network_main_loop`. The rest is the threads that it has created, the
    slot that each of them was created in, and history: whether a call was given an element
    of `threads` that identifies no thread of its slot, and whether an element was overwritten
    whose thread was not joined. -/
structure MainLoop where
  phase : LoopPhase
  threads : ℕ → ℕ
  activeThreads : ℕ → Bool
  serverError : Bool
  handles : Handles
  slot : ℕ → ℕ
  misused : Bool
  overwritten : Bool

/-- The calls of the loop, with what they return, and its moves without a call. -/
inductive MainLoopStep where
  | test (terminated : Bool)
  | tryjoin (retJoin : Int)
  | accept (connsockfd : Int) (again : Bool)
  | create (retThreadCreate : Int) (thread : ℕ)
  | kill
  | join (ret : Int)
  | next

/-- The loop at the end of `network_main_loop` has dealt with slot `j`. -/
def LoopPhase.Done : LoopPhase → ℕ → Prop
  | .shutDown i, j => j < i
  | .join i, j => j < i
  | .returned, _ => True
  | _, _ => False

namespace MainLoop

/-- `threads[i]` identifies thread `k`, which was created in slot `i` and not joined since. -/
def Identifies (s : MainLoop) (i k : ℕ) : Prop :=
  s.handles.existing (s.threads i) = some k ∧ s.slot k = i

def identified (s : MainLoop) (i : ℕ) : Bool :=
  match s.handles.existing (s.threads i) with
  | some k => s.slot k = i
  | none => false

/-- Some thread was created in slot `i` and not joined since. -/
def Occupied (s : MainLoop) (i : ℕ) : Prop :=
  ∃ k < s.handles.created, s.handles.ended k = 0 ∧ s.slot k = i

instance (s : MainLoop) (i : ℕ) : Decidable (s.Occupied i) :=
  inferInstanceAs (Decidable (∃ k < s.handles.created, s.handles.ended k = 0 ∧ s.slot k = i))

/-- A call is given `threads[i]`. -/
def use (s : MainLoop) (i : ℕ) : MainLoop := { s with misused := s.misused || !s.identified i }

/-- The first slot that is not active. -/
def vacantThread (s : MainLoop) (n : ℕ) : Option ℕ :=
  (List.range n).find? fun i => !s.activeThreads i

/-- The body of the loop over the active slots. -/
def tryjoin (s : MainLoop) (i : ℕ) (retJoin : Int) : MainLoop :=
  let s := s.use i
  if retJoin = 0 then
    { s with
      handles := s.handles.close (s.threads i)
      activeThreads := Function.update s.activeThreads i false
      phase := .reap (i + 1) }
  else if retJoin = ebusy then { s with phase := .reap (i + 1) }
  else { s with serverError := true, phase := .test }

/-- The slot is claimed before `pthread_create` is called, which stores something in
    `threads` whether it succeeds or not. A new thread gets an identifier that is free. -/
def create (s : MainLoop) (vacantThread : ℕ) (retThreadCreate : Int) (thread : ℕ) :
    Option MainLoop :=
  let claimed := { s with
    activeThreads := Function.update s.activeThreads vacantThread true
    threads := Function.update s.threads vacantThread thread
    overwritten := s.overwritten || s.Occupied vacantThread
    phase := .test }
  if retThreadCreate = 0 then
    if hfree : s.handles.existing thread = none then
      some { claimed with
        handles := s.handles.create thread hfree
        slot := Function.update s.slot s.handles.created vacantThread }
    else none
  else some claimed

/-- `pthread_join` returns 0 once the thread is at its end. -/
def join (s : MainLoop) (i : ℕ) (ret : Int) : Option MainLoop :=
  let s := s.use i
  match s.handles.existing (s.threads i) with
  | some _ =>
    if ret = 0 then
      some { s with handles := s.handles.close (s.threads i), phase := .shutDown (i + 1) }
    else none
  | none => some { s with phase := .shutDown (i + 1) }

/-- The next move of the loop with `n` slots. -/
def step (n : ℕ) : MainLoopStep → MainLoop → Option MainLoop
  | .test terminated, s =>
    if s.phase = .test then
      some { s with phase := if !terminated && !s.serverError then .reap 0 else .shutDown 0 }
    else none
  | .tryjoin retJoin, s =>
    match s.phase with
    | .reap i => if i < n ∧ s.activeThreads i then some (s.tryjoin i retJoin) else none
    | _ => none
  | .accept connsockfd again, s =>
    match s.phase with
    | .accept vacantThread =>
      if connsockfd = -1 ∧ again then some { s with phase := .test }
      else if connsockfd ≠ -1 then some { s with phase := .create vacantThread }
      else some { s with phase := .test }
    | _ => none
  | .create retThreadCreate thread, s =>
    match s.phase with
    | .create vacantThread => s.create vacantThread retThreadCreate thread
    | _ => none
  | .kill, s =>
    match s.phase with
    | .shutDown i =>
      if i < n ∧ s.activeThreads i then some { s.use i with phase := .join i } else none
    | _ => none
  | .join ret, s =>
    match s.phase with
    | .join i => s.join i ret
    | _ => none
  | .next, s =>
    match s.phase with
    | .reap i =>
      if i < n then
        if s.activeThreads i then none else some { s with phase := .reap (i + 1) }
      else
        match s.vacantThread n with
        | none => some { s with phase := .test }
        | some vacantThread => some { s with phase := .accept vacantThread }
    | .shutDown i =>
      if i < n then
        if s.activeThreads i then none else some { s with phase := .shutDown (i + 1) }
      else some { s with phase := .returned }
    | _ => none

/-- `active_threads` is all zero, and nothing was stored in `threads`. -/
structure Start (s : MainLoop) : Prop where
  phase : s.phase = .test
  activeThreads : ∀ i, s.activeThreads i = false
  serverError : s.serverError = false
  handles : s.handles = .empty
  misused : s.misused = false
  overwritten : s.overwritten = false

/-- At the start of an iteration the active slots are those with a thread of their own. No
    call is given the identifier of another thread or of none, no slot is used twice, and
    every thread is joined once. -/
structure Accurate (n : ℕ) (s : MainLoop) : Prop where
  active : s.phase = .test ∨ s.phase = .reap 0 →
    ∀ i < n, s.activeThreads i = true ↔ ∃ k, s.Identifies i k
  used : s.misused = false
  kept : s.overwritten = false
  once : ∀ k, s.handles.ended k ≤ 1
  joined : s.phase = .returned → ∀ k < s.handles.created, s.handles.ended k = 1

end MainLoop

/-- `network_main_loop` with `n` slots; it has `n_threads` of them. -/
def mainLoopSystem (n : ℕ) : LTS MainLoop MainLoopStep where
  init := MainLoop.Start
  step := MainLoop.step n

/-- No `pthread_create` fails. -/
def Creates : MainLoopStep → MainLoop → Prop
  | .create retThreadCreate _, _ => retThreadCreate = 0
  | _, _ => True

instance : (l : MainLoopStep) → (s : MainLoop) → Decidable (Creates l s)
  | .create retThreadCreate _, _ => inferInstanceAs (Decidable (retThreadCreate = 0))
  | .test _, _ => .isTrue trivial
  | .tryjoin _, _ => .isTrue trivial
  | .accept _ _, _ => .isTrue trivial
  | .kill, _ => .isTrue trivial
  | .join _, _ => .isTrue trivial
  | .next, _ => .isTrue trivial

namespace MainLoop

/-! ## What the steps do -/

section Steps

variable {n : ℕ} {s s' : MainLoop}

theorem step_test {terminated : Bool} (hstep : step n (.test terminated) s = some s') :
    s.phase = .test ∧
      s' = { s with phase := if !terminated && !s.serverError then .reap 0 else .shutDown 0 } := by
  obtain ⟨hphase, hs'⟩ := Option.ite_none_right_eq_some.1 hstep
  exact ⟨hphase, (Option.some.inj hs').symm⟩

theorem step_tryjoin {retJoin : Int} (hstep : step n (.tryjoin retJoin) s = some s') :
    ∃ i, s.phase = .reap i ∧ i < n ∧ s.activeThreads i = true ∧ s' = s.tryjoin i retJoin := by
  rw [step] at hstep
  split at hstep
  · rename_i i hphase
    obtain ⟨⟨hi, hactive⟩, hs'⟩ := Option.ite_none_right_eq_some.1 hstep
    exact ⟨i, hphase, hi, hactive, (Option.some.inj hs').symm⟩
  · cases hstep

theorem step_accept {connsockfd : Int} {again : Bool}
    (hstep : step n (.accept connsockfd again) s = some s') :
    ∃ v, s.phase = .accept v ∧
      (s' = { s with phase := .test } ∨ connsockfd ≠ -1 ∧ s' = { s with phase := .create v }) := by
  rw [step] at hstep
  split at hstep
  · rename_i v hphase
    refine ⟨v, hphase, ?_⟩
    split_ifs at hstep with _ hconnected
    · exact .inl (Option.some.inj hstep).symm
    · exact .inr ⟨hconnected, (Option.some.inj hstep).symm⟩
    · exact .inl (Option.some.inj hstep).symm
  · cases hstep

theorem step_create {retThreadCreate : Int} {thread : ℕ}
    (hstep : step n (.create retThreadCreate thread) s = some s') :
    ∃ v, s.phase = .create v ∧ s.create v retThreadCreate thread = some s' := by
  rw [step] at hstep
  split at hstep
  · rename_i v hphase
    exact ⟨v, hphase, hstep⟩
  · cases hstep

theorem step_kill (hstep : step n .kill s = some s') :
    ∃ i, s.phase = .shutDown i ∧ i < n ∧ s.activeThreads i = true ∧
      s' = { s.use i with phase := .join i } := by
  rw [step] at hstep
  split at hstep
  · rename_i i hphase
    obtain ⟨⟨hi, hactive⟩, hs'⟩ := Option.ite_none_right_eq_some.1 hstep
    exact ⟨i, hphase, hi, hactive, (Option.some.inj hs').symm⟩
  · cases hstep

theorem step_join {ret : Int} (hstep : step n (.join ret) s = some s') :
    ∃ i, s.phase = .join i ∧ s.join i ret = some s' := by
  rw [step] at hstep
  split at hstep
  · rename_i i hphase
    exact ⟨i, hphase, hstep⟩
  · cases hstep

/-- A move without a call goes on to the next slot, or it leaves a loop over the slots. -/
theorem step_next (hstep : step n .next s = some s') :
    ∃ phase, s' = { s with phase := phase } ∧
      ((∃ i, s.phase = .reap i ∧ (phase = .reap (i + 1) ∨ phase = .test ∨
          ∃ v, s.vacantThread n = some v ∧ phase = .accept v)) ∨
        (∃ i, s.phase = .shutDown i ∧
          (s.activeThreads i = false ∧ phase = .shutDown (i + 1) ∨ n ≤ i ∧
            phase = .returned))) := by
  rw [step] at hstep
  split at hstep
  · rename_i i hphase
    split_ifs at hstep
    · exact ⟨_, (Option.some.inj hstep).symm, .inl ⟨i, hphase, .inl rfl⟩⟩
    · split at hstep
      · exact ⟨_, (Option.some.inj hstep).symm, .inl ⟨i, hphase, .inr (.inl rfl)⟩⟩
      · rename_i v hvacant
        exact ⟨_, (Option.some.inj hstep).symm, .inl ⟨i, hphase, .inr (.inr ⟨v, hvacant, rfl⟩)⟩⟩
  · rename_i i hphase
    split_ifs at hstep with hi hactive
    · have hinactive : s.activeThreads i = false := by simpa using hactive
      exact ⟨_, (Option.some.inj hstep).symm, .inr ⟨i, hphase, .inl ⟨hinactive, rfl⟩⟩⟩
    · exact ⟨_, (Option.some.inj hstep).symm, .inr ⟨i, hphase, .inr ⟨not_lt.1 hi, rfl⟩⟩⟩
  · cases hstep

/-- The slot that is found is not active. -/
theorem vacantThread_eq_some {v : ℕ} (h : s.vacantThread n = some v) :
    v < n ∧ s.activeThreads v = false := by
  refine ⟨List.mem_range.1 (List.mem_of_find?_eq_some h), ?_⟩
  simpa using List.find?_some h

end Steps

/-! ## The invariant -/

section Invariant

variable {n : ℕ} {s s' : MainLoop} {i v : ℕ}

theorem identified_iff : s.identified i = true ↔ ∃ k, s.Identifies i k := by
  unfold identified Identifies
  cases s.handles.existing (s.threads i) with
  | none => simp
  | some k => simp

/-- Every thread that was not joined has an active slot of its own, which is still to be
    dealt with at the end, and every such active slot has a thread. -/
structure Kept (n : ℕ) (s : MainLoop) : Prop where
  slots : ∀ t k, s.handles.existing t = some k →
    s.slot k < n ∧ s.threads (s.slot k) = t ∧ s.activeThreads (s.slot k) = true ∧
      ¬ s.phase.Done (s.slot k)
  active : ∀ i < n, ¬ s.phase.Done i → s.activeThreads i = true → ∃ k, s.Identifies i k
  vacant : ∀ v, s.phase = .accept v ∨ s.phase = .create v → v < n ∧ s.activeThreads v = false
  joining : ∀ i, s.phase = .join i → i < n ∧ s.activeThreads i = true
  used : s.misused = false
  kept : s.overwritten = false

theorem Start.kept (h : s.Start) : s.Kept n where
  slots t k hk := by
    rw [h.handles] at hk
    cases hk
  active i _ _ hactive := by
    rw [h.activeThreads i] at hactive
    cases hactive
  vacant v hv := by simp [h.phase] at hv
  joining i hi := by simp [h.phase] at hi
  used := h.misused
  kept := h.overwritten

theorem Kept.accurate (h : s.Kept n) : s.Accurate n where
  active hphase i hi := by
    have hdone : ¬ s.phase.Done i := by
      rcases hphase with hphase | hphase <;> rw [hphase] <;> exact id
    constructor
    · exact h.active i hi hdone
    · rintro ⟨k, hk, rfl⟩
      exact (h.slots _ k hk).2.2.1
  used := h.used
  kept := h.kept
  once := s.handles.once
  joined hphase k hk := by
    refine Handles.ended_of_none_existing (fun t => ?_) hk
    cases ht : s.handles.existing t with
    | none => rfl
    | some k => exact absurd (hphase ▸ trivial) (h.slots t k ht).2.2.2

/-- A move that changes nothing but the phase. -/
theorem Kept.goTo (h : s.Kept n) {phase : LoopPhase} (hdone : ∀ j, s.phase.Done j → phase.Done j)
    (hnew : ∀ j < n, phase.Done j → s.phase.Done j ∨ s.activeThreads j = false)
    (hvacant : ∀ v, phase = .accept v ∨ phase = .create v → v < n ∧ s.activeThreads v = false)
    (hjoining : ∀ i, phase = .join i → i < n ∧ s.activeThreads i = true) :
    ({ s with phase := phase } : MainLoop).Kept n where
  slots t k hk := by
    obtain ⟨hlt, hthread, hactive, hopen⟩ := h.slots t k hk
    refine ⟨hlt, hthread, hactive, fun hphase => ?_⟩
    rcases hnew _ hlt hphase with hold | hinactive
    · exact hopen hold
    · rw [hinactive] at hactive
      cases hactive
  active i hi hopen := h.active i hi fun hold => hopen (hdone i hold)
  vacant := hvacant
  joining := hjoining
  used := h.used
  kept := h.kept

/-- Only the end of the function deals with slots for good. -/
theorem Kept.goOn (h : s.Kept n) {old phase : LoopPhase} (hphase : s.phase = old)
    (hold : ∀ j, ¬ old.Done j) (hopen : ∀ j, ¬ phase.Done j)
    (hvacant : ∀ v, phase = .accept v ∨ phase = .create v → v < n ∧ s.activeThreads v = false)
    (hjoining : ∀ i, phase ≠ .join i) : ({ s with phase := phase } : MainLoop).Kept n := by
  subst hphase
  apply h.goTo
  · intro j hj
    exact absurd hj (hold j)
  · intro j _ hj
    exact absurd hj (hopen j)
  · exact hvacant
  · intro i hi
    exact absurd hi (hjoining i)

/-- A call on an active slot is given the thread of that slot. -/
theorem Kept.use_eq (h : s.Kept n) (hi : i < n) (hopen : ¬ s.phase.Done i)
    (hactive : s.activeThreads i = true) : s.use i = s := by
  have hidentified := identified_iff.2 (h.active i hi hopen hactive)
  rw [use, hidentified, Bool.not_true, Bool.or_false]

/-- The thread of slot `i` is joined, and the slot is released or dealt with. -/
theorem Kept.joined (h : s.Kept n) {k : ℕ} (hk : s.Identifies i k) {activeThreads : ℕ → Bool}
    {phase : LoopPhase} (hother : ∀ j ≠ i, activeThreads j = s.activeThreads j)
    (hdone : ∀ j ≠ i, (phase.Done j ↔ s.phase.Done j))
    (hgone : activeThreads i = false ∨ phase.Done i)
    (hvacant : ∀ v, phase ≠ .accept v ∧ phase ≠ .create v) (hjoining : ∀ i, phase ≠ .join i) :
    ({ s with
      handles := s.handles.close (s.threads i)
      activeThreads := activeThreads
      phase := phase } : MainLoop).Kept n where
  slots t j hj := by
    obtain ⟨hne, hold⟩ := Handles.existing_close.1 hj
    obtain ⟨hlt, hthread, hactive, hopen⟩ := h.slots t j hold
    have hslot : s.slot j ≠ i := by
      rintro rfl
      exact hne hthread.symm
    exact ⟨hlt, hthread, (hother _ hslot).trans hactive, fun hphase =>
      hopen ((hdone _ hslot).1 hphase)⟩
  active j hj hopen hactive := by
    have hji : j ≠ i := by
      rintro rfl
      rcases hgone with hinactive | hphase
      · exact Bool.false_ne_true (hinactive.symm.trans hactive)
      · exact hopen hphase
    obtain ⟨k', hk', hslot⟩ := h.active j hj (fun hphase => hopen ((hdone j hji).2 hphase))
      ((hother j hji).symm.trans hactive)
    refine ⟨k', Handles.existing_close.2 ⟨fun hsame => ?_, hk'⟩, hslot⟩
    -- two slots with one identifier would have one thread between them
    obtain rfl : k' = k := Option.some.inj (hk'.symm.trans (hsame ▸ hk.1))
    exact hji (hslot.symm.trans hk.2)
  vacant v hv := by
    rcases hv with hv | hv
    · exact absurd hv (hvacant v).1
    · exact absurd hv (hvacant v).2
  joining j hj := absurd hj (hjoining j)
  used := h.used
  kept := h.kept

/-! ## The steps -/

theorem Kept.test (h : s.Kept n) {terminated : Bool}
    (hstep : step n (.test terminated) s = some s') : s'.Kept n := by
  obtain ⟨hphase, rfl⟩ := step_test hstep
  split
  · exact h.goOn hphase (fun _ => id) (fun _ => id) (by simp) (by simp)
  · exact h.goOn hphase (fun _ => id) (fun _ => Nat.not_lt_zero _) (by simp) (by simp)

theorem Kept.tryjoin (h : s.Kept n) {retJoin : Int}
    (hstep : step n (.tryjoin retJoin) s = some s') : s'.Kept n := by
  obtain ⟨i, hphase, hi, hactive, rfl⟩ := step_tryjoin hstep
  have hopen : ∀ j, ¬ s.phase.Done j := fun j => by rw [hphase]; exact id
  rw [MainLoop.tryjoin, h.use_eq hi (hopen i) hactive]
  split_ifs
  · obtain ⟨k, hk⟩ := h.active i hi (hopen i) hactive
    refine h.joined hk (fun j hj => Function.update_of_ne hj ..) (fun j _ => ?_)
      (.inl (Function.update_self ..)) (by simp) (by simp)
    exact iff_of_false id (hopen j)
  · exact h.goOn hphase (fun _ => id) (fun _ => id) (by simp) (by simp)
  · have hgo : ({ s with phase := .test } : MainLoop).Kept n :=
      h.goOn hphase (fun _ => id) (fun _ => id) (by simp) (by simp)
    exact ⟨hgo.slots, hgo.active, hgo.vacant, hgo.joining, hgo.used, hgo.kept⟩

theorem Kept.accept (h : s.Kept n) {connsockfd : Int} {again : Bool}
    (hstep : step n (.accept connsockfd again) s = some s') : s'.Kept n := by
  obtain ⟨v, hphase, rfl | ⟨-, rfl⟩⟩ := step_accept hstep
  · exact h.goOn hphase (fun _ => id) (fun _ => id) (by simp) (by simp)
  · refine h.goOn hphase (fun _ => id) (fun _ => id) ?_ (by simp)
    rintro v' (hv' | hv')
    · cases hv'
    · cases hv'
      exact h.vacant v (.inl hphase)

/-- A slot that is not active can be used for another thread. -/
theorem Kept.not_occupied (h : s.Kept n) (hv : s.activeThreads v = false) : ¬ s.Occupied v := by
  rintro ⟨k, hk, hended, rfl⟩
  obtain ⟨t, ht⟩ := s.handles.known k hk hended
  exact Bool.false_ne_true (hv.symm.trans (h.slots t k ht).2.2.1)

theorem Kept.create (h : s.Kept n) {thread : ℕ}
    (hstep : step n (.create 0 thread) s = some s') : s'.Kept n := by
  obtain ⟨v, hphase, hcreate⟩ := step_create hstep
  obtain ⟨hv, hinactive⟩ := h.vacant v (.inr hphase)
  have hopen : ∀ j, ¬ s.phase.Done j := fun j => by rw [hphase]; exact id
  rw [MainLoop.create, if_pos rfl] at hcreate
  split_ifs at hcreate with hfree
  rw [← Option.some.inj hcreate]
  have hfresh : ∀ t k, s.handles.existing t = some k →
      Function.update s.slot s.handles.created v k = s.slot k ∧ s.slot k ≠ v := by
    intro t k hk
    refine ⟨Function.update_of_ne (s.handles.bound t k hk).1.ne .., ?_⟩
    rintro rfl
    exact Bool.false_ne_true (hinactive.symm.trans (h.slots t k hk).2.2.1)
  refine ⟨fun t k hk => ?_, fun j hj _ hactive => ?_, by simp, by simp, h.used, ?_⟩
  · rcases (Handles.existing_create hfree).1 hk with ⟨rfl, rfl⟩ | hold
    · simp only [Function.update_self]
      exact ⟨hv, trivial, trivial, id⟩
    · obtain ⟨hslot, hne⟩ := hfresh t k hold
      obtain ⟨hlt, hthread, hactive, -⟩ := h.slots t k hold
      simp only [hslot, Function.update_of_ne hne]
      exact ⟨hlt, hthread, hactive, id⟩
  · by_cases hjv : j = v
    · subst hjv
      have hself := Function.update_self j thread s.threads
      exact ⟨s.handles.created, (Handles.existing_create hfree).2 (.inl ⟨hself, rfl⟩),
        Function.update_self s.handles.created j s.slot⟩
    · have hold : s.activeThreads j = true := (Function.update_of_ne hjv ..).symm.trans hactive
      obtain ⟨k, hk, hslot⟩ := h.active j hj (hopen j) hold
      have hother : s.handles.existing (Function.update s.threads v thread j) = some k := by
        rw [Function.update_of_ne hjv, hk]
      exact ⟨k, (Handles.existing_create hfree).2 (.inr hother), (hfresh _ k hk).1.trans hslot⟩
  · simp [h.kept, h.not_occupied hinactive]

theorem Kept.kill (h : s.Kept n) (hstep : step n .kill s = some s') : s'.Kept n := by
  obtain ⟨i, hphase, hi, hactive, rfl⟩ := step_kill hstep
  have hopen : ¬ s.phase.Done i := by rw [hphase]; exact lt_irrefl i
  rw [h.use_eq hi hopen hactive]
  refine h.goTo (fun j hj => ?_) (fun j _ hj => .inl ?_) (by simp) ?_
  · rwa [hphase] at hj
  · rwa [hphase]
  · rintro j hj
    cases hj
    exact ⟨hi, hactive⟩

theorem Kept.join (h : s.Kept n) {ret : Int} (hstep : step n (.join ret) s = some s') :
    s'.Kept n := by
  obtain ⟨i, hphase, hjoin⟩ := step_join hstep
  obtain ⟨hi, hactive⟩ := h.joining i hphase
  have hopen : ¬ s.phase.Done i := by rw [hphase]; exact lt_irrefl i
  obtain ⟨k, hk⟩ := h.active i hi hopen hactive
  rw [MainLoop.join, h.use_eq hi hopen hactive] at hjoin
  simp only [hk.1] at hjoin
  obtain ⟨-, hs'⟩ := Option.ite_none_right_eq_some.1 hjoin
  rw [← Option.some.inj hs']
  refine h.joined hk (fun _ _ => rfl) (fun j hj => ?_) (.inr (Nat.lt_succ_self i)) (by simp)
    (by simp)
  rw [hphase]
  exact ⟨fun hlt => lt_of_le_of_ne (Nat.le_of_lt_succ hlt) hj, fun hlt =>
    hlt.trans (Nat.lt_succ_self i)⟩

theorem Kept.next (h : s.Kept n) (hstep : step n .next s = some s') : s'.Kept n := by
  obtain ⟨phase, rfl, ⟨i, hphase, hnext⟩ | ⟨i, hphase, hnext⟩⟩ := step_next hstep
  · rcases hnext with rfl | rfl | ⟨v, hvacant, rfl⟩
    · exact h.goOn hphase (fun _ => id) (fun _ => id) (by simp) (by simp)
    · exact h.goOn hphase (fun _ => id) (fun _ => id) (by simp) (by simp)
    · refine h.goOn hphase (fun _ => id) (fun _ => id) ?_ (by simp)
      rintro v' (hv' | hv')
      · cases hv'
        exact vacantThread_eq_some hvacant
      · cases hv'
  · rcases hnext with ⟨hinactive, rfl⟩ | ⟨hi, rfl⟩
    · refine h.goTo (fun j hj => ?_) (fun j _ hj => ?_) (by simp) (by simp)
      · rw [hphase] at hj
        exact hj.trans (Nat.lt_succ_self i)
      · rcases Nat.lt_succ_iff_lt_or_eq.1 hj with hlt | rfl
        · rw [hphase]
          exact .inl hlt
        · exact .inr hinactive
    · refine h.goTo (fun _ _ => trivial) (fun j hj _ => .inl ?_) (by simp) (by simp)
      rw [hphase]
      exact hj.trans_le hi

theorem Kept.step {l : MainLoopStep} (h : s.Kept n) (hok : Creates l s)
    (hstep : MainLoop.step n l s = some s') : s'.Kept n := by
  cases l with
  | test terminated => exact h.test hstep
  | tryjoin retJoin => exact h.tryjoin hstep
  | accept connsockfd again => exact h.accept hstep
  | create retThreadCreate thread =>
    obtain rfl : retThreadCreate = 0 := hok
    exact h.create hstep
  | kill => exact h.kill hstep
  | join ret => exact h.join hstep
  | next => exact h.next hstep

theorem kept_of_reachable (h : (mainLoopSystem n).ReachableUnder Creates s) : s.Kept n := by
  refine h.invariant ?_ ?_
  · intro s hstart
    exact hstart.kept
  · intro l s s' hkept hok hstep
    exact hkept.step hok hstep

/-- A slot stays claimed when its thread could not be created. -/
theorem Kept.not_accurate (h : s.Kept n) {retThreadCreate : Int} {thread : ℕ}
    (hfails : retThreadCreate ≠ 0)
      (hstep : MainLoop.step n (.create retThreadCreate thread) s = some s') :
    ¬ s'.Accurate n := by
  obtain ⟨v, hphase, hcreate⟩ := step_create hstep
  obtain ⟨hv, hinactive⟩ := h.vacant v (.inr hphase)
  rw [MainLoop.create, if_neg hfails] at hcreate
  rw [← Option.some.inj hcreate]
  intro haccurate
  have hclaimed : Function.update s.activeThreads v true v = true := Function.update_self ..
  obtain ⟨k, hk, hslot⟩ := (haccurate.active (.inl rfl) v hv).1 hclaimed
  obtain ⟨hlt, hended⟩ := s.handles.bound _ k hk
  exact h.not_occupied hinactive ⟨k, hlt, hended, hslot⟩

end Invariant

/-! ## When the slots are accurate -/

/-- As long as every `pthread_create` succeeds the slots are accurate, and they are not any
    more behind the first that fails. -/
theorem accurate_iff {n : ℕ} {s : MainLoop} (h : (mainLoopSystem n).ReachableUnder Creates s) :
    s.Accurate n ∧
      ∀ l s', (mainLoopSystem n).step l s = some s' → (s'.Accurate n ↔ Creates l s) := by
  have hkept := kept_of_reachable h
  refine ⟨hkept.accurate, fun l s' hstep => ⟨fun haccurate => ?_, fun hok => ?_⟩⟩
  · cases l with
    | create retThreadCreate thread =>
      by_contra hfails
      exact hkept.not_accurate hfails hstep haccurate
    | _ => trivial
  · exact (hkept.step hok hstep).accurate

/-- Before the first iteration. -/
def mainLoopStart : MainLoop where
  phase := .test
  threads _ := 0
  activeThreads _ := false
  serverError := false
  handles := .empty
  slot _ := 0
  misused := false
  overwritten := false

theorem mainLoopStart_start : mainLoopStart.Start where
  phase := rfl
  activeThreads _ := rfl
  serverError := rfl
  handles := rfl
  misused := rfl
  overwritten := rfl

/-- An iteration with a loop of two slots, in which a connection is accepted. -/
def acceptOne : List MainLoopStep := [.test false, .next, .next, .next, .accept 4 false]

/-- One thread is joined by the loop, and another one at the end. -/
def joinBoth : List MainLoopStep :=
  acceptOne ++ ([.create 0 7, .test false, .tryjoin ebusy, .next, .next,
    .accept 5 false, .create 0 8,
    .test false, .tryjoin 0, .tryjoin ebusy, .next, .accept (-1) true, .test true, .next, .kill,
    .join 0, .next] : List MainLoopStep)

theorem accurate_joinBoth :
    ∃ s, (mainLoopSystem 2).run joinBoth mainLoopStart = some s ∧ s.phase = .returned ∧
      s.handles.created = 2 ∧ s.Accurate 2 := by
  have hmeets : (mainLoopSystem 2).RunMeets Creates joinBoth mainLoopStart := by decide
  refine ⟨_, rfl, rfl, rfl, (accurate_iff ?_).1⟩
  exact LTS.ReachableUnder.run (.init mainLoopStart_start) hmeets rfl

/-- The loop passes slots that are not active. -/
theorem reachable_reap {n i : ℕ} (hi : i ≤ n) :
    (mainLoopSystem n).ReachableUnder Creates { mainLoopStart with phase := .reap i } := by
  induction i with
  | zero =>
    have hok : Creates (.test false) mainLoopStart := trivial
    exact .step (.init mainLoopStart_start) hok rfl
  | succ i ih =>
    have hstep : (mainLoopSystem n).step .next { mainLoopStart with phase := .reap i } =
        some { mainLoopStart with phase := .reap (i + 1) } := if_pos (Nat.lt_of_succ_le hi)
    exact .step (l := MainLoopStep.next) (ih (Nat.le_of_succ_le hi)) trivial hstep

/-- The first slot is the one for the first connection. -/
theorem reachable_create {n : ℕ} (hn : 0 < n) :
    (mainLoopSystem n).ReachableUnder Creates { mainLoopStart with phase := .create 0 } := by
  have hvacant : mainLoopStart.vacantThread n = some 0 := by
    obtain ⟨m, rfl⟩ := Nat.exists_eq_succ_of_ne_zero hn.ne'
    rw [vacantThread, List.range_succ_eq_map]
    rfl
  have hnext : (mainLoopSystem n).step .next { mainLoopStart with phase := .reap n } =
      some { mainLoopStart with phase := .accept 0 } := by
    have hstep : (mainLoopSystem n).step .next { mainLoopStart with phase := .reap n } =
        match mainLoopStart.vacantThread n with
        | none => some { mainLoopStart with phase := .test }
        | some vacantThread => some { mainLoopStart with phase := .accept vacantThread } :=
      if_neg (lt_irrefl n)
    rw [hstep, hvacant]
  have hreach : (mainLoopSystem n).ReachableUnder Creates
    { mainLoopStart with phase := .accept 0 } :=
    .step (l := MainLoopStep.next) (reachable_reap le_rfl) trivial hnext
  exact .step (l := MainLoopStep.accept 4 false) hreach trivial rfl

/-- No thread is created, and what is left in the slot passes for one. -/
theorem not_accurate_createFails :
    ∃ s, (mainLoopSystem nThreads).Reachable s ∧ s.phase = .test ∧ s.activeThreads 0 = true ∧
      s.handles.created = 0 ∧ ¬ s.Accurate nThreads := by
  have hreach := reachable_create (n := nThreads) (by decide)
  have hstep : (mainLoopSystem nThreads).step (.create 11 0)
      { mainLoopStart with phase := .create 0 } = some _ := rfl
  have hfails : (11 : Int) ≠ 0 := by decide
  refine ⟨_, .step (hreach.mono fun _ _ _ => trivial) trivial hstep, rfl, rfl, rfl, ?_⟩
  exact (kept_of_reachable hreach).not_accurate hfails hstep

end MainLoop

end ChainTable
