-- SUMMARY: Labelled transition systems with a partial step function: runs, reachability under a condition on the steps, and the invariant and simulation rules.
import Mathlib

/-!
# Transition systems

A system is a set of initial states and a partial step function: a label says
which party moves and how, so that a run is a list of labels and every
nondeterministic choice is part of a label. A concurrent program becomes such a
system by letting a label name the thread that moves.

`ReachableUnder ok` is reachability by steps that all meet `ok`, a condition on
the label and on the state before the step. Plain reachability is the case in
which every step is allowed.
-/

namespace Base

universe u v

/-- A transition system over states `σ` whose steps are named by labels `ℓ`. A
    label that is not enabled in a state has no successor there. -/
structure LTS (σ : Type u) (ℓ : Type v) where
  init : σ → Prop
  step : ℓ → σ → Option σ

namespace LTS

variable {σ τ : Type u} {ℓ κ : Type v}

/-! ## Runs -/

/-- The state after the labels `ls`, when each of them is enabled in turn. -/
def run (T : LTS σ ℓ) : List ℓ → σ → Option σ
  | [], s => some s
  | l :: ls, s => (T.step l s).bind (T.run ls)

@[simp] theorem run_nil (T : LTS σ ℓ) (s : σ) : T.run [] s = some s := rfl

@[simp] theorem run_cons (T : LTS σ ℓ) (l : ℓ) (ls : List ℓ) (s : σ) :
    T.run (l :: ls) s = (T.step l s).bind (T.run ls) := rfl

/-! ## Reachability -/

/-- The states reached by steps that meet `ok` in the state they leave. -/
inductive ReachableUnder (T : LTS σ ℓ) (ok : ℓ → σ → Prop) : σ → Prop where
  | init {s : σ} : T.init s → ReachableUnder T ok s
  | step {l : ℓ} {s s' : σ} :
      ReachableUnder T ok s → ok l s → T.step l s = some s' → ReachableUnder T ok s'

/-- The states reached by any steps. -/
abbrev Reachable (T : LTS σ ℓ) : σ → Prop := T.ReachableUnder fun _ _ => True

/-- Each label of `ls` meets `ok` in the state in which it is taken. -/
def RunMeets (T : LTS σ ℓ) (ok : ℓ → σ → Prop) : List ℓ → σ → Prop
  | [], _ => True
  | l :: ls, s => ok l s ∧ ∀ s', T.step l s = some s' → T.RunMeets ok ls s'

instance decidableRunMeets (T : LTS σ ℓ) (ok : ℓ → σ → Prop) [∀ l s, Decidable (ok l s)] :
    (ls : List ℓ) → (s : σ) → Decidable (T.RunMeets ok ls s)
  | [], _ => .isTrue trivial
  | l :: ls, s =>
    have := decidableRunMeets T ok ls
    inferInstanceAs (Decidable (ok l s ∧ ∀ s', T.step l s = some s' → T.RunMeets ok ls s'))

/-- More steps reach more states. -/
theorem ReachableUnder.mono {T : LTS σ ℓ} {ok ok' : ℓ → σ → Prop} {s : σ}
    (h : T.ReachableUnder ok s) (hok : ∀ l s, ok l s → ok' l s) : T.ReachableUnder ok' s := by
  induction h with
  | init hs => exact .init hs
  | step _ hstepOk hs ih => exact .step ih (hok _ _ hstepOk) hs

/-- A run from a reachable state ends in a reachable state. -/
theorem ReachableUnder.run {T : LTS σ ℓ} {ok : ℓ → σ → Prop} {ls : List ℓ} {s s' : σ}
    (h : T.ReachableUnder ok s) (hmeets : T.RunMeets ok ls s) (hrun : T.run ls s = some s') :
    T.ReachableUnder ok s' := by
  induction ls generalizing s with
  | nil =>
    obtain rfl : s = s' := by simpa using hrun
    exact h
  | cons l ls ih =>
    obtain ⟨s₁, hstep, hrest⟩ := Option.bind_eq_some_iff.1 hrun
    exact ih (.step h hmeets.1 hstep) (hmeets.2 s₁ hstep) hrest

/-- A condition on the labels alone. -/
theorem runMeets_of_forall {T : LTS σ ℓ} {ok : ℓ → σ → Prop} {ls : List ℓ}
    (hok : ∀ l ∈ ls, ∀ s, ok l s) (s : σ) : T.RunMeets ok ls s := by
  induction ls generalizing s with
  | nil => trivial
  | cons l ls ih =>
    obtain ⟨hl, hls⟩ := List.forall_mem_cons.1 hok
    exact ⟨hl s, fun s' _ => ih hls s'⟩

/-- The end of a run from an initial state is reachable. -/
theorem reachable_of_run {T : LTS σ ℓ} {ls : List ℓ} {s s' : σ}
    (hinit : T.init s) (hrun : T.run ls s = some s') : T.Reachable s' :=
  ReachableUnder.run (.init hinit) (runMeets_of_forall (fun _ _ _ => trivial) s) hrun

/-! ## Invariants -/

/-- A property that holds initially and is kept by every step that meets `ok`
    holds in every state reached by such steps. -/
theorem ReachableUnder.invariant {T : LTS σ ℓ} {ok : ℓ → σ → Prop} {I : σ → Prop}
    (hinit : ∀ s, T.init s → I s)
    (hstep : ∀ l s s', I s → ok l s → T.step l s = some s' → I s')
    {s : σ} (h : T.ReachableUnder ok s) : I s := by
  induction h with
  | init hs => exact hinit _ hs
  | step _ hok hs ih => exact hstep _ _ _ ih hok hs

/-- The rule for plain reachability. -/
theorem Reachable.invariant {T : LTS σ ℓ} {I : σ → Prop}
    (hinit : ∀ s, T.init s → I s) (hstep : ∀ l s s', I s → T.step l s = some s' → I s')
    {s : σ} (h : T.Reachable s) : I s :=
  ReachableUnder.invariant hinit (fun l s s' hI _ => hstep l s s' hI) h

/-- What the steps of a run keep holds at its end. -/
theorem RunMeets.invariant {T : LTS σ ℓ} {ok : ℓ → σ → Prop} {I : σ → Prop}
    (hstep : ∀ l s s', I s → ok l s → T.step l s = some s' → I s') {ls : List ℓ} {s s' : σ}
    (hmeets : T.RunMeets ok ls s) (hs : I s) (hrun : T.run ls s = some s') : I s' := by
  induction ls generalizing s with
  | nil =>
    obtain rfl : s = s' := by simpa using hrun
    exact hs
  | cons l ls ih =>
    obtain ⟨s₁, hl, hrest⟩ := Option.bind_eq_some_iff.1 hrun
    exact ih (hmeets.2 s₁ hl) (hstep l s s₁ hs hmeets.1 hl) hrest

/-! ## Simulation -/

/-- A relation to the reachable states of an abstract system, which each step of the
    concrete one keeps or follows with abstract steps. -/
theorem Reachable.simulation {T : LTS σ ℓ} {A : τ → Prop} {R : σ → τ → Prop}
    (hinit : ∀ s, T.init s → ∃ a, A a ∧ R s a)
    (hstep : ∀ l s s' a, A a → R s a → T.step l s = some s' → ∃ a', A a' ∧ R s' a')
    {s : σ} (h : T.Reachable s) : ∃ a, A a ∧ R s a := by
  induction h with
  | init hs => exact hinit _ hs
  | step _ _ hs ih =>
    obtain ⟨a, ha, hR⟩ := ih
    exact hstep _ _ _ a ha hR hs

/-! ## Families

Components that share nothing run side by side; a label names the component that
moves. -/

variable {ι : Type u} [DecidableEq ι]

def family (T : ι → LTS σ ℓ) : LTS (ι → σ) (ι × ℓ) where
  init s := ∀ t, (T t).init (s t)
  step l s := ((T l.1).step l.2 (s l.1)).map (Function.update s l.1)

/-- In a reachable state of a family each component is in a reachable state of its
    own. -/
theorem ReachableUnder.component {T : ι → LTS σ ℓ} (ok : ι → ℓ → σ → Prop) {s : ι → σ}
    (h : (family T).ReachableUnder (fun l s => ok l.1 l.2 (s l.1)) s) (t : ι) :
    (T t).ReachableUnder (ok t) (s t) := by
  induction h with
  | init hs => exact .init (hs t)
  | @step l s s' _ hok hstep ih =>
    obtain ⟨a, ha, rfl⟩ := Option.map_eq_some_iff.1 hstep
    by_cases ht : t = l.1
    · subst ht
      rw [Function.update_self]
      exact .step ih hok ha
    · rw [Function.update_of_ne ht]
      exact ih

end LTS

end Base
