-- SUMMARY: A chain of replicas in which each node hands an update on to the next one while it holds its own lock.
import ChainTable.Base.Transition

/-!
# Relays

Node 0 gets updates from clients. A worker that has the lock of its node applies its
update there, sends it to the next node, and keeps the lock until the reply is back;
the next node serves what it is sent by a worker of its own, in the same way. The last
node sends nothing.

What is in flight between two neighbours is then one of five things, and each of them
says how far the log of the second node is behind that of the first.
-/

namespace Base

namespace Relay

/-! ## States -/

/-- Who works at the nodes: clients at node 0, and at node `i + 1` the worker that
    serves the link from node `i`. -/
inductive Worker (κ : Type) where
  | client (c : κ)
  | link (i : ℕ)
  deriving DecidableEq

def Worker.node {κ : Type} : Worker κ → ℕ
  | client _ => 0
  | link i => i + 1

inductive Stage where
  | started
  | locked
  | applied
  | waiting
  | done
  | released
  deriving DecidableEq

/-- The stages in which a worker has the lock of its node. -/
def Stage.Holds : Stage → Prop
  | started => False
  | locked => True
  | applied => True
  | waiting => True
  | done => True
  | released => False

/-- The stages before the update is in the log of the node. -/
def Stage.Early : Stage → Prop
  | started => True
  | locked => True
  | _ => False

instance : DecidablePred Stage.Early := fun stage => by
  cases stage <;> unfold Stage.Early <;> infer_instance

/-- The stages in which the next node may be concerned. -/
def Stage.Sends : Stage → Prop
  | applied => True
  | waiting => True
  | _ => False

/-- What a worker works on. The position is that of the update in the log of the node,
    once it is there. -/
structure Task (α : Type) where
  stage : Stage
  update : α
  position : ℕ

structure Wire (α : Type) where
  requests : List α
  replies : ℕ

structure State (κ α : Type) where
  log : ℕ → List α
  task : Worker κ → Option (Task α)
  wire : ℕ → Wire α
  acked : List (ℕ × α)

variable {κ α : Type}

namespace State

/-- Nobody has the lock of node `i`. -/
def Free (s : State κ α) (i : ℕ) : Prop :=
  ∀ w t, w.node = i → s.task w = some t → ¬ t.stage.Holds

def setWire (s : State κ α) (i : ℕ) (wire : Wire α) : State κ α :=
  { s with wire := Function.update s.wire i wire }

def append (s : State κ α) (i : ℕ) (u : α) : State κ α :=
  { s with log := Function.update s.log i (s.log i ++ [u]) }

section Fields

variable (s : State κ α) (i : ℕ) (wire : Wire α) (u : α)

@[simp] theorem task_setWire : (s.setWire i wire).task = s.task := rfl

@[simp] theorem wire_setWire_self : (s.setWire i wire).wire i = wire := Function.update_self ..

@[simp] theorem wire_setWire_of_ne {j : ℕ} (h : j ≠ i) : (s.setWire i wire).wire j = s.wire j :=
  Function.update_of_ne h ..

@[simp] theorem log_append_self : (s.append i u).log i = s.log i ++ [u] := Function.update_self ..

@[simp] theorem log_append_of_ne {j : ℕ} (h : j ≠ i) : (s.append i u).log j = s.log j :=
  Function.update_of_ne h ..

end Fields

variable [DecidableEq κ]

def setTask (s : State κ α) (w : Worker κ) (t : Option (Task α)) : State κ α :=
  { s with task := Function.update s.task w t }

section Tasks

variable (s : State κ α) (w : Worker κ) (t : Option (Task α))

@[simp] theorem log_setTask : (s.setTask w t).log = s.log := rfl

@[simp] theorem wire_setTask : (s.setTask w t).wire = s.wire := rfl

@[simp] theorem task_setTask_self : (s.setTask w t).task w = t := Function.update_self ..

@[simp] theorem task_setTask_of_ne {w' : Worker κ} (h : w' ≠ w) :
    (s.setTask w t).task w' = s.task w' := Function.update_of_ne h ..

end Tasks

/-- The worker that moves has its new task, and all others have their old ones. -/
theorem task_setTask_cases {s : State κ α} {w w' : Worker κ} {t : Option (Task α)} {t' : Task α}
    (h : (s.setTask w t).task w' = some t') :
    s.task w' = some t' ∨ w' = w ∧ t = some t' := by
  by_cases hw : w' = w
  · subst hw
    rw [task_setTask_self] at h
    exact .inr ⟨rfl, h⟩
  · rw [task_setTask_of_ne s w t hw] at h
    exact .inl h

end State

/-! ## Steps -/

/-- The steps of a relay, each with the stage it starts from. `last` is the last node. -/
inductive Step [DecidableEq κ] (last : ℕ) : State κ α → State κ α → Prop where
  | start {s : State κ α} {c : κ} (u : α) : s.task (.client c) = none →
      Step last s (s.setTask (.client c) (some ⟨.started, u, 0⟩))
  | lock {s : State κ α} {w : Worker κ} {u : α} {p : ℕ} :
      s.task w = some ⟨.started, u, p⟩ → s.Free w.node →
      Step last s (s.setTask w (some ⟨.locked, u, p⟩))
  | apply {s : State κ α} {w : Worker κ} {u : α} {p : ℕ} : s.task w = some ⟨.locked, u, p⟩ →
      Step last s ((s.append w.node u).setTask w (some ⟨.applied, u, (s.log w.node).length⟩))
  | skip {s : State κ α} {w : Worker κ} {u : α} {p : ℕ} : s.task w = some ⟨.applied, u, p⟩ →
      w.node = last → Step last s (s.setTask w (some ⟨.done, u, p⟩))
  | send {s : State κ α} {w : Worker κ} {u : α} {p : ℕ} : s.task w = some ⟨.applied, u, p⟩ →
      w.node < last →
      Step last s ((s.setWire w.node
        ⟨(s.wire w.node).requests ++ [u], (s.wire w.node).replies⟩).setTask w
          (some ⟨.waiting, u, p⟩))
  | deliver {s : State κ α} {i : ℕ} {u : α} {rest : List α} : s.task (.link i) = none →
      (s.wire i).requests = u :: rest →
      Step last s ((s.setWire i ⟨rest, (s.wire i).replies⟩).setTask (.link i)
        (some ⟨.started, u, 0⟩))
  | receive {s : State κ α} {w : Worker κ} {u : α} {p n : ℕ} : s.task w = some ⟨.waiting, u, p⟩ →
      (s.wire w.node).replies = n + 1 →
      Step last s ((s.setWire w.node ⟨(s.wire w.node).requests, n⟩).setTask w
        (some ⟨.done, u, p⟩))
  | unlock {s : State κ α} {w : Worker κ} {u : α} {p : ℕ} : s.task w = some ⟨.done, u, p⟩ →
      Step last s (s.setTask w (some ⟨.released, u, p⟩))
  | acknowledge {s : State κ α} {c : κ} {u : α} {p : ℕ} :
      s.task (.client c) = some ⟨.released, u, p⟩ →
      Step last s ({ s with acked := s.acked ++ [(p, u)] }.setTask (.client c) none)
  | reply {s : State κ α} {i : ℕ} {u : α} {p : ℕ} : s.task (.link i) = some ⟨.released, u, p⟩ →
      Step last s
        ((s.setWire i ⟨(s.wire i).requests, (s.wire i).replies + 1⟩).setTask (.link i) none)

/-- Everybody is idle and nothing has been done. -/
structure Start (s : State κ α) : Prop where
  log : ∀ i, s.log i = []
  task : ∀ w, s.task w = none
  wire : ∀ i, s.wire i = ⟨[], 0⟩
  acked : s.acked = []

inductive Reachable [DecidableEq κ] (last : ℕ) : State κ α → Prop where
  | start {s : State κ α} : Start s → Reachable last s
  | step {s s' : State κ α} : Reachable last s → Step last s s' → Reachable last s'

/-! ## In flight -/

/-- What is between two neighbours. -/
inductive InFlight (α : Type) where
  | quiet
  | applied (u : α)
  | requested (u : α)
  | serving (u : α) (stage : Stage)
  | replied (u : α)

namespace InFlight

/-- What the second node does not have yet. -/
def missing : InFlight α → List α
  | quiet => []
  | applied u => [u]
  | requested u => [u]
  | serving u stage => if stage.Early then [u] else []
  | replied _ => []

def wire : InFlight α → Wire α
  | requested u => ⟨[u], 0⟩
  | replied _ => ⟨[], 1⟩
  | _ => ⟨[], 0⟩

/-- The worker of the second node. -/
def serves : InFlight α → Option (Stage × α)
  | serving u stage => some (stage, u)
  | _ => none

/-- The worker of the first node that sends. -/
def sender : InFlight α → Option (Stage × α)
  | quiet => none
  | applied u => some (.applied, u)
  | requested u => some (.waiting, u)
  | serving u _ => some (.waiting, u)
  | replied u => some (.waiting, u)

theorem sender_sends {f : InFlight α} {x : Stage × α} (h : f.sender = some x) : x.1.Sends := by
  cases f <;> cases h <;> trivial

end InFlight

/-- The workers of the first node: who sends does what is in flight, and what is in
    flight is done by somebody. -/
structure Front (s : State κ α) (i : ℕ) (f : InFlight α) : Prop where
  sends : ∀ w t, w.node = i → s.task w = some t → t.stage.Sends →
    f.sender = some (t.stage, t.update)
  sent : ∀ x, f.sender = some x → ∃ w p, w.node = i ∧ s.task w = some ⟨x.1, x.2, p⟩

/-- How the nodes `i` and `i + 1` stand to each other. -/
structure Between (s : State κ α) (i : ℕ) (f : InFlight α) : Prop where
  front : Front s i f
  wire : s.wire i = f.wire
  serves : (s.task (.link i)).map (fun t => (t.stage, t.update)) = f.serves
  log : s.log i = s.log (i + 1) ++ f.missing

/-- An update is at the same position of every log. -/
def Everywhere (last : ℕ) (s : State κ α) (p : ℕ) (u : α) : Prop :=
  ∀ i ≤ last, (s.log i)[p]? = some u

/-! ## One lock holder -/

theorem Stage.Sends.holds {stage : Stage} (h : stage.Sends) : stage.Holds := by
  cases stage with
  | applied => trivial
  | waiting => trivial
  | _ => exact absurd h id

/-- No two workers of a node have its lock. -/
def Unique (s : State κ α) : Prop :=
  ∀ w w' t t', w.node = w'.node → s.task w = some t → s.task w' = some t' →
    t.stage.Holds → t'.stage.Holds → w = w'

section Lock

variable [DecidableEq κ]

/-- A worker that had the lock may keep it, and a worker may take a free one. -/
theorem Unique.setTask {s : State κ α} (h : Unique s) {w : Worker κ} {t : Option (Task α)}
    (hnew : ∀ t', t = some t' → t'.stage.Holds →
      (∃ t₀, s.task w = some t₀ ∧ t₀.stage.Holds) ∨ s.Free w.node) : Unique (s.setTask w t) := by
  have hother : ∀ w' t' t'', w'.node = w.node → w' ≠ w → s.task w' = some t' → t = some t'' →
      t'.stage.Holds → ¬ t''.stage.Holds := by
    intro w' t' t'' hnode hne hw' ht hholds' hholds''
    rcases hnew t'' ht hholds'' with ⟨t₀, ht₀, hholds₀⟩ | hfree
    · exact hne (h w' w t' t₀ hnode hw' ht₀ hholds' hholds₀)
    · exact hfree w' t' hnode hw' hholds'
  intro w₁ w₂ t₁ t₂ hnode h₁ h₂ hholds₁ hholds₂
  by_cases hw₁ : w₁ = w
  · by_cases hw₂ : w₂ = w
    · rw [hw₁, hw₂]
    · subst hw₁
      rw [State.task_setTask_self] at h₁
      rw [State.task_setTask_of_ne _ _ _ hw₂] at h₂
      exact absurd hholds₁ (hother w₂ t₂ t₁ hnode.symm hw₂ h₂ h₁ hholds₂)
  · rw [State.task_setTask_of_ne _ _ _ hw₁] at h₁
    by_cases hw₂ : w₂ = w
    · subst hw₂
      rw [State.task_setTask_self] at h₂
      exact absurd hholds₂ (hother w₁ t₁ t₂ hnode hw₁ h₁ h₂ hholds₁)
    · rw [State.task_setTask_of_ne _ _ _ hw₂] at h₂
      exact h w₁ w₂ t₁ t₂ hnode h₁ h₂ hholds₁ hholds₂

/-- A worker that has not the lock takes nothing. -/
theorem State.Free.setTask {s : State κ α} {i : ℕ} (h : s.Free i) {w : Worker κ}
    {t : Option (Task α)} (hnew : w.node = i → ∀ t', t = some t' → ¬ t'.stage.Holds) :
    (s.setTask w t).Free i := by
  intro w' t' hw' ht'
  rcases State.task_setTask_cases ht' with hsame | ⟨rfl, ht⟩
  · exact h w' t' hw' hsame
  · exact hnew hw' t' ht

/-- When the one that has the lock gives it up, nobody has it. -/
theorem Unique.free_of_release {s : State κ α} (h : Unique s) {w : Worker κ} {t₀ : Task α}
    (ht₀ : s.task w = some t₀) (hholds : t₀.stage.Holds) {t : Option (Task α)}
    (hnew : ∀ t', t = some t' → ¬ t'.stage.Holds) : (s.setTask w t).Free w.node := by
  intro w' t' hw' ht'
  by_cases hww : w' = w
  · subst hww
    rw [State.task_setTask_self] at ht'
    exact hnew t' ht'
  · rw [State.task_setTask_of_ne _ _ _ hww] at ht'
    intro hholds'
    exact hww (h w' w t' t₀ hw' ht' ht₀ hholds' hholds)

theorem Unique.step {last : ℕ} {s s' : State κ α} (h : Unique s) (hstep : Step last s s') :
    Unique s' := by
  cases hstep with
  | start u hidle =>
    refine h.setTask fun t' ht' hholds => ?_
    obtain rfl := Option.some.inj ht'
    exact absurd hholds id
  | lock ht hfree => exact h.setTask fun _ _ _ => .inr hfree
  | apply ht => exact Unique.setTask h fun _ _ _ => .inl ⟨_, ht, trivial⟩
  | skip ht hlast => exact h.setTask fun _ _ _ => .inl ⟨_, ht, trivial⟩
  | send ht hlast => exact Unique.setTask h fun _ _ _ => .inl ⟨_, ht, trivial⟩
  | deliver hidle hrequests =>
    refine Unique.setTask h fun t' ht' hholds => ?_
    obtain rfl := Option.some.inj ht'
    exact absurd hholds id
  | receive ht hreplies => exact Unique.setTask h fun _ _ _ => .inl ⟨_, ht, trivial⟩
  | unlock ht =>
    refine h.setTask fun t' ht' hholds => ?_
    obtain rfl := Option.some.inj ht'
    exact absurd hholds id
  | acknowledge ht => exact Unique.setTask h nofun
  | reply ht => exact Unique.setTask h nofun

end Lock

/-! ## The first node of a pair -/

section Front

variable {s : State κ α} {w : Worker κ} {i : ℕ} {f : InFlight α}

/-- A worker that holds the lock without sending leaves nothing in flight. -/
theorem Front.sender_eq_none (h : Front s i f) (hunique : Unique s) (hw : w.node = i) {t : Task α}
    (ht : s.task w = some t) (hholds : t.stage.Holds) (hsends : ¬ t.stage.Sends) :
    f.sender = none := by
  cases hsender : f.sender with
  | none => rfl
  | some x =>
    obtain ⟨w', p, hw', ht'⟩ := h.sent x hsender
    have hsends' := InFlight.sender_sends hsender
    obtain rfl := hunique w w' t _ (hw.trans hw'.symm) ht ht' hholds hsends'.holds
    obtain rfl := Option.some.inj (ht.symm.trans ht')
    exact absurd hsends' hsends

/-- The lock holder decides what is in flight. -/
theorem Front.of_holder (hunique : Unique s) (hw : w.node = i) {t : Task α}
    (ht : s.task w = some t) (hholds : t.stage.Holds)
    (hsends : t.stage.Sends → f.sender = some (t.stage, t.update))
    (hquiet : ¬ t.stage.Sends → f.sender = none) : Front s i f where
  sends w' t' hw' ht' hsends' := by
    obtain rfl := hunique w w' t t' (hw.trans hw'.symm) ht ht' hholds hsends'.holds
    obtain rfl := Option.some.inj (ht.symm.trans ht')
    exact hsends hsends'
  sent x hx := by
    by_cases hs : t.stage.Sends
    · obtain rfl := Option.some.inj ((hsends hs).symm.trans hx)
      exact ⟨w, t.position, hw, ht⟩
    · rw [hquiet hs] at hx
      cases hx

variable [DecidableEq κ]

/-- A worker that does not send before and after does not matter. -/
theorem Front.setTask (h : Front s i f) {t : Option (Task α)}
    (hold : ∀ t', s.task w = some t' → ¬ t'.stage.Sends)
    (hnew : ∀ t', t = some t' → ¬ t'.stage.Sends) : Front (s.setTask w t) i f where
  sends w' t' hw' ht' hsends' := by
    by_cases hww : w' = w
    · subst hww
      rw [State.task_setTask_self] at ht'
      exact absurd hsends' (hnew t' ht')
    · rw [State.task_setTask_of_ne _ _ _ hww] at ht'
      exact h.sends w' t' hw' ht' hsends'
  sent x hx := by
    obtain ⟨w', p, hw', ht'⟩ := h.sent x hx
    have hww : w' ≠ w := by
      rintro rfl
      exact hold _ ht' (InFlight.sender_sends hx)
    exact ⟨w', p, hw', by rw [State.task_setTask_of_ne _ _ _ hww]; exact ht'⟩

/-- A worker of another node does not matter either. -/
theorem Front.setTask_of_ne (h : Front s i f) (hw : w.node ≠ i) (t : Option (Task α)) :
    Front (s.setTask w t) i f where
  sends w' t' hw' ht' hsends' := by
    have hww : w' ≠ w := by
      rintro rfl
      exact hw hw'
    rw [State.task_setTask_of_ne _ _ _ hww] at ht'
    exact h.sends w' t' hw' ht' hsends'
  sent x hx := by
    obtain ⟨w', p, hw', ht'⟩ := h.sent x hx
    have hww : w' ≠ w := by
      rintro rfl
      exact hw hw'
    exact ⟨w', p, hw', by rw [State.task_setTask_of_ne _ _ _ hww]; exact ht'⟩

end Front

/-! ## Steps between two neighbours -/

namespace Between

variable {s : State κ α} {w : Worker κ} {i : ℕ} {f : InFlight α}

theorem eq_serving (h : Between s i f) {stage : Stage} {u : α} {p : ℕ}
    (ht : s.task (.link i) = some ⟨stage, u, p⟩) : f = .serving u stage := by
  have hserves := h.serves
  rw [ht] at hserves
  cases f <;> simp_all [InFlight.serves]

theorem eq_requested (h : Between s i f) {u : α} {rest : List α}
    (hrequests : (s.wire i).requests = u :: rest) : ∃ u', f = .requested u' := by
  rw [h.wire] at hrequests
  cases f <;> simp_all [InFlight.wire]

theorem eq_replied (h : Between s i f) {n : ℕ} (hreplies : (s.wire i).replies = n + 1) :
    ∃ u', f = .replied u' := by
  rw [h.wire] at hreplies
  cases f <;> simp_all [InFlight.wire]

theorem append_front (h : Between s i f) (j : ℕ) (u : α) : Front (s.append j u) i f :=
  ⟨h.front.sends, h.front.sent⟩

theorem setWire_front (h : Between s i f) (j : ℕ) (wire : Wire α) : Front (s.setWire j wire) i f :=
  ⟨h.front.sends, h.front.sent⟩

theorem setWire_of_ne (h : Between s i f) {j : ℕ} (hj : j ≠ i) (wire : Wire α) :
    Between (s.setWire j wire) i f where
  front := h.setWire_front j wire
  wire := by rw [State.wire_setWire_of_ne _ _ _ hj.symm]; exact h.wire
  serves := h.serves
  log := h.log

theorem append_of_ne (h : Between s i f) {j : ℕ} (hj : j ≠ i) (hj' : j ≠ i + 1) (u : α) :
    Between (s.append j u) i f where
  front := h.append_front j u
  wire := h.wire
  serves := h.serves
  log := by
    rw [State.log_append_of_ne _ _ _ hj.symm, State.log_append_of_ne _ _ _ hj'.symm]
    exact h.log

variable [DecidableEq κ]

/-- A worker moves on without sending, or, at the second node, on the same side of its
    log. -/
theorem setTask (h : Between s i f) {t : Option (Task α)}
    (hfront : w.node = i → (∀ t', s.task w = some t' → ¬ t'.stage.Sends) ∧
      ∀ t', t = some t' → ¬ t'.stage.Sends)
    (hback : w = .link i → ∃ stage stage' u p p', s.task w = some ⟨stage, u, p⟩ ∧
      t = some ⟨stage', u, p'⟩ ∧ (stage.Early ↔ stage'.Early)) :
    ∃ f', Between (s.setTask w t) i f' := by
  by_cases hw : w = .link i
  · obtain ⟨stage, stage', u, p, p', ht, ht', hearly⟩ := hback hw
    have hnode : w.node ≠ i := by
      rw [hw]
      exact Nat.succ_ne_self i
    subst hw
    obtain rfl := h.eq_serving ht
    refine ⟨.serving u stage', ?_, h.wire, by simp [ht', InFlight.serves], ?_⟩
    · have hfront' := h.front.setTask_of_ne hnode t
      exact ⟨hfront'.sends, hfront'.sent⟩
    · have hlog := h.log
      simp only [InFlight.missing, hearly] at hlog
      exact hlog
  · have hserves : (s.setTask w t).task (.link i) = s.task (.link i) :=
      State.task_setTask_of_ne _ _ _ (Ne.symm hw)
    refine ⟨f, ?_, h.wire, by rw [hserves]; exact h.serves, h.log⟩
    by_cases hnode : w.node = i
    · exact h.front.setTask (hfront hnode).1 (hfront hnode).2
    · exact h.front.setTask_of_ne hnode t

end Between

theorem Worker.eq_link_of_node {w : Worker κ} {i : ℕ} (h : w.node = i + 1) : w = .link i := by
  cases w with
  | client c => cases h
  | link j => rw [Nat.succ.inj h]

theorem Worker.link_ne_of_node {w : Worker κ} {i : ℕ} (h : w.node = i) : Worker.link i ≠ w := by
  rintro rfl
  exact Nat.succ_ne_self i h

theorem Worker.node_link_ne (i : ℕ) : (Worker.link i : Worker κ).node ≠ i := Nat.succ_ne_self i

theorem InFlight.eq_quiet_of_sender {f : InFlight α} (h : f.sender = none) : f = .quiet := by
  cases f <;> first | rfl | cases h

theorem InFlight.eq_applied_of_sender {f : InFlight α} {u : α} (h : f.sender = some (.applied, u)) :
    f = .applied u := by
  cases f <;> simp_all [InFlight.sender]

/-! ### Steps of a pair -/

namespace Between

variable [DecidableEq κ] {s : State κ α} {w : Worker κ} {i j p : ℕ} {u : α} {f : InFlight α}

/-- The log that grows is that of the first node, of the second one, or of another. -/
theorem apply (h : Between s i f) (hunique : Unique s) (ht : s.task w = some ⟨.locked, u, p⟩)
    (hunique' : Unique
      ((s.append w.node u).setTask w (some ⟨.applied, u, (s.log w.node).length⟩))) :
    ∃ f', Between ((s.append w.node u).setTask w (some ⟨.applied, u, (s.log w.node).length⟩))
      i f' := by
  by_cases hfront : w.node = i
  · -- whoever has the lock of the first node without sending finds nothing in flight
    have hsender := h.front.sender_eq_none hunique hfront ht trivial id
    obtain rfl := InFlight.eq_quiet_of_sender hsender
    refine ⟨.applied u, ?_, h.wire, ?_, ?_⟩
    · exact .of_holder hunique' hfront (State.task_setTask_self ..) trivial (fun _ => rfl)
        fun hsends => absurd trivial hsends
    · rw [State.task_setTask_of_ne _ _ _ (Worker.link_ne_of_node hfront)]
      exact h.serves
    · have hlog : s.log i = s.log (i + 1) := h.log.trans (List.append_nil _)
      rw [State.log_setTask, hfront, State.log_append_self, State.log_append_of_ne _ _ _ (by omega),
        hlog]
      rfl
  · by_cases hback : w.node = i + 1
    · obtain rfl := Worker.eq_link_of_node hback
      obtain rfl := h.eq_serving ht
      refine ⟨.serving u .applied, ?_, h.wire, by simp [InFlight.serves], ?_⟩
      · have hfront' := (h.append_front (i + 1) u).setTask_of_ne hfront
          (some ⟨.applied, u, (s.log (i + 1)).length⟩)
        exact ⟨hfront'.sends, hfront'.sent⟩
      · have hlog : s.log i = s.log (i + 1) ++ [u] := h.log
        rw [State.log_setTask, hback, State.log_append_of_ne _ _ _ (by omega),
          State.log_append_self, hlog]
        exact (List.append_nil _).symm
    · refine (h.append_of_ne hfront hback u).setTask (fun hw => absurd hw hfront) ?_
      rintro rfl
      exact absurd rfl hback

/-- A worker of another node sends or receives. -/
theorem setWire_setTask (h : Between s i f) (hfront : w.node ≠ i) (wire : Wire α)
    {stage stage' : Stage}
    (ht : s.task w = some ⟨stage, u, p⟩) (hearly : stage.Early ↔ stage'.Early) :
    ∃ f', Between ((s.setWire w.node wire).setTask w (some ⟨stage', u, p⟩)) i f' :=
  (h.setWire_of_ne hfront wire).setTask (fun hw => absurd hw hfront) fun _ =>
    ⟨_, _, _, _, _, ht, rfl, hearly⟩

theorem send (h : Between s i f) (ht : s.task w = some ⟨.applied, u, p⟩) {s' : State κ α}
    (hs' : s' = (s.setWire w.node ⟨(s.wire w.node).requests ++ [u], (s.wire w.node).replies⟩).setTask w
      (some ⟨.waiting, u, p⟩)) (hunique' : Unique s') : ∃ f', Between s' i f' := by
  subst hs'
  by_cases hfront : w.node = i
  · have hsender := h.front.sends w _ hfront ht trivial
    obtain rfl := InFlight.eq_applied_of_sender hsender
    refine ⟨.requested u, ?_, ?_, ?_, h.log⟩
    · exact .of_holder hunique' hfront (State.task_setTask_self ..) trivial (fun _ => rfl)
        fun hsends => absurd trivial hsends
    · rw [State.wire_setTask, hfront, State.wire_setWire_self, h.wire]
      rfl
    · rw [State.task_setTask_of_ne _ _ _ (Worker.link_ne_of_node hfront)]
      exact h.serves
  · exact h.setWire_setTask hfront _ ht Iff.rfl

theorem receive (h : Between s i f) {n : ℕ} (ht : s.task w = some ⟨.waiting, u, p⟩)
    (hreplies : (s.wire w.node).replies = n + 1) {s' : State κ α}
    (hs' : s' = (s.setWire w.node ⟨(s.wire w.node).requests, n⟩).setTask w (some ⟨.done, u, p⟩))
    (hunique' : Unique s') : ∃ f', Between s' i f' := by
  subst hs'
  by_cases hfront : w.node = i
  · obtain ⟨u', rfl⟩ := h.eq_replied (hfront ▸ hreplies)
    refine ⟨.quiet, ?_, ?_, ?_, h.log⟩
    · exact .of_holder hunique' hfront (State.task_setTask_self ..) trivial
        (fun hsends => absurd hsends id) fun _ => rfl
    · rw [hfront, h.wire] at hreplies
      rw [State.wire_setTask, hfront, State.wire_setWire_self, h.wire]
      -- there was one reply
      obtain rfl : n = 0 := by simpa [InFlight.wire] using hreplies
      rfl
    · rw [State.task_setTask_of_ne _ _ _ (Worker.link_ne_of_node hfront)]
      exact h.serves
  · exact h.setWire_setTask hfront _ ht Iff.rfl

theorem deliver (h : Between s i f) {rest : List α} (hidle : s.task (.link j) = none)
    (hrequests : (s.wire j).requests = u :: rest) :
    ∃ f', Between ((s.setWire j ⟨rest, (s.wire j).replies⟩).setTask (.link j)
      (some ⟨.started, u, 0⟩)) i f' := by
  by_cases hj : j = i
  · subst hj
    obtain ⟨u', rfl⟩ := h.eq_requested hrequests
    obtain ⟨rfl, rfl⟩ : u' = u ∧ [] = rest := by
      rw [h.wire] at hrequests
      simpa [InFlight.wire] using hrequests
    refine ⟨.serving u' .started, ?_, ?_, by simp [InFlight.serves], h.log⟩
    · have hfront' := (h.setWire_front j ⟨[], (s.wire j).replies⟩).setTask_of_ne
        (Worker.node_link_ne j) (some ⟨.started, u', 0⟩)
      exact ⟨hfront'.sends, hfront'.sent⟩
    · rw [State.wire_setTask, State.wire_setWire_self, h.wire]
      rfl
  · refine (h.setWire_of_ne hj _).setTask (fun _ => ⟨by simp [hidle], ?_⟩) ?_
    · rintro t' ⟨⟩
      exact id
    · rintro ⟨⟩
      exact absurd rfl hj

theorem reply (h : Between s i f) (ht : s.task (.link j) = some ⟨.released, u, p⟩) :
    ∃ f', Between ((s.setWire j ⟨(s.wire j).requests, (s.wire j).replies + 1⟩).setTask
      (.link j) none) i f' := by
  by_cases hj : j = i
  · subst hj
    obtain rfl := h.eq_serving ht
    refine ⟨.replied u, ?_, ?_, by simp [InFlight.serves], h.log⟩
    · have hfront' :=
        (h.setWire_front j ⟨(s.wire j).requests, (s.wire j).replies + 1⟩).setTask_of_ne
        (Worker.node_link_ne j) none
      exact ⟨hfront'.sends, hfront'.sent⟩
    · rw [State.wire_setTask, State.wire_setWire_self, h.wire]
      rfl
  · refine (h.setWire_of_ne hj _).setTask (fun _ => ⟨?_, nofun⟩) ?_
    · rw [State.task_setWire, ht]
      rintro t' ⟨⟩
      exact id
    · rintro ⟨⟩
      exact absurd rfl hj

/-- A worker that neither sends nor is about to goes on. -/
theorem goOn (h : Between s i f) {stage stage' : Stage} {p' : ℕ}
    (ht : s.task w = some ⟨stage, u, p⟩) (hsends : ¬ stage.Sends) (hsends' : ¬ stage'.Sends)
    (hearly : stage.Early ↔ stage'.Early) :
    ∃ f', Between (s.setTask w (some ⟨stage', u, p'⟩)) i f' := by
  refine h.setTask (fun _ => ⟨?_, ?_⟩) fun _ => ⟨_, _, _, _, _, ht, rfl, hearly⟩
  · rw [ht]
    rintro t' ⟨⟩
    exact hsends
  · rintro t' ⟨⟩
    exact hsends'

end Between

/-- Each step keeps neighbours in one of the five relations. -/
theorem Between.step [DecidableEq κ] {last : ℕ} {s s' : State κ α} (hunique : Unique s)
    (hstep : Step last s s') {i : ℕ} (hi : i < last) {f : InFlight α} (h : Between s i f) :
    ∃ f', Between s' i f' := by
  have hunique' := hunique.step hstep
  cases hstep with
  | @start c u hidle =>
    refine h.setTask (fun _ => ⟨by simp [hidle], ?_⟩) nofun
    rintro t' ⟨⟩
    exact id
  | lock ht hfree => exact h.goOn ht id id Iff.rfl
  | apply ht => exact h.apply hunique ht hunique'
  | skip ht hlast =>
    -- the last node is not the first one of a pair
    refine h.setTask (fun hw => absurd (hw.symm.trans hlast) hi.ne) fun _ =>
      ⟨_, _, _, _, _, ht, rfl, Iff.rfl⟩
  | send ht hlast => exact h.send ht rfl hunique'
  | deliver hidle hrequests => exact h.deliver hidle hrequests
  | receive ht hreplies => exact h.receive ht hreplies rfl hunique'
  | unlock ht => exact h.goOn ht id id Iff.rfl
  | @acknowledge c u p ht =>
    have h' : Between { s with acked := s.acked ++ [(p, u)] } i f :=
      ⟨⟨h.front.sends, h.front.sent⟩, h.wire, h.serves, h.log⟩
    refine h'.setTask (fun _ => ⟨?_, nofun⟩) nofun
    rw [ht]
    rintro t' ⟨⟩
    exact id
  | reply ht => exact h.reply ht

/-! ## Idle nodes -/

theorem Between.eq_quiet_of_idle {s : State κ α} {i : ℕ} {f : InFlight α} (h : Between s i f)
    (hidle : ∀ w, w.node = i → s.task w = none) : f = .quiet := by
  cases hsender : f.sender with
  | none => exact InFlight.eq_quiet_of_sender hsender
  | some x =>
    obtain ⟨w, p, hw, ht⟩ := h.front.sent x hsender
    rw [hidle w hw] at ht
    cases ht

/-- Behind an idle node all nodes are idle, and have the same log. -/
theorem idle_behind {last : ℕ} {s : State κ α} (hbetween : ∀ i < last, ∃ f, Between s i f) {i : ℕ}
    (hidle : ∀ w, w.node = i → s.task w = none) (k : ℕ) (hk : i + k ≤ last) :
    s.log (i + k) = s.log i ∧ ∀ w, w.node = i + k → s.task w = none := by
  induction k with
  | zero => exact ⟨rfl, hidle⟩
  | succ k ih =>
    obtain ⟨hlog, hidle⟩ := ih (by omega)
    obtain ⟨f, h⟩ := hbetween (i + k) (by omega)
    obtain rfl := h.eq_quiet_of_idle hidle
    constructor
    · have hnext : s.log (i + k) = s.log (i + k + 1) := h.log.trans (List.append_nil _)
      exact hnext.symm.trans hlog
    · intro w hw
      obtain rfl := Worker.eq_link_of_node hw
      simpa [InFlight.serves] using h.serves

/-! ## Positions -/

theorem Step.log_prefix [DecidableEq κ] {last : ℕ} {s s' : State κ α}
    (hstep : Step last s s') (i : ℕ) :
    s.log i <+: s'.log i := by
  cases hstep with
  | @apply w u p ht =>
    by_cases hi : i = w.node
    · subst hi
      rw [State.log_setTask, State.log_append_self]
      exact List.prefix_append _ _
    · rw [State.log_setTask, State.log_append_of_ne _ _ _ hi]
  | _ => exact List.prefix_rfl

theorem getElem?_of_prefix {l l' : List α} (h : l <+: l') {p : ℕ} {u : α} (hp : l[p]? = some u) :
    l'[p]? = some u := by
  obtain ⟨rest, rfl⟩ := h
  rw [List.getElem?_append_left (List.getElem?_eq_some_iff.1 hp).1, hp]

theorem Everywhere.mono {last : ℕ} {s s' : State κ α} {p : ℕ} {u : α} (h : Everywhere last s p u)
    (hgrows : ∀ i, s.log i <+: s'.log i) : Everywhere last s' p u :=
  fun i hi => getElem?_of_prefix (hgrows i) (h i hi)

/-- What a client has achieved: its update is in the log, and at the end in all logs. -/
structure Achieved (last : ℕ) (s : State κ α) (t : Task α) : Prop where
  logged : ¬ t.stage.Early → (s.log 0)[t.position]? = some t.update
  finished : t.stage = .done ∨ t.stage = .released → Everywhere last s t.position t.update

theorem Achieved.mono {last : ℕ} {s s' : State κ α} {t : Task α} (h : Achieved last s t)
    (hgrows : ∀ i, s.log i <+: s'.log i) : Achieved last s' t where
  logged hstage := getElem?_of_prefix (hgrows 0) (h.logged hstage)
  finished hstage := (h.finished hstage).mono hgrows

/-! ## The invariant -/

structure Invariant (last : ℕ) (s : State κ α) : Prop where
  unique : Unique s
  between : ∀ i < last, ∃ f, Between s i f
  clients : ∀ c t, s.task (.client c) = some t → Achieved last s t
  acked : ∀ p u, (p, u) ∈ s.acked → Everywhere last s p u

namespace Invariant

variable {last : ℕ} {s s' : State κ α}

theorem start (h : Start s) : Invariant last s where
  unique w w' t t' _ ht := by
    rw [h.task] at ht
    cases ht
  between i _ := by
    refine ⟨.quiet, ⟨fun w t _ ht => ?_, nofun⟩, h.wire i, by rw [h.task]; rfl, by simp [h.log,
      InFlight.missing]⟩
    rw [h.task] at ht
    cases ht
  clients c t ht := by
    rw [h.task] at ht
    cases ht
  acked p u hmem := by
    rw [h.acked] at hmem
    cases hmem

/-- A reply to a client comes when all nodes have the same log. -/
theorem everywhere_of_reply (h : Invariant last s) {p n : ℕ} {u : α}
    (hlogged : (s.log 0)[p]? = some u) (hreplies : (s.wire 0).replies = n + 1) :
    Everywhere last s p u := by
  intro i hi
  cases i with
  | zero => exact hlogged
  | succ i =>
    obtain ⟨f, hbetween⟩ := h.between 0 (by omega)
    obtain ⟨u', rfl⟩ := hbetween.eq_replied hreplies
    have hidle : ∀ w : Worker κ, w.node = 1 → s.task w = none := by
      intro w hw
      obtain rfl := Worker.eq_link_of_node hw
      simpa [InFlight.serves] using hbetween.serves
    have hfirst : s.log 0 = s.log 1 := hbetween.log.trans (List.append_nil _)
    have hlast := (idle_behind h.between hidle i (by omega)).1
    rw [Nat.add_comm i 1, hlast, ← hfirst]
    exact hlogged

variable [DecidableEq κ]

/-- What a client has achieved after a step, its own or that of another. -/
theorem achieved_step (h : Invariant last s) (hstep : Step last s s') (c : κ) (t : Task α)
    (ht : s'.task (.client c) = some t) : Achieved last s' t := by
  -- a step of another leaves what the client has achieved, since logs only grow
  have hother : s.task (.client c) = some t → Achieved last s' t :=
    fun ht => (h.clients c t ht).mono hstep.log_prefix
  cases hstep with
  | start u hidle =>
    rcases State.task_setTask_cases ht with hsame | ⟨-, ⟨⟩⟩
    · exact hother hsame
    · exact ⟨fun hearly => absurd trivial hearly, nofun⟩
  | lock hw hfree =>
    rcases State.task_setTask_cases ht with hsame | ⟨rfl, ⟨⟩⟩
    · exact hother hsame
    · exact ⟨fun hearly => absurd trivial hearly, nofun⟩
  | @apply w u p hw =>
    rcases State.task_setTask_cases ht with hsame | ⟨rfl, ⟨⟩⟩
    · exact hother hsame
    · refine ⟨fun _ => ?_, nofun⟩
      simp [Worker.node]
  | skip hw hlast =>
    rcases State.task_setTask_cases ht with hsame | ⟨rfl, ⟨⟩⟩
    · exact hother hsame
    · have hlogged := (h.clients c _ hw).logged id
      refine ⟨fun _ => hlogged, fun _ i hi => ?_⟩
      -- the client is at the only node
      obtain rfl : i = 0 := Nat.le_zero.1 (hi.trans hlast.ge)
      exact hlogged
  | send hw hlast =>
    rcases State.task_setTask_cases ht with hsame | ⟨rfl, ⟨⟩⟩
    · exact hother hsame
    · exact ⟨fun _ => (h.clients c _ hw).logged id, nofun⟩
  | deliver hidle hrequests =>
    rcases State.task_setTask_cases ht with hsame | ⟨⟨⟩, -⟩
    exact hother hsame
  | receive hw hreplies =>
    rcases State.task_setTask_cases ht with hsame | ⟨rfl, ⟨⟩⟩
    · exact hother hsame
    · have hlogged := (h.clients c _ hw).logged id
      exact ⟨fun _ => hlogged, fun _ => h.everywhere_of_reply hlogged hreplies⟩
  | unlock hw =>
    rcases State.task_setTask_cases ht with hsame | ⟨rfl, ⟨⟩⟩
    · exact hother hsame
    · have hdone := h.clients c _ hw
      exact ⟨fun _ => hdone.logged id, fun _ => hdone.finished (.inl rfl)⟩
  | acknowledge hw =>
    rcases State.task_setTask_cases ht with hsame | ⟨-, ⟨⟩⟩
    exact hother hsame
  | reply hw =>
    rcases State.task_setTask_cases ht with hsame | ⟨-, ⟨⟩⟩
    exact hother hsame

theorem acked_step (h : Invariant last s) (hstep : Step last s s') {p : ℕ} {u : α}
    (hmem : (p, u) ∈ s'.acked) : Everywhere last s' p u := by
  have hold : (p, u) ∈ s.acked → Everywhere last s' p u :=
    fun hmem => (h.acked p u hmem).mono hstep.log_prefix
  cases hstep with
  | acknowledge hw =>
    rcases List.mem_append.1 hmem with hmem | hmem
    · exact hold hmem
    · obtain ⟨rfl, rfl⟩ := Prod.mk.inj (List.mem_singleton.1 hmem)
      exact (h.clients _ _ hw).finished (.inr rfl)
  | _ => exact hold hmem

theorem step (h : Invariant last s) (hstep : Step last s s') : Invariant last s' where
  unique := h.unique.step hstep
  between i hi := by
    obtain ⟨f, hf⟩ := h.between i hi
    exact hf.step h.unique hstep hi
  clients := h.achieved_step hstep
  acked _ _ := h.acked_step hstep

end Invariant

theorem Reachable.invariant [DecidableEq κ] {last : ℕ} {s : State κ α} (h : Reachable last s) :
    Invariant last s := by
  induction h with
  | start hs => exact .start hs
  | step _ hstep ih => exact ih.step hstep

/-! ## Results -/

section Results

variable [DecidableEq κ] {last : ℕ} {s : State κ α} (h : Reachable last s)

include h

/-- A node has a prefix of the log before it, which misses one update at most. -/
theorem Reachable.log_prefix {i : ℕ} (hi : i < last) :
    s.log (i + 1) <+: s.log i ∧ (s.log i).length ≤ (s.log (i + 1)).length + 1 := by
  obtain ⟨f, hf⟩ := h.invariant.between i hi
  rw [hf.log]
  refine ⟨List.prefix_append _ _, ?_⟩
  rw [List.length_append]
  have hmissing : f.missing.length ≤ 1 := by
    cases f with
    | serving u stage =>
      rw [InFlight.missing]
      split_ifs <;> simp
    | _ => simp [InFlight.missing]
  omega

/-- Without clients at work all logs are the same. -/
theorem Reachable.log_eq_of_idle (hidle : ∀ c, s.task (.client c) = none) {i : ℕ} (hi : i ≤ last) :
    s.log i = s.log 0 := by
  have hfirst : ∀ w : Worker κ, w.node = 0 → s.task w = none := by
    intro w hw
    cases w with
    | client c => exact hidle c
    | link j => cases hw
  have hlog := (idle_behind h.invariant.between hfirst i (by omega)).1
  rwa [Nat.zero_add] at hlog

/-- What has been acknowledged is in every log, where it was put first. -/
theorem Reachable.everywhere_of_acked {p : ℕ} {u : α} (hmem : (p, u) ∈ s.acked) :
    Everywhere last s p u :=
  h.invariant.acked p u hmem

end Results

end Relay

end Base
