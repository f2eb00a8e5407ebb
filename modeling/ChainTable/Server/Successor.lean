-- SUMMARY: The link of a server to its successor over its child events: whether next_server_rtable belongs to next_server_node_path.
import ChainTable.Base.Transition
import ChainTable.Server.Alone
import ChainTable.Zoo.Topology

open Base

/-!
# The link to the successor

`server_watch_children` keeps the path of the successor and the connection to it, and
`invoke` forwards over the connection whenever the path is not empty. A node keeps the
address that its server registered it with.
-/

namespace ChainTable

open Calls

/-! ## Links -/

variable (registered : CString → CString) (s : Successor)

/-- There is no next server, or a connection to the one that is registered at the path. -/
def Successor.Linked : Prop :=
  s.nextServerNodePath = .empty ∨ ∃ rtable, s.nextServerRtable = some rtable ∧
    rtable.released = false ∧ rtable.address = registered s.nextServerNodePath

/-- What the callback takes for the next server. -/
def Successor.scan (children : List CString) : CString :=
  scanSuccessor s.thisNodePath (childrenAbsZpaths children)

/-- `zoo_get` returns what is registered. -/
def ChildEvent.Truthful (event : ChildEvent) : Prop :=
  ∀ children, event.children = some children → ∀ address, event.address = some address →
    address = registered (s.scan children)

instance (event : ChildEvent) : Decidable (event.Truthful registered s) :=
  inferInstanceAs (Decidable (∀ children, event.children = some children →
    ∀ address, event.address = some address → address = registered (s.scan children)))

/-- The event lists no new successor, or `zoo_get` fails while there is no old one, or
    both calls for the new one succeed. -/
def ChildEvent.Harmless (event : ChildEvent) : Prop :=
  ∀ children, event.children = some children →
    s.scan children = s.nextServerNodePath ∨ s.scan children = .empty ∨
      event.address = none ∧ s.nextServerNodePath = .empty ∨
      event.address ≠ none ∧ event.connects = true

instance (event : ChildEvent) : Decidable (event.Harmless s) :=
  inferInstanceAs (Decidable (∀ children, event.children = some children →
    s.scan children = s.nextServerNodePath ∨ s.scan children = .empty ∨
      event.address = none ∧ s.nextServerNodePath = .empty ∨
      event.address ≠ none ∧ event.connects = true))

/-- The connection that `forwardUpdate` hands to a stub, if it forwards. -/
def Successor.forwardsOver : Option (Option Rtable) :=
  if CString.strcmp s.nextServerNodePath .empty ≠ 0 then some s.nextServerRtable else none

/-- An update is forwarded over that connection. -/
theorem forwardUpdate_over {τ : Type} (clock : ℕ → Timeval) (link : Link τ) {state : ServerState}
    (hpath : state.nextServerNodePath = s.nextServerNodePath)
    (hrtable : state.nextServerRtable = s.nextServerRtable)
    (stub : Option Rtable → Prog Calls Int) (t : τ) :
    (forwardUpdate stub).run (alone clock link) (state, t) =
      match s.forwardsOver with
      | some rtable =>
        (stub rtable).run (alone clock link) (state, t) >>= fun r => .ok ((), r.2)
      | none => .ok ((), (state, t)) := by
  rw [forwardUpdate, run_call]
  simp only [alone, C.ok_bind, hpath, Successor.forwardsOver]
  split_ifs with hempty
  · rw [run_call]
    simp only [alone, C.ok_bind, hrtable]
    rw [Prog.run_bind]
    rfl
  · rfl

variable {registered s}

theorem Successor.forwardsOver_of_linked (h : s.Linked registered) {rtable : Option Rtable}
    (hover : s.forwardsOver = some rtable) :
    ∃ live, rtable = some live ∧ live.released = false := by
  obtain ⟨hpath, hrtable⟩ := Option.ite_none_right_eq_some.1 hover
  rcases h with hempty | ⟨live, hlive, hreleased, -⟩
  · exact absurd (CString.strcmp_eq_zero_iff.2 hempty) hpath
  · exact ⟨live, (Option.some.inj hrtable).symm.trans hlive, hreleased⟩

/-! ## One event -/

section Event

variable {event : ChildEvent} {children : List CString}

theorem serverWatchChildren_same (hchildren : event.children = some children)
    (hsame : s.scan children = s.nextServerNodePath) : serverWatchChildren s event = .ok s := by
  rw [Successor.scan] at hsame
  simp only [serverWatchChildren, hchildren, hsame, ne_eq, CString.strcmp_eq_zero_iff]
  rw [if_neg (fun h => h.2 h.1), if_neg (not_not.2 trivial)]
  rfl

theorem serverWatchChildren_lost (hchildren : event.children = some children)
    (hlost : s.scan children = .empty) (hnext : s.nextServerNodePath ≠ .empty) :
    serverWatchChildren s event = rtableDisconnect s.nextServerRtable >>= fun rtable =>
      .ok { s with nextServerRtable := rtable, nextServerNodePath := .empty } := by
  rw [Successor.scan] at hlost
  simp only [serverWatchChildren, hchildren, hlost, ne_eq, CString.strcmp_eq_zero_iff]
  rw [if_pos ⟨trivial, hnext⟩]
  rfl

theorem serverWatchChildren_new (hchildren : event.children = some children)
    (hnew : s.scan children ≠ s.nextServerNodePath) (hfound : s.scan children ≠ .empty) :
    serverWatchChildren s event =
      (if s.nextServerNodePath = .empty then .ok s.nextServerRtable
        else rtableDisconnect s.nextServerRtable) >>= fun rtable =>
      match event.address with
      | none => .ok { s with nextServerRtable := rtable }
      | some address => .ok { s with
          nextServerRtable := rtableConnect address event.connects
          nextServerNodePath := s.scan children } := by
  rw [Successor.scan] at hnew hfound
  simp only [serverWatchChildren, hchildren, ne_eq, CString.strcmp_eq_zero_iff]
  rw [if_neg (fun h => hfound h.1), if_pos hnew]
  rfl

/-- The connection to a new successor. -/
theorem linked_connect (hchildren : event.children = some children)
    (htruthful : event.Truthful registered s) (hfound : s.scan children ≠ .empty)
    {address : CString} (haddress : event.address = some address) :
    ({ s with
      nextServerRtable := rtableConnect address event.connects
      nextServerNodePath := s.scan children } : Successor).Linked registered ↔
      event.connects = true := by
  have hregistered := htruthful children hchildren address haddress
  cases hconnects : event.connects with
  | false =>
    refine ⟨?_, nofun⟩
    rintro (hempty | ⟨_, hrtable, -⟩)
    · exact absurd hempty hfound
    · cases hrtable
  | true =>
    refine ⟨fun _ => rfl, fun _ => ?_⟩
    exact .inr ⟨⟨address, false⟩, rfl, rfl, hregistered⟩

/-- The connection to the old successor is released and stays with its path. -/
theorem not_linked_released {rtable : Rtable} (hnext : s.nextServerNodePath ≠ .empty) :
    ¬ ({ s with nextServerRtable := some { rtable with released := true } } : Successor).Linked
      registered := by
  rintro (hempty | ⟨_, hrtable, hreleased, -⟩)
  · exact hnext hempty
  · obtain rfl := Option.some.inj hrtable
    cases hreleased

theorem ChildEvent.harmless_iff (hchildren : event.children = some children) :
    event.Harmless s ↔
      s.scan children = s.nextServerNodePath ∨ s.scan children = .empty ∨
        event.address = none ∧ s.nextServerNodePath = .empty ∨
        event.address ≠ none ∧ event.connects = true := by
  constructor
  · intro hall
    exact hall children hchildren
  · intro hone children' hsome
    rw [hchildren] at hsome
    obtain rfl := Option.some.inj hsome
    exact hone

/-- The callback keeps a sound link in the harmless events and in no other, and it never
    faults on one. -/
theorem serverWatchChildren_linked (h : s.Linked registered)
    (htruthful : event.Truthful registered s) :
    ∃ s', serverWatchChildren s event = .ok s' ∧ (s'.Linked registered ↔ event.Harmless s) := by
  cases hchildren : event.children with
  | none =>
    refine ⟨s, serverWatchChildren_none hchildren, iff_of_true h ?_⟩
    intro children hsome
    rw [hchildren] at hsome
    cases hsome
  | some children =>
    rw [ChildEvent.harmless_iff hchildren]
    by_cases hsame : s.scan children = s.nextServerNodePath
    · exact ⟨s, serverWatchChildren_same hchildren hsame, iff_of_true h (.inl hsame)⟩
    -- the successor has gone, and its connection is released
    by_cases hlost : s.scan children = .empty
    · have hnext : s.nextServerNodePath ≠ .empty := by
        intro hempty
        exact hsame (hlost.trans hempty.symm)
      obtain ⟨rtable, hrtable, hlive, -⟩ := h.resolve_left hnext
      refine ⟨{ s with
        nextServerRtable := some { rtable with released := true }
        nextServerNodePath := .empty }, ?_, iff_of_true (.inl rfl) (.inr (.inl hlost))⟩
      rw [serverWatchChildren_lost hchildren hlost hnext, hrtable, rtableDisconnect_live hlive]
      rfl
    -- there is a new successor, and an old connection is released before its address is known
    have hevent := serverWatchChildren_new hchildren hsame hlost
    by_cases hnext : s.nextServerNodePath = .empty
    · rw [if_pos hnext] at hevent
      cases haddress : event.address with
      | none =>
        rw [haddress] at hevent
        exact ⟨_, hevent, iff_of_true (.inl hnext) (.inr (.inr (.inl ⟨rfl, hnext⟩)))⟩
      | some address =>
        rw [haddress] at hevent
        refine ⟨_, hevent, (linked_connect hchildren htruthful hlost haddress).trans ?_⟩
        simp [hsame, hlost]
    · obtain ⟨rtable, hrtable, hlive, -⟩ := h.resolve_left hnext
      rw [if_neg hnext, hrtable, rtableDisconnect_live hlive] at hevent
      cases haddress : event.address with
      | none =>
        rw [haddress] at hevent
        refine ⟨_, hevent, iff_of_false (not_linked_released hnext) ?_⟩
        simp [hsame, hlost, hnext]
      | some address =>
        rw [haddress] at hevent
        refine ⟨_, hevent, (linked_connect hchildren htruthful hlost haddress).trans ?_⟩
        simp [hsame, hlost]

end Event

/-! ## Runs -/

/-- A server between child events. The rest is history: what its updates were forwarded
    over, and whether the callback has used an `rtable` that it had released. -/
structure SuccessorRun where
  successor : Successor
  forwards : List (Option Rtable)
  faulted : Bool
  deriving DecidableEq

inductive SuccessorStep where
  | event (event : ChildEvent)
  /-- `main` sets `this_node_path`. -/
  | copyPath (path : CString)
  | forward

namespace SuccessorRun

def step (registered : CString → CString) : SuccessorStep → SuccessorRun → Option SuccessorRun
  | .event event, s =>
    if event.Truthful registered s.successor ∧ s.faulted = false then
      match serverWatchChildren s.successor event with
      | .ok successor => some { s with successor := successor }
      | .error _ => some { s with faulted := true }
    else none
  | .copyPath path, s => some { s with successor := { s.successor with thisNodePath := path } }
  | .forward, s => some { s with forwards := s.forwards ++ s.successor.forwardsOver.toList }

/-- No next server yet. -/
structure Start (s : SuccessorRun) : Prop where
  path : s.successor.nextServerNodePath = .empty
  forwards : s.forwards = []
  faulted : s.faulted = false

/-- The link agrees with its path, no `rtable` was disconnected after its release, and no
    update went over one that was missing or released. -/
structure Agrees (registered : CString → CString) (s : SuccessorRun) : Prop where
  linked : s.successor.Linked registered
  once : s.faulted = false
  forwards : ∀ rtable ∈ s.forwards, ∃ live, rtable = some live ∧ live.released = false

/-- Every child event is harmless. -/
def Harmless : SuccessorStep → SuccessorRun → Prop
  | .event event, s => event.Harmless s.successor
  | _, _ => True

instance : (l : SuccessorStep) → (s : SuccessorRun) → Decidable (Harmless l s)
  | .event event, s => inferInstanceAs (Decidable (event.Harmless s.successor))
  | .copyPath _, _ => .isTrue trivial
  | .forward, _ => .isTrue trivial

end SuccessorRun

def successorSystem (registered : CString → CString) : LTS SuccessorRun SuccessorStep where
  init := SuccessorRun.Start
  step := SuccessorRun.step registered

namespace SuccessorRun

variable {registered : CString → CString} {s s' : SuccessorRun} {l : SuccessorStep}

theorem Agrees.step (h : s.Agrees registered) (hok : Harmless l s)
    (hstep : step registered l s = some s') : s'.Agrees registered := by
  cases l with
  | event event =>
    obtain ⟨⟨htruthful, -⟩, hs'⟩ := Option.ite_none_right_eq_some.1 hstep
    obtain ⟨successor, hevent, hlinked⟩ := serverWatchChildren_linked h.linked htruthful
    rw [hevent] at hs'
    obtain rfl := Option.some.inj hs'
    exact ⟨hlinked.2 hok, h.once, h.forwards⟩
  | copyPath path =>
    obtain rfl := Option.some.inj hstep
    exact ⟨h.linked, h.once, h.forwards⟩
  | forward =>
    obtain rfl := Option.some.inj hstep
    refine ⟨h.linked, h.once, fun rtable hmem => ?_⟩
    rcases List.mem_append.1 hmem with hbefore | hnow
    · exact h.forwards rtable hbefore
    · exact Successor.forwardsOver_of_linked h.linked (Option.mem_toList.1 hnow)

/-- The link and its path agree after every run of harmless events. -/
theorem agrees_of_reachable {registered : CString → CString} {s : SuccessorRun}
    (h : (successorSystem registered).ReachableUnder Harmless s) : s.Agrees registered := by
  refine h.invariant (I := Agrees registered) ?_ ?_
  · intro s hstart
    refine ⟨.inl hstart.path, hstart.faulted, ?_⟩
    rw [hstart.forwards]
    nofun
  · intro l s s' hagrees hok hstep
    exact hagrees.step hok hstep

/-! ## Three servers -/

/-- The server of node 0 as it starts. -/
def first : SuccessorRun := ⟨⟨concatZpath (node 0), .empty, some ⟨.empty, false⟩⟩, [], false⟩

theorem first_start : first.Start := ⟨rfl, rfl, rfl⟩

/-- Every server has its node as its address. -/
def hears (children : List CString) (found : Option CString) (connects : Bool) : SuccessorStep :=
  .event ⟨some children, found.map concatZpath, connects⟩

/-- Node 1 appears and goes away again, with node 2 behind it. -/
def succession : List SuccessorStep :=
  [hears [node 0, node 1] (node 1) true, .forward, hears [node 0, node 1, node 2] none false,
    hears [node 0, node 2] (node 2) true, .forward]

theorem agrees_succession :
    ∃ s, (successorSystem id).run succession first = some s ∧
      s.successor.nextServerNodePath = concatZpath (node 2) ∧ s.Agrees id := by
  have hmeets : (successorSystem id).RunMeets Harmless succession first := by decide
  refine ⟨_, rfl, rfl, agrees_of_reachable ?_⟩
  exact LTS.ReachableUnder.run (.init first_start) hmeets rfl

/-- Node 1 is gone and node 2 does not answer yet. The callback releases the connection to
    node 1 and keeps the path; updates go over the released connection, and the next event
    releases it again. -/
theorem not_agrees_unanswered :
    ∃ registered s, (successorSystem registered).Reachable s ∧ s.faulted = true ∧
      some (Rtable.mk (concatZpath (node 1)) true) ∈ s.forwards ∧ ¬ s.Agrees registered := by
  have hrun : ∃ s, (successorSystem id).run
      [hears [node 0, node 1] (node 1) true, hears [node 0, node 2] none true, .forward,
        hears [node 0, node 2] (node 2) true] first = some s ∧ s.faulted = true ∧
      s.forwards = [some (Rtable.mk (concatZpath (node 1)) true)] :=
    ⟨_, rfl, rfl, rfl⟩
  obtain ⟨s, hrun, hfaulted, hforwards⟩ := hrun
  refine ⟨id, s, LTS.reachable_of_run first_start hrun, hfaulted, ?_, ?_⟩
  · rw [hforwards]
    exact List.mem_singleton_self _
  · intro h
    exact absurd (h.once.symm.trans hfaulted) Bool.false_ne_true

end SuccessorRun

end ChainTable
