-- SUMMARY: The start-up of a server interleaved with its watch callback, and when the pointer to the successor points forward.
import ChainTable.Base.Transition
import ChainTable.Zoo.Topology

open Base

/-!
# Start-up

The main thread of a server lists the children and arms the watch, registers a
node of its own, and copies the path of that node where the callback finds it.
The callback runs on another thread, at any time at which a watch is armed.
-/

namespace ChainTable

/-- How far `main` has come. -/
inductive Phase where
  | starting
  | listed
  | registered
  | running
  | exited
  deriving DecidableEq

/-- What `main` and the callback of one server share. -/
structure Startup where
  phase : Phase
  armed : Bool
  createdNodePath : CString
  successor : Successor
  deriving DecidableEq

/-- The resources as `init_server_resources` leaves them. -/
def Startup.initial : Startup where
  phase := .starting
  armed := false
  createdNodePath := .empty
  successor := ⟨.empty, .empty, some ⟨.empty, false⟩⟩

/-- The steps of a server: the calls of `main` with their outcomes, the copy of the
    created path, and a child event. -/
inductive StartupStep where
  | wgetChildren (ok : Bool)
  | tailAddress (ok : Bool)
  | create (ok : Bool)
  | copyPath
  | event (event : ChildEvent)

namespace Startup

/-- `nodePath` is the path that `zoo_create` gives to the node of this server. -/
def step (nodePath : CString) : StartupStep → Startup → Option Startup
  | .wgetChildren ok, s =>
    if s.phase = .starting then
      -- a failed listing is tried again
      some (if ok then { s with phase := .listed, armed := true } else s)
    else none
  | .tailAddress ok, s =>
    if s.phase = .listed then some (if ok then s else { s with phase := .exited }) else none
  | .create ok, s =>
    if s.phase = .listed then
      some (if ok then { s with phase := .registered, createdNodePath := nodePath }
        else { s with phase := .exited })
    else none
  | .copyPath, s =>
    if s.phase = .registered then
      some { s with
        phase := .running
        successor := { s.successor with thisNodePath := CString.empty.append s.createdNodePath } }
    else none
  | .event event, s =>
    if s.armed ∧ s.phase ≠ .exited then
      match serverWatchChildren s.successor event with
      | .ok successor => some { s with armed := event.children.isSome, successor := successor }
      | .error _ => some { s with phase := .exited }
    else none

/-- A child event that is handled while `this_node_path` is still empty either
    fails, or lists no child, or lists first one behind the node that the server
    gets. -/
def EarlyEventForward (nodePath : CString) (l : StartupStep) (s : Startup) : Prop :=
  ∀ event first rest, l = .event event → s.successor.thisNodePath = .empty →
    event.address ≠ none → event.children = some (first :: rest) →
      nodePath < concatZpath first

theorem earlyEventForward_event {nodePath : CString} {event : ChildEvent} {s : Startup} :
    EarlyEventForward nodePath (.event event) s ↔
      (s.successor.thisNodePath = .empty → event.address ≠ none →
        ∀ children, event.children = some children →
          ∀ first, children.head? = some first → nodePath < concatZpath first) := by
  constructor
  · rintro h hthis haddress children hchildren first hfirst
    cases children with
    | nil => cases hfirst
    | cons head rest =>
      obtain rfl := Option.some.inj hfirst
      exact h event head rest rfl hthis haddress hchildren
  · rintro h _ first rest ⟨⟩ hthis haddress hchildren
    exact h hthis haddress _ hchildren first rfl

instance (nodePath : CString) : (l : StartupStep) → (s : Startup) →
    Decidable (EarlyEventForward nodePath l s)
  | .event _, _ => decidable_of_iff' _ earlyEventForward_event
  | .wgetChildren _, _ => .isTrue nofun
  | .tailAddress _, _ => .isTrue nofun
  | .create _, _ => .isTrue nofun
  | .copyPath, _ => .isTrue nofun

/-- What holds of a server in every phase, as long as its early events point
    forward. -/
structure Forward (nodePath : CString) (s : Startup) : Prop where
  created : s.phase = .registered → s.createdNodePath = nodePath
  own : s.successor.thisNodePath = .empty ∨ s.successor.thisNodePath = nodePath
  running : s.phase = .running → s.successor.thisNodePath = nodePath
  next : s.successor.nextServerNodePath = .empty ∨
    nodePath < s.successor.nextServerNodePath

theorem forward_initial (nodePath : CString) : Forward nodePath .initial :=
  ⟨nofun, .inl rfl, nofun, .inl rfl⟩

theorem scanSuccessor_empty (first : CString) (rest : List CString) :
    scanSuccessor .empty (childrenAbsZpaths (first :: rest)) = concatZpath first :=
  if_pos (CString.strcmp_neg_iff.2 (empty_lt_concatZpath first))

/-- A child event keeps the pointer in front of the server's own node: later on
    because the scan does, early on because the event is a good one. -/
theorem Forward.event {nodePath : CString} {s : Startup} {event : ChildEvent}
    {successor : Successor} (h : Forward nodePath s)
    (hok : EarlyEventForward nodePath (.event event) s)
    (hevent : serverWatchChildren s.successor event = .ok successor) (armed : Bool) :
    Forward nodePath { s with armed := armed, successor := successor } := by
  have hthis := thisNodePath_serverWatchChildren hevent
  refine ⟨h.created, by rw [hthis]; exact h.own, fun hp => by rw [hthis]; exact h.running hp, ?_⟩
  cases hchildren : event.children with
  | none =>
    rw [serverWatchChildren_none hchildren] at hevent
    obtain rfl := Except.ok.inj hevent
    exact h.next
  | some children =>
    obtain ⟨-, hfound, hmissing⟩ := serverWatchChildren_some hchildren hevent
    by_cases haddress : event.address = none
    · rcases hmissing haddress with hnext | hnext
      · simp only [hnext]
        exact h.next
      · exact .inl hnext
    · simp only [hfound haddress]
      by_cases hscan : scanSuccessor s.successor.thisNodePath (childrenAbsZpaths children) = .empty
      · exact .inl hscan
      · right
        rcases h.own with hown | hown
        · cases children with
          | nil => exact absurd rfl hscan
          | cons first rest =>
            rw [hown, scanSuccessor_empty]
            exact hok event first rest rfl hown haddress hchildren
        · have hlt := (scanSuccessor_spec hscan).2
          rw [hown] at hlt ⊢
          exact hlt

theorem Forward.step {nodePath : CString} {l : StartupStep} {s s' : Startup}
    (h : Forward nodePath s) (hok : EarlyEventForward nodePath l s)
    (hstep : Startup.step nodePath l s = some s') : Forward nodePath s' := by
  cases l with
  | wgetChildren ok =>
    obtain ⟨-, hs'⟩ := Option.ite_none_right_eq_some.1 hstep
    obtain rfl := Option.some.inj hs'
    cases ok
    · exact h
    · exact ⟨nofun, h.own, nofun, h.next⟩
  | tailAddress ok =>
    obtain ⟨-, hs'⟩ := Option.ite_none_right_eq_some.1 hstep
    obtain rfl := Option.some.inj hs'
    cases ok
    · exact ⟨nofun, h.own, nofun, h.next⟩
    · exact h
  | create ok =>
    obtain ⟨-, hs'⟩ := Option.ite_none_right_eq_some.1 hstep
    obtain rfl := Option.some.inj hs'
    cases ok
    · exact ⟨nofun, h.own, nofun, h.next⟩
    · exact ⟨fun _ => rfl, h.own, nofun, h.next⟩
  | copyPath =>
    obtain ⟨hphase, hs'⟩ := Option.ite_none_right_eq_some.1 hstep
    obtain rfl := Option.some.inj hs'
    -- the path of a fresh `server` structure is empty when the new one is appended to it
    have hpath : CString.empty.append s.createdNodePath = nodePath := by
      rw [h.created hphase]
      exact CString.ext rfl
    exact ⟨nofun, .inr hpath, fun _ => hpath, h.next⟩
  | event event =>
    obtain ⟨-, hs'⟩ := Option.ite_none_right_eq_some.1 hstep
    cases hevent : serverWatchChildren s.successor event with
    | error f =>
      rw [hevent] at hs'
      obtain rfl := Option.some.inj hs'
      exact ⟨nofun, h.own, nofun, h.next⟩
    | ok successor =>
      rw [hevent] at hs'
      obtain rfl := Option.some.inj hs'
      exact h.event hok hevent _

end Startup

end ChainTable
