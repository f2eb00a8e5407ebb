-- SUMMARY: Node paths, the scans over a children list, and the two watch callbacks of server_callbacks.c and client_callbacks.c.
import ChainTable.Base.Chains
import ChainTable.Wire.Message

open Base

/-!
# Watch callbacks

What ZooKeeper and the network answer during one child event is the input of a
callback, and the resources that it keeps between events are its state. Node
paths are compared with `strcmp` throughout, the empty path standing for none.
-/

namespace ChainTable

/-! ## Paths -/

/-- `chain_path` -/
def chainPath : CString := ⟨[0x2f, 0x63, 0x68, 0x61, 0x69, 0x6e], by decide⟩

/-- The separator of two components of a path. -/
def slash : CString := ⟨[0x2f], CString.zero_notMem_slash⟩

def concatZpath (node : CString) : CString :=
  ((CString.empty.append chainPath).append slash).append node

def childrenAbsZpaths (children : List CString) : List CString := children.map concatZpath

theorem concatZpath_injective : Function.Injective concatZpath :=
  CString.append_right_injective _

theorem concatZpath_ne_empty (node : CString) : concatZpath node ≠ .empty := by
  intro h
  have hbytes := congrArg CString.bytes h
  simp [concatZpath, chainPath, slash] at hbytes

theorem empty_lt_concatZpath (node : CString) : CString.empty < concatZpath node :=
  CString.empty_lt_iff.2 (concatZpath_ne_empty node)

theorem mem_childrenAbsZpaths_ne_empty {children : List CString} {path : CString}
    (h : path ∈ childrenAbsZpaths children) : path ≠ .empty := by
  obtain ⟨node, -, rfl⟩ := List.mem_map.1 h
  exact concatZpath_ne_empty node

/-! ## Scans -/

/-- The loop of the server's callback, which stops at the first child greater than
    the server's own path. -/
def scanSuccessor (thisNodePath : CString) : List CString → CString
  | [] => .empty
  | childPath :: rest =>
    if CString.strcmp thisNodePath childPath < 0 then childPath
    else scanSuccessor thisNodePath rest

/-- The loops that look for the head and for the tail: the first child replaces the
    empty path, and every later one a path that compares worse. -/
def scanBest (worse : Int → Prop) [DecidablePred worse] (best : CString) : List CString → CString
  | [] => best
  | childPath :: rest =>
    if CString.strcmp best .empty = 0 then scanBest worse childPath rest
    else if worse (CString.strcmp best childPath) then scanBest worse childPath rest
    else scanBest worse best rest

def scanHead (newHead : CString) (childrenPaths : List CString) : CString :=
  scanBest (· > 0) newHead childrenPaths

def scanTail (newTail : CString) (childrenPaths : List CString) : CString :=
  scanBest (· < 0) newTail childrenPaths

theorem scanSuccessor_eq (thisNodePath : CString) (paths : List CString) :
    scanSuccessor thisNodePath paths = firstAbove .empty thisNodePath paths := by
  induction paths with
  | nil => rfl
  | cons childPath rest ih =>
    rw [scanSuccessor]
    by_cases h : thisNodePath < childPath
    · rw [if_pos (CString.strcmp_neg_iff.2 h), firstAbove_cons_of_lt h]
    · rw [if_neg fun hneg => h (CString.strcmp_neg_iff.1 hneg), firstAbove_cons_of_not_lt h, ih]

/-- What the scan gives is a listed path greater than the server's own. -/
theorem scanSuccessor_spec {thisNodePath : CString} {paths : List CString}
    (h : scanSuccessor thisNodePath paths ≠ .empty) :
    scanSuccessor thisNodePath paths ∈ paths ∧ thisNodePath < scanSuccessor thisNodePath paths := by
  rw [scanSuccessor_eq] at h ⊢
  by_cases hex : ∃ b ∈ paths, thisNodePath < b
  · obtain ⟨b, hb, hlt⟩ := hex
    obtain ⟨hmem, habove, -⟩ := firstAbove_spec .empty hb hlt
    exact ⟨hmem, habove⟩
  · exact absurd (firstAbove_eq_stop fun b hb hlt => hex ⟨b, hb, hlt⟩) h

/-- When `worse` decides a total order, the scan finds a path that no other one
    beats. -/
theorem scanBest_spec {worse : Int → Prop} [DecidablePred worse]
    {r : CString → CString → Prop} [Std.Refl r] [IsTrans CString r] [Std.Total r]
    (hworse : ∀ best p, worse (CString.strcmp best p) ↔ ¬ r best p)
    {best : CString} {paths : List CString} (hbest : best ≠ .empty)
    (hpaths : ∀ p ∈ paths, p ≠ .empty) :
    scanBest worse best paths ∈ best :: paths ∧
      ∀ p ∈ best :: paths, r (scanBest worse best paths) p := by
  induction paths generalizing best with
  | nil => exact ⟨by simp [scanBest], by simpa [scanBest] using refl_of r best⟩
  | cons childPath rest ih =>
    obtain ⟨hchild, hrest⟩ := List.forall_mem_cons.1 hpaths
    rw [scanBest, if_neg fun hzero => hbest (CString.strcmp_eq_zero_iff.1 hzero)]
    by_cases hr : r best childPath
    · rw [if_neg fun hw => (hworse _ _).1 hw hr]
      obtain ⟨hmem, hall⟩ := ih hbest hrest
      obtain ⟨hself, hothers⟩ := List.forall_mem_cons.1 hall
      refine ⟨?_, ?_⟩
      · rcases List.mem_cons.1 hmem with heq | hmem
        · rw [heq]
          exact List.mem_cons_self
        · exact List.mem_cons_of_mem _ (List.mem_cons_of_mem _ hmem)
      · simp only [List.forall_mem_cons]
        exact ⟨hself, trans_of r hself hr, hothers⟩
    · rw [if_pos ((hworse _ _).2 hr)]
      obtain ⟨hmem, hall⟩ := ih hchild hrest
      obtain ⟨hself, hothers⟩ := List.forall_mem_cons.1 hall
      have hr' : r childPath best := (total_of r best childPath).resolve_left hr
      refine ⟨List.mem_cons_of_mem _ hmem, ?_⟩
      simp only [List.forall_mem_cons]
      exact ⟨trans_of r hself hr', hself, hothers⟩

/-- From the empty path on, the first child is taken without a comparison. -/
theorem scanBest_cons (worse : Int → Prop) [DecidablePred worse] (node : CString)
    (rest : List CString) :
    scanBest worse .empty (childrenAbsZpaths (node :: rest)) =
      scanBest worse (concatZpath node) (childrenAbsZpaths rest) := by
  simp [childrenAbsZpaths, scanBest]

/-- The head is the least child, in whatever order they are listed. -/
theorem scanHead_children {children : List CString} (h : children ≠ []) :
    IsLeast {p | p ∈ childrenAbsZpaths children}
      (scanHead .empty (childrenAbsZpaths children)) := by
  cases children with
  | nil => exact absurd rfl h
  | cons node rest =>
    rw [scanHead, scanBest_cons]
    exact scanBest_spec (r := (· ≤ ·)) (fun _ _ => CString.strcmp_pos_iff.trans not_le.symm)
      (concatZpath_ne_empty node) fun _ => mem_childrenAbsZpaths_ne_empty

/-- The tail is the greatest child. -/
theorem scanTail_children {children : List CString} (h : children ≠ []) :
    IsGreatest {p | p ∈ childrenAbsZpaths children}
      (scanTail .empty (childrenAbsZpaths children)) := by
  cases children with
  | nil => exact absurd rfl h
  | cons node rest =>
    rw [scanTail, scanBest_cons]
    exact scanBest_spec (r := (· ≥ ·)) (fun _ _ => CString.strcmp_neg_iff.trans not_le.symm)
      (concatZpath_ne_empty node) fun _ => mem_childrenAbsZpaths_ne_empty

/-! ## The server's callback -/

/-- The resources of a server that name its place in the chain. -/
structure Successor where
  thisNodePath : CString
  nextServerNodePath : CString
  nextServerRtable : Option Rtable
  deriving DecidableEq

/-- What the calls of one child event return: the list of `zoo_wget_children` and
    the data of `zoo_get` unless these fail, and whether `rtable_connect` does. -/
structure ChildEvent where
  children : Option (List CString)
  address : Option CString
  connects : Bool
  deriving DecidableEq

/-- `server_watch_children` -/
def serverWatchChildren (s : Successor) (event : ChildEvent) : C Successor :=
  let isTail := CString.strcmp s.nextServerNodePath .empty = 0
  match event.children with
  | none => .ok s
  | some children =>
    let newSuccessorPath := scanSuccessor s.thisNodePath (childrenAbsZpaths children)
    if CString.strcmp newSuccessorPath .empty = 0 ∧
        CString.strcmp s.nextServerNodePath .empty ≠ 0 then do
      let rtable ← rtableDisconnect s.nextServerRtable
      return { s with nextServerRtable := rtable, nextServerNodePath := .empty }
    else if CString.strcmp newSuccessorPath s.nextServerNodePath ≠ 0 then do
      let rtable ←
        (if isTail then .ok s.nextServerRtable else rtableDisconnect s.nextServerRtable)
      match event.address with
      | none => return { s with nextServerRtable := rtable }
      | some newSuccessorAddr =>
        return { s with
          nextServerRtable := rtableConnect newSuccessorAddr event.connects
          nextServerNodePath := newSuccessorPath }
    else return s

/-- An event whose listing fails changes nothing. -/
theorem serverWatchChildren_none {s : Successor} {event : ChildEvent}
    (h : event.children = none) : serverWatchChildren s event = .ok s := by
  simp only [serverWatchChildren, h]

/-- What an event does to the paths: the server's own stays, and the next one
    becomes what the scan gives. When `zoo_get` fails the next one can only be kept
    or be emptied. -/
theorem serverWatchChildren_some {s s' : Successor} {event : ChildEvent}
    {children : List CString} (hchildren : event.children = some children)
    (h : serverWatchChildren s event = .ok s') :
    s'.thisNodePath = s.thisNodePath ∧
      (event.address ≠ none → s'.nextServerNodePath =
        scanSuccessor s.thisNodePath (childrenAbsZpaths children)) ∧
      (event.address = none →
        s'.nextServerNodePath = s.nextServerNodePath ∨ s'.nextServerNodePath = .empty) := by
  simp only [serverWatchChildren, hchildren] at h
  split at h
  · rename_i hlost
    obtain ⟨rtable, -, h⟩ := C.bind_eq_ok h
    obtain rfl := Except.ok.inj h
    exact ⟨rfl, fun _ => (CString.strcmp_eq_zero_iff.1 hlost.1).symm, fun _ => .inr rfl⟩
  · split at h
    · obtain ⟨rtable, -, h⟩ := C.bind_eq_ok h
      cases haddress : event.address with
      | none =>
        rw [haddress] at h
        obtain rfl := Except.ok.inj h
        exact ⟨rfl, nofun, fun _ => .inl rfl⟩
      | some address =>
        rw [haddress] at h
        obtain rfl := Except.ok.inj h
        exact ⟨rfl, fun _ => rfl, nofun⟩
    · rename_i hsame
      obtain rfl := Except.ok.inj h
      have hscan := CString.strcmp_eq_zero_iff.1 (not_not.1 hsame)
      exact ⟨rfl, fun _ => hscan.symm, fun _ => .inl rfl⟩

theorem thisNodePath_serverWatchChildren {s s' : Successor} {event : ChildEvent}
    (h : serverWatchChildren s event = .ok s') : s'.thisNodePath = s.thisNodePath := by
  cases hchildren : event.children with
  | none =>
    rw [serverWatchChildren_none hchildren] at h
    rw [Except.ok.inj h]
  | some children => exact (serverWatchChildren_some hchildren h).1

/-! ## The client's callback -/

/-- The connections of a client and the paths that they belong to. -/
structure ClientChain where
  headPath : CString
  tailPath : CString
  rtableHead : Option Rtable
  rtableTail : Option Rtable
  deriving DecidableEq

/-- What the calls of one child event return. The result of `zoo_get` is not
    looked at: an address is what its buffer holds afterwards. -/
structure ClientEvent where
  children : Option (List CString)
  headAddress : CString
  headConnects : Bool
  tailAddress : CString
  tailConnects : Bool
  deriving DecidableEq

/-- The end of the client's callback for one of the two servers: a new path means a
    new connection. -/
def switchServer (path : CString) (rtable : Option Rtable) (newPath address : CString)
    (connects : Bool) : C (CString × Option Rtable) :=
  if CString.strcmp path newPath ≠ 0 then do
    let _ ← rtableDisconnect rtable
    return (newPath, rtableConnect address connects)
  else return (path, rtable)

/-- `client_watch_children` -/
def clientWatchChildren (c : ClientChain) (event : ClientEvent) : C ClientChain :=
  match event.children with
  | none => .ok c
  | some children => do
    let childrenPaths := childrenAbsZpaths children
    let newHead := scanHead .empty childrenPaths
    let newTail := scanTail .empty childrenPaths
    let (headPath, rtableHead) ←
      switchServer c.headPath c.rtableHead newHead event.headAddress event.headConnects
    let (tailPath, rtableTail) ←
      switchServer c.tailPath c.rtableTail newTail event.tailAddress event.tailConnects
    return ⟨headPath, tailPath, rtableHead, rtableTail⟩

theorem switchServer_path {path newPath address : CString} {rtable : Option Rtable}
    {connects : Bool} {result : CString × Option Rtable}
    (h : switchServer path rtable newPath address connects = .ok result) : result.1 = newPath := by
  rw [switchServer] at h
  split at h
  · obtain ⟨_, -, h⟩ := C.bind_eq_ok h
    obtain rfl := Except.ok.inj h
    rfl
  · rename_i hsame
    obtain rfl := Except.ok.inj h
    exact CString.strcmp_eq_zero_iff.1 (not_not.1 hsame)

/-- After an event the client's paths are what the scans give. -/
theorem clientWatchChildren_some {c c' : ClientChain} {event : ClientEvent}
    {children : List CString} (hchildren : event.children = some children)
    (h : clientWatchChildren c event = .ok c') :
    c'.headPath = scanHead .empty (childrenAbsZpaths children) ∧
      c'.tailPath = scanTail .empty (childrenAbsZpaths children) := by
  simp only [clientWatchChildren, hchildren] at h
  obtain ⟨head, hhead, h⟩ := C.bind_eq_ok h
  obtain ⟨tail, htail, h⟩ := C.bind_eq_ok h
  obtain rfl := Except.ok.inj h
  exact ⟨switchServer_path hhead, switchServer_path htail⟩

end ChainTable
