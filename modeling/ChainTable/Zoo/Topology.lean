-- SUMMARY: When the successor pointers of all servers form one chain from the client's head to its tail.
import ChainTable.Zoo.Callbacks

open Base

/-!
# The topology of the chain

The children of the root node are the registered servers. ZooKeeper lists them in
any order, and a different one to everybody. The servers scan their listings for a
successor, the clients scan theirs for a head and a tail, and together these scans
are meant to describe one chain.
-/

namespace ChainTable

/-- The paths of the registered nodes. -/
def nodePaths (members : Finset CString) : Finset CString := members.image concatZpath

/-- A list that `zoo_wget_children` can return for a set of nodes. -/
structure Lists (members : Finset CString) (children : List CString) : Prop where
  nodup : children.Nodup
  mem : ∀ node, node ∈ children ↔ node ∈ members

theorem Lists.mem_paths {members : Finset CString} {children : List CString}
    (h : Lists members children) (path : CString) :
    path ∈ childrenAbsZpaths children ↔ path ∈ nodePaths members := by
  simp only [childrenAbsZpaths, nodePaths, List.mem_map, Finset.mem_image, h.mem]

theorem Lists.ne_nil {members : Finset CString} {children : List CString}
    (h : Lists members children) (hne : members.Nonempty) : children ≠ [] := by
  obtain ⟨node, hnode⟩ := hne
  exact List.ne_nil_of_mem ((h.mem node).2 hnode)

theorem empty_notMem_nodePaths (members : Finset CString) : .empty ∉ nodePaths members := by
  intro h
  obtain ⟨node, -, heq⟩ := Finset.mem_image.1 h
  exact concatZpath_ne_empty node heq

theorem card_nodePaths (members : Finset CString) : (nodePaths members).card = members.card :=
  Finset.card_image_of_injective _ concatZpath_injective

/-- A server has processed a child event with this list, and `zoo_get` and
    `rtable_connect` have succeeded in it. -/
def Processed (children : List CString) (s s' : Successor) : Prop :=
  ∃ address, serverWatchChildren s ⟨some children, some address, true⟩ = .ok s'

theorem Processed.next {children : List CString} {s s' : Successor}
    (h : Processed children s s') :
    s'.nextServerNodePath =
      firstAbove .empty s.thisNodePath (childrenAbsZpaths children) := by
  obtain ⟨address, h⟩ := h
  rw [← scanSuccessor_eq]
  exact (serverWatchChildren_some rfl h).2.1 (by simp)

/-- Following the pointers from the head visits all paths in order and ends at the
    tail. The walk may take one step more than there are servers, so it has come to
    its end. -/
structure SingleChain (members : Finset CString) (next : CString → CString)
    (head tail : CString) : Prop where
  visits : follow .empty next (members.card + 1) head = (nodePaths members).sort
  last : ((nodePaths members).sort).getLast? = some tail
  stops : next tail = .empty

/-- Everybody has processed the membership `members`: every server, of which
    `listing` says in which order it was told the children, and the client. -/
structure Settled (members : Finset CString) (listing : CString → List CString)
    (servers : CString → Successor) (client : ClientChain) : Prop where
  nonempty : members.Nonempty
  lists : ∀ p ∈ nodePaths members, Lists members (listing p)
  server : ∀ p ∈ nodePaths members, ∃ s, s.thisNodePath = p ∧ Processed (listing p) s (servers p)
  client : ∃ c event children, Lists members children ∧ event.children = some children ∧
    clientWatchChildren c event = .ok client

/-- The pointers form a single chain exactly when every server is listed its
    nearest greater node before all other greater ones. -/
theorem singleChain_iff {members : Finset CString} {listing : CString → List CString}
    {servers : CString → Successor} {client : ClientChain}
    (h : Settled members listing servers client) :
    SingleChain members (fun p => (servers p).nextServerNodePath) client.headPath
        client.tailPath ↔
      ∀ p ∈ nodePaths members, LeastAboveFirst p (childrenAbsZpaths (listing p)) := by
  obtain ⟨c, event, clientListing, hclientListing, hevent, hclient⟩ := h.client
  have hsorted : ((nodePaths members).sort).Pairwise (· < ·) :=
    (Finset.sortedLT_sort _).pairwise
  have hmem : ∀ p, p ∈ (nodePaths members).sort ↔ p ∈ nodePaths members :=
    fun p => Finset.mem_sort _
  have hlength : members.card + 1 = ((nodePaths members).sort).length + 1 := by
    rw [Finset.length_sort, card_nodePaths]
  -- the client's head and tail are the ends of the sorted list
  have hset : {p | p ∈ childrenAbsZpaths clientListing} =
      {p | p ∈ (nodePaths members).sort} := by
    ext p
    exact (hclientListing.mem_paths p).trans (hmem p).symm
  obtain ⟨hheadPath, htailPath⟩ := clientWatchChildren_some hevent hclient
  have hleast := scanHead_children (hclientListing.ne_nil h.nonempty)
  have hgreatest := scanTail_children (hclientListing.ne_nil h.nonempty)
  rw [← hheadPath, hset] at hleast
  rw [← htailPath, hset] at hgreatest
  have hhead := headD_of_isLeast .empty hsorted hleast
  -- each pointer is the first greater path in the server's own listing
  have hnext : ∀ p ∈ nodePaths members, (servers p).nextServerNodePath =
      firstAbove .empty p (childrenAbsZpaths (listing p)) := by
    intro p hp
    obtain ⟨before, hpath, hprocessed⟩ := h.server p hp
    rw [hprocessed.next, hpath]
  have hwalk := follow_eq_iff (fun p => (servers p).nextServerNodePath) hsorted
    (fun hempty => empty_notMem_nodePaths members ((hmem _).1 hempty))
  rw [hhead, ← hlength] at hwalk
  have hall : (∀ p ∈ (nodePaths members).sort, (servers p).nextServerNodePath =
        firstAbove .empty p ((nodePaths members).sort)) ↔
      ∀ p ∈ nodePaths members, LeastAboveFirst p (childrenAbsZpaths (listing p)) := by
    simp only [hmem]
    refine forall₂_congr fun p hp => ?_
    rw [hnext p hp]
    exact firstAbove_eq_iff (fun b => ((h.lists p hp).mem_paths b).trans (hmem b).symm) hsorted
  rw [← hall, ← hwalk]
  refine ⟨fun hchain => hchain.visits, fun hvisits =>
    ⟨hvisits, getLast?_of_isGreatest hsorted hgreatest, ?_⟩⟩
  have htail : client.tailPath ∈ nodePaths members := (hmem _).1 hgreatest.1
  rw [hnext _ htail]
  refine firstAbove_eq_stop fun b hb => not_lt.2 (hgreatest.2 ?_)
  exact (hmem b).2 (((h.lists _ htail).mem_paths b).1 hb)

/-! ## Three servers -/

instance neZero_ten : NeZero (10 : ℕ) := ⟨Nat.succ_ne_zero 9⟩

/-- The node that ZooKeeper creates for a sequence number of one digit. -/
def node (digit : Fin 10) : CString :=
  ⟨[0x6e, 0x6f, 0x64, 0x65, 48, 48, 48, 48, 48, 48, 48, 48, 48, 48 + .ofNat digit], by
    revert digit
    decide⟩

/-- A server right after its first event with the given list. -/
def started (children : List CString) (path : CString) : Successor :=
  let successor := scanSuccessor path (childrenAbsZpaths children)
  ⟨path, successor, if successor = .empty then none else rtableConnect .empty true⟩

/-- A client right after its first event with the given list. -/
def startedClient (children : List CString) : ClientChain where
  headPath := scanHead .empty (childrenAbsZpaths children)
  tailPath := scanTail .empty (childrenAbsZpaths children)
  rtableHead := rtableConnect .empty true
  rtableTail := rtableConnect .empty true

theorem processed_started (children : List CString) (path : CString) :
    Processed children ⟨path, .empty, none⟩ (started children path) := by
  refine ⟨.empty, ?_⟩
  simp only [serverWatchChildren, started, CString.strcmp_self, CString.strcmp_eq_zero_iff]
  by_cases h : scanSuccessor path (childrenAbsZpaths children) = .empty
  · simp [h]
  · simp [h, CString.strcmp_eq_zero_iff]

theorem switchServer_started {path : CString} (h : path ≠ .empty) :
    switchServer .empty none path .empty true = .ok (path, rtableConnect .empty true) := by
  have hne : CString.strcmp .empty path ≠ 0 := fun hzero =>
    h (CString.strcmp_eq_zero_iff.1 hzero).symm
  rw [switchServer, if_pos hne]
  rfl

theorem settled_started {members : Finset CString} (hne : members.Nonempty)
    {listing : CString → List CString} (hlists : ∀ p, Lists members (listing p))
    {children : List CString} (hchildren : Lists members children) :
    Settled members listing (fun p => started (listing p) p) (startedClient children) where
  nonempty := hne
  lists p _ := hlists p
  server p _ := ⟨_, rfl, processed_started (listing p) p⟩
  client := by
    refine ⟨⟨.empty, .empty, none, none⟩, ⟨some children, .empty, true, .empty, true⟩, children,
      hchildren, rfl, ?_⟩
    have hhead := (scanHead_children (hchildren.ne_nil hne)).1
    have htail := (scanTail_children (hchildren.ne_nil hne)).1
    simp only [clientWatchChildren, switchServer_started (mem_childrenAbsZpaths_ne_empty hhead),
      switchServer_started (mem_childrenAbsZpaths_ne_empty htail)]
    rfl

/-- Three servers that are all told the children in order. -/
theorem singleChain_three :
    SingleChain {node 0, node 1, node 2}
      (fun p => (started [node 0, node 1, node 2] p).nextServerNodePath)
      (startedClient [node 0, node 1, node 2]).headPath
      (startedClient [node 0, node 1, node 2]).tailPath := by
  have hlists : Lists {node 0, node 1, node 2} [node 0, node 1, node 2] :=
    ⟨by decide, fun _ => by simp⟩
  refine (singleChain_iff (settled_started ⟨node 0, by simp⟩ (fun _ => hlists) hlists)).2 ?_
  decide

/-- Three servers that are all told the children in reverse order: the first one
    forwards to the last one and skips the one in between. -/
theorem not_singleChain_three :
    ∃ (members : Finset CString) (listing : CString → List CString)
      (servers : CString → Successor) (client : ClientChain),
      Settled members listing servers client ∧
        ¬ SingleChain members (fun p => (servers p).nextServerNodePath) client.headPath
          client.tailPath := by
  have hlists : Lists {node 0, node 1, node 2} [node 2, node 1, node 0] :=
    ⟨by decide, fun _ => by simp; tauto⟩
  refine ⟨_, _, _, _, settled_started ⟨node 0, by simp⟩ (fun _ => hlists) hlists, fun h => ?_⟩
  have hlength := congrArg List.length h.visits
  rw [Finset.length_sort, card_nodePaths] at hlength
  revert hlength
  decide

end ChainTable
