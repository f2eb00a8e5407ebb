-- SUMMARY: Which head and which tail the scans of the client and of the server select from a children list, and how the client compares two of them.
import ChainTable.Zoo.Client

open Base

/-!
# Selection

The client looks for the head and for the tail when it starts and again in its callback,
and a server looks for the tail before it joins the chain. All of them are told the children
in an order of their own.
-/

namespace ChainTable

/-! ## The scans -/

/-- `last_node_path` of a server, when the chain has nodes. The buffer starts out empty. -/
def lastNodePath (children : List CString) : Option CString :=
  let childrenPaths := childrenAbsZpaths children
  if childrenPaths.length > 0 then some (scanTail .empty childrenPaths) else none

/-- The connections that the callback can replace are not released. -/
structure ClientChain.Live (c : ClientChain) : Prop where
  head : ∀ rtable, c.rtableHead = some rtable → rtable.released = false
  tail : ∀ rtable, c.rtableTail = some rtable → rtable.released = false

/-- What all scans make of a children list. -/
structure Selects (children : List CString) (head tail : CString) : Prop where
  startUp : ∀ address, (Client.startUp children address).path .head = head ∧
    (Client.startUp children address).path .tail = tail
  callback : ∀ c event c', event.children = some children → clientWatchChildren c event = .ok c' →
    c'.headPath = head ∧ c'.tailPath = tail
  returns : ∀ c event, event.children = some children → c.Live →
    ∃ c', clientWatchChildren c event = .ok c'
  server : lastNodePath children = some tail

theorem switchServer_live {rtable : Option Rtable}
    (hlive : ∀ r, rtable = some r → r.released = false)
    (path newPath address : CString) (connects : Bool) :
    ∃ result, switchServer path rtable newPath address connects = .ok result := by
  rw [switchServer]
  split
  · cases rtable with
    | none => exact ⟨_, rfl⟩
    | some r =>
      rw [rtableDisconnect_live (hlive r rfl)]
      exact ⟨_, rfl⟩
  · exact ⟨_, rfl⟩

theorem ClientChain.Live.watchChildren {c : ClientChain} (h : c.Live) (event : ClientEvent) :
    ∃ c', clientWatchChildren c event = .ok c' := by
  cases hchildren : event.children with
  | none => exact ⟨c, by rw [clientWatchChildren, hchildren]⟩
  | some children =>
    obtain ⟨head, hhead⟩ := switchServer_live h.head c.headPath
      (scanHead .empty (childrenAbsZpaths children)) event.headAddress event.headConnects
    obtain ⟨tail, htail⟩ := switchServer_live h.tail c.tailPath
      (scanTail .empty (childrenAbsZpaths children)) event.tailAddress event.tailConnects
    rw [clientWatchChildren, hchildren]
    simp only [hhead, htail, C.ok_bind]
    exact ⟨_, rfl⟩

theorem selects_scans {children : List CString} (h : children ≠ []) :
    Selects children (scanHead .empty (childrenAbsZpaths children))
      (scanTail .empty (childrenAbsZpaths children)) where
  startUp _ := ⟨rfl, rfl⟩
  callback _ _ _ hchildren hrun := clientWatchChildren_some hchildren hrun
  returns _ event _ hlive := hlive.watchChildren event
  server := by
    have hlength : (childrenAbsZpaths children).length > 0 := by
      rw [childrenAbsZpaths, List.length_map]
      exact List.length_pos_iff.2 h
    rw [lastNodePath]
    exact if_pos hlength

/-- The order of the names and their repetitions do not count. -/
theorem scans_congr {children children' : List CString} (h : children ≠ []) (h' : children' ≠ [])
    (hsame : ∀ name, name ∈ children' ↔ name ∈ children) :
    scanHead .empty (childrenAbsZpaths children') = scanHead .empty (childrenAbsZpaths children) ∧
      scanTail .empty (childrenAbsZpaths children') =
        scanTail .empty (childrenAbsZpaths children) := by
  have hset : {p | p ∈ childrenAbsZpaths children'} = {p | p ∈ childrenAbsZpaths children} := by
    ext path
    change path ∈ childrenAbsZpaths children' ↔ path ∈ childrenAbsZpaths children
    simp only [childrenAbsZpaths, List.mem_map, hsame]
  have hhead := scanHead_children h'
  have htail := scanTail_children h'
  rw [hset] at hhead htail
  exact ⟨hhead.unique (scanHead_children h), htail.unique (scanTail_children h)⟩

/-! ## Sequence numbers -/

/-- `node` -/
def nodeName : CString := ⟨[0x6e, 0x6f, 0x64, 0x65], by decide⟩

/-- The name that ZooKeeper makes of `node` and a sequence number. -/
def sequenceNode (number : ℕ) : CString := nodeName.append (.padded 10 number)

example : sequenceNode 7 = node 7 := by decide

theorem concatZpath_lt_iff {name name' : CString} :
    concatZpath name < concatZpath name' ↔ name < name' :=
  CString.append_lt_append_iff

/-- The paths of nodes are in the order of their numbers. -/
theorem strictMonoOn_sequenceNode :
    StrictMonoOn (fun number => concatZpath (sequenceNode number)) {k | k ≤ 2147483647} := by
  intro k hk l hl hlt
  have hdigits : ∀ n : ℕ, n ≤ 2147483647 → n < 10 ^ 10 := fun n hn => by omega
  rw [concatZpath_lt_iff, sequenceNode, sequenceNode, CString.append_lt_append_iff]
  exact CString.strictMonoOn_padded 10 (hdigits k hk) (hdigits l hl) hlt

section Numbers

variable {numbers : List ℕ} (hrange : ∀ k ∈ numbers, k ≤ 2147483647) {path : CString}

theorem mem_sequenceNodes :
    path ∈ childrenAbsZpaths (numbers.map sequenceNode) ↔
      ∃ k ∈ numbers, concatZpath (sequenceNode k) = path := by
  rw [childrenAbsZpaths, List.map_map, List.mem_map]
  rfl

include hrange

theorem isLeast_number
    (h : IsLeast {p | p ∈ childrenAbsZpaths (numbers.map sequenceNode)} path) :
    ∃ k, IsLeast {k | k ∈ numbers} k ∧ path = concatZpath (sequenceNode k) := by
  obtain ⟨hmem, hle⟩ := h
  obtain ⟨k, hk, rfl⟩ := mem_sequenceNodes.1 hmem
  refine ⟨k, ⟨hk, fun l hl => ?_⟩, rfl⟩
  apply (strictMonoOn_sequenceNode.le_iff_le (hrange k hk) (hrange l hl)).1
  exact hle (mem_sequenceNodes.2 ⟨l, hl, rfl⟩)

theorem isGreatest_number
    (h : IsGreatest {p | p ∈ childrenAbsZpaths (numbers.map sequenceNode)} path) :
    ∃ k, IsGreatest {k | k ∈ numbers} k ∧ path = concatZpath (sequenceNode k) := by
  obtain ⟨hmem, hle⟩ := h
  obtain ⟨k, hk, rfl⟩ := mem_sequenceNodes.1 hmem
  refine ⟨k, ⟨hk, fun l hl => ?_⟩, rfl⟩
  apply (strictMonoOn_sequenceNode.le_iff_le (hrange l hl) (hrange k hk)).1
  exact hle (mem_sequenceNodes.2 ⟨l, hl, rfl⟩)

end Numbers

/-! ## Head and tail -/

/-- The head comes first and the tail last among the paths of the children. Another list of
    the same names has the same head and tail, and of numbered nodes these are the nodes with
    the smallest and the largest number. -/
theorem scans_select {children : List CString} (h : children ≠ []) :
    ∃ head tail, Selects children head tail ∧
      (head ∈ childrenAbsZpaths children ∧
        ∀ path ∈ childrenAbsZpaths children, CString.strcmp head path ≤ 0) ∧
      (tail ∈ childrenAbsZpaths children ∧
        ∀ path ∈ childrenAbsZpaths children, 0 ≤ CString.strcmp tail path) ∧
      (∀ children', (∀ name, name ∈ children' ↔ name ∈ children) → Selects children' head tail) ∧
      ∀ numbers : List ℕ, (∀ k ∈ numbers, k ≤ 2147483647) → children = numbers.map sequenceNode →
        (∃ k, IsLeast {k | k ∈ numbers} k ∧ head = concatZpath (sequenceNode k)) ∧
          ∃ k, IsGreatest {k | k ∈ numbers} k ∧ tail = concatZpath (sequenceNode k) := by
  have hleast := scanHead_children h
  have hgreatest := scanTail_children h
  refine ⟨_, _, selects_scans h, ⟨hleast.1, ?_⟩, ⟨hgreatest.1, ?_⟩, ?_, ?_⟩
  · intro path hpath
    exact CString.strcmp_nonpos_iff.2 (hleast.2 hpath)
  · intro path hpath
    exact CString.strcmp_nonneg_iff.2 (hgreatest.2 hpath)
  · intro children' hsame
    have h' : children' ≠ [] := by
      rintro rfl
      exact h (List.eq_nil_iff_forall_not_mem.2 fun name hname => nomatch (hsame name).2 hname)
    obtain ⟨hhead, htail⟩ := scans_congr h h' hsame
    rw [← hhead, ← htail]
    exact selects_scans h'
  · rintro numbers hrange rfl
    exact ⟨isLeast_number hrange hleast, isGreatest_number hrange hgreatest⟩

/-- Of two nodes the one with fewer digits is the head. -/
theorem scans_select_two :
    ∃ head tail, Selects ([10, 9].map sequenceNode) head tail ∧
      head = concatZpath (sequenceNode 9) ∧ tail = concatZpath (sequenceNode 10) := by
  have hne : [10, 9].map sequenceNode ≠ [] := by simp
  obtain ⟨head, tail, hselects, -, -, -, hnumbers⟩ := scans_select hne
  obtain ⟨⟨k, hk, hhead⟩, l, hl, htail⟩ := hnumbers [10, 9] (by decide) rfl
  have hleast : IsLeast {k | k ∈ [10, 9]} 9 := by simp [IsLeast, lowerBounds]
  have hgreatest : IsGreatest {k | k ∈ [10, 9]} 10 := by simp [IsGreatest, upperBounds]
  obtain rfl := hk.unique hleast
  obtain rfl := hl.unique hgreatest
  exact ⟨head, tail, hselects, hhead, htail⟩

/-! ## Comparing children lists -/

/-- The loop of `children_has_difference`, from a position on that is the same in both lists. -/
def differenceLoop : List CString → List CString → Int → Int
  | child :: children, newChild :: newChildren, result =>
    differenceLoop children newChildren
      (if result ≠ 0 ∧ CString.strcmp child newChild ≠ 0 then 1 else 0)
  | _, _, result => result

/-- `children_has_difference` -/
def childrenHasDifference (children newChildren : List CString) : Int :=
  let result := 1
  if children.length ≠ newChildren.length then result
  else differenceLoop children newChildren result

/-- Zero means that nothing has changed, and the order of the arguments does not matter. -/
structure ShowsDifference (children newChildren : List CString) : Prop where
  zero_iff : childrenHasDifference children newChildren = 0 ↔ children = newChildren
  symm : childrenHasDifference newChildren children = childrenHasDifference children newChildren

theorem differenceLoop_comm (children newChildren : List CString) (result : Int) :
    differenceLoop newChildren children result = differenceLoop children newChildren result := by
  fun_induction differenceLoop children newChildren result with
  | case1 child children newChild newChildren result ih =>
    have hstrcmp : CString.strcmp newChild child ≠ 0 ↔ CString.strcmp child newChild ≠ 0 := by
      rw [ne_eq, ne_eq, CString.strcmp_eq_zero_iff, CString.strcmp_eq_zero_iff, eq_comm]
    simp only [differenceLoop, hstrcmp]
    exact ih
  | case2 children newChildren result hnot =>
    cases children with
    | nil => cases newChildren <;> rfl
    | cons child children =>
      cases newChildren with
      | nil => rfl
      | cons newChild newChildren => exact (hnot _ _ _ _ rfl rfl).elim

theorem childrenHasDifference_comm (children newChildren : List CString) :
    childrenHasDifference newChildren children = childrenHasDifference children newChildren := by
  simp only [childrenHasDifference, differenceLoop_comm children newChildren, ne_comm]

/-- One position with the same name is enough for zero. -/
theorem differenceLoop_eq_zero_iff {children newChildren : List CString}
    (hcount : children.length = newChildren.length) (result : Int) :
    differenceLoop children newChildren result = 0 ↔
      result = 0 ∨ ¬ List.Forall₂ (· ≠ ·) children newChildren := by
  induction children generalizing newChildren result with
  | nil =>
    obtain rfl := List.length_eq_zero_iff.1 hcount.symm
    simp [differenceLoop]
  | cons child children ih =>
    cases newChildren with
    | nil => cases hcount
    | cons newChild newChildren =>
      rw [differenceLoop, ih (Nat.succ.inj hcount), List.forall₂_cons]
      simp only [ne_eq, CString.strcmp_eq_zero_iff]
      by_cases hzero : result = 0
      · simp [hzero]
      · by_cases hchild : child = newChild
        · simp [hchild]
        · simp [hzero, hchild]

theorem childrenHasDifference_eq_zero_iff (children newChildren : List CString) :
    childrenHasDifference children newChildren = 0 ↔
      children.length = newChildren.length ∧ ¬ List.Forall₂ (· ≠ ·) children newChildren := by
  rw [childrenHasDifference]
  by_cases hcount : children.length = newChildren.length
  · rw [if_neg (not_not.2 hcount), differenceLoop_eq_zero_iff hcount]
    simp [hcount]
  · rw [if_pos hcount]
    simp [hcount]

/-- The lists have different lengths, or some names, and the same at every position or at none. -/
theorem showsDifference_iff (children newChildren : List CString) :
    ShowsDifference children newChildren ↔
      children.length ≠ newChildren.length ∨
        children ≠ [] ∧ (children = newChildren ∨ List.Forall₂ (· ≠ ·) children newChildren) := by
  have hself : ∀ names : List CString, names ≠ [] → ¬ List.Forall₂ (· ≠ ·) names names := by
    intro names hne hall
    obtain ⟨name, hname⟩ := List.exists_mem_of_ne_nil names hne
    exact List.forall₂_same.1 hall name hname rfl
  constructor
  · rintro ⟨hzero, -⟩
    rw [childrenHasDifference_eq_zero_iff] at hzero
    by_cases hcount : children.length = newChildren.length
    · refine .inr ⟨?_, ?_⟩
      · rintro rfl
        obtain rfl := List.length_eq_zero_iff.1 hcount.symm
        exact (hzero.2 rfl).2 .nil
      · by_cases hall : List.Forall₂ (· ≠ ·) children newChildren
        · exact .inr hall
        · exact .inl (hzero.1 ⟨hcount, hall⟩)
    · exact .inl hcount
  · intro h
    refine ⟨?_, childrenHasDifference_comm children newChildren⟩
    rw [childrenHasDifference_eq_zero_iff]
    rcases h with hcount | ⟨hne, rfl | hall⟩
    · exact iff_of_false (fun hzero => hcount hzero.1) fun heq => hcount (congrArg _ heq)
    · exact iff_of_true ⟨rfl, hself children hne⟩ rfl
    · apply iff_of_false
      · exact fun hzero => hzero.2 hall
      · rintro rfl
        exact hself children hne hall

/-- A change at the second position is overlooked. -/
theorem not_showsDifference_second : ¬ ShowsDifference [node 1, node 2] [node 1, node 3] := by
  intro h
  exact absurd (h.zero_iff.1 (by decide)) (by decide)

end ChainTable
