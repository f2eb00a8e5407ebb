-- SUMMARY: list.c on blocks of memory: that a list owns its nodes, its entries and nothing else, and does what a bucket does.
import ChainTable.Memory.Blocks

open Base Base.Mem Base.Assertion

/-!
# Linked lists in memory

The loops of list.c follow the pointers from node to node. What a list owns is a predicate over
the bucket that it holds, and each loop is followed by induction on the rest of the bucket: the
nodes that the loop has passed are left alone.
-/

namespace ChainTable

namespace Memory

/-! ## list.c -/

def listCreate : M Ptr := malloc (⟨0, 0⟩ : ListT)

def nodeCreate (entry next : Ptr) : M Ptr := do
  let node ← malloc (⟨0, 0⟩ : NodeT)
  update node fun n : NodeT => { n with entry := entry }
  update node fun n : NodeT => { n with next := next }
  pure node

def nodeDestroy (node : Ptr) : M Int :=
  if node = 0 then pure (-1)
  else do
    let n : NodeT ← peek node
    let _ ← entryDestroy n.entry
    free node
    pure 0

def listDestroyLoop (node : Ptr) : M (Round Ptr Unit) :=
  if node = 0 then pure (.done ())
  else do
    let n : NodeT ← peek node
    let _ ← nodeDestroy node
    pure (.next n.next)

def listDestroy (list : Ptr) : M Int :=
  if list = 0 then pure (-1)
  else do
    let l : ListT ← peek list
    loop listDestroyLoop l.head
    free list
    pure 0

/-- The end of `list_add`: `list->size = list->size + 1`. -/
def listGrow (list : Ptr) : M Unit := update list fun l : ListT => { l with size := l.size + 1 }

/-- A round of `list_add` at a node after the head. -/
def listAddLoop (list entry : Ptr) : Ptr × Ptr → M (Round (Ptr × Ptr) Int)
  | (previousNode, node) =>
    if node = 0 then do
      let newNode ← nodeCreate entry 0
      if newNode = 0 then pure (.done (-1))
      else
        update previousNode fun n : NodeT => { n with next := newNode }
        listGrow list
        pure (.done 0)
    else do
      let n : NodeT ← peek node
      let cmpRet ← entryCompare entry n.entry
      if cmpRet = entryCmpError then pure (.done (-1))
      else if cmpRet = entryEqual then
        let _ ← entryDestroy n.entry
        update node fun n : NodeT => { n with entry := entry }
        pure (.done 1)
      else if cmpRet = entryLesser then
        let newNode ← nodeCreate entry node
        if newNode = 0 then pure (.done (-1))
        else
          update previousNode fun n : NodeT => { n with next := newNode }
          listGrow list
          pure (.done 0)
      else pure (.next (node, n.next))

def listAdd (list entry : Ptr) : M Int :=
  if list = 0 ∨ entry = 0 then pure (-1)
  else do
    let l : ListT ← peek list
    let node := l.head
    if node = 0 then
      let newNode ← nodeCreate entry 0
      if newNode = 0 then pure (-1)
      else
        update list fun l : ListT => { l with head := newNode }
        listGrow list
        pure 0
    else
      let n : NodeT ← peek node
      let cmpRet ← entryCompare entry n.entry
      if cmpRet = entryCmpError then pure (-1)
      else if cmpRet = entryEqual then
        let _ ← entryDestroy n.entry
        update node fun n : NodeT => { n with entry := entry }
        pure 1
      else if cmpRet = entryLesser then
        let newNode ← nodeCreate entry node
        if newNode = 0 then pure (-1)
        else
          update list fun l : ListT => { l with head := newNode }
          listGrow list
          pure 0
      else loop (listAddLoop list entry) (node, n.next)

/-- `strcmp(node->entry->key, key)`, for the entry of a node. -/
def compareKey (entry key : Ptr) : M Int := do
  let e : EntryT ← peek entry
  strcmp e.key key

/-- The end of `list_remove`, for a node that is no longer linked. -/
def listDrop (list oldNode : Ptr) : M Int := do
  let n : NodeT ← peek oldNode
  let ret ← entryDestroy n.entry
  if ret ≠ 0 then pure (-1)
  else
    free oldNode
    update list fun l : ListT => { l with size := l.size - 1 }
    pure ret

/-- A round of `list_remove` at a node after the head. -/
def listRemoveLoop (list key : Ptr) : Ptr × Ptr → M (Round (Ptr × Ptr) Int)
  | (previousNode, node) =>
    if node = 0 then pure (.done 1)
    else do
      let n : NodeT ← peek node
      let cmpRet ← compareKey n.entry key
      if cmpRet = 0 then
        update previousNode fun p : NodeT => { p with next := n.next }
        let ret ← listDrop list node
        pure (.done ret)
      else pure (.next (node, n.next))

def listRemove (list key : Ptr) : M Int :=
  if list = 0 ∨ key = 0 then pure (-1)
  else do
    let l : ListT ← peek list
    let node := l.head
    if node = 0 then pure 1
    else
      let n : NodeT ← peek node
      let cmpRet ← compareKey n.entry key
      if cmpRet = 0 then
        update list fun l : ListT => { l with head := n.next }
        listDrop list node
      else loop (listRemoveLoop list key) (node, n.next)

def listGetLoop (key node : Ptr) : M (Round Ptr Ptr) :=
  if node = 0 then pure (.done 0)
  else do
    let n : NodeT ← peek node
    let cmpRet ← compareKey n.entry key
    if cmpRet = 0 then pure (.done n.entry) else pure (.next n.next)

def listGet (list key : Ptr) : M Ptr :=
  if list = 0 ∨ key = 0 then pure 0
  else do
    let l : ListT ← peek list
    loop (listGetLoop key) l.head

def listSizeLoop : Int × Ptr → M (Round (Int × Ptr) Int)
  | (count, node) =>
    if node = 0 then pure (.done count)
    else do
      let n : NodeT ← peek node
      pure (.next (count + 1, n.next))

def listSize (list : Ptr) : M Int :=
  if list = 0 then pure (-1)
  else do
    let l : ListT ← peek list
    loop listSizeLoop (0, l.head)

def listGetKeysLoop (keysArray : Ptr) : ℕ × Ptr → M (Round (ℕ × Ptr) ℕ)
  | (i, node) =>
    if node = 0 then pure (.done i)
    else do
      let n : NodeT ← peek node
      let e : EntryT ← peek n.entry
      let keyPtr ← strdup e.key
      setSlot keysArray i keyPtr
      pure (.next (i + 1, n.next))

def listGetKeys (list : Ptr) : M Ptr :=
  if list = 0 then pure 0
  else do
    let l : ListT ← peek list
    if l.head = 0 then pure 0
    else
      let keysArray ← callocPointers (l.size + 1).toNat
      let i ← loop (listGetKeysLoop keysArray) (0, l.head)
      setSlot keysArray i 0
      pure keysArray

/-- A round of `list_free_keys`, and of `table_free_keys`. -/
def freeKeysLoop (keys : Ptr) (i : ℕ) : M (Round ℕ Unit) := do
  let keyPtr ← slot keys i
  if keyPtr = 0 then pure (.done ())
  else
    free keyPtr
    pure (.next (i + 1))

def listFreeKeys (keys : Ptr) : M Int :=
  if keys = 0 then pure (-1)
  else do
    loop (freeKeysLoop keys) 0
    free keys
    pure 0

/-! ## What a list owns -/

/-- The nodes from `p` on hold the bindings of a bucket, in this order. -/
def NodesAt : Ptr → Bucket CString Bytes → Owns
  | p, [] => lift (p = 0)
  | p, e :: b => ⨆ n : NodeT, pointsTo p n * (PairAt n.entry e * NodesAt n.next b)

/-- A list of the bindings of a bucket. -/
def ListAt (p : Ptr) (b : Bucket CString Bytes) : Owns :=
  ⨆ head : Ptr, pointsTo p (⟨b.length, head⟩ : ListT) * NodesAt head b

instance opensNil (p : Ptr) : Opens (NodesAt p []) fun _ : p = 0 => 1 := ⟨rfl⟩

instance framesNil (P : Owns) : Frames P (NodesAt 0 []) P := frames_null (A := NodesAt)

instance opensNode (p : Ptr) (e : Σ _ : CString, Bytes) (b : Bucket CString Bytes) :
    Opens (NodesAt p (e :: b)) fun n : NodeT =>
      pointsTo p n * (PairAt n.entry e * NodesAt n.next b) :=
  ⟨rfl⟩

instance opensList (p : Ptr) (b : Bucket CString Bytes) : Opens (ListAt p b) fun head : Ptr =>
    pointsTo p (⟨b.length, head⟩ : ListT) * NodesAt head b := ⟨rfl⟩

instance nonNullNode (p : Ptr) (e : Σ _ : CString, Bytes) (b : Bucket CString Bytes) :
    NonNull (NodesAt p (e :: b)) p := nonNull_iSup fun _ => inferInstance

instance nonNullList (p : Ptr) (b : Bucket CString Bytes) : NonNull (ListAt p b) p :=
  nonNull_iSup fun _ => inferInstance

/-! ## What the operations do -/

theorem listCreate_spec : Triple 1 listCreate (fun p => ListAt p []) :=
  (Triple.malloc_spec (⟨0, 0⟩ : ListT)).conseq le_rfl fun _ => le_of_opens 0

theorem nodeCreate_spec (entry next : Ptr) :
    Triple 1 (nodeCreate entry next) (fun p => pointsTo p (⟨entry, next⟩ : NodeT)) := by
  refine Triple.malloc fun p => Triple.update (Triple.update ?_)
  exact Triple.return'

theorem nodeDestroy_spec (p : Ptr) (n : NodeT) (e : Σ _ : CString, Bytes) :
    Triple (pointsTo p n * PairAt n.entry e) (nodeDestroy p) (returning 0 1) := by
  refine Triple.ne_zero p fun hp => ?_
  rw [nodeDestroy, if_neg hp]
  refine Triple.peek (Triple.callReturning (entryDestroy_pair n.entry e) ?_)
  refine Triple.free (Triple.returning le_of_frames)

theorem listDestroyLoop_spec (b : Bucket CString Bytes) (p : Ptr) :
    Triple (NodesAt p b) (loop listDestroyLoop p) (fun _ => 1) := by
  induction b generalizing p with
  | nil =>
    refine Triple.opens fun hp => Triple.loop ?_
    rw [listDestroyLoop, if_pos hp, pure_bind]
    exact Triple.return'
  | cons e b ih =>
    refine Triple.ne_zero p fun hp => Triple.loop ?_
    rw [listDestroyLoop, if_neg hp]
    simp only [bind_assoc, pure_bind]
    refine Triple.opens fun n => Triple.peek ?_
    refine Triple.callReturning (nodeDestroy_spec p n e) ?_
    exact Triple.last (ih n.next) fun _ => le_of_frames

theorem listDestroy_spec (p : Ptr) (b : Bucket CString Bytes) :
    Triple (ListAt p b) (listDestroy p) (returning 0 1) := by
  refine Triple.ne_zero p fun hp => ?_
  rw [listDestroy, if_neg hp]
  refine Triple.opens fun head => Triple.peek ?_
  refine Triple.call (listDestroyLoop_spec b head) fun _ => ?_
  exact Triple.free (Triple.returning le_of_frames)

/-! ### Adding -/

/-- What comparing with an entry of the list decides. -/
theorem entryCompare_pair (p q : Ptr) (e e' : Σ _ : CString, Bytes) :
    Triple (PairAt p e * PairAt q e') (entryCompare p q)
      (returning (ChainTable.entryCompare (some (.ofPair e)) (some (.ofPair e')))
        (PairAt p e * PairAt q e')) :=
  entryCompare_spec p q (.ofPair e) (.ofPair e')

/-- Whichever of the exits is taken, the node before gets what the bucket is then. -/
theorem listAddLoop_spec {b : Bucket CString Bytes} (hsorted : b.Sorted) (list q : Ptr) (l : ListT)
    (k : CString) (v : Bytes) (previous entry node : Ptr) :
    Triple (pointsTo previous (⟨entry, node⟩ : NodeT) *
        (NodesAt node b * (pointsTo list l * PairAt q ⟨k, v⟩)))
      (loop (listAddLoop list q) (previous, node))
      (returning (addResult b k) (⨆ node' : Ptr, pointsTo previous (⟨entry, node'⟩ : NodeT) *
        (NodesAt node' (b.insert k v) *
          pointsTo list (⟨l.size + ((b.insert k v).length - b.length), l.head⟩ : ListT)))) := by
  induction b generalizing previous entry node with
  | nil =>
    refine Triple.expose (NodesAt node []) fun hnode => Triple.loop ?_
    simp only [listAddLoop, if_pos hnode, bind_assoc, Bucket.insert]
    have hsize : ((([⟨k, v⟩] : Bucket CString Bytes).length : ℕ) : Int)
      - ([] : Bucket CString Bytes).length = 1 := rfl
    rw [hsize]
    refine Triple.call (nodeCreate_spec q 0) fun newNode => Triple.ne_zero newNode fun hnew => ?_
    simp only [if_neg hnew, bind_assoc, pure_bind, listGrow]
    refine Triple.update (Triple.update ?_)
    refine Triple.fold (NodesAt newNode [⟨k, v⟩]) ⟨q, 0⟩ ?_
    exact Triple.returning (le_of_opens newNode)
  | cons e b ih =>
    refine Triple.ne_zero node fun hnode => Triple.loop ?_
    simp only [listAddLoop, if_neg hnode, bind_assoc]
    refine Triple.expose (NodesAt node (e :: b)) fun n => Triple.peek ?_
    refine Triple.callReturning (entryCompare_pair q n.entry ⟨k, v⟩ e) ?_
    obtain ⟨herr, heq, hlt⟩ := entryCompare_cases ⟨k, v⟩ e
    simp only at herr heq hlt
    simp only [herr, heq, hlt, if_false, Bucket.insert]
    by_cases hk : k = e.1
    · subst hk
      simp only [if_true, bind_assoc, pure_bind]
      refine Triple.callReturning (entryDestroy_pair n.entry e) (Triple.update ?_)
      refine Triple.fold (NodesAt node (⟨e.1, v⟩ :: b)) ⟨q, n.next⟩ ?_
      rw [addResult_cons_self]
      simp only [List.length_cons, sub_self, add_zero]
      exact Triple.returning (le_of_opens node)
    · by_cases hk' : k < e.1
      · simp only [if_neg hk, if_pos hk', bind_assoc]
        refine Triple.call (nodeCreate_spec q node) fun newNode =>
          Triple.ne_zero newNode fun hnew => ?_
        simp only [if_neg hnew, bind_assoc, pure_bind, listGrow]
        refine Triple.update (Triple.update ?_)
        refine Triple.fold (NodesAt node (e :: b)) n ?_
        refine Triple.fold (NodesAt newNode (⟨k, v⟩ :: e :: b)) ⟨q, node⟩ ?_
        have hsize : ((b.length + 1 + 1 : ℕ) : Int) - (b.length + 1 : ℕ) = 1 := by omega
        rw [addResult_of_lt hsorted hk', List.length_cons, List.length_cons, hsize]
        exact Triple.returning (le_of_opens newNode)
      · simp only [if_neg hk, if_neg hk', pure_bind]
        have htail : Bucket.Sorted b := (List.pairwise_cons.1 hsorted).2
        rw [addResult_cons hk]
        have hsize : (((e :: Bucket.insert k v b).length : ℕ) : Int) - (e :: b).length =
            (Bucket.insert k v b).length - b.length := by simp
        rw [hsize]
        refine Triple.lastReturning (ih htail node n.entry n.next) (opens_le fun node' => ?_)
        refine fold_le (NodesAt node (e :: Bucket.insert k v b)) ⟨n.entry, node'⟩ ?_
        exact le_of_opens node

private theorem listLength_cons (e : Σ _ : CString, Bytes) (b : Bucket CString Bytes)
    (head : Ptr) :
    (⟨(⟨b.length, head⟩ : ListT).size + 1, head⟩ : ListT) = ⟨(e :: b).length, head⟩ := rfl

/-- `list_add` takes over the entry. -/
theorem listAdd_spec {b : Bucket CString Bytes} (hsorted : b.Sorted) (p q : Ptr) (k : CString)
    (v : Bytes) :
    Triple (ListAt p b * PairAt q ⟨k, v⟩) (listAdd p q)
      (returning (addResult b k) (ListAt p (b.insert k v))) := by
  refine Triple.ne_zero p fun hp => Triple.ne_zero q fun hq => ?_
  rw [listAdd, if_neg (not_or.2 ⟨hp, hq⟩)]
  refine Triple.expose (ListAt p b) fun head => Triple.peek ?_
  cases b with
  | nil =>
    refine Triple.expose (NodesAt head []) fun hhead => ?_
    simp only [if_pos hhead, Bucket.insert]
    refine Triple.call (nodeCreate_spec q 0) fun newNode => Triple.ne_zero newNode fun hnew => ?_
    simp only [if_neg hnew, listGrow]
    refine Triple.update (Triple.update ?_)
    refine Triple.fold (NodesAt newNode [⟨k, v⟩]) ⟨q, 0⟩ ?_
    rw [listLength_cons ⟨k, v⟩ []]
    exact Triple.returning (le_of_opens newNode)
  | cons e b =>
    refine Triple.ne_zero head fun hhead => ?_
    rw [if_neg hhead]
    refine Triple.expose (NodesAt head (e :: b)) fun n => Triple.peek ?_
    refine Triple.callReturning (entryCompare_pair q n.entry ⟨k, v⟩ e) ?_
    obtain ⟨herr, heq, hlt⟩ := entryCompare_cases ⟨k, v⟩ e
    simp only at herr heq hlt
    simp only [herr, heq, hlt, if_false, Bucket.insert]
    by_cases hk : k = e.1
    · subst hk
      simp only [if_true, addResult_cons_self]
      refine Triple.callReturning (entryDestroy_pair n.entry e) (Triple.update ?_)
      refine Triple.fold (NodesAt head (⟨e.1, v⟩ :: b)) ⟨q, n.next⟩ ?_
      exact Triple.returning (le_of_opens head)
    · by_cases hk' : k < e.1
      · simp only [if_neg hk, if_pos hk']
        refine Triple.call (nodeCreate_spec q head) fun newNode =>
          Triple.ne_zero newNode fun hnew => ?_
        simp only [if_neg hnew, listGrow]
        refine Triple.update (Triple.update ?_)
        refine Triple.fold (NodesAt head (e :: b)) n ?_
        refine Triple.fold (NodesAt newNode (⟨k, v⟩ :: e :: b)) ⟨q, head⟩ ?_
        rw [addResult_of_lt hsorted hk', listLength_cons ⟨k, v⟩ (e :: b)]
        exact Triple.returning (le_of_opens newNode)
      · simp only [if_neg hk, if_neg hk']
        have htail : Bucket.Sorted b := (List.pairwise_cons.1 hsorted).2
        rw [addResult_cons hk]
        refine Triple.lastReturning
          (listAddLoop_spec htail p q ⟨(e :: b).length, head⟩ k v head n.entry n.next)
          (opens_le fun node' => ?_)
        have hsize : (((e :: b).length : ℕ) : Int) + ((Bucket.insert k v b).length - b.length) =
            ((e :: Bucket.insert k v b).length : ℕ) := by
          simp only [List.length_cons]
          omega
        refine fold_le (NodesAt head (e :: Bucket.insert k v b)) ⟨n.entry, node'⟩ ?_
        rw [hsize]
        exact le_of_opens head

theorem compareKey_spec (p q : Ptr) (e : Σ _ : CString, Bytes) (k : CString) :
    Triple (PairAt p e * StringAt q k) (compareKey p q)
      (returning (CString.strcmp e.1 k) (PairAt p e * StringAt q k)) := by
  refine Triple.expose (PairAt p e) fun t => Triple.peek ?_
  refine Triple.lastReturning (strcmp_spec t.key q e.1 k) ?_
  exact fold_le (PairAt p e) t le_of_frames

theorem listDrop_spec (list old : Ptr) (l : ListT) (n : NodeT) (e : Σ _ : CString, Bytes) :
    Triple (pointsTo list l * (pointsTo old n * PairAt n.entry e)) (listDrop list old)
      (returning 0 (pointsTo list (⟨l.size - 1, l.head⟩ : ListT))) := by
  refine Triple.peek (Triple.callReturning (entryDestroy_pair n.entry e) ?_)
  rw [if_neg (not_not.2 rfl)]
  exact Triple.free (Triple.update (Triple.returning le_of_frames))

/-! ### Removing -/

private theorem removeResult_cons_self (e : Σ _ : CString, Bytes) (b : Bucket CString Bytes) :
    removeResult (e :: b) e.1 = 0 :=
  if_pos (List.dlookup_isSome.2 (by simp))

private theorem removeResult_cons {e : Σ _ : CString, Bytes} {k : CString} (h : k ≠ e.1)
    (b : Bucket CString Bytes) : removeResult (e :: b) k = removeResult b k := by
  rw [removeResult, removeResult, List.dlookup_cons_ne _ _ h]

theorem listRemoveLoop_spec (b : Bucket CString Bytes) (list q : Ptr) (l : ListT) (k : CString)
    (previous entry node : Ptr) :
    Triple (pointsTo previous (⟨entry, node⟩ : NodeT) *
        (NodesAt node b * (pointsTo list l * StringAt q k)))
      (loop (listRemoveLoop list q) (previous, node))
      (returning (removeResult b k) (⨆ node' : Ptr, pointsTo previous (⟨entry, node'⟩ : NodeT) *
        (NodesAt node' (b.kerase k) *
          (pointsTo list (⟨l.size - (b.length - (b.kerase k).length), l.head⟩ : ListT) *
            StringAt q k)))) := by
  induction b generalizing previous entry node with
  | nil =>
    refine Triple.expose (NodesAt node []) fun hnode => Triple.loop ?_
    rw [listRemoveLoop, if_pos hnode, pure_bind, hnode]
    simp only [List.kerase_nil, sub_self, sub_zero]
    exact Triple.returning (le_of_opens 0)
  | cons e b ih =>
    refine Triple.ne_zero node fun hnode => Triple.loop ?_
    simp only [listRemoveLoop, if_neg hnode, bind_assoc]
    refine Triple.expose (NodesAt node (e :: b)) fun n => Triple.peek ?_
    refine Triple.callReturning (compareKey_spec n.entry q e k) ?_
    simp only [CString.strcmp_eq_zero_iff]
    by_cases hk : e.1 = k
    · subst hk
      simp only [if_true, bind_assoc, pure_bind, List.kerase_cons_eq, removeResult_cons_self]
      refine Triple.update (Triple.callReturning (listDrop_spec list node l n e) ?_)
      have hsize : (((e :: b).length : ℕ) : Int) - b.length = 1 := by simp
      rw [hsize]
      exact Triple.returning (le_of_opens n.next)
    · have hk' : k ≠ e.1 := Ne.symm hk
      simp only [if_neg hk, pure_bind, List.kerase_cons_ne hk', removeResult_cons hk']
      have hsize : (((e :: b).length : ℕ) : Int) - (e :: b.kerase k).length =
          b.length - (b.kerase k).length := by simp
      rw [hsize]
      refine Triple.lastReturning (ih node n.entry n.next) (opens_le fun node' => ?_)
      refine fold_le (NodesAt node (e :: b.kerase k)) ⟨n.entry, node'⟩ ?_
      exact le_of_opens node

theorem listRemove_spec (b : Bucket CString Bytes) (p q : Ptr) (k : CString) :
    Triple (ListAt p b * StringAt q k) (listRemove p q)
      (returning (removeResult b k) (ListAt p (b.kerase k) * StringAt q k)) := by
  refine Triple.ne_zero p fun hp => Triple.ne_zero q fun hq => ?_
  rw [listRemove, if_neg (not_or.2 ⟨hp, hq⟩)]
  refine Triple.expose (ListAt p b) fun head => Triple.peek ?_
  cases b with
  | nil =>
    refine Triple.expose (NodesAt head []) fun hhead => ?_
    rw [if_pos hhead, hhead, List.kerase_nil]
    refine Triple.fold (ListAt p []) 0 ?_
    exact Triple.returning le_of_frames
  | cons e b =>
    refine Triple.ne_zero head fun hhead => ?_
    rw [if_neg hhead]
    refine Triple.expose (NodesAt head (e :: b)) fun n => Triple.peek ?_
    refine Triple.callReturning (compareKey_spec n.entry q e k) ?_
    simp only [CString.strcmp_eq_zero_iff]
    by_cases hk : e.1 = k
    · subst hk
      simp only [if_true, List.kerase_cons_eq, removeResult_cons_self]
      refine Triple.update ?_
      refine Triple.lastReturning (listDrop_spec p head ⟨(e :: b).length, n.next⟩ n e) ?_
      have hsize : (((e :: b).length : ℕ) : Int) - 1 = b.length := by simp
      rw [hsize]
      exact fold_le (ListAt p b) n.next le_of_frames
    · have hk' : k ≠ e.1 := Ne.symm hk
      simp only [if_neg hk, List.kerase_cons_ne hk', removeResult_cons hk']
      refine Triple.lastReturning
        (listRemoveLoop_spec b p q ⟨(e :: b).length, head⟩ k head n.entry n.next)
        (opens_le fun node' => ?_)
      have hsize : (((e :: b).length : ℕ) : Int) - (b.length - (b.kerase k).length) =
          ((e :: b.kerase k).length : ℕ) := by
        simp only [List.length_cons]
        omega
      refine fold_le (NodesAt head (e :: b.kerase k)) ⟨n.entry, node'⟩ ?_
      rw [hsize]
      exact fold_le (ListAt p (e :: b.kerase k)) head le_of_frames

/-! ### Reading -/

/-- The entry that a list lends, or the null pointer. -/
def Lent (P : Owns) (k : CString) (v : Option Bytes) (p : Ptr) : Owns :=
  match v with
  | some v => borrowed (PairAt p ⟨k, v⟩) P
  | none => lift (p = 0) * P

theorem lent_mul_le {P P' R : Owns} {k : CString} {v : Option Bytes} {p : Ptr} (h : P * R ≤ P') :
    Lent P k v p * R ≤ Lent P' k v p := by
  cases v with
  | none =>
    rw [Lent, Lent, mul_assoc]
    exact mul_le_mul_right h _
  | some v => exact borrowed_mul_le h

theorem listGetLoop_spec (b : Bucket CString Bytes) (q : Ptr) (k : CString) (node : Ptr) :
    Triple (NodesAt node b * StringAt q k) (loop (listGetLoop q) node)
      (fun p => Lent (NodesAt node b) k (b.dlookup k) p * StringAt q k) := by
  induction b generalizing node with
  | nil =>
    refine Triple.expose (NodesAt node []) fun hnode => Triple.loop ?_
    rw [listGetLoop, if_pos hnode, pure_bind, hnode]
    refine Triple.ret ?_
    rw [List.dlookup_nil, Lent, lift_of rfl]
    exact le_of_frames
  | cons e b ih =>
    refine Triple.ne_zero node fun hnode => Triple.loop ?_
    simp only [listGetLoop, if_neg hnode, bind_assoc]
    refine Triple.expose (NodesAt node (e :: b)) fun n => Triple.peek ?_
    refine Triple.callReturning (compareKey_spec n.entry q e k) ?_
    simp only [CString.strcmp_eq_zero_iff]
    by_cases hk : e.1 = k
    · obtain ⟨k', v⟩ := e
      obtain rfl : k' = k := hk
      have hlend : PairAt n.entry ⟨k', v⟩ * (pointsTo node n * NodesAt n.next b) ≤
          borrowed (PairAt n.entry ⟨k', v⟩) (NodesAt node (⟨k', v⟩ :: b)) :=
        le_borrowed (le_of_opens n)
      rw [if_pos rfl, pure_bind]
      refine Triple.weaken hlend (Triple.ret ?_)
      rw [List.dlookup_cons_eq, Lent]
    · rw [if_neg hk, pure_bind]
      refine Triple.last (ih n.next) fun p => ?_
      rw [List.dlookup_cons_ne _ _ (Ne.symm hk)]
      have hrest : NodesAt n.next b * (PairAt n.entry e * pointsTo node n) ≤
        NodesAt node (e :: b) :=
        le_of_opens n
      exact weaken_le (lent_mul_le (k := k) (v := b.dlookup k) (p := p) hrest) le_of_frames

/-- `list_get` gives the entry of a bound key, which still belongs to the list. -/
theorem listGet_spec (b : Bucket CString Bytes) (p q : Ptr) (k : CString) :
    Triple (ListAt p b * StringAt q k) (listGet p q)
      (fun r => Lent (ListAt p b) k (b.dlookup k) r * StringAt q k) := by
  refine Triple.ne_zero p fun hp => Triple.ne_zero q fun hq => ?_
  rw [listGet, if_neg (not_or.2 ⟨hp, hq⟩)]
  refine Triple.expose (ListAt p b) fun head => Triple.peek ?_
  refine Triple.last (listGetLoop_spec b q k head) fun r => ?_
  have hrest : NodesAt head b * pointsTo p (⟨b.length, head⟩ : ListT) ≤ ListAt p b :=
    le_of_opens head
  exact weaken_le (lent_mul_le (k := k) (v := b.dlookup k) (p := r) hrest) le_of_frames

theorem listSizeLoop_spec (b : Bucket CString Bytes) (count : Int) (node : Ptr) :
    Triple (NodesAt node b) (loop listSizeLoop (count, node))
      (returning (count + b.length) (NodesAt node b)) := by
  induction b generalizing count node with
  | nil =>
    refine Triple.opens fun hnode => Triple.loop ?_
    rw [listSizeLoop, if_pos hnode, pure_bind, hnode, List.length_nil, Nat.cast_zero, add_zero]
    exact Triple.returning le_of_frames
  | cons e b ih =>
    refine Triple.ne_zero node fun hnode => Triple.loop ?_
    simp only [listSizeLoop, if_neg hnode, bind_assoc, pure_bind]
    refine Triple.opens fun n => Triple.peek ?_
    have hcount : count + ((e :: b).length : ℕ) = count + 1 + b.length := by
      rw [List.length_cons]
      omega
    rw [hcount]
    exact Triple.lastReturning (ih (count + 1) n.next)
      (fold_le (NodesAt node (e :: b)) n le_of_frames)

theorem listSize_spec (b : Bucket CString Bytes) (p : Ptr) :
    Triple (ListAt p b) (listSize p) (returning (b.length : Int) (ListAt p b)) := by
  refine Triple.ne_zero p fun hp => ?_
  rw [listSize, if_neg hp]
  refine Triple.opens fun head => Triple.peek ?_
  have hloop := listSizeLoop_spec b 0 head
  rw [zero_add] at hloop
  exact Triple.lastReturning hloop (fold_le (ListAt p b) head le_of_frames)

/-! ### Listing -/

theorem listGetKeysLoop_spec (b : Bucket CString Bytes) (arr : Ptr) (ps : List Ptr) (m : ℕ)
    (node : Ptr) :
    Triple (pointsTo arr (ps ++ List.replicate (b.length + m) 0) * NodesAt node b)
      (loop (listGetKeysLoop arr) (ps.length, node))
      (returning (ps.length + b.length) (⨆ ps' : List Ptr,
        pointsTo arr (ps ++ ps' ++ List.replicate m 0)
          * (each StringAt ps' b.keys * NodesAt node b))) := by
  induction b generalizing ps node with
  | nil =>
    refine Triple.expose (NodesAt node []) fun hnode => Triple.loop ?_
    rw [listGetKeysLoop, if_pos hnode, pure_bind, hnode, List.length_nil,
      Nat.zero_add, Nat.add_zero]
    refine Triple.returning (le_iSup_of_le [] ?_)
    rw [List.append_nil, List.keys_nil, each_nil]
    exact le_of_frames
  | cons e b ih =>
    refine Triple.ne_zero node fun hnode => Triple.loop ?_
    simp only [listGetKeysLoop, if_neg hnode, bind_assoc, pure_bind]
    refine Triple.expose (NodesAt node (e :: b)) fun n => Triple.peek ?_
    refine Triple.expose (PairAt n.entry e) fun t => Triple.peek ?_
    refine Triple.call (strdup_spec t.key e.1) fun q => ?_
    have hlength : (e :: b).length + m = b.length + m + 1 := by
      rw [List.length_cons]
      omega
    rw [hlength]
    refine Triple.call (setSlot_next arr ps (b.length + m) q) fun _ => ?_
    refine Triple.fold (PairAt n.entry e) t ?_
    have hcount : ps.length + (b.length + 1) = (ps ++ [q]).length + b.length := by
      rw [List.length_append, List.length_singleton]
      omega
    have hnext : (ps ++ [q]).length = ps.length + 1 := by simp
    rw [List.length_cons, hcount, ← hnext]
    refine Triple.lastReturning (ih (ps ++ [q]) n.next) (opens_le fun ps' => ?_)
    refine fold_le (NodesAt node (e :: b)) n (le_iSup_of_le (q :: ps') ?_)
    rw [List.append_cons ps q ps', List.keys_cons, each_cons]
    exact le_of_frames

/-- `list_get_keys` gives copies of the keys, and the null pointer for a list without any. -/
theorem listGetKeys_spec (b : Bucket CString Bytes) (p : Ptr) :
    Triple (ListAt p b) (listGetKeys p)
      (fun r => ListAt p b * if b = [] then lift (r = 0) else ArrayAt StringAt r b.keys) := by
  refine Triple.ne_zero p fun hp => ?_
  rw [listGetKeys, if_neg hp]
  refine Triple.opens fun head => Triple.peek ?_
  cases b with
  | nil =>
    refine Triple.expose (NodesAt head []) fun hhead => ?_
    rw [if_pos hhead, hhead]
    refine Triple.fold (ListAt p []) 0 (Triple.ret ?_)
    rw [if_pos rfl, lift_of rfl]
  | cons e b =>
    refine Triple.ne_zero head fun hhead => ?_
    rw [if_neg hhead]
    have hsize : (((e :: b).length : ℕ) + 1 : Int).toNat = (e :: b).length + 1 := by omega
    rw [hsize]
    refine Triple.malloc fun arr => ?_
    have hloop := listGetKeysLoop_spec (e :: b) arr [] 1 head
    simp only [List.nil_append, List.length_nil, Nat.zero_add] at hloop
    refine Triple.callReturning hloop (Triple.opens fun ps => ?_)
    refine Triple.learn
      (each_length (A := StringAt) ps (e :: b : Bucket CString Bytes).keys).le fun hlength => ?_
    have hlast : (e :: b).length = ps.length := by rw [hlength, List.keys, List.length_map]
    have hset := setSlot_next arr ps 0 0
    rw [← hlast, List.replicate_zero, List.append_nil] at hset
    simp only [if_neg (List.cons_ne_nil e b)]
    refine Triple.call hset fun _ => ?_
    refine Triple.fold (ListAt p (e :: b)) head ?_
    refine Triple.fold (ArrayAt StringAt arr (e :: b : Bucket CString Bytes).keys) ps ?_
    exact Triple.return'

theorem freeKeysLoop_spec (arr : Ptr) (front ps : List Ptr) (keys : List CString) :
    Triple (pointsTo arr (front ++ ps ++ [0]) * each StringAt ps keys)
      (loop (freeKeysLoop arr) front.length) (fun _ => pointsTo arr (front ++ ps ++ [0])) := by
  induction ps generalizing front keys with
  | nil =>
    refine Triple.loop ?_
    have hlast : (front ++ [] ++ [0])[front.length]? = some 0 := by simp
    simp only [freeKeysLoop, bind_assoc]
    refine Triple.callReturning (slot_spec arr hlast) ?_
    rw [if_pos rfl, pure_bind]
    refine Triple.learn (each_length (A := StringAt) [] keys).le fun hlength => ?_
    obtain rfl : keys = [] := List.length_eq_zero_iff.1 hlength.symm
    exact Triple.return'
  | cons p ps ih =>
    refine Triple.learn (each_length (A := StringAt) (p :: ps) keys).le fun hlength => ?_
    obtain ⟨key, keys, rfl⟩ : ∃ key keys', keys = key :: keys' :=
      List.exists_cons_of_ne_nil (List.ne_nil_of_length_eq_add_one hlength.symm)
    refine Triple.loop ?_
    have hslot : (front ++ p :: ps ++ [0])[front.length]? = some p := by simp
    simp only [freeKeysLoop, bind_assoc]
    refine Triple.callReturning (slot_spec arr hslot) ?_
    rw [each_cons]
    refine Triple.ne_zero p fun hp => ?_
    simp only [if_neg hp, bind_assoc, pure_bind]
    refine Triple.free ?_
    have ih := ih (front ++ [p]) keys
    rw [← List.append_cons, List.length_append, List.length_singleton] at ih
    exact Triple.last ih fun _ => le_of_frames

theorem listFreeKeys_spec (p : Ptr) (keys : List CString) :
    Triple (ArrayAt StringAt p keys) (listFreeKeys p) (returning 0 1) := by
  refine Triple.ne_zero p fun hp => ?_
  rw [listFreeKeys, if_neg hp]
  refine Triple.opens fun ps => ?_
  have hloop := freeKeysLoop_spec p [] ps keys
  rw [List.nil_append] at hloop
  refine Triple.call hloop fun _ => ?_
  exact Triple.free (Triple.returning le_of_frames)

end Memory

end ChainTable
