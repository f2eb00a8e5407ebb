-- SUMMARY: The sorted linked list of list.c and the bucket it represents.
import ChainTable.Base.HashedMap
import ChainTable.Store.Data

open Base

/-!
# Linked lists

A chain of `node_t` is the list of the entries its nodes point to. `listAdd` and
`listRemove` treat the head of the chain before the loop over the inner nodes,
as the source does. `ListT.ofBucket` gives the list that stands for a bucket;
on such lists every operation is the corresponding one on buckets.
-/

namespace ChainTable

/-- `struct list_t`. -/
@[ext] structure ListT where
  size : Int
  head : List Entry
  deriving DecidableEq

def listCreate : ListT := ⟨0, []⟩

/-! ## Adding -/

/-- The loop of `list_add` over the nodes after `previous_node`: what that node
    points to afterwards, the size and the return value. -/
def listAddLoop (entry : Entry) : List Entry → Int → List Entry × Int × Int
  | [], size => ([entry], size + 1, 0)
  | node :: next, size =>
    let cmpRet := entryCompare (some entry) (some node)
    if cmpRet = entryCmpError then (node :: next, size, -1)
    else if cmpRet = entryEqual then (entry :: next, size, 1)
    else if cmpRet = entryLesser then (entry :: node :: next, size + 1, 0)
    else
      let (chain, size', ret) := listAddLoop entry next size
      (node :: chain, size', ret)

def listAdd (list : ListT) : Option Entry → ListT × Int
  | none => (list, -1)
  | some entry =>
    match list.head with
    | [] => (⟨list.size + 1, [entry]⟩, 0)
    | node :: next =>
      let cmpRet := entryCompare (some entry) (some node)
      if cmpRet = entryCmpError then (list, -1)
      else if cmpRet = entryEqual then ({ list with head := entry :: next }, 1)
      else if cmpRet = entryLesser then (⟨list.size + 1, entry :: node :: next⟩, 0)
      else
        let (chain, size', ret) := listAddLoop entry next list.size
        (⟨size', node :: chain⟩, ret)

/-! ## Removing -/

/-- The loop of `list_remove` over the nodes after `previous_node`. An entry that
    cannot be destroyed is unlinked all the same. -/
def listRemoveLoop (key : CString) : List Entry → Int → C (List Entry × Int × Int)
  | [], size => .ok ([], size, 1)
  | node :: next, size => do
    let nodeKey ← deref node.key
    if CString.strcmp nodeKey key = 0 then
      if entryDestroy (some node) ≠ 0 then return (next, size, -1)
      return (next, size - 1, 0)
    let (chain, size', ret) ← listRemoveLoop key next size
    return (node :: chain, size', ret)

def listRemove (list : ListT) : Option CString → C (ListT × Int)
  | none => .ok (list, -1)
  | some key =>
    match list.head with
    | [] => .ok (list, 1)
    | node :: next => do
      let nodeKey ← deref node.key
      if CString.strcmp nodeKey key = 0 then
        if entryDestroy (some node) ≠ 0 then return ({ list with head := next }, -1)
        return (⟨list.size - 1, next⟩, 0)
      let (chain, size', ret) ← listRemoveLoop key next list.size
      return (⟨size', node :: chain⟩, ret)

/-! ## Reading -/

def listGetLoop (key : CString) : List Entry → C (Option Entry)
  | [] => .ok none
  | node :: next => do
    let nodeKey ← deref node.key
    if CString.strcmp nodeKey key = 0 then return some node
    listGetLoop key next

def listGet (list : ListT) : Option CString → C (Option Entry)
  | none => .ok none
  | some key => listGetLoop key list.head

def listSize (list : ListT) : Int := list.head.foldl (fun count _ => count + 1) 0

/-- The loop of `list_get_keys`: copy the key of each node to the next slot. -/
def listGetKeysLoop : List Entry → List (Option CString) → ℕ → C (List (Option CString) × ℕ)
  | [], keysArray, i => .ok (keysArray, i)
  | node :: next, keysArray, i => do
    let key ← deref node.key
    let keysArray ← store keysArray i (some key)
    listGetKeysLoop next keysArray (i + 1)

/-- `list_get_keys`: `none` is the `NULL` returned for an empty list. -/
def listGetKeys (list : ListT) : C (Option (List (Option CString))) :=
  match list.head with
  | [] => .ok none
  | node :: next => do
    let (keysArray, i) ← listGetKeysLoop (node :: next) (calloc CString (list.size + 1).toNat) 0
    let keysArray ← store keysArray i none
    return some keysArray

/-! ## Lists that stand for buckets -/

namespace ListT

/-- The list with the entries of a bucket. -/
def ofBucket (b : Bucket CString Bytes) : ListT := ⟨b.length, b.map Entry.ofPair⟩

@[simp] theorem head_ofBucket (b : Bucket CString Bytes) :
    (ofBucket b).head = b.map Entry.ofPair := rfl

@[simp] theorem size_ofBucket (b : Bucket CString Bytes) : (ofBucket b).size = b.length := rfl

@[simp] theorem ofBucket_nil : ofBucket [] = listCreate := rfl

end ListT

/-- How comparing entries decides between the three positions of a new entry. -/
theorem entryCompare_cases (e e' : Σ _ : CString, Bytes) :
    let cmpRet := entryCompare (some (.ofPair e)) (some (.ofPair e'))
    cmpRet ≠ entryCmpError ∧ (cmpRet = entryEqual ↔ e.1 = e'.1) ∧
      (cmpRet = entryLesser ↔ e.1 < e'.1) := by
  rw [entryCompare_ofPair]
  rcases lt_trichotomy e.1 e'.1 with h | h | h
  · simp [h, lt_asymm h, h.ne, entryCmpError, entryLesser, entryEqual]
  · simp [h, entryCmpError, entryLesser, entryEqual]
  · simp [h, lt_asymm h, h.ne', entryCmpError, entryLesser, entryEqual, entryGreater]

/-- What `list_add` returns on a bucket: 1 when the key was bound. -/
def addResult (b : Bucket CString Bytes) (k : CString) : Int :=
  if (b.dlookup k).isSome then 1 else 0

theorem addResult_cons {b : Bucket CString Bytes} {e : Σ _ : CString, Bytes} {k : CString}
    (h : k ≠ e.1) : addResult (e :: b) k = addResult b k := by
  rw [addResult, addResult, List.dlookup_cons_ne _ _ h]

theorem addResult_cons_self {b : Bucket CString Bytes} {e : Σ _ : CString, Bytes} :
    addResult (e :: b) e.1 = 1 :=
  if_pos (List.dlookup_isSome.2 (by simp))

/-- A key below the head of a sorted bucket is bound nowhere in it. -/
theorem addResult_of_lt {b : Bucket CString Bytes} {e : Σ _ : CString, Bytes} {k : CString}
    (hsorted : Bucket.Sorted (e :: b)) (h : k < e.1) : addResult (e :: b) k = 0 := by
  refine if_neg fun hsome => ?_
  obtain ⟨v, hv⟩ := List.exists_of_mem_keys (List.dlookup_isSome.1 hsome)
  rcases List.mem_cons.1 hv with rfl | hv
  · exact lt_irrefl _ h
  · exact lt_asymm h ((List.pairwise_cons.1 hsorted).1 _ hv)

/-- The size grows with the chain, whichever of the three exits is taken. -/
theorem listAddLoop_ofBucket {b : Bucket CString Bytes} (hsorted : b.Sorted) (k : CString)
    (v : Bytes) (size : Int) :
    listAddLoop (.ofPair ⟨k, v⟩) (b.map Entry.ofPair) size =
      ((b.insert k v).map Entry.ofPair, size + ((b.insert k v).length - b.length),
        addResult b k) := by
  induction b with
  | nil => simp [listAddLoop, Bucket.insert, addResult]
  | cons e b ih =>
    obtain ⟨herr, heq, hlt⟩ := entryCompare_cases ⟨k, v⟩ e
    simp only at herr heq hlt
    simp only [List.map_cons, listAddLoop, herr, heq, hlt, if_false, Bucket.insert]
    by_cases hk : k = e.1
    · subst hk
      simp [addResult_cons_self]
    · by_cases hk' : k < e.1
      · simp [hk, hk', addResult_of_lt hsorted hk']
      · have htail : Bucket.Sorted b := (List.pairwise_cons.1 hsorted).2
        simp [hk, hk', ih htail, addResult_cons hk]

/-- `list_add` inserts into the bucket. -/
theorem listAdd_ofBucket {b : Bucket CString Bytes} (hsorted : b.Sorted) (k : CString)
    (v : Bytes) :
    listAdd (.ofBucket b) (some (.ofPair ⟨k, v⟩)) = (.ofBucket (b.insert k v), addResult b k) := by
  cases b with
  | nil => simp [listAdd, Bucket.insert, addResult, ListT.ofBucket]
  | cons e b =>
    obtain ⟨herr, heq, hlt⟩ := entryCompare_cases ⟨k, v⟩ e
    simp only at herr heq hlt
    simp only [listAdd, ListT.head_ofBucket, List.map_cons, herr, heq, hlt, if_false, Bucket.insert]
    by_cases hk : k = e.1
    · subst hk
      simp [addResult_cons_self, ListT.ofBucket]
    · by_cases hk' : k < e.1
      · simp [hk, hk', addResult_of_lt hsorted hk', ListT.ofBucket]
      · have htail : Bucket.Sorted b := (List.pairwise_cons.1 hsorted).2
        simp only [hk, hk', if_false, listAddLoop_ofBucket htail, addResult_cons hk]
        simp only [ListT.ofBucket, List.map_cons, List.length_cons, Prod.mk.injEq, ListT.mk.injEq,
          and_true]
        push_cast
        omega

/-- What `list_remove` returns on a bucket: 0 when the key was bound. -/
def removeResult (b : Bucket CString Bytes) (k : CString) : Int :=
  if (b.dlookup k).isSome then 0 else 1

theorem listRemoveLoop_ofBucket (b : Bucket CString Bytes) (k : CString) (size : Int) :
    listRemoveLoop k (b.map Entry.ofPair) size =
      .ok ((b.kerase k).map Entry.ofPair, size - (b.length - (b.kerase k).length),
        removeResult b k) := by
  induction b with
  | nil => simp [listRemoveLoop, removeResult]
  | cons e b ih =>
    simp only [List.map_cons, listRemoveLoop, Entry.key_ofPair, deref_some, entryDestroy_ofPair,
      CString.strcmp_eq_zero_iff, ih]
    by_cases hk : e.1 = k
    · subst hk
      have hsome : (List.dlookup e.1 (e :: b)).isSome := List.dlookup_isSome.2 (by simp)
      simp [removeResult, hsome, List.kerase_cons_eq]
    · have hk' : k ≠ e.1 := Ne.symm hk
      simp [removeResult, hk, List.dlookup_cons_ne _ _ hk', List.kerase_cons_ne hk']

/-- `list_remove` erases from the bucket. -/
theorem listRemove_ofBucket (b : Bucket CString Bytes) (k : CString) :
    listRemove (.ofBucket b) (some k) = .ok (.ofBucket (b.kerase k), removeResult b k) := by
  cases b with
  | nil => rfl
  | cons e b =>
    simp only [listRemove, ListT.head_ofBucket, List.map_cons, Entry.key_ofPair, deref_some,
      entryDestroy_ofPair, CString.strcmp_eq_zero_iff, listRemoveLoop_ofBucket]
    by_cases hk : e.1 = k
    · subst hk
      have hsome : (List.dlookup e.1 (e :: b)).isSome := List.dlookup_isSome.2 (by simp)
      simp [removeResult, hsome, List.kerase_cons_eq, ListT.ofBucket]
    · have hk' : k ≠ e.1 := Ne.symm hk
      simp [removeResult, hk, List.dlookup_cons_ne _ _ hk', List.kerase_cons_ne hk',
        ListT.ofBucket]
      omega

/-- `list_get` finds the entry of a bound key. -/
theorem listGet_ofBucket (b : Bucket CString Bytes) (k : CString) :
    listGet (.ofBucket b) (some k) =
      .ok ((b.dlookup k).map fun v => Entry.ofPair ⟨k, v⟩) := by
  change listGetLoop k (b.map Entry.ofPair) = _
  induction b with
  | nil => rfl
  | cons e b ih =>
    simp only [List.map_cons, listGetLoop, Entry.key_ofPair, deref_some,
      CString.strcmp_eq_zero_iff, ih]
    by_cases hk : e.1 = k
    · obtain ⟨k', v⟩ := e
      obtain rfl : k' = k := hk
      simp
    · simp [hk, List.dlookup_cons_ne _ _ (Ne.symm hk)]

private theorem foldl_count {α : Type} (xs : List α) (n : Int) :
    xs.foldl (fun count _ => count + 1) n = n + xs.length := by
  induction xs generalizing n with
  | nil => simp
  | cons x xs ih =>
    rw [List.foldl_cons, ih]
    push_cast [List.length_cons]
    omega

@[simp] theorem listSize_ofBucket (b : Bucket CString Bytes) :
    listSize (.ofBucket b) = b.length := by
  rw [listSize, foldl_count]
  simp

private theorem listGetKeysLoop_ofBucket (b : Bucket CString Bytes) (done : List CString) (n : ℕ)
    (hn : done.length + b.length ≤ n) :
    listGetKeysLoop (b.map Entry.ofPair) (filled done n) done.length =
      .ok (filled (done ++ b.keys) n, done.length + b.length) := by
  induction b generalizing done with
  | nil => simp [listGetKeysLoop]
  | cons e b ih =>
    rw [List.length_cons] at hn
    have hstore : store (filled done n) done.length (some e.1) = .ok (filled (done ++ [e.1]) n) :=
      store_filled (by omega) e.1
    have ih := ih (done ++ [e.1]) (by rw [List.length_append, List.length_singleton]; omega)
    rw [List.length_append, List.length_singleton] at ih
    simp only [List.map_cons, listGetKeysLoop, Entry.key_ofPair, deref_some, hstore, C.ok_bind]
    rw [ih]
    simp only [List.append_assoc, List.singleton_append, List.keys_cons, List.length_cons,
      Except.ok.injEq, Prod.mk.injEq, true_and]
    omega

/-- `list_get_keys` gives the keys in order, with a `NULL` after the last. -/
theorem listGetKeys_ofBucket (b : Bucket CString Bytes) :
    listGetKeys (.ofBucket b) =
      .ok (if b = [] then none else some (b.keys.map some ++ [none])) := by
  cases b with
  | nil => rfl
  | cons e b =>
    have hsize : ((ListT.ofBucket (e :: b)).size + 1).toNat = (e :: b).length + 1 := by
      rw [ListT.size_ofBucket]
      omega
    have hloop := listGetKeysLoop_ofBucket (e :: b) [] ((e :: b).length + 1) (by simp)
    simp only [filled_nil, List.length_nil, List.nil_append, Nat.zero_add] at hloop
    have hkeys : (e :: b).length + 1 = (List.keys (e :: b)).length + 1 := by
      rw [List.keys, List.length_map]
    have hlast : store (filled (List.keys (e :: b)) ((e :: b).length + 1)) (e :: b).length none =
        .ok ((List.keys (e :: b)).map some ++ [none]) := by
      rw [hkeys, filled_length_succ, store, if_pos (by simp [List.keys]),
        List.set_append_right _ _ (by simp [List.keys])]
      simp [List.keys]
    simp only [listGetKeys, ListT.head_ofBucket, List.map_cons, hsize]
    rw [← List.map_cons, hloop]
    simp only [C.ok_bind]
    rw [hlast]
    rfl

end ChainTable
