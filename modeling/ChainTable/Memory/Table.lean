-- SUMMARY: table.c on blocks of memory: that a table owns its lists and nothing else, and does what the store does that it holds.
import ChainTable.Memory.List
import ChainTable.Store.Refinement

open Base Base.Mem Base.Assertion

/-!
# The hash table in memory

The operations of table.c with their copies. `table_put` and `table_get` copy what goes in and
out, and the listings are copies too, so that a table shares no memory with its callers. One
copy is not released: the key of a put whose value `data_dup` refuses.
-/

namespace ChainTable

namespace Memory

/-! ## table.c -/

/-- `hash_code`, of the string at an address. -/
def hashCode (key : Ptr) (n : Int32) : M Int32 := do
  let s : CString ← peek key
  pure (ChainTable.hashCode s n)

/-- `table->lists[i]`, for an `int`. -/
def tableList (table : Ptr) (i : Int) : M Ptr := do
  let t : TableT ← peek table
  if i < 0 then fault else slot t.lists i.toNat

def tableDestroyLoop (table : Ptr) (i : ℕ) : M (Round ℕ Int) := do
  let t : TableT ← peek table
  if (i : Int) < t.size.toInt then
    let list ← tableList table i
    let ret ← listDestroy list
    if ret ≠ 0 then pure (.done 1) else pure (.next (i + 1))
  else pure (.done 0)

def tableDestroy (table : Ptr) : M Int :=
  if table = 0 then pure (-1)
  else do
    let status ← loop (tableDestroyLoop table) 0
    if status ≠ 0 then pure status
    else
      let t : TableT ← peek table
      free t.lists
      free table
      pure 0

/-- A round of `table_create`. It gives up when a list cannot be created. -/
def tableCreateLoop (n : Int32) (table : Ptr) (i : ℕ) : M (Round ℕ Ptr) :=
  if (i : Int) < n.toInt then do
    let list ← listCreate
    let t : TableT ← peek table
    setSlot t.lists i list
    if list = 0 then
      let _ ← tableDestroy table
      pure (.done 0)
    else pure (.next (i + 1))
  else pure (.done table)

def tableCreate (n : Int32) : M Ptr :=
  if n ≤ 0 then pure 0
  else do
    let table ← malloc (⟨0, 0⟩ : TableT)
    update table fun t : TableT => { t with size := n }
    let lists ← callocPointers n.toInt.toNat
    update table fun t : TableT => { t with lists := lists }
    loop (tableCreateLoop n table) 0

def tablePut (table key value : Ptr) : M Int :=
  if table = 0 ∨ key = 0 ∨ value = 0 then pure (-1)
  else do
    let t : TableT ← peek table
    let index ← hashCode key t.size
    let dupKey ← strdup key
    let dupValue ← dataDup value
    let entry ← entryCreate dupKey dupValue
    let list ← tableList table index.toInt
    let result ← listAdd list entry
    if result = 1 then pure 0 else pure result

def tableGet (table key : Ptr) : M Ptr :=
  if table = 0 ∨ key = 0 then pure 0
  else do
    let t : TableT ← peek table
    let index ← hashCode key t.size
    let list ← tableList table index.toInt
    let entry ← listGet list key
    if entry = 0 then pure 0
    else
      let e : EntryT ← peek entry
      dataDup e.value

def tableRemove (table key : Ptr) : M Int :=
  if table = 0 ∨ key = 0 then pure (-1)
  else do
    let t : TableT ← peek table
    let index ← hashCode key t.size
    let list ← tableList table index.toInt
    listRemove list key

def tableSizeLoop (table : Ptr) : Int × ℕ → M (Round (Int × ℕ) Int)
  | (entryCount, i) => do
    let t : TableT ← peek table
    if (i : Int) < t.size.toInt then
      let list ← tableList table i
      let result ← listSize list
      if result = -1 then pure (.done result) else pure (.next (entryCount + result, i + 1))
    else pure (.done entryCount)

/-- `table_size` looks into the table before it looks whether there is one. -/
def tableSize (table : Ptr) : M Int := do
  let t : TableT ← peek table
  if t.size = 0 ∨ table = 0 then pure (-1) else loop (tableSizeLoop table) (0, 0)

/-- A round of the inner loop of `table_get_keys`, which counts the list anew each time. -/
def copyKeysLoop (table listKeys keyArr : Ptr) (i : ℕ) : ℕ × ℕ → M (Round (ℕ × ℕ) ℕ)
  | (writeIndex, j) => do
    let list ← tableList table i
    let size ← listSize list
    if (j : Int) < size then
      let key ← slot listKeys j
      let copy ← strdup key
      setSlot keyArr writeIndex copy
      pure (.next (writeIndex + 1, j + 1))
    else pure (.done writeIndex)

def tableGetKeysLoop (table keyArr : Ptr) : ℕ × ℕ → M (Round (ℕ × ℕ) Unit)
  | (writeIndex, i) => do
    let t : TableT ← peek table
    if (i : Int) < t.size.toInt then
      let list ← tableList table i
      let listKeys ← listGetKeys list
      if listKeys = 0 then pure (.next (writeIndex, i + 1))
      else
        let writeIndex ← loop (copyKeysLoop table listKeys keyArr i) (writeIndex, 0)
        let _ ← listFreeKeys listKeys
        pure (.next (writeIndex, i + 1))
    else pure (.done ())

def tableGetKeys (table : Ptr) : M Ptr :=
  if table = 0 then pure 0
  else do
    let size ← tableSize table
    let keyArr ← callocPointers (size + 1).toNat
    loop (tableGetKeysLoop table keyArr) (0, 0)
    pure keyArr

/-- The copy of an entry in `table_get_entries`. -/
def copyEntry (entriesArr : Ptr) (c : ℕ) (entry : Ptr) : M Unit := do
  let e : EntryT ← peek entry
  let v : DataT ← peek e.value
  let copy ← malloc (⟨0, 0⟩ : EntryT)
  setSlot entriesArr c copy
  let key ← strdup e.key
  update copy fun t : EntryT => { t with key := key }
  let value ← malloc (⟨0, 0⟩ : DataT)
  update copy fun t : EntryT => { t with value := value }
  update value fun t : DataT => { t with datasize := v.datasize }
  let data ← mallocBytes v.datasize.toNat
  update value fun t : DataT => { t with data := data }
  memcpy data v.data v.datasize

def copyEntriesLoop (entriesArr : Ptr) : ℕ × Ptr → M (Round (ℕ × Ptr) ℕ)
  | (c, node) =>
    if node = 0 then pure (.done c)
    else do
      let n : NodeT ← peek node
      copyEntry entriesArr c n.entry
      pure (.next (c + 1, n.next))

def tableGetEntriesLoop (table entriesArr : Ptr) : ℕ × ℕ → M (Round (ℕ × ℕ) Ptr)
  | (c, i) => do
    let t : TableT ← peek table
    if (i : Int) < t.size.toInt then
      let list ← tableList table i
      if list = 0 then pure (.done 0)
      else
        let l : ListT ← peek list
        let c ← loop (copyEntriesLoop entriesArr) (c, l.head)
        pure (.next (c, i + 1))
    else pure (.done entriesArr)

def tableGetEntries (table : Ptr) : M Ptr :=
  if table = 0 then pure 0
  else do
    let size ← tableSize table
    let entriesArr ← callocPointers (size + 1).toNat
    loop (tableGetEntriesLoop table entriesArr) (0, 0)

def tableFreeKeys (keys : Ptr) : M Int :=
  if keys = 0 then pure (-1)
  else do
    loop (freeKeysLoop keys) 0
    free keys
    pure 0

/-! ## What a table owns -/

/-- A table with the lists of a store. -/
def TableAt (p : Ptr) (s : Store) : Owns :=
  ⨆ x : Ptr × List Ptr,
    pointsTo p (⟨x.1, s.size⟩ : TableT) * (pointsTo x.1 x.2 * each ListAt x.2 s.buckets)

instance opensTable (p : Ptr) (s : Store) : Opens (TableAt p s) fun x : Ptr × List Ptr =>
    pointsTo p (⟨x.1, s.size⟩ : TableT) * (pointsTo x.1 x.2 * each ListAt x.2 s.buckets) := ⟨rfl⟩

instance nonNullTable (p : Ptr) (s : Store) : NonNull (TableAt p s) p :=
  nonNull_iSup fun _ => inferInstance

/-! ## The lists of a table -/

/-- A table with an array of lists. -/
abbrev ArrayOf (table lists : Ptr) (size : Int32) (ps : List Ptr) : Owns :=
  pointsTo table (⟨lists, size⟩ : TableT) * pointsTo lists ps

theorem tableList_spec (table lists : Ptr) (size : Int32) {ps : List Ptr} {i : ℕ} {p : Ptr}
    (hp : ps[i]? = some p) :
    Triple (ArrayOf table lists size ps) (tableList table i)
      (returning p (ArrayOf table lists size ps)) := by
  refine Triple.peek ?_
  rw [if_neg (by omega)]
  exact Triple.lastReturning (slot_spec lists (by simpa using hp)) le_of_frames

section Loops

variable {size : Int32}

/-- The first of the lists that a loop has not yet seen. -/
private theorem next_list (front ps : List Ptr) (p : Ptr)
    (hsize : ((front ++ p :: ps).length : Int) = size.toInt) :
    (front.length : Int) < size.toInt ∧ (front ++ p :: ps)[front.length]? = some p := by
  rw [List.length_append, List.length_cons] at hsize
  exact ⟨by omega, by simp⟩

theorem tableDestroyLoop_spec (table lists : Ptr) (front ps : List Ptr) (bs : Buckets CString Bytes)
    (hsize : ((front ++ ps).length : Int) = size.toInt) :
    Triple (ArrayOf table lists size (front ++ ps) * each ListAt ps bs)
      (loop (tableDestroyLoop table) front.length)
      (returning 0 (ArrayOf table lists size (front ++ ps))) := by
  induction ps generalizing front bs with
  | nil =>
    refine Triple.eachNil ListAt bs ?_
    rintro rfl
    refine Triple.loop ?_
    rw [List.append_nil] at hsize ⊢
    simp only [tableDestroyLoop, bind_assoc]
    refine Triple.peek ?_
    simp only [if_neg (not_lt.2 hsize.ge), pure_bind]
    exact Triple.returning le_of_frames
  | cons p ps ih =>
    refine Triple.eachCons ListAt p ps bs ?_
    rintro b bs rfl
    refine Triple.loop ?_
    obtain ⟨hlt, hp⟩ := next_list front ps p hsize
    simp only [tableDestroyLoop, bind_assoc]
    refine Triple.peek ?_
    simp only [if_pos hlt, bind_assoc]
    refine Triple.callReturning (tableList_spec table lists size hp) ?_
    refine Triple.callReturning (listDestroy_spec p b) ?_
    rw [if_neg (not_not.2 rfl), pure_bind]
    have ih := ih (front ++ [p]) bs (by rwa [← List.append_cons])
    rw [← List.append_cons, List.length_append, List.length_singleton] at ih
    exact Triple.lastReturning ih le_of_frames

theorem tableSizeLoop_spec (table lists : Ptr) (front ps : List Ptr)
    (bs : Buckets CString Bytes) (count : Int)
    (hsize : ((front ++ ps).length : Int) = size.toInt) :
    Triple (ArrayOf table lists size (front ++ ps) * each ListAt ps bs)
      (loop (tableSizeLoop table) (count, front.length))
      (returning (count + bs.flatten.length)
        (ArrayOf table lists size (front ++ ps) * each ListAt ps bs)) := by
  induction ps generalizing front bs count with
  | nil =>
    refine Triple.eachNil ListAt bs ?_
    rintro rfl
    refine Triple.loop ?_
    rw [List.append_nil] at hsize ⊢
    simp only [tableSizeLoop, bind_assoc]
    refine Triple.peek ?_
    simp only [if_neg (not_lt.2 hsize.ge), pure_bind, List.flatten_nil, List.length_nil,
      Nat.cast_zero, add_zero]
    exact Triple.returning le_of_frames
  | cons p ps ih =>
    refine Triple.eachCons ListAt p ps bs ?_
    rintro b bs rfl
    refine Triple.loop ?_
    obtain ⟨hlt, hp⟩ := next_list front ps p hsize
    simp only [tableSizeLoop, bind_assoc]
    refine Triple.peek ?_
    simp only [if_pos hlt, bind_assoc]
    refine Triple.callReturning (tableList_spec table lists size hp) ?_
    refine Triple.callReturning (listSize_spec b p) ?_
    have hcount : count + ((b :: bs).flatten.length : ℕ) =
      count + b.length + bs.flatten.length := by
      rw [List.flatten_cons, List.length_append]
      omega
    rw [if_neg (by omega), pure_bind, hcount]
    have ih := ih (front ++ [p]) bs (count + b.length) (by rwa [← List.append_cons])
    rw [← List.append_cons, List.length_append, List.length_singleton] at ih
    exact Triple.lastReturning ih le_of_frames

end Loops

theorem tableDestroy_spec (p : Ptr) (s : Store) :
    Triple (TableAt p s) (tableDestroy p) (returning 0 1) := by
  refine Triple.ne_zero p fun hp => ?_
  rw [tableDestroy, if_neg hp]
  refine Triple.opens fun x => ?_
  refine Triple.learn (each_length (A := ListAt) x.2 s.buckets).le fun hlength => ?_
  have hloop := tableDestroyLoop_spec p x.1 [] x.2 s.buckets
    (hlength ▸ s.sized)
  rw [List.nil_append] at hloop
  refine Triple.callReturning hloop ?_
  rw [if_neg (not_not.2 rfl)]
  exact Triple.peek (Triple.free (Triple.free (Triple.returning le_of_frames)))

theorem tableSize_spec (p : Ptr) (s : Store) :
    Triple (TableAt p s) (tableSize p) (returning (s.entries.length : Int) (TableAt p s)) := by
  refine Triple.ne_zero p fun hp => Triple.opens fun x => Triple.peek ?_
  have hpos : s.size ≠ 0 := by
    rintro hzero
    have := s.pos
    rw [hzero] at this
    exact absurd this (by decide)
  rw [if_neg (not_or.2 ⟨hpos, hp⟩)]
  refine Triple.learn (each_length (A := ListAt) x.2 s.buckets).le fun hlength => ?_
  have hloop := tableSizeLoop_spec p x.1 [] x.2 s.buckets 0 (hlength ▸ s.sized)
  rw [zero_add, List.nil_append] at hloop
  exact Triple.lastReturning hloop (fold_le (TableAt p s) x le_of_frames)

/-! ## Creating -/

theorem tableCreateLoop_spec (n : Int32) (table lists : Ptr) (ps : List Ptr) (m : ℕ)
    (hn : ((ps.length + m : ℕ) : Int) = n.toInt) :
    Triple (ArrayOf table lists n (ps ++ List.replicate m 0) *
        each ListAt ps (List.replicate ps.length []))
      (loop (tableCreateLoop n table) ps.length)
      (returning table (⨆ ps' : List Ptr,
        ArrayOf table lists n ps' * each ListAt ps' (List.replicate (ps.length + m) []))) := by
  induction m generalizing ps with
  | zero =>
    refine Triple.loop ?_
    have hend : ¬ ((ps.length : ℕ) : Int) < n.toInt := by omega
    rw [tableCreateLoop, if_neg hend, pure_bind, List.replicate_zero, List.append_nil, Nat.add_zero]
    exact Triple.returning (le_of_opens ps)
  | succ m ih =>
    refine Triple.loop ?_
    have hlt : ((ps.length : ℕ) : Int) < n.toInt := by omega
    simp only [tableCreateLoop, if_pos hlt, bind_assoc]
    refine Triple.call listCreate_spec fun list => Triple.peek ?_
    refine Triple.call (setSlot_next lists ps m list) fun _ => Triple.ne_zero list fun hlist => ?_
    rw [if_neg hlist, pure_bind]
    have hnext : (ps ++ [list]).length = ps.length + 1 := by simp
    have hcount : ps.length + (m + 1) = (ps ++ [list]).length + m := by omega
    have ih := ih (ps ++ [list]) (by omega)
    rw [hcount]
    have heach : each ListAt (ps ++ [list]) (List.replicate (ps ++ [list]).length []) =
        each ListAt ps (List.replicate ps.length []) * (ListAt list [] * 1) := by
      rw [hnext, List.replicate_succ', each_append _ _ _ _ (by simp)]
      rfl
    rw [heach, hnext] at ih
    rw [hnext]
    exact Triple.lastReturning ih le_of_frames

theorem tableCreate_spec {n : Int32} (hn : 0 < n) :
    Triple 1 (tableCreate n) (fun p => TableAt p (Store.create n hn)) := by
  rw [tableCreate, if_neg (Int32.not_le.2 hn)]
  refine Triple.malloc fun table => Triple.update ?_
  refine Triple.malloc fun lists => Triple.update ?_
  have hcount : ((n.toInt.toNat : ℕ) : Int) = n.toInt :=
    Int.toNat_of_nonneg (Int32.lt_iff_toInt_lt.1 hn).le
  have hloop := tableCreateLoop_spec n table lists [] n.toInt.toNat (by simpa using hcount)
  rw [List.nil_append, List.length_nil, Nat.zero_add, List.replicate_zero] at hloop
  refine Triple.last hloop fun p => ?_
  rw [returning, mul_assoc]
  refine opens_le fun hp => opens_le fun ps => ?_
  rw [hp, mul_one, mul_assoc]
  exact le_iSup_of_le (lists, ps) le_rfl

/-! ## The list of a key -/

theorem hashCode_spec (p : Ptr) (k : CString) (n : Int32) :
    Triple (StringAt p k) (hashCode p n) (returning (ChainTable.hashCode k n) (StringAt p k)) :=
  Triple.peek (Triple.returning le_rfl)

theorem bucketOf_cast {n : Int32} (hn : 0 < n) (k : CString) :
    ((bucketOf n k : ℕ) : Int) = (ChainTable.hashCode k n).toInt :=
  Int.toNat_of_nonneg (hashCode_range k hn).1

/-- What a table owns is the list of a key and the rest, which is as well the rest of any store
    with another bucket for this key. -/
theorem openTable (p : Ptr) (s : Store) (k : CString) {P R : Owns} {α : Type} {q : M α}
    {Q : α → Owns} [hP : Frames P (TableAt p s) R]
    (h : ∀ lists ps list rest, ps[bucketOf s.size k]? = some list →
      (∀ (s' : Store) (b : Bucket CString Bytes), s'.size = s.size →
        s'.buckets = s.buckets.set (bucketOf s.size k) b →
        ArrayOf p lists s.size ps * (ListAt list b * rest) ≤ TableAt p s') →
      Triple (ArrayOf p lists s.size ps * (ListAt list (s.bucket k) * rest) * R) q Q) :
    Triple P q Q := by
  refine Triple.expose (TableAt p s) fun x => ?_
  refine Triple.learn (each_length (A := ListAt) x.2 s.buckets).le fun hlength => ?_
  have hlt : bucketOf s.size k < x.2.length := hlength ▸ s.placed.inRange k
  have hp : x.2[bucketOf s.size k]? = some x.2[bucketOf s.size k] := List.getElem?_eq_getElem hlt
  have hopen := h x.1 x.2 _ _ hp fun s' b hsize hbuckets => by
    rw [← each_set b hp hlength, ← hbuckets, ← hsize, mul_assoc]
    exact le_iSup_of_le x le_rfl
  rwa [← each_get hp (s.getElem?_bucket k) hlength, ArrayOf, mul_assoc (pointsTo p _)] at hopen

theorem set_bucket (s : Store) (k : CString) :
    s.buckets = s.buckets.set (bucketOf s.size k) (s.bucket k) := by
  rw [Store.bucket, List.get_eq_getElem, List.set_getElem_self]

/-! ## Putting, getting and removing -/

section

variable (p q r : Ptr) (s : Store) (k : CString)

/-- A put of a usable block binds a copy of it to a copy of the key. -/
theorem tablePut_spec {d : Data} {b : Bytes} (hb : d.bytes = some b) :
    Triple (TableAt p s * (StringAt q k * DataAt r d)) (tablePut p q r)
      (returning 0 (TableAt p (s.put k b (Data.bytes_ne_nil hb)) * (StringAt q k * DataAt r d))) := by
  refine Triple.ne_zero p fun hp => Triple.ne_zero q fun hq => Triple.ne_zero r fun hr => ?_
  rw [tablePut, if_neg (by simp [hp, hq, hr])]
  refine openTable p s k fun lists ps list rest hlist hclose => Triple.peek ?_
  refine Triple.callReturning (hashCode_spec q k s.size) ?_
  refine Triple.call (strdup_spec q k) fun dupKey => ?_
  refine Triple.call (dataDup_some_spec r d) fun dupValue => ?_
  rw [hb, Option.map_some, nullable_some]
  refine Triple.call (entryCreate_pair dupKey dupValue k b) fun e => ?_
  rw [← bucketOf_cast s.pos k]
  refine Triple.callReturning (tableList_spec p lists s.size hlist) ?_
  refine Triple.callReturning (listAdd_spec (s.sorted_bucket k) list e k b) ?_
  refine Triple.weaken (hclose (s.put k b (Data.bytes_ne_nil hb)) _ rfl rfl) ?_
  -- both values that `list_add` returns for an accepted entry become 0
  by_cases hbound : ((s.bucket k).dlookup k).isSome
  · rw [addResult, if_pos hbound, if_pos rfl]
    exact Triple.returning le_of_frames
  · rw [addResult, if_neg hbound, if_neg (by decide)]
    exact Triple.returning le_of_frames

/-- A put of a block that cannot be duplicated is refused, and the copy of the key is lost. -/
theorem tablePut_spec_reject {d : Data} (hb : d.bytes = none) :
    Triple (TableAt p s * (StringAt q k * DataAt r d)) (tablePut p q r)
      (returning (-1) ((⨆ dupKey : Ptr, StringAt dupKey k) *
        (TableAt p s * (StringAt q k * DataAt r d)))) := by
  refine Triple.ne_zero p fun hp => Triple.ne_zero q fun hq => Triple.ne_zero r fun hr => ?_
  rw [tablePut, if_neg (by simp [hp, hq, hr])]
  refine openTable p s k fun lists ps list rest hlist hclose => Triple.peek ?_
  refine Triple.callReturning (hashCode_spec q k s.size) ?_
  refine Triple.call (strdup_spec q k) fun dupKey => ?_
  refine Triple.call (dataDup_some_spec r d) fun dupValue => ?_
  rw [hb, Option.map_none, nullable_none]
  refine Triple.expose (lift (dupValue = 0)) fun hvalue => ?_
  rw [entryCreate, if_pos (.inr hvalue), pure_bind, ← bucketOf_cast s.pos k]
  refine Triple.callReturning (tableList_spec p lists s.size hlist) ?_
  rw [listAdd, if_pos (.inr rfl), pure_bind, if_neg (by decide)]
  refine Triple.weaken (hclose s _ rfl (set_bucket s k)) ?_
  refine Triple.fold (⨆ dupKey : Ptr, StringAt dupKey k) dupKey ?_
  exact Triple.returning le_of_frames

/-- A get gives a copy of the block that is bound. -/
theorem tableGet_spec :
    Triple (TableAt p s * StringAt q k) (tableGet p q) (fun r =>
      nullable DataAt r ((s.map.lookup k).map Data.ofBytes) * (TableAt p s * StringAt q k)) := by
  refine Triple.ne_zero p fun hp => Triple.ne_zero q fun hq => ?_
  rw [tableGet, if_neg (not_or.2 ⟨hp, hq⟩)]
  refine openTable p s k fun lists ps list rest hlist hclose => Triple.peek ?_
  refine Triple.callReturning (hashCode_spec q k s.size) ?_
  rw [← bucketOf_cast s.pos k]
  refine Triple.callReturning (tableList_spec p lists s.size hlist) ?_
  refine Triple.call (listGet_spec (s.bucket k) list q k) fun e => ?_
  have hclose := hclose s _ rfl (set_bucket s k)
  rw [← Store.lookup_map]
  cases hlookup : s.map.lookup k with
  | none =>
    rw [Lent]
    refine Triple.expose (lift (e = 0)) fun he => ?_
    rw [if_pos he, Option.map_none]
    exact Triple.weaken hclose Triple.return'
  | some v =>
    have hv : (Data.ofBytes v).bytes = some v := Data.bytes_ofBytes (s.lookup_ne_nil hlookup)
    rw [Lent]
    refine Triple.ne_zero e fun he => ?_
    rw [if_neg he]
    refine Triple.expose (PairAt e ⟨k, v⟩) fun t => Triple.peek ?_
    refine Triple.last (dataDup_some_spec t.value (.ofBytes v)) fun r => ?_
    rw [hv]
    refine fold_le (PairAt e ⟨k, v⟩) t ?_
    refine weaken_le (borrowed_le (PairAt e ⟨k, v⟩) (ListAt list (s.bucket k))) ?_
    exact weaken_le hclose le_of_frames

theorem tableRemove_spec :
    Triple (TableAt p s * StringAt q k) (tableRemove p q)
      (returning (if k ∈ s.map then 0 else 1) (TableAt p (s.remove k) * StringAt q k)) := by
  refine Triple.ne_zero p fun hp => Triple.ne_zero q fun hq => ?_
  rw [tableRemove, if_neg (not_or.2 ⟨hp, hq⟩)]
  refine openTable p s k fun lists ps list rest hlist hclose => Triple.peek ?_
  refine Triple.callReturning (hashCode_spec q k s.size) ?_
  rw [← bucketOf_cast s.pos k]
  refine Triple.callReturning (tableList_spec p lists s.size hlist) ?_
  have hresult : removeResult (s.bucket k) k = if k ∈ s.map then 0 else 1 := by
    simp only [removeResult, ← Store.lookup_map, Finmap.lookup_isSome]
  rw [← hresult]
  refine Triple.lastReturning (listRemove_spec (s.bucket k) list q k) ?_
  exact weaken_le (hclose (s.remove k) _ rfl rfl) le_of_frames

end

/-! ## Listing -/

section Listing

variable (table lists : Ptr) (size : Int32)

/-- The keys of a list's array that are still to be copied are copied. -/
theorem copyKeysLoop_spec (pls : List Ptr) {i : ℕ} {list : Ptr} (hlist : pls[i]? = some list)
    (b : Bucket CString Bytes) (listKeys keyArr : Ptr) (front ps done : List Ptr)
    (keys : List CString) (m : ℕ) (hb : front.length + ps.length = b.length) :
    Triple (ArrayOf table lists size pls *
      (ListAt list b * (pointsTo listKeys (front ++ ps ++ [0]) *
        (each StringAt ps keys * pointsTo keyArr (done ++ List.replicate (ps.length + m) 0)))))
      (loop (copyKeysLoop table listKeys keyArr i) (done.length, front.length))
      (returning (done.length + ps.length) (⨆ copies : List Ptr, ArrayOf table lists size pls *
        (ListAt list b * (pointsTo listKeys (front ++ ps ++ [0]) * (each StringAt ps keys *
          (pointsTo keyArr (done ++ copies ++ List.replicate m 0) * each StringAt copies keys)))))) := by
  induction ps generalizing front done keys with
  | nil =>
    refine Triple.eachNil StringAt keys ?_
    rintro rfl
    refine Triple.loop ?_
    simp only [copyKeysLoop, bind_assoc]
    refine Triple.callReturning (tableList_spec table lists size hlist) ?_
    refine Triple.callReturning (listSize_spec b list) ?_
    rw [List.length_nil, Nat.add_zero] at hb
    rw [if_neg (by omega), pure_bind, List.length_nil, Nat.add_zero, Nat.zero_add]
    refine Triple.returning (le_iSup_of_le [] ?_)
    rw [List.append_nil done]
    exact le_of_frames
  | cons p ps ih =>
    refine Triple.eachCons StringAt p ps keys ?_
    rintro key keys rfl
    refine Triple.loop ?_
    simp only [copyKeysLoop, bind_assoc]
    refine Triple.callReturning (tableList_spec table lists size hlist) ?_
    refine Triple.callReturning (listSize_spec b list) ?_
    rw [List.length_cons] at hb
    have hslot : (front ++ p :: ps ++ [0])[front.length]? = some p := by simp
    have hroom : (p :: ps).length + m = ps.length + m + 1 := by
      rw [List.length_cons]
      omega
    simp only [if_pos (show (front.length : Int) < b.length by omega), bind_assoc, pure_bind, hroom]
    refine Triple.callReturning (slot_spec listKeys hslot) ?_
    refine Triple.call (strdup_spec p key) fun copy => ?_
    refine Triple.call (setSlot_next keyArr done (ps.length + m) copy) fun _ => ?_
    have hcount : done.length + (p :: ps).length = (done ++ [copy]).length + ps.length := by
      simp only [List.length_append, List.length_cons, List.length_nil]
      omega
    have hnext : (done ++ [copy]).length = done.length + 1 := by simp
    have hfront : (front ++ [p]).length = front.length + 1 := by simp
    have ih := ih (front ++ [p]) (done ++ [copy]) keys (by omega)
    rw [← List.append_cons front p ps, hfront] at ih
    rw [hcount, ← hnext]
    refine Triple.lastReturning ih (opens_le fun copies => le_iSup_of_le (copy :: copies) ?_)
    rw [List.append_cons done copy copies]
    exact le_of_frames

theorem tableGetKeysLoop_spec (keyArr : Ptr) (front ps done : List Ptr) (bs : Buckets CString Bytes)
    (m : ℕ) (hsize : ((front ++ ps).length : Int) = size.toInt) :
    Triple (ArrayOf table lists size (front ++ ps) * (each ListAt ps bs *
        pointsTo keyArr (done ++ List.replicate (bs.flatten.length + m) 0)))
      (loop (tableGetKeysLoop table keyArr) (done.length, front.length))
      (fun _ => ⨆ copies : List Ptr, ArrayOf table lists size (front ++ ps) * (each ListAt ps bs *
        (pointsTo keyArr (done ++ copies ++ List.replicate m 0) *
          each StringAt copies bs.flatten.keys))) := by
  induction ps generalizing front done bs with
  | nil =>
    refine Triple.eachNil ListAt bs ?_
    rintro rfl
    refine Triple.loop ?_
    rw [List.append_nil] at hsize ⊢
    simp only [tableGetKeysLoop, bind_assoc]
    refine Triple.peek ?_
    simp only [if_neg (not_lt.2 hsize.ge), pure_bind, List.flatten_nil,
      List.length_nil, Nat.zero_add]
    refine Triple.ret (le_iSup_of_le [] ?_)
    rw [List.append_nil done, List.keys_nil]
    exact le_of_frames
  | cons p ps ih =>
    refine Triple.eachCons ListAt p ps bs ?_
    rintro b bs rfl
    refine Triple.loop ?_
    obtain ⟨hlt, hp⟩ := next_list front ps p hsize
    simp only [tableGetKeysLoop, bind_assoc]
    refine Triple.peek ?_
    simp only [if_pos hlt, bind_assoc]
    refine Triple.callReturning (tableList_spec table lists size hp) ?_
    refine Triple.call (listGetKeys_spec b p) fun listKeys => ?_
    have hnext : (front ++ [p]).length = front.length + 1 := by simp
    by_cases hb : b = []
    · subst hb
      rw [if_pos rfl]
      refine Triple.expose (lift (listKeys = 0)) fun hkeys => ?_
      rw [if_pos hkeys, pure_bind, List.flatten_cons, List.nil_append]
      have ih := ih (front ++ [p]) done bs (by rwa [← List.append_cons])
      rw [← List.append_cons front p ps, hnext] at ih
      refine Triple.last ih fun _ => opens_le fun copies => le_iSup_of_le copies ?_
      exact le_of_frames
    · rw [if_neg hb]
      refine Triple.ne_zero listKeys fun hkeys => ?_
      simp only [if_neg hkeys, bind_assoc]
      refine Triple.expose (ArrayAt StringAt listKeys b.keys) fun kps => ?_
      refine Triple.learn (each_length (A := StringAt) kps b.keys).le fun hlength => ?_
      have hkps : kps.length = b.length := by rw [hlength, List.keys, List.length_map]
      have hroom : (b :: bs).flatten.length + m = kps.length + (bs.flatten.length + m) := by
        rw [List.flatten_cons, List.length_append]
        omega
      rw [hroom]
      have hcopy := copyKeysLoop_spec table lists size
        (front ++ p :: ps) hp b listKeys keyArr [] kps
        done b.keys (bs.flatten.length + m) (by simpa using hkps)
      rw [List.nil_append, List.length_nil] at hcopy
      refine Triple.callReturning hcopy (Triple.opens fun copies => ?_)
      refine Triple.fold (ArrayAt StringAt listKeys b.keys) kps ?_
      refine Triple.callReturning (listFreeKeys_spec listKeys b.keys) ?_
      rw [pure_bind]
      refine Triple.learn (each_length (A := StringAt) copies b.keys).le fun hcopies => ?_
      have hcount : (done ++ copies).length = done.length + kps.length := by
        rw [List.length_append, hcopies, hlength]
      have ih := ih (front ++ [p]) (done ++ copies) bs (by rwa [← List.append_cons])
      rw [← List.append_cons front p ps, hnext, hcount] at ih
      refine Triple.last ih fun _ => opens_le fun copies' => le_iSup_of_le (copies ++ copies') ?_
      rw [← List.append_assoc done, List.flatten_cons, List.keys_append,
        each_append copies b.keys copies' _ hcopies]
      exact le_of_frames

/-- An entry is copied with its key and its value. -/
theorem copyEntry_spec (entriesArr entry : Ptr) (e : Σ _ : CString, Bytes)
    (done : List Ptr) (m : ℕ) :
    Triple (PairAt entry e * pointsTo entriesArr (done ++ List.replicate (m + 1) 0))
      (copyEntry entriesArr done.length entry)
      (fun _ => ⨆ copy : Ptr, PairAt entry e * (PairAt copy e *
        pointsTo entriesArr (done ++ [copy] ++ List.replicate m 0))) := by
  refine Triple.expose (PairAt entry e) fun t => Triple.peek ?_
  refine Triple.expose (DataAt t.value (.ofBytes e.2)) fun block => Triple.peek ?_
  refine Triple.malloc fun copy => ?_
  refine Triple.call (setSlot_next entriesArr done m copy) fun _ => ?_
  refine Triple.call (strdup_spec t.key e.1) fun key => Triple.update ?_
  refine Triple.malloc fun value => Triple.update (Triple.update ?_)
  refine Triple.malloc fun data => Triple.update ?_
  rw [Int.toNat_natCast]
  refine Triple.last (memcpy_all data block e.2) fun _ => ?_
  refine fold_le (DataAt t.value (.ofBytes e.2)) block (fold_le (PairAt entry e) t ?_)
  refine fold_le (DataAt value (.ofBytes e.2)) data (fold_le (PairAt copy e) ⟨key, value⟩ ?_)
  exact le_iSup_of_le copy le_of_frames

theorem copyEntriesLoop_spec (entriesArr : Ptr) (b : Bucket CString Bytes) (done : List Ptr) (m : ℕ)
    (node : Ptr) :
    Triple (NodesAt node b * pointsTo entriesArr (done ++ List.replicate (b.length + m) 0))
      (loop (copyEntriesLoop entriesArr) (done.length, node))
      (returning (done.length + b.length) (⨆ copies : List Ptr, NodesAt node b *
        (pointsTo entriesArr (done ++ copies ++ List.replicate m 0) * each PairAt copies b))) := by
  induction b generalizing done node with
  | nil =>
    refine Triple.expose (NodesAt node []) fun hnode => Triple.loop ?_
    rw [copyEntriesLoop, if_pos hnode, pure_bind, hnode, List.length_nil,
      Nat.zero_add, Nat.add_zero]
    refine Triple.returning (le_iSup_of_le [] ?_)
    rw [List.append_nil done]
    exact le_of_frames
  | cons e b ih =>
    refine Triple.ne_zero node fun hnode => Triple.loop ?_
    simp only [copyEntriesLoop, if_neg hnode, bind_assoc, pure_bind]
    refine Triple.expose (NodesAt node (e :: b)) fun n => Triple.peek ?_
    have hroom : (e :: b).length + m = b.length + m + 1 := by
      rw [List.length_cons]
      omega
    rw [hroom]
    refine Triple.call (copyEntry_spec entriesArr n.entry e done (b.length + m)) fun _ => ?_
    refine Triple.opens fun copy => ?_
    have hcount : done.length + (e :: b).length = (done ++ [copy]).length + b.length := by
      simp only [List.length_append, List.length_cons, List.length_nil]
      omega
    have hnext : (done ++ [copy]).length = done.length + 1 := by simp
    rw [hcount, ← hnext]
    refine Triple.lastReturning (ih (done ++ [copy]) n.next) (opens_le fun copies => ?_)
    refine fold_le (NodesAt node (e :: b)) n (le_iSup_of_le (copy :: copies) ?_)
    rw [List.append_cons done copy copies]
    exact le_of_frames

theorem tableGetEntriesLoop_spec (entriesArr : Ptr) (front ps done : List Ptr)
    (bs : Buckets CString Bytes) (m : ℕ) (hsize : ((front ++ ps).length : Int) = size.toInt) :
    Triple (ArrayOf table lists size (front ++ ps) * (each ListAt ps bs *
        pointsTo entriesArr (done ++ List.replicate (bs.flatten.length + m) 0)))
      (loop (tableGetEntriesLoop table entriesArr) (done.length, front.length))
      (returning entriesArr (⨆ copies : List Ptr, ArrayOf table lists size (front ++ ps) *
        (each ListAt ps bs * (pointsTo entriesArr (done ++ copies ++ List.replicate m 0) *
          each PairAt copies bs.flatten)))) := by
  induction ps generalizing front done bs with
  | nil =>
    refine Triple.eachNil ListAt bs ?_
    rintro rfl
    refine Triple.loop ?_
    rw [List.append_nil] at hsize ⊢
    simp only [tableGetEntriesLoop, bind_assoc]
    refine Triple.peek ?_
    simp only [if_neg (not_lt.2 hsize.ge), pure_bind, List.flatten_nil,
      List.length_nil, Nat.zero_add]
    refine Triple.returning (le_iSup_of_le [] ?_)
    rw [List.append_nil done]
    exact le_of_frames
  | cons p ps ih =>
    refine Triple.eachCons ListAt p ps bs ?_
    rintro b bs rfl
    refine Triple.loop ?_
    obtain ⟨hlt, hp⟩ := next_list front ps p hsize
    simp only [tableGetEntriesLoop, bind_assoc]
    refine Triple.peek ?_
    simp only [if_pos hlt, bind_assoc]
    refine Triple.callReturning (tableList_spec table lists size hp) ?_
    refine Triple.ne_zero p fun hlist => ?_
    simp only [if_neg hlist, bind_assoc, pure_bind]
    refine Triple.expose (ListAt p b) fun head => Triple.peek ?_
    have hroom : (b :: bs).flatten.length + m = b.length + (bs.flatten.length + m) := by
      rw [List.flatten_cons, List.length_append]
      omega
    rw [hroom]
    refine Triple.callReturning
      (copyEntriesLoop_spec entriesArr b done (bs.flatten.length + m) head) ?_
    refine Triple.opens fun copies => Triple.fold (ListAt p b) head ?_
    refine Triple.learn (each_length (A := PairAt) copies b).le fun hcopies => ?_
    have hnext : (front ++ [p]).length = front.length + 1 := by simp
    have hcount : (done ++ copies).length = done.length + b.length := by
      rw [List.length_append, hcopies]
    have ih := ih (front ++ [p]) (done ++ copies) bs (by rwa [← List.append_cons])
    rw [← List.append_cons front p ps, hnext, hcount] at ih
    refine Triple.lastReturning ih (opens_le fun copies' => le_iSup_of_le (copies ++ copies') ?_)
    rw [← List.append_assoc done, List.flatten_cons, each_append copies b copies' _ hcopies]
    exact le_of_frames

end Listing

/-- `table_get_keys` gives copies of the keys. -/
theorem tableGetKeys_spec (p : Ptr) (s : Store) :
    Triple (TableAt p s) (tableGetKeys p) (fun r => TableAt p s * ArrayAt StringAt r s.keys) := by
  refine Triple.ne_zero p fun hp => ?_
  rw [tableGetKeys, if_neg hp]
  refine Triple.callReturning (tableSize_spec p s) ?_
  have hroom : ((s.entries.length : Int) + 1).toNat = s.buckets.flatten.length + 1 := by
    rw [Store.entries]
    omega
  rw [hroom, Store.keys, Store.entries]
  refine Triple.malloc fun keyArr => Triple.expose (TableAt p s) fun x => ?_
  refine Triple.learn (each_length (A := ListAt) x.2 s.buckets).le fun hlength => ?_
  have hloop := tableGetKeysLoop_spec p x.1 s.size keyArr [] x.2 [] s.buckets 1 (hlength ▸ s.sized)
  simp only [List.nil_append, List.length_nil, List.replicate_one] at hloop
  refine Triple.call hloop fun _ => Triple.opens fun copies => ?_
  refine Triple.fold (TableAt p s) x ?_
  refine Triple.fold (ArrayAt StringAt keyArr s.buckets.flatten.keys) copies ?_
  exact Triple.return'

/-- `table_get_entries` gives copies of the entries. -/
theorem tableGetEntries_spec (p : Ptr) (s : Store) :
    Triple (TableAt p s) (tableGetEntries p)
      (fun r => TableAt p s * ArrayAt PairAt r s.entries) := by
  refine Triple.ne_zero p fun hp => ?_
  rw [tableGetEntries, if_neg hp]
  refine Triple.callReturning (tableSize_spec p s) ?_
  have hroom : ((s.entries.length : Int) + 1).toNat = s.buckets.flatten.length + 1 := by
    rw [Store.entries]
    omega
  rw [hroom, Store.entries]
  refine Triple.malloc fun entriesArr => Triple.expose (TableAt p s) fun x => ?_
  refine Triple.learn (each_length (A := ListAt) x.2 s.buckets).le fun hlength => ?_
  have hloop := tableGetEntriesLoop_spec p x.1 s.size entriesArr [] x.2 [] s.buckets 1
    (hlength ▸ s.sized)
  simp only [List.nil_append, List.length_nil, List.replicate_one] at hloop
  refine Triple.last hloop fun r => ?_
  rw [returning, mul_assoc]
  refine opens_le fun hr => opens_le fun copies => ?_
  rw [hr]
  refine fold_le (TableAt p s) x ?_
  exact fold_le (ArrayAt PairAt entriesArr s.buckets.flatten) copies le_of_frames

theorem tableFreeKeys_spec (p : Ptr) (keys : List CString) :
    Triple (ArrayAt StringAt p keys) (tableFreeKeys p) (returning 0 1) :=
  listFreeKeys_spec p keys

end Memory

end ChainTable
