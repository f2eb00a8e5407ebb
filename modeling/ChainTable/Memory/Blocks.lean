-- SUMMARY: data.c and entry.c on blocks of memory, what they own, and that they do what they do on values.
import ChainTable.Base.Separation
import ChainTable.Store.List

open Base Base.Mem Base.Assertion

/-!
# Data blocks and entries in memory

The modules data.c and entry.c once more, with the pointers, the allocations and the calls of
`free` that values leave out. What a pointer owns is described by the value that it stands
for, and each operation does to the value what the operation on values does.
-/

namespace ChainTable

namespace Memory

abbrev Ptr := ℕ

/-- `struct data_t` -/
structure DataT where
  datasize : Int
  data : Ptr

/-- `struct entry_t` -/
structure EntryT where
  key : Ptr
  value : Ptr

/-- `struct node_t` -/
structure NodeT where
  entry : Ptr
  next : Ptr

/-- `struct list_t` -/
structure ListT where
  size : Int
  head : Ptr

/-- `struct table_t` -/
structure TableT where
  lists : Ptr
  size : Int32

/-- What a block of memory can hold. -/
inductive Block where
  | string (s : CString)
  | bytes (b : Bytes)
  | pointers (ps : List Ptr)
  | data (d : DataT)
  | entry (e : EntryT)
  | node (n : NodeT)
  | list (l : ListT)
  | table (t : TableT)

abbrev M := Mem Block

instance layoutString : Layout Block CString where
  block := .string
  view | .string s => some s | _ => none
  view_block _ := rfl

instance layoutBytes : Layout Block Bytes where
  block := .bytes
  view | .bytes b => some b | _ => none
  view_block _ := rfl

instance layoutPointers : Layout Block (List Ptr) where
  block := .pointers
  view | .pointers ps => some ps | _ => none
  view_block _ := rfl

instance layoutData : Layout Block DataT where
  block := .data
  view | .data d => some d | _ => none
  view_block _ := rfl

instance layoutEntry : Layout Block EntryT where
  block := .entry
  view | .entry e => some e | _ => none
  view_block _ := rfl

instance layoutNode : Layout Block NodeT where
  block := .node
  view | .node n => some n | _ => none
  view_block _ := rfl

instance layoutList : Layout Block ListT where
  block := .list
  view | .list l => some l | _ => none
  view_block _ := rfl

instance layoutTable : Layout Block TableT where
  block := .table
  view | .table t => some t | _ => none
  view_block _ := rfl

/-! ## The library -/

/-- `malloc` of `n` bytes. What they are before they are written does not matter. -/
def mallocBytes (n : ℕ) : M Ptr := malloc (List.replicate n 0 : Bytes)

/-- `memcpy`. -/
def memcpy (dest src : Ptr) (n : Int) : M Unit := do
  let source : Bytes ← peek src
  let old : Bytes ← peek dest
  if 0 ≤ n ∧ n ≤ source.length ∧ n ≤ old.length then
    poke dest (source.take n.toNat ++ old.drop n.toNat)
  else fault

def strdup (s : Ptr) : M Ptr := do
  let s : CString ← peek s
  malloc s

def strcmp (s t : Ptr) : M Int := do
  let s : CString ← peek s
  let t : CString ← peek t
  pure (CString.strcmp s t)

/-- `array[i] = p` -/
def setSlot (array : Ptr) (i : ℕ) (p : Ptr) : M Unit := do
  let ps : List Ptr ← peek array
  let ps ← setIndex ps i p
  poke array ps

/-- `array[i]` -/
def slot (array : Ptr) (i : ℕ) : M Ptr := do
  let ps : List Ptr ← peek array
  index ps i

/-- `calloc` of `n` pointers. -/
def callocPointers (n : ℕ) : M Ptr := malloc (List.replicate n 0 : List Ptr)

/-! ## data.c -/

def dataCreate (size : Int) (data : Ptr) : M Ptr :=
  if size ≤ 0 ∨ data = 0 then pure 0
  else do
    let d ← malloc (⟨0, 0⟩ : DataT)
    update d fun t : DataT => { t with data := data }
    update d fun t : DataT => { t with datasize := size }
    pure d

def dataDestroy (data : Ptr) : M Int :=
  if data = 0 then pure (-1)
  else do
    let d : DataT ← peek data
    free d.data
    free data
    pure 0

def dataDup (data : Ptr) : M Ptr :=
  if data = 0 then pure 0
  else do
    let d : DataT ← peek data
    if d.data = 0 ∨ d.datasize ≤ 0 then pure 0
    else
      let dup ← malloc (⟨0, 0⟩ : DataT)
      let block ← mallocBytes d.datasize.toNat
      update dup fun t : DataT => { t with data := block }
      update dup fun t : DataT => { t with datasize := d.datasize }
      memcpy block d.data d.datasize
      pure dup

/-! ## entry.c -/

def entryCreate (key data : Ptr) : M Ptr :=
  if key = 0 ∨ data = 0 then pure 0
  else do
    let entry ← malloc (⟨0, 0⟩ : EntryT)
    if entry = 0 then pure 0
    else
      update entry fun e : EntryT => { e with key := key }
      update entry fun e : EntryT => { e with value := data }
      pure entry

def entryDestroy (entry : Ptr) : M Int :=
  if entry = 0 then pure (-1)
  else do
    let e : EntryT ← peek entry
    if e.key = 0 ∨ e.value = 0 then pure (-1)
    else
      free e.key
      let _ ← dataDestroy e.value
      free entry
      pure 0

def entryCompare (entry1 entry2 : Ptr) : M Int :=
  if entry1 = 0 ∨ entry2 = 0 then pure entryCmpError
  else do
    let e1 : EntryT ← peek entry1
    let e2 : EntryT ← peek entry2
    if e1.key = 0 ∨ e2.key = 0 then pure entryCmpError
    else
      let result ← strcmp e1.key e2.key
      pure (if result > 0 then entryGreater else if result < 0 then entryLesser else entryEqual)

/-! ## What a pointer owns -/

abbrev Owns := Assertion Block

abbrev StringAt : Ptr → CString → Owns := pointsTo

abbrev BytesAt : Ptr → Bytes → Owns := pointsTo

/-- A block of data, with its buffer. -/
def DataAt (p : Ptr) (d : Data) : Owns :=
  ⨆ q : Ptr, pointsTo p (⟨d.datasize, q⟩ : DataT) * nullable BytesAt q d.data

/-- An entry, with its key and its value. -/
def EntryAt (p : Ptr) (e : Entry) : Owns :=
  ⨆ t : EntryT, pointsTo p t * (nullable StringAt t.key e.key * nullable DataAt t.value e.value)

instance opensData (p : Ptr) (d : Data) : Opens (DataAt p d) fun q : Ptr =>
    pointsTo p (⟨d.datasize, q⟩ : DataT) * nullable BytesAt q d.data := ⟨rfl⟩

instance opensEntry (p : Ptr) (e : Entry) : Opens (EntryAt p e) fun t : EntryT =>
    pointsTo p t * (nullable StringAt t.key e.key * nullable DataAt t.value e.value) := ⟨rfl⟩

instance nonNullData (p : Ptr) (d : Data) : NonNull (DataAt p d) p :=
  nonNull_iSup fun _ => inferInstance

instance nonNullEntry (p : Ptr) (e : Entry) : NonNull (EntryAt p e) p :=
  nonNull_iSup fun _ => inferInstance

/-! ## What the operations do -/

theorem memcpy_spec (dest src : Ptr) (old b : Bytes) (n : Int) (hn : 0 ≤ n) (hb : n ≤ b.length)
    (hold : old.length = n.toNat) :
    Triple (BytesAt dest old * BytesAt src b) (memcpy dest src n)
      (fun _ => BytesAt dest (b.take n.toNat) * BytesAt src b) := by
  refine Triple.peek (Triple.peek ?_)
  rw [if_pos ⟨hn, hb, by omega⟩, List.drop_eq_nil_of_le hold.le, List.append_nil]
  refine Triple.last (Triple.poke_spec dest old _) fun _ => le_rfl

theorem strdup_spec (p : Ptr) (s : CString) :
    Triple (StringAt p s) (strdup p) (fun q => StringAt q s * StringAt p s) := by
  refine Triple.peek (Triple.last (Triple.malloc_spec s) fun q => ?_)
  exact le_rfl

theorem strcmp_spec (p q : Ptr) (s t : CString) :
    Triple (StringAt p s * StringAt q t) (strcmp p q)
      (returning (CString.strcmp s t) (StringAt p s * StringAt q t)) :=
  Triple.peek (Triple.peek (Triple.returning le_rfl))

theorem dataDestroy_spec (p : Ptr) (d : Data) :
    Triple (DataAt p d) (dataDestroy p) (returning 0 1) := by
  refine Triple.opens fun q => Triple.ne_zero p fun hp => ?_
  rw [dataDestroy, if_neg hp]
  refine Triple.peek (Triple.free (Triple.free ?_))
  exact Triple.returning le_rfl

theorem dataDestroy_nullable (p : Ptr) (d : Option Data) :
    Triple (nullable DataAt p d) (dataDestroy p) (fun _ => 1) := by
  cases d with
  | none =>
    rw [nullable_none]
    refine Triple.opens fun hp => ?_
    rw [dataDestroy, if_pos hp]
    exact Triple.return'
  | some d =>
    rw [nullable_some]
    exact (dataDestroy_spec p d).conseq le_rfl (returning_le 0 1)

theorem dataDup_spec (p : Ptr) (d : Option Data) :
    Triple (nullable DataAt p d) (dataDup p)
      (fun q => nullable DataAt p d * nullable DataAt q (ChainTable.dataDup d)) := by
  cases d with
  | none =>
    rw [nullable_none]
    refine Triple.opens fun hp => ?_
    rw [dataDup, if_pos hp, hp]
    exact Triple.ret (by simp [ChainTable.dataDup])
  | some d =>
    rw [nullable_some]
    refine Triple.ne_zero p fun hp => ?_
    rw [dataDup, if_neg hp]
    obtain ⟨n, data, hfits⟩ := d
    refine Triple.opens fun q => Triple.peek ?_
    cases data with
    | none =>
      have hdup : ChainTable.dataDup (some ⟨n, none, hfits⟩) = none := rfl
      rw [nullable_none, hdup]
      refine Triple.expose (lift (q = 0)) fun hq => ?_
      rw [if_pos (.inl hq), hq]
      refine Triple.fold (DataAt p ⟨n, none, hfits⟩) 0 ?_
      exact Triple.return'
    | some b =>
      rw [nullable_some]
      refine Triple.ne_zero q fun hq => ?_
      by_cases hn : n ≤ 0
      · have hdup : ChainTable.dataDup (some ⟨n, some b, hfits⟩) = none := if_pos hn
        rw [if_pos (.inr hn), hdup]
        refine Triple.fold (DataAt p ⟨n, some b, hfits⟩) q ?_
        exact Triple.return'
      · have hcopy := (Data.copied n b (hfits b rfl)).fits
        have hdup : ChainTable.dataDup (some ⟨n, some b, hfits⟩) =
            some ⟨n, some (b.take n.toNat), hcopy⟩ := if_neg hn
        rw [if_neg (not_or.2 ⟨hq, hn⟩), hdup]
        refine Triple.malloc fun dup => Triple.malloc fun block => ?_
        refine Triple.update (Triple.update ?_)
        refine Triple.call (memcpy_spec block q (.replicate n.toNat 0) b n (by omega)
          (hfits b rfl) List.length_replicate) fun _ => ?_
        refine Triple.fold (DataAt p ⟨n, some b, hfits⟩) q ?_
        refine Triple.fold (DataAt dup ⟨n, some (b.take n.toNat), hcopy⟩) block ?_
        exact Triple.return'

theorem dataDup_some_spec (p : Ptr) (d : Data) :
    Triple (DataAt p d) (dataDup p)
      (fun q => DataAt p d * nullable DataAt q (d.bytes.map Data.ofBytes)) := by
  simpa only [nullable_some, dataDup_some] using dataDup_spec p (some d)

theorem dataCreate_spec (size : Int) (p : Ptr) (b : Option Bytes)
    (fits : ∀ b' ∈ b, size ≤ b'.length) :
    Triple (nullable BytesAt p b) (dataCreate size p) fun q =>
      match ChainTable.dataCreate size b fits with
      | some d => DataAt q d
      | none => lift (q = 0) * nullable BytesAt p b := by
  refine Triple.null_iff BytesAt p b fun hp => ?_
  simp only [dataCreate, ChainTable.dataCreate, hp]
  by_cases hrefused : size ≤ 0 ∨ b = none
  · simp only [if_pos hrefused]
    exact Triple.ret (by simp)
  · simp only [if_neg hrefused]
    refine Triple.malloc fun q => Triple.update (Triple.update ?_)
    refine Triple.fold (DataAt q ⟨size, b, fits⟩) p ?_
    exact Triple.return'

/-- An entry with a key and a value is released with them. One that lacks either is not
    released. -/
theorem entryDestroy_spec (p : Ptr) (e : Entry) :
    Triple (EntryAt p e) (entryDestroy p)
      (returning (ChainTable.entryDestroy (some e))
        (if ChainTable.entryDestroy (some e) = 0 then 1 else EntryAt p e)) := by
  obtain ⟨key, value⟩ := e
  refine Triple.ne_zero p fun hp => ?_
  rw [entryDestroy, if_neg hp]
  refine Triple.opens fun t => Triple.peek ?_
  refine Triple.null_iff StringAt t.key key fun hkey => ?_
  refine Triple.null_iff DataAt t.value value fun hvalue => ?_
  simp only [ChainTable.entryDestroy, hkey, hvalue]
  by_cases hpartial : key = none ∨ value = none
  · simp only [if_pos hpartial]
    refine Triple.fold (EntryAt p ⟨key, value⟩) t ?_
    exact Triple.returning (le_of_eq (by simp))
  · obtain ⟨⟨k, rfl⟩, ⟨v, rfl⟩⟩ : (∃ k, key = some k) ∧ ∃ v, value = some v := by
      rw [not_or] at hpartial
      exact ⟨Option.ne_none_iff_exists'.1 hpartial.1, Option.ne_none_iff_exists'.1 hpartial.2⟩
    simp only [if_neg hpartial, nullable_some]
    refine Triple.free (Triple.callReturning (dataDestroy_spec t.value v) ?_)
    refine Triple.free ?_
    exact Triple.returning (le_of_eq (by simp))

theorem entryCreate_spec (k v : Ptr) (key : Option CString) (value : Option Data) :
    Triple (nullable StringAt k key * nullable DataAt v value) (entryCreate k v) fun p =>
      match ChainTable.entryCreate key value with
      | some e => EntryAt p e
      | none => lift (p = 0) * (nullable StringAt k key * nullable DataAt v value) := by
  refine Triple.null_iff StringAt k key fun hkey => ?_
  refine Triple.null_iff DataAt v value fun hvalue => ?_
  simp only [entryCreate, ChainTable.entryCreate, hkey, hvalue]
  by_cases hpartial : key = none ∨ value = none
  · simp only [if_pos hpartial]
    exact Triple.ret (by simp)
  · simp only [if_neg hpartial]
    refine Triple.malloc fun p => Triple.ne_zero p fun hp => ?_
    rw [if_neg hp]
    refine Triple.update (Triple.update ?_)
    refine Triple.fold (EntryAt p ⟨key, value⟩) ⟨k, v⟩ ?_
    exact Triple.return'

theorem entryCompare_spec (p q : Ptr) (e e' : Entry) :
    Triple (EntryAt p e * EntryAt q e') (entryCompare p q)
      (returning (ChainTable.entryCompare (some e) (some e')) (EntryAt p e * EntryAt q e')) := by
  obtain ⟨key, value⟩ := e
  obtain ⟨key', value'⟩ := e'
  refine Triple.ne_zero p fun hp => Triple.ne_zero q fun hq => ?_
  rw [entryCompare, if_neg (not_or.2 ⟨hp, hq⟩)]
  refine Triple.expose (EntryAt p ⟨key, value⟩) fun t => ?_
  refine Triple.expose (EntryAt q ⟨key', value'⟩) fun t' => ?_
  refine Triple.peek (Triple.peek ?_)
  refine Triple.null_iff StringAt t.key key fun hkey => ?_
  refine Triple.null_iff StringAt t'.key key' fun hkey' => ?_
  simp only [hkey, hkey']
  by_cases hpartial : key = none ∨ key' = none
  · have herror : ChainTable.entryCompare (some ⟨key, value⟩) (some ⟨key', value'⟩) =
        entryCmpError := by
      rcases hpartial with rfl | rfl
      · rfl
      · cases key <;> rfl
    rw [if_pos hpartial, herror]
    refine Triple.fold (EntryAt p ⟨key, value⟩) t ?_
    refine Triple.fold (EntryAt q ⟨key', value'⟩) t' ?_
    exact Triple.returning le_of_frames
  · obtain ⟨⟨k, rfl⟩, ⟨k', rfl⟩⟩ : (∃ k, key = some k) ∧ ∃ k', key' = some k' := by
      rw [not_or] at hpartial
      exact ⟨Option.ne_none_iff_exists'.1 hpartial.1, Option.ne_none_iff_exists'.1 hpartial.2⟩
    rw [if_neg hpartial, nullable_some, nullable_some]
    refine Triple.callReturning (strcmp_spec t.key t'.key k k') ?_
    refine Triple.fold (EntryAt p ⟨some k, value⟩) t ?_
    refine Triple.fold (EntryAt q ⟨some k', value'⟩) t' ?_
    exact Triple.returning le_of_frames

/-! ### Arrays of pointers -/

/-- An array of pointers, with a null pointer after the last. -/
def ArrayAt {α : Type} (A : Ptr → α → Owns) (p : Ptr) (as : List α) : Owns :=
  ⨆ ps : List Ptr, pointsTo p (ps ++ [0]) * each A ps as

instance opensArray {α : Type} (A : Ptr → α → Owns) (p : Ptr) (as : List α) :
    Opens (ArrayAt A p as) fun ps : List Ptr => pointsTo p (ps ++ [0]) * each A ps as := ⟨rfl⟩

instance nonNullArray {α : Type} (A : Ptr → α → Owns) (p : Ptr) (as : List α) :
    NonNull (ArrayAt A p as) p := nonNull_iSup fun _ => inferInstance

theorem slot_spec (p : Ptr) {ps : List Ptr} {i : ℕ} {q : Ptr} (h : ps[i]? = some q) :
    Triple (pointsTo p ps) (slot p i) (returning q (pointsTo p ps)) := by
  refine Triple.peek ?_
  rw [index, h]
  exact Triple.returning le_rfl

theorem setSlot_spec (p : Ptr) {ps : List Ptr} {i : ℕ} (q : Ptr) (h : i < ps.length) :
    Triple (pointsTo p ps) (setSlot p i q) (fun _ => pointsTo p (ps.set i q)) := by
  refine Triple.peek ?_
  rw [setIndex, if_pos h, pure_bind]
  exact Triple.poke_spec p ps _

/-- The first slot that is not yet filled. -/
theorem setSlot_next (p : Ptr) (ps : List Ptr) (n : ℕ) (q : Ptr) :
    Triple (pointsTo p (ps ++ List.replicate (n + 1) 0)) (setSlot p ps.length q)
      (fun _ => pointsTo p (ps ++ [q] ++ List.replicate n 0)) := by
  have hset : (ps ++ List.replicate (n + 1) 0).set ps.length q =
    ps ++ [q] ++ List.replicate n 0 := by
    simp [List.replicate_succ]
  rw [← hset]
  exact setSlot_spec p q (by simp)

/-! ### Entries that bind a key -/

/-- An entry with a key and the bytes that it is bound to. -/
abbrev PairAt (p : Ptr) (e : Σ _ : CString, Bytes) : Owns := EntryAt p (.ofPair e)

instance opensPair (p : Ptr) (e : Σ _ : CString, Bytes) : Opens (EntryAt p (.ofPair e))
    fun t : EntryT => pointsTo p t * (StringAt t.key e.1 * DataAt t.value (.ofBytes e.2)) := ⟨rfl⟩

/-- A buffer with nothing but the bytes. -/
instance opensBytes (p : Ptr) (b : Bytes) : Opens (DataAt p (.ofBytes b)) fun q : Ptr =>
    pointsTo p (⟨b.length, q⟩ : DataT) * BytesAt q b := ⟨rfl⟩

/-- `memcpy` of a whole block into a new one. -/
theorem memcpy_all (dest src : Ptr) (b : Bytes) :
    Triple (BytesAt dest (.replicate b.length 0) * BytesAt src b) (memcpy dest src b.length)
      (fun _ => BytesAt dest b * BytesAt src b) := by
  have h := memcpy_spec dest src (.replicate b.length 0) b b.length (by omega) le_rfl (by simp)
  rwa [Int.toNat_natCast, List.take_length] at h

theorem entryCreate_pair (k v : Ptr) (key : CString) (b : Bytes) :
    Triple (StringAt k key * DataAt v (.ofBytes b)) (entryCreate k v)
      (fun p => PairAt p ⟨key, b⟩) :=
  entryCreate_spec k v (some key) (some (.ofBytes b))

theorem entryDestroy_pair (p : Ptr) (e : Σ _ : CString, Bytes) :
    Triple (PairAt p e) (entryDestroy p) (returning 0 1) := by
  simpa only [entryDestroy_ofPair, if_true] using entryDestroy_spec p (.ofPair e)

theorem arrayAt_pair (p : Ptr) (es : Bucket CString Bytes) :
    ArrayAt PairAt p es = ArrayAt EntryAt p (es.map Entry.ofPair) := by
  rw [ArrayAt, ArrayAt]
  simp only [each_map]

end Memory

end ChainTable
