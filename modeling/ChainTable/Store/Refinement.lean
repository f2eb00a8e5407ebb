-- SUMMARY: The operations of table.c on well-formed tables, and the refinement of a finite map by every sequence of them.
import ChainTable.Store.Table

open Base

/-!
# The table refines a finite map

Each operation on `s.table` returns without a fault, and its result and the table
it leaves are given by the store. Composed over a sequence of calls, this makes
the table an implementation of the finite map `s.map`.
-/

namespace ChainTable

namespace Store

variable (s : Store) (key : CString)

/-! ## Locating a bucket -/

theorem list_table : s.table.list (hashCode key s.size) = .ok (.ofBucket (s.bucket key)) := by
  have hrange := hashCode_range key s.pos
  have hneg : ¬ hashCode key s.size < 0 := by
    rw [Int32.lt_iff_toInt_lt]
    have : (0 : Int32).toInt = 0 := rfl
    omega
  rw [Table.list, if_neg hneg]
  refine load_eq_ok ?_
  rw [table, List.getElem?_map]
  exact congrArg _ (s.getElem?_bucket key)

private theorem setList_table (b : Bucket CString Bytes) (s' : Store) (hsize : s'.size = s.size)
    (hbuckets : s'.buckets = s.buckets.set (bucketOf s.size key) b) :
    s.table.setList (hashCode key s.size).toInt.toNat (.ofBucket b) = s'.table := by
  simp only [table, Table.setList, Table.mk.injEq, hsize, hbuckets, List.map_set, true_and]
  rfl

/-! ## Operations on `s.table` -/

theorem tableCreate_eq {n : Int32} (hn : 0 < n) : tableCreate n = some (create n hn).table := by
  have hle : ¬ n ≤ 0 := Int32.not_le.2 hn
  simp only [tableCreate, hle, dite_false, table, create, List.map_replicate, ListT.ofBucket_nil]

/-- A usable block is bound. -/
theorem tablePut_table {value : Data} {b : Bytes} (hb : value.bytes = some b) :
    tablePut s.table (some key) (some value) =
      .ok ((s.put key b (Data.bytes_ne_nil hb)).table, 0) := by
  have hentry : entryCreate (some key) (dataDup (some value)) = some (.ofPair ⟨key, b⟩) := by
    rw [dataDup_some, hb]
    rfl
  have hset := s.setList_table key ((s.bucket key).insert key b)
    (s.put key b (Data.bytes_ne_nil hb)) rfl rfl
  simp only [tablePut, hentry, C.pure_eq, size_table]
  rw [list_table, C.ok_bind, listAdd_ofBucket (s.sorted_bucket key), hset]
  -- both values that `list_add` returns for an accepted entry become 0
  by_cases hbound : ((s.bucket key).dlookup key).isSome <;> simp [addResult, hbound]

/-- A block without bytes is rejected. -/
theorem tablePut_table_reject {value : Data} (hb : value.bytes = none) :
    tablePut s.table (some key) (some value) = .ok (s.table, -1) := by
  have hentry : entryCreate (some key) (dataDup (some value)) = none := by
    rw [dataDup_some, hb]
    rfl
  have hset : s.table.setList (hashCode key s.size).toInt.toNat (.ofBucket (s.bucket key)) =
      s.table := by
    refine s.setList_table key (s.bucket key) s rfl ?_
    rw [bucket, List.get_eq_getElem, List.set_getElem_self]
  simp only [tablePut, hentry, C.pure_eq, listAdd, size_table]
  rw [list_table, C.ok_bind, hset]
  rfl

theorem tableGet_table :
    tableGet s.table (some key) = .ok ((s.map.lookup key).map Data.ofBytes) := by
  simp only [tableGet, size_table]
  rw [list_table, C.ok_bind, listGet_ofBucket, C.ok_bind,
    ← lookup_map]
  cases hlookup : s.map.lookup key with
  | none => rfl
  | some b => simp [dataDup_ofBytes (s.lookup_ne_nil hlookup)]

theorem tableRemove_table :
    tableRemove s.table (some key) =
      .ok ((s.remove key).table, if key ∈ s.map then 0 else 1) := by
  have hset := s.setList_table key ((s.bucket key).kerase key) (s.remove key) rfl rfl
  simp only [tableRemove, size_table]
  rw [list_table, C.ok_bind, listRemove_ofBucket, C.ok_bind, hset]
  simp only [removeResult, ← lookup_map, Finmap.lookup_isSome, C.pure_eq]

/-- Removing an unbound key changes nothing. -/
theorem remove_of_notMem (h : key ∉ s.map) : s.remove key = s := by
  refine ext_map rfl ?_
  rw [map_remove]
  refine Finmap.ext_lookup fun k => ?_
  by_cases hk : k = key
  · subst hk
    rw [Finmap.lookup_erase, Finmap.lookup_eq_none.2 h]
  · rw [Finmap.lookup_erase_ne hk]

private theorem foldl_listSize (bs : Buckets CString Bytes) (count : Int) :
    (bs.map ListT.ofBucket).foldl (fun entryCount list => entryCount + listSize list) count =
      count + bs.flatten.length := by
  induction bs generalizing count with
  | nil => simp
  | cons b bs ih =>
    rw [List.map_cons, List.foldl_cons, ih, listSize_ofBucket, List.flatten_cons,
      List.length_append]
    push_cast
    omega

theorem tableSize_table : tableSize s.table = s.entries.length := by
  have hsize : s.size ≠ 0 := by
    intro h
    have := s.pos
    rw [h] at this
    exact absurd this (by decide)
  rw [tableSize, if_neg (show s.table.size ≠ 0 from hsize), table, foldl_listSize, entries]
  omega

/-! ## Listing a table -/

private theorem tableCopyKeys_eq (keys : List CString) (done : List CString) (n j : ℕ)
    (hj : j ≤ keys.length) (hn : done.length + (keys.length - j) ≤ n) :
    tableCopyKeys (keys.map some ++ [none]) (keys.length - j) j (filled done n) done.length =
      .ok (filled (done ++ keys.drop j) n, done.length + (keys.length - j)) := by
  induction hm : keys.length - j generalizing j done with
  | zero =>
    have hdrop : keys.drop j = [] := List.drop_eq_nil_of_le (by omega)
    simp [tableCopyKeys, hdrop]
  | succ m ih =>
    have hlt : j < keys.length := by omega
    have hload : load (keys.map some ++ [none]) j = .ok (some keys[j]) := by
      refine load_eq_ok ?_
      rw [List.getElem?_append_left (by simpa using hlt), List.getElem?_map,
        List.getElem?_eq_getElem hlt]
      rfl
    have hstore : store (filled done n) done.length (some keys[j]) =
        .ok (filled (done ++ [keys[j]]) n) := store_filled (by omega) _
    have ih := ih (done ++ [keys[j]]) (j + 1) (by omega)
      (by rw [List.length_append, List.length_singleton]; omega) (by omega)
    rw [List.length_append, List.length_singleton] at ih
    rw [tableCopyKeys, hload, C.ok_bind, deref_some, C.ok_bind, hstore, C.ok_bind, ih,
      List.append_assoc, List.singleton_append, ← List.drop_eq_getElem_cons hlt]
    congr 2
    omega

private theorem tableGetKeysLoop_eq (bs : Buckets CString Bytes) (done : List CString) (n : ℕ)
    (hn : done.length + bs.flatten.length ≤ n) :
    tableGetKeysLoop (bs.map ListT.ofBucket) (filled done n) done.length =
      .ok (filled (done ++ bs.flatten.keys) n, done.length + bs.flatten.length) := by
  induction bs generalizing done with
  | nil => simp [tableGetKeysLoop]
  | cons b bs ih =>
    rw [List.flatten_cons, List.length_append] at hn
    have hkeys : b.keys.length = b.length := by rw [List.keys, List.length_map]
    rw [List.map_cons, tableGetKeysLoop, listGetKeys_ofBucket, C.ok_bind]
    by_cases hb : b = []
    · subst hb
      simpa using ih done (by simpa using hn)
    · have hcopy := tableCopyKeys_eq b.keys done n 0 (Nat.zero_le _) (by omega)
      have ih := ih (done ++ b.keys) (by rw [List.length_append]; omega)
      rw [List.length_append, hkeys] at ih
      rw [Nat.sub_zero, List.drop_zero, hkeys] at hcopy
      rw [if_neg hb, listSize_ofBucket, Int.toNat_natCast]
      simp only [hcopy, C.ok_bind, ih]
      rw [List.append_assoc, ← List.keys_append, List.flatten_cons, List.length_append]
      congr 2
      omega

/-- `table_get_keys` lists the keys, with a `NULL` after the last. -/
theorem tableGetKeys_table : tableGetKeys s.table = .ok (s.keys.map some ++ [none]) := by
  have hcap : (tableSize s.table + 1).toNat = s.keys.length + 1 := by
    rw [tableSize_table, length_keys]
    omega
  have hloop := tableGetKeysLoop_eq s.buckets [] (s.keys.length + 1)
    (by rw [length_keys, entries]; simp)
  rw [filled_nil, List.length_nil, List.nil_append] at hloop
  rw [tableGetKeys, hcap, lists_table, hloop]
  exact congrArg _ (filled_length_succ s.keys)

private theorem tableCopyEntries_eq (b : Bucket CString Bytes) (done : List Entry) (n : ℕ)
    (hn : done.length + b.length ≤ n) :
    tableCopyEntries (b.map Entry.ofPair) (filled done n) done.length =
      .ok (filled (done ++ b.map Entry.ofPair) n, done.length + b.length) := by
  induction b generalizing done with
  | nil => simp [tableCopyEntries]
  | cons e b ih =>
    rw [List.length_cons] at hn
    have hstore : store (filled done n) done.length (some (.ofPair e)) =
        .ok (filled (done ++ [.ofPair e]) n) := store_filled (by omega) _
    have ih := ih (done ++ [.ofPair e]) (by rw [List.length_append, List.length_singleton]; omega)
    rw [List.length_append, List.length_singleton] at ih
    simp only [List.map_cons, tableCopyEntries, Entry.key_ofPair, Entry.value_ofPair, deref_some,
      C.ok_bind, dataCopy_ofBytes]
    rw [show (⟨some e.1, some (.ofBytes e.2)⟩ : Entry) = .ofPair e from rfl, hstore, C.ok_bind, ih,
      List.append_assoc, List.singleton_append, List.length_cons]
    congr 2
    omega

private theorem tableGetEntriesLoop_eq (bs : Buckets CString Bytes) (done : List Entry) (n : ℕ)
    (hn : done.length + bs.flatten.length ≤ n) :
    tableGetEntriesLoop (bs.map ListT.ofBucket) (filled done n) done.length =
      .ok (filled (done ++ bs.flatten.map Entry.ofPair) n, done.length + bs.flatten.length) := by
  induction bs generalizing done with
  | nil => simp [tableGetEntriesLoop]
  | cons b bs ih =>
    rw [List.flatten_cons, List.length_append] at hn
    have hcopy := tableCopyEntries_eq b done n (by omega)
    have ih := ih (done ++ b.map Entry.ofPair) (by rw [List.length_append, List.length_map]; omega)
    rw [List.length_append, List.length_map] at ih
    simp only [List.map_cons, tableGetEntriesLoop, ListT.head_ofBucket, hcopy, C.ok_bind, ih]
    rw [List.append_assoc, ← List.map_append, List.flatten_cons, List.length_append]
    congr 2
    omega

/-- `table_get_entries` lists the bindings, with a `NULL` after the last. -/
theorem tableGetEntries_table :
    tableGetEntries s.table = .ok ((s.entries.map Entry.ofPair).map some ++ [none]) := by
  have hcap : (tableSize s.table + 1).toNat = (s.entries.map Entry.ofPair).length + 1 := by
    rw [tableSize_table, List.length_map]
    omega
  have hloop := tableGetEntriesLoop_eq s.buckets [] ((s.entries.map Entry.ofPair).length + 1)
    (by rw [List.length_map, entries]; simp)
  rw [filled_nil, List.length_nil, List.nil_append] at hloop
  rw [tableGetEntries, hcap, lists_table, hloop]
  exact congrArg _ (filled_length_succ (s.entries.map Entry.ofPair))

end Store

/-! ## Sequences of calls -/

/-- A call of the table. The key is a string; a value may be `NULL`. -/
inductive TableOp where
  | put (key : CString) (value : Option Data)
  | get (key : CString)
  | remove (key : CString)
  | size

inductive TableResult where
  | int (ret : Int)
  | data (block : Option Data)
  deriving DecidableEq

/-- One call on the table. -/
def Table.exec (table : Table) : TableOp → C (Table × TableResult)
  | .put key value => do
    let (table, ret) ← tablePut table (some key) value
    return (table, .int ret)
  | .get key => do
    let block ← tableGet table (some key)
    return (table, .data block)
  | .remove key => do
    let (table, ret) ← tableRemove table (some key)
    return (table, .int ret)
  | .size => .ok (table, .int (tableSize table))

/-- The results of a sequence of calls, and the table they leave. -/
def Table.execAll : List TableOp → Table → C (Table × List TableResult)
  | [], table => .ok (table, [])
  | op :: ops, table => do
    let (table, result) ← table.exec op
    let (table, results) ← Table.execAll ops table
    return (table, result :: results)

/-! ## The specification

What each call means on a finite map from keys to blocks of bytes. -/

namespace Spec

abbrev Map := Finmap fun _ : CString => Bytes

/-- The block that a put binds: a positive size and a non-`NULL` pointer. -/
def accepted : Option Data → Option Bytes
  | some ⟨datasize, some block, _⟩ =>
    if 0 < datasize then some (block.take datasize.toNat) else none
  | _ => none

def exec (m : Map) : TableOp → Map × TableResult
  | .put key value =>
    match accepted value with
    | some b => (m.insert key b, .int 0)
    | none => (m, .int (-1))
  | .get key => (m, .data ((m.lookup key).map Data.ofBytes))
  | .remove key => if key ∈ m then (m.erase key, .int 0) else (m, .int 1)
  | .size => (m, .int m.keys.card)

def execAll : List TableOp → Map → Map × List TableResult
  | [], m => (m, [])
  | op :: ops, m =>
    let (m, result) := exec m op
    let (m, results) := execAll ops m
    (m, result :: results)

end Spec

theorem Spec.accepted_some (value : Data) : Spec.accepted (some value) = value.bytes := by
  obtain ⟨n, data, hfits⟩ := value
  cases data with
  | none => simp [Spec.accepted, Data.bytes]
  | some b => simp [Spec.accepted, Data.bytes]

/-- One call on a well-formed table does what it does on the map, and leaves a
    well-formed table. -/
theorem Store.exec_table (s : Store) (op : TableOp) :
    ∃ s' : Store, s'.size = s.size ∧ s'.map = (Spec.exec s.map op).1 ∧
      s.table.exec op = .ok (s'.table, (Spec.exec s.map op).2) := by
  cases op with
  | put key value =>
    cases hv : Spec.accepted value with
    | none =>
      refine ⟨s, rfl, by simp [Spec.exec, hv], ?_⟩
      cases value with
      | none => simp [Table.exec, tablePut, Spec.exec, hv]
      | some value =>
        rw [Spec.accepted_some] at hv
        simp [Table.exec, s.tablePut_table_reject key hv, Spec.exec, Spec.accepted_some, hv]
    | some b =>
      cases value with
      | none => simp [Spec.accepted] at hv
      | some value =>
        rw [Spec.accepted_some] at hv
        refine ⟨s.put key b (Data.bytes_ne_nil hv), rfl, ?_, ?_⟩
        · simp [Spec.exec, Spec.accepted_some, hv]
        · simp [Table.exec, s.tablePut_table key hv, Spec.exec, Spec.accepted_some, hv]
  | get key => exact ⟨s, rfl, rfl, by simp [Table.exec, s.tableGet_table key, Spec.exec]⟩
  | remove key =>
    refine ⟨s.remove key, rfl, ?_, ?_⟩
    · by_cases hk : key ∈ s.map
      · simp [Spec.exec, hk]
      · simp [Spec.exec, hk, s.remove_of_notMem key hk]
    · by_cases hk : key ∈ s.map
      · simp [Table.exec, s.tableRemove_table key, Spec.exec, hk]
      · simp [Table.exec, s.tableRemove_table key, Spec.exec, hk]
  | size =>
    exact ⟨s, rfl, rfl, by simp [Table.exec, s.tableSize_table, Spec.exec, s.card_keys_map]⟩

theorem Store.execAll_table (s : Store) (ops : List TableOp) :
    ∃ s' : Store, s'.size = s.size ∧ s'.map = (Spec.execAll ops s.map).1 ∧
      Table.execAll ops s.table = .ok (s'.table, (Spec.execAll ops s.map).2) := by
  induction ops generalizing s with
  | nil => exact ⟨s, rfl, rfl, rfl⟩
  | cons op ops ih =>
    obtain ⟨s₁, hsize₁, hmap₁, hexec₁⟩ := s.exec_table op
    obtain ⟨s₂, hsize₂, hmap₂, hexec₂⟩ := ih s₁
    rw [hmap₁] at hmap₂ hexec₂
    refine ⟨s₂, hsize₂.trans hsize₁, hmap₂, ?_⟩
    simp only [Table.execAll, hexec₁, C.ok_bind, hexec₂, C.pure_eq, Spec.execAll]

/-- Every sequence of calls on a fresh table returns what it returns on the empty
    map. -/
theorem tableCreate_refines_map {n : Int32} (hn : 1 ≤ n) (ops : List TableOp) :
    ∃ table table' : Table, tableCreate n = some table ∧
      Table.execAll ops table = .ok (table', (Spec.execAll ops ∅).2) := by
  have hpos : 0 < n := Int32.lt_of_lt_of_le (by decide) hn
  obtain ⟨s', -, -, hexec⟩ := (Store.create n hpos).execAll_table ops
  rw [Store.map_create] at hexec
  exact ⟨_, s'.table, Store.tableCreate_eq hpos, hexec⟩

theorem tableCreate_refines_map_two :
    ∃ table table' : Table, tableCreate 2 = some table ∧
      Table.execAll [.put .empty (some (.ofBytes [1])), .get .empty, .remove .empty, .remove .empty]
        table = .ok (table', [.int 0, .data (some (.ofBytes [1])), .int 0, .int 1]) := by
  have h := tableCreate_refines_map (n := 2) (by decide)
    [.put .empty (some (.ofBytes [1])), .get .empty, .remove .empty, .remove .empty]
  simpa [Spec.execAll, Spec.exec, Spec.accepted, Data.ofBytes, Finmap.mem_erase] using h

end ChainTable
