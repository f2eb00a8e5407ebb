-- SUMMARY: What the two listings of a reached table contain, and that a listing can be put into a table of another size.
import ChainTable.Store.Invariant

open Base

/-!
# Listing and copying a table

The arrays of `table_get_keys` and `table_get_entries` agree with each other and with
`table_get`, and depend only on the map that the table holds. The array of entries is
also how a table gets from one server to the next, where the number of lists may be
another one.
-/

namespace ChainTable

/-! ## Listings -/

namespace Table

/-- `table_get_keys`, with the table that it leaves. -/
def getKeys (table : Table) : C (Table × List (Option CString)) := do
  let keyArr ← tableGetKeys table
  return (table, keyArr)

/-- `table_get_entries`, with the table that it leaves. -/
def getEntries (table : Table) : C (Table × List (Option Entry)) := do
  let entriesArr ← tableGetEntries table
  return (table, entriesArr)

/-- The two arrays of a table are `keys` and `entries` with a `NULL` after the last
    element. Each bound key is in the first once, and the second has in the same place
    the entry with that key and with what `table_get` returns for it. -/
structure ListedAs (table : Table) (keys : List CString) (entries : List Entry) : Prop where
  getKeys : table.getKeys = .ok (table, keys.map some ++ [none])
  getEntries : table.getEntries = .ok (table, entries.map some ++ [none])
  length : (keys.length : Int) = tableSize table
  nodup : keys.Nodup
  bound : ∀ key, key ∈ keys ↔ ∃ value, tableGet table (some key) = .ok (some value)
  aligned : keys.Forall₂ (fun key entry => ∃ value, entry = ⟨some key, some value⟩ ∧
    tableGet table (some key) = .ok (some value)) entries

end Table

namespace Store

variable (s : Store)

theorem lookup_entries (key : CString) : s.map.lookup key = s.entries.dlookup key :=
  Finmap.dlookup_list_toFinmap key s.entries

theorem nodupKeys_entries : s.entries.NodupKeys := s.placed.nodupKeys

theorem tableGet_eq_some {key : CString} {value : Data} :
    tableGet s.table (some key) = .ok (some value) ↔
      ∃ b, s.map.lookup key = some b ∧ Data.ofBytes b = value := by
  rw [s.tableGet_table key, Except.ok.injEq, Option.map_eq_some_iff]

theorem tableGet_of_mem {e : Σ _ : CString, Bytes} (he : e ∈ s.entries) :
    tableGet s.table (some e.1) = .ok (some (.ofBytes e.2)) := by
  rw [tableGet_eq_some]
  refine ⟨e.2, ?_, rfl⟩
  rw [lookup_entries]
  exact List.mem_dlookup s.nodupKeys_entries he

theorem listedAs_table : s.table.ListedAs s.keys (s.entries.map .ofPair) where
  getKeys := by
    rw [Table.getKeys, s.tableGetKeys_table]
    rfl
  getEntries := by
    rw [Table.getEntries, s.tableGetEntries_table]
    rfl
  length := by rw [length_keys, tableSize_table]
  nodup := s.nodupKeys_entries
  bound := by
    intro key
    rw [keys, ← List.dlookup_isSome, ← lookup_entries, Option.isSome_iff_exists]
    constructor
    · rintro ⟨b, hb⟩
      exact ⟨.ofBytes b, s.tableGet_eq_some.2 ⟨b, hb, rfl⟩⟩
    · rintro ⟨value, hvalue⟩
      obtain ⟨b, hb, -⟩ := s.tableGet_eq_some.1 hvalue
      exact ⟨b, hb⟩
  aligned := by
    rw [keys, List.keys, List.forall₂_map_left_iff, List.forall₂_map_right_iff, List.forall₂_same]
    intro e he
    exact ⟨.ofBytes e.2, rfl, s.tableGet_of_mem he⟩

/-- Tables that answer every `table_get` alike hold the same map. -/
theorem map_eq_of_tableGet {s s' : Store}
    (h : ∀ key, tableGet s.table (some key) = tableGet s'.table (some key)) : s.map = s'.map := by
  refine Finmap.ext_lookup fun key => ?_
  have hkey := h key
  rw [s.tableGet_table, s'.tableGet_table, Except.ok.injEq] at hkey
  refine Option.map_injective (fun b b' hb => ?_) hkey
  exact Option.some.inj (congrArg Data.data hb)

end Store

/-- The listings of a reached table are complete and in step with each other, and they
    are the same for all tables with as many lists that hold the same map. -/
theorem listings_canonical {n : Int32} {table : Table} (h : table.Reached n) :
    (∃ keys entries, table.ListedAs keys entries) ∧
      ∀ table' : Table, table'.Reached n →
        (∀ key, tableGet table (some key) = tableGet table' (some key)) →
          tableGetKeys table = tableGetKeys table' ∧
            tableGetEntries table = tableGetEntries table' := by
  obtain ⟨s, hsize, rfl⟩ := h.store
  refine ⟨⟨_, _, s.listedAs_table⟩, ?_⟩
  intro table' h' hget
  obtain ⟨s', hsize', rfl⟩ := h'.store
  obtain rfl : s = s' := Store.ext_map (hsize.trans hsize'.symm) (Store.map_eq_of_tableGet hget)
  exact ⟨rfl, rfl⟩

/-- Two histories of one map: the keys are bound in either order, and one of them is
    overwritten, removed and bound again. -/
theorem listings_canonical_histories :
    ∃ fresh table table' : Table, ∃ rets rets' : List Int, tableCreate 2 = some fresh ∧
      fresh.updateAll [.put (some .empty) (some (.ofBytes [1])),
        .put (some ⟨[7], by decide⟩) (some (.ofBytes [2]))] = .ok (table, rets) ∧
      fresh.updateAll [.put (some ⟨[7], by decide⟩) (some (.ofBytes [2])),
        .put (some .empty) (some (.ofBytes [3])), .remove (some .empty),
        .put (some .empty) (some (.ofBytes [1]))] = .ok (table', rets') ∧
      tableGetEntries table = tableGetEntries table' := by
  let key : CString := ⟨[7], by decide⟩
  let s := Store.create 2 (by decide)
  have hput : ∀ (s : Store) (k : CString) (b : Bytes) (hb : b ≠ []),
      s.table.update (.put (some k) (some (.ofBytes b))) = .ok ((s.put k b hb).table, 0) :=
    fun s k b hb => s.tablePut_table k (Data.bytes_ofBytes hb)
  have hremove : ∀ (s : Store) (k : CString), s.table.update (.remove (some k)) =
      .ok ((s.remove k).table, if k ∈ s.map then 0 else 1) := fun s k => s.tableRemove_table k
  have hfirst := Table.updateAll_cons_ok (hput s .empty [1] (by simp))
    (Table.updateAll_cons_ok (hput _ key [2] (by simp)) (Table.updateAll_nil _))
  have hsecond := Table.updateAll_cons_ok (hput s key [2] (by simp))
    (Table.updateAll_cons_ok (hput _ .empty [3] (by simp))
      (Table.updateAll_cons_ok (hremove _ .empty)
        (Table.updateAll_cons_ok (hput _ .empty [1] (by simp)) (Table.updateAll_nil _))))
  have hcreate := Store.tableCreate_eq (n := 2) (by decide)
  have hne : (.empty : CString) ≠ key := by decide
  refine ⟨_, _, _, _, _, hcreate, hfirst, hsecond,
    ((listings_canonical ⟨_, _, _, hcreate, hfirst⟩).2 _ ⟨_, _, _, hcreate, hsecond⟩ ?_).2⟩
  intro k
  rw [Store.tableGet_table, Store.tableGet_table]
  simp only [Store.map_put, Store.map_remove]
  by_cases hk : k = .empty
  · subst hk
    rw [Finmap.lookup_insert_of_ne _ hne, Finmap.lookup_insert, Finmap.lookup_insert]
  · rw [Finmap.lookup_insert_of_ne _ hk, Finmap.lookup_erase_ne hk, Finmap.lookup_insert_of_ne _ hk]
    by_cases hk' : k = key
    · subst hk'
      rw [Finmap.lookup_insert, Finmap.lookup_insert]
    · rw [Finmap.lookup_insert_of_ne _ hk', Finmap.lookup_insert_of_ne _ hk',
        Finmap.lookup_insert_of_ne _ hk]

/-! ## Export and import -/

/-- The calls that put the entries of an array. -/
def importCalls (entries : List Entry) : List TableUpdate :=
  entries.map fun entry => .put entry.key entry.value

/-- Putting these entries into a fresh table with `n` lists returns 0 each time and
    leaves `table`. -/
def Imports (n : Int32) (entries : List Entry) (table : Table) : Prop :=
  ∃ fresh, tableCreate n = some fresh ∧
    fresh.updateAll (importCalls entries) = .ok (table, List.replicate entries.length 0)

namespace Store

theorem updateAll_importCalls (s : Store) {b : Bucket CString Bytes} (hb : ∀ e ∈ b, e.2 ≠ []) :
    ∃ s' : Store, s'.size = s.size ∧ s'.map = b.insertAll s.map ∧
      s.table.updateAll (importCalls (b.map .ofPair)) =
        .ok (s'.table, List.replicate b.length 0) := by
  induction b generalizing s with
  | nil => exact ⟨s, rfl, rfl, rfl⟩
  | cons e b ih =>
    obtain ⟨he, hrest⟩ := List.forall_mem_cons.1 hb
    have hput := s.tablePut_table e.1 (Data.bytes_ofBytes he)
    obtain ⟨s', hsize, hmap, hall⟩ := ih (s.put e.1 e.2 he) hrest
    refine ⟨s', hsize, ?_, Table.updateAll_cons_ok hput hall⟩
    rw [hmap, map_put, Bucket.insertAll_cons]

/-- The entries of a store, in any order, make a store with the same map. -/
theorem imports_perm (s : Store) {n : Int32} (hn : 0 < n) {perm : List Entry}
    (hperm : perm.Perm (s.entries.map .ofPair)) :
    ∃ copy : Store, copy.size = n ∧ copy.map = s.map ∧ Imports n perm copy.table := by
  obtain ⟨b, rfl, hb⟩ : ∃ b : Bucket CString Bytes, perm = b.map .ofPair ∧ b.Perm s.entries := by
    have hcomp := congrFun₂ (List.eq_map_comp_perm Entry.ofPair) perm s.entries
    exact (iff_of_eq hcomp).2 hperm
  have hnonempty : ∀ e ∈ b, e.2 ≠ [] := fun e he => s.nonempty e (hb.subset he)
  obtain ⟨copy, hsize, hmap, hall⟩ := (create n hn).updateAll_importCalls hnonempty
  refine ⟨copy, hsize, ?_, _, tableCreate_eq hn, ?_⟩
  · rw [hmap, map_create, Bucket.insertAll_perm s.nodupKeys_entries hb]
    rfl
  · rw [hall, List.length_map]

end Store

/-- The entries of a reached table, put in any order into a table with any number of
    lists, make a table that answers as the original does, and from there they make
    the original's array again. -/
theorem export_import {n n' : Int32} {table : Table} (h : table.Reached n) (hn' : 1 ≤ n') :
    ∃ entries, tableGetEntries table = .ok (entries.map some ++ [none]) ∧
      ∀ perm : List Entry, perm.Perm entries →
        ∃ copy, Imports n' perm copy ∧ (∀ key, tableGet copy key = tableGet table key) ∧
          tableSize copy = tableSize table ∧
          ∃ entries', tableGetEntries copy = .ok (entries'.map some ++ [none]) ∧
            ∀ perm' : List Entry, perm'.Perm entries' →
              ∃ back, Imports n perm' back ∧ tableGetEntries back = tableGetEntries table := by
  obtain ⟨s, rfl, rfl⟩ := h.store
  have hpos : 0 < n' := Int32.lt_of_lt_of_le (by decide) hn'
  refine ⟨_, s.tableGetEntries_table, ?_⟩
  intro perm hperm
  obtain ⟨copy, hsize, hmap, himports⟩ := s.imports_perm hpos hperm
  refine ⟨copy.table, himports, ?_, ?_, _, copy.tableGetEntries_table, ?_⟩
  · rintro (_ | key)
    · rfl
    · rw [copy.tableGet_table, s.tableGet_table, hmap]
  · rw [copy.tableSize_table, s.tableSize_table, ← copy.card_keys_map, ← s.card_keys_map, hmap]
  · intro perm' hperm'
    obtain ⟨back, hsizeBack, hmapBack, himportsBack⟩ := copy.imports_perm s.pos hperm'
    obtain rfl : back = s := Store.ext_map hsizeBack (hmapBack.trans hmap)
    exact ⟨_, himportsBack, rfl⟩

/-- Three entries in two lists, exported, put into three lists from the last to the first, and
    put back. -/
theorem export_import_reversed :
    ∃ (table copy back : Table) (entries entries' : List Entry),
      table.Reached 2 ∧ entries.length = 3 ∧
        tableGetEntries table = .ok (entries.map some ++ [none]) ∧
      Imports 3 entries.reverse copy ∧ (∀ key, tableGet copy key = tableGet table key) ∧
      tableGetEntries copy = .ok (entries'.map some ++ [none]) ∧
      Imports 2 entries'.reverse back ∧ tableGetEntries back = tableGetEntries table := by
  let put (key value : UInt8) (h : key ≠ 0) : TableUpdate :=
    .put (some ⟨[key], by simpa using Ne.symm h⟩) (some (.ofBytes [value]))
  obtain ⟨table, hrun, three, hthree, hlength⟩ : ∃ table,
      (Store.create 2 (by decide)).table.updateAll
          [put 1 10 (by decide), put 2 20 (by decide), put 3 30 (by decide)] = .ok (table, [0, 0, 0]) ∧
        ∃ entries, tableGetEntries table = .ok entries ∧ entries.length = 4 := ⟨_, rfl, _, rfl, rfl⟩
  have hreached : table.Reached 2 := ⟨_, _, _, Store.tableCreate_eq (by decide), hrun⟩
  obtain ⟨entries, hentries, hall⟩ := export_import hreached (show (1 : Int32) ≤ 3 by decide)
  obtain ⟨copy, himports, hsame, -, entries', hentries', hback⟩ :=
    hall entries.reverse entries.reverse_perm
  obtain ⟨back, himportsBack, hequal⟩ := hback entries'.reverse entries'.reverse_perm
  have hlength : entries.length = 3 := by
    rw [Except.ok.inj (hthree.symm.trans hentries), List.length_append, List.length_map] at hlength
    exact Nat.add_right_cancel hlength
  exact ⟨table, copy, back, entries, entries', hreached, hlength, hentries, himports,
    hsame, hentries',
    himportsBack, hequal⟩

end ChainTable
