-- SUMMARY: The representation invariant of the table, which every sequence of table_put and table_remove calls keeps.
import ChainTable.Store.Refinement

open Base

/-!
# The representation invariant

Only `table_put` and `table_remove` change a table. From `table_create` on they keep
every list in key order and in its bucket, with usable entries and a size field that
counts the nodes. A walk over such a list is never left by one of its error exits.
-/

namespace ChainTable

/-! ## Reached tables -/

/-- A call that changes a table. Each argument may be `NULL`. -/
inductive TableUpdate where
  | put (key : Option CString) (value : Option Data)
  | remove (key : Option CString)

namespace Table

def update (table : Table) : TableUpdate → C (Table × Int)
  | .put key value => tablePut table key value
  | .remove key => tableRemove table key

/-- A sequence of calls: the table that it leaves, and what the calls return. -/
def updateAll : List TableUpdate → Table → C (Table × List Int)
  | [], table => .ok (table, [])
  | u :: us, table => do
    let (table, ret) ← table.update u
    let (table, rets) ← updateAll us table
    return (table, ret :: rets)

/-- What some sequence of calls makes of a fresh table with `n` lists. -/
def Reached (n : Int32) (table : Table) : Prop :=
  ∃ (fresh : Table) (us : List TableUpdate) (rets : List Int),
    tableCreate n = some fresh ∧ updateAll us fresh = .ok (table, rets)

theorem updateAll_nil (table : Table) : updateAll [] table = .ok (table, []) := rfl

theorem updateAll_cons_ok {u : TableUpdate} {us : List TableUpdate} {table table₁ table₂ : Table}
    {ret : Int} {rets : List Int} (h : table.update u = .ok (table₁, ret))
    (hall : updateAll us table₁ = .ok (table₂, rets)) :
    updateAll (u :: us) table = .ok (table₂, ret :: rets) := by
  simp only [updateAll, h, C.ok_bind, hall, C.pure_eq]

end Table

/-- A call on a well-formed table returns and leaves a well-formed table. -/
theorem Store.update_table (s : Store) (u : TableUpdate) :
    ∃ (s' : Store) (ret : Int), s'.size = s.size ∧ s.table.update u = .ok (s'.table, ret) := by
  cases u with
  | put key value =>
    cases key with
    | none => exact ⟨s, -1, rfl, rfl⟩
    | some key =>
      cases value with
      | none => exact ⟨s, -1, rfl, rfl⟩
      | some value =>
        cases hb : value.bytes with
        | none => exact ⟨s, -1, rfl, s.tablePut_table_reject key hb⟩
        | some b => exact ⟨s.put key b (Data.bytes_ne_nil hb), 0, rfl, s.tablePut_table key hb⟩
  | remove key =>
    cases key with
    | none => exact ⟨s, -1, rfl, rfl⟩
    | some key => exact ⟨s.remove key, _, rfl, s.tableRemove_table key⟩

theorem Store.updateAll_table (s : Store) (us : List TableUpdate) :
    ∃ (s' : Store) (rets : List Int), s'.size = s.size ∧
      s.table.updateAll us = .ok (s'.table, rets) := by
  induction us generalizing s with
  | nil => exact ⟨s, [], rfl, rfl⟩
  | cons u us ih =>
    obtain ⟨s₁, ret, hsize₁, hupdate⟩ := s.update_table u
    obtain ⟨s₂, rets, hsize₂, hall⟩ := ih s₁
    exact ⟨s₂, ret :: rets, hsize₂.trans hsize₁, Table.updateAll_cons_ok hupdate hall⟩

theorem tableCreate_pos {n : Int32} {table : Table} (h : tableCreate n = some table) : 0 < n := by
  rw [tableCreate] at h
  split at h
  · cases h
  · exact Int32.not_le.1 ‹_›

/-- A reached table stands for a store. -/
theorem Table.Reached.store {n : Int32} {table : Table} (h : table.Reached n) :
    ∃ s : Store, s.size = n ∧ table = s.table := by
  obtain ⟨fresh, us, rets, hcreate, hall⟩ := h
  have hpos := tableCreate_pos hcreate
  obtain rfl := Option.some.inj ((Store.tableCreate_eq hpos).symm.trans hcreate)
  obtain ⟨s, rets', hsize, hall'⟩ := (Store.create n hpos).updateAll_table us
  obtain ⟨rfl, -⟩ := Prod.mk.inj (Except.ok.inj (hall.symm.trans hall'))
  exact ⟨s, hsize, rfl⟩

theorem Store.reached_create (n : Int32) (hn : 0 < n) : (Store.create n hn).table.Reached n :=
  ⟨_, [], [], tableCreate_eq hn, Table.updateAll_nil _⟩

/-! ## The invariant -/

/-- The order of two nodes in a list. -/
def Entry.Before (e e' : Entry) : Prop :=
  ∃ key key', e.key = some key ∧ e'.key = some key' ∧ CString.strcmp key key' < 0

/-- An entry that may be stored in list `i` of `n`. -/
def Entry.Stored (n : Int32) (i : ℕ) (e : Entry) : Prop :=
  ∃ key value, e.key = some key ∧ e.value = some value ∧ (hashCode key n).toInt = i ∧
    0 < value.datasize ∧ value.data ≠ none

/-- List `i` of a table with `n` lists. The last two fields are what the code that
    reads a list makes of its size: `list_size` counts as many nodes, and the array of
    `list_get_keys`, when there is one, has a slot for each and one for the `NULL`. -/
structure ListT.WellFormed (n : Int32) (i : ℕ) (list : ListT) : Prop where
  sorted : list.head.Pairwise Entry.Before
  stored : ∀ e ∈ list.head, e.Stored n i
  size : list.size = list.head.length
  counted : listSize list = list.size
  allocated : ∃ keys, listGetKeys list = .ok keys ∧
    ∀ arr ∈ keys, (arr.length : Int) = list.size + 1

structure Table.WellFormed (n : Int32) (table : Table) : Prop where
  size : table.size = n
  lists : ∀ (i : ℕ) (list : ListT), table.lists[i]? = some list → list.WellFormed n i

/-- `list_add` takes an accepted entry, and `list_remove` succeeds or finds nothing. -/
structure Table.NoErrorExit (table : Table) : Prop where
  add : ∀ key value, dataDup (some value) ≠ none →
    ∃ list, table.list (hashCode key table.size) = .ok list ∧
      (listAdd list (entryCreate (some key) (dataDup (some value)))).2 ≠ -1
  remove : ∀ key, ∃ list list' ret, table.list (hashCode key table.size) = .ok list ∧
    listRemove list (some key) = .ok (list', ret) ∧ ret ≠ -1

/-- The list of a sorted bucket with non-empty blocks. -/
theorem ListT.wellFormed_ofBucket {n : Int32} {i : ℕ} {b : Bucket CString Bytes}
    (hsorted : b.Sorted) (hplaced : ∀ e ∈ b, (hashCode e.1 n).toInt = i)
    (hnonempty : ∀ e ∈ b, e.2 ≠ []) : (ListT.ofBucket b).WellFormed n i where
  sorted := by
    rw [head_ofBucket, List.pairwise_map]
    exact hsorted.imp fun h => ⟨_, _, rfl, rfl, CString.strcmp_neg_iff.2 h⟩
  stored := by
    intro e he
    rw [head_ofBucket] at he
    obtain ⟨pair, hpair, rfl⟩ := List.mem_map.1 he
    have hlength := List.length_pos_iff.2 (hnonempty pair hpair)
    refine ⟨pair.1, .ofBytes pair.2, rfl, rfl, hplaced pair hpair, ?_, by simp [Data.ofBytes]⟩
    simpa [Data.ofBytes] using hlength
  size := by simp
  counted := by simp
  allocated := by
    refine ⟨_, listGetKeys_ofBucket b, fun arr harr => ?_⟩
    split at harr
    · cases harr
    · obtain rfl := Option.mem_some_iff.1 harr
      simp [List.keys]

namespace Store

variable (s : Store)

theorem wellFormed_table : s.table.WellFormed s.size where
  size := rfl
  lists := by
    intro i list hlist
    rw [lists_table, List.getElem?_map, Option.map_eq_some_iff] at hlist
    obtain ⟨b, hb, rfl⟩ := hlist
    have hmem := List.mem_of_getElem? hb
    refine ListT.wellFormed_ofBucket (s.placed.sorted b hmem) (fun e he => ?_) fun e he =>
      s.nonempty e (List.mem_flatten.2 ⟨b, hmem, he⟩)
    have hindex : (hashCode e.1 s.size).toInt.toNat = i := s.placed.placed hb e he
    have hrange := hashCode_range e.1 s.pos
    omega

theorem noErrorExit_table : s.table.NoErrorExit where
  add := by
    intro key value haccepted
    refine ⟨_, s.list_table key, ?_⟩
    cases hb : value.bytes with
    | none =>
      rw [dataDup_some, hb] at haccepted
      exact absurd rfl haccepted
    | some b =>
      have hentry : entryCreate (some key) (dataDup (some value)) = some (.ofPair ⟨key, b⟩) := by
        rw [dataDup_some, hb]
        rfl
      rw [hentry, listAdd_ofBucket (s.sorted_bucket key)]
      change addResult (s.bucket key) key ≠ -1
      rw [addResult]
      split <;> decide
  remove := by
    intro key
    refine ⟨_, _, _, s.list_table key, listRemove_ofBucket (s.bucket key) key, ?_⟩
    rw [removeResult]
    split <;> decide

end Store

/-- Whatever calls are made on a fresh table, they return, the table that they leave
    is well formed, and no further call on it takes an error exit of a list. -/
theorem updates_keep_invariant {n : Int32} (hn : 1 ≤ n) (us : List TableUpdate) :
    ∃ fresh table rets, tableCreate n = some fresh ∧ fresh.updateAll us = .ok (table, rets) ∧
      table.WellFormed n ∧ table.NoErrorExit := by
  have hpos : 0 < n := Int32.lt_of_lt_of_le (by decide) hn
  obtain ⟨s, rets, hsize, hall⟩ := (Store.create n hpos).updateAll_table us
  obtain rfl : s.size = n := hsize
  exact ⟨_, s.table, rets, Store.tableCreate_eq hpos, hall, s.wellFormed_table,
    s.noErrorExit_table⟩

theorem updates_keep_invariant_two :
    ∃ fresh table rets, tableCreate 2 = some fresh ∧
      fresh.updateAll [.put (some .empty) (some (.ofBytes [1])), .put none none,
        .remove (some .empty), .remove (some .empty)] = .ok (table, rets) ∧
      table.WellFormed 2 ∧ table.NoErrorExit :=
  updates_keep_invariant (by decide) _

end ChainTable
