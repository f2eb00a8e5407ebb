-- SUMMARY: The hash table of table.c and the well-formed stores that its reachable states stand for.
import ChainTable.Store.List

open Base

/-!
# The hash table

The operations of table.c, and above them `Store`: a table whose buckets satisfy
the representation invariant, so that a table reached by the operations is
`s.table` for a store `s`. Each operation on `s.table` is described by one
operation on `s`.
-/

namespace ChainTable

/-! ## Hashing -/

/-- The loop of `hash_code`: `key[i]` is a signed char, sign-extended to 64 bits. -/
def hashLoop (key : CString) : UInt64 :=
  key.bytes.foldl (fun result c => result * 31 + c.toInt8.toInt64.toUInt64) 7

/-- `hash_code`: the accumulated hash is cut to an `int` before the remainder,
    which goes back through `unsigned long long` to `abs`. -/
def hashCode (key : CString) (n : Int32) : Int32 :=
  let result := (((hashLoop key).toUInt32.toInt32) % n).toInt64.toUInt64
  result.toUInt32.toInt32.abs

private theorem abs_toInt {x : Int32} (h : x ≠ Int32.minValue) : x.abs.toInt = |x.toInt| := by
  have habs : x.abs.toInt = x.toBitVec.abs.toInt := rfl
  have hmin : x.toBitVec ≠ BitVec.intMin 32 := fun heq => h (Int32.toBitVec_inj.1 heq)
  rw [habs, BitVec.toInt_abs_eq_natAbs_of_ne_intMin hmin, Int.abs_eq_natAbs]
  rfl

/-- An `int` survives the passage through `unsigned long long`. -/
private theorem toInt32_toUInt64 (x : Int32) : x.toInt64.toUInt64.toUInt32.toInt32 = x := by
  apply Int32.toBitVec_inj.1
  change (x.toBitVec.signExtend 64).setWidth 32 = x.toBitVec
  ext i hi
  have hi' : i < 64 := by omega
  rw [BitVec.getElem_setWidth, BitVec.getLsbD_signExtend]
  simp [hi, hi']

/-- A remainder is smaller than the divisor, and so is not the smallest `int`. -/
private theorem mod_range (x : Int32) {n : Int32} (hn : 0 < n) :
    |(x % n).toInt| < n.toInt ∧ x % n ≠ Int32.minValue := by
  have hpos : 0 < n.toInt := Int32.lt_iff_toInt_lt.1 hn
  have hlt : n.toInt < 2 ^ 31 := Int32.toInt_lt n
  have hrange : |(x % n).toInt| < n.toInt := by
    rw [Int32.toInt_mod, abs_lt]
    exact ⟨Int.lt_tmod_of_pos _ hpos, Int.tmod_lt_of_pos _ hpos⟩
  refine ⟨hrange, fun hmin => ?_⟩
  rw [hmin] at hrange
  have : |Int32.minValue.toInt| = 2 ^ 31 := by decide
  omega

/-- The bucket index is the absolute value of a remainder modulo `n`, so it is
    inside the array. -/
theorem hashCode_range (key : CString) {n : Int32} (hn : 0 < n) :
    0 ≤ (hashCode key n).toInt ∧ (hashCode key n).toInt < n.toInt := by
  obtain ⟨hrange, hmin⟩ := mod_range (hashLoop key).toUInt32.toInt32 hn
  have hcode : (hashCode key n).toInt = |((hashLoop key).toUInt32.toInt32 % n).toInt| := by
    rw [← abs_toInt hmin, hashCode, toInt32_toUInt64]
  rw [hcode]
  exact ⟨abs_nonneg _, hrange⟩

/-! ### Undefined behaviour

`hashCode` computes with what an `int` holds. The same computation is undefined where C leaves
it so. -/

/-- `i++` -/
def increment (i : Int32) : Option Int32 := if i = Int32.maxValue then none else some (i + 1)

/-- `x % n` -/
def remainder (x n : Int32) : Option Int32 :=
  if n = 0 ∨ x = Int32.minValue ∧ n = -1 then none else some (x % n)

/-- `abs` -/
def absolute (x : Int32) : Option Int32 := if x = Int32.minValue then none else some x.abs

/-- The loop of `hash_code` at the index `i`, with the rest of the key. -/
def hashFrom : Bytes → Int32 → UInt64 → Option UInt64
  | [], _, result => some result
  | c :: key, i, result => do
    let i ← increment i
    hashFrom key i (result * 31 + c.toInt8.toInt64.toUInt64)

/-- `hash_code`, where it is defined. -/
def definedHashCode (key : CString) (n : Int32) : Option Int32 := do
  let result ← hashFrom key.bytes 0 7
  let result ← remainder result.toUInt32.toInt32 n
  let result := result.toInt64.toUInt64
  absolute result.toUInt32.toInt32

/-- The index stays an `int` as long as the rest of the key does not reach beyond one. -/
theorem hashFrom_eq {key : Bytes} {i : Int32} (result : UInt64)
    (h : i.toInt + key.length < 2 ^ 31) :
    hashFrom key i result =
      some (key.foldl (fun result c => result * 31 + c.toInt8.toInt64.toUInt64) result) := by
  induction key generalizing i result with
  | nil => rfl
  | cons c key ih =>
    rw [List.length_cons] at h
    have hlow := Int32.le_toInt i
    have hi : i ≠ Int32.maxValue := by
      rintro rfl
      have : Int32.maxValue.toInt = 2 ^ 31 - 1 := by decide
      omega
    have hnext : (i + 1).toInt = i.toInt + 1 := by
      rw [Int32.toInt_add, Int.bmod_eq_of_le (by simp; omega) (by simp; omega)]
      rfl
    rw [hashFrom, increment, if_neg hi, Option.bind_eq_bind, Option.bind_some, ih _ (by omega)]
    rfl

/-- Every key whose length is an `int` has an index in range, and nothing on the way to it is
    undefined. -/
theorem definedHashCode_range (key : CString) (hkey : key.bytes.length ≤ 2147483647) (n : Int32)
    (hn : 0 < n) :
    ∃ r, definedHashCode key n = some r ∧ r = hashCode key n ∧ 0 ≤ r.toInt ∧ r.toInt < n.toInt := by
  obtain ⟨-, hmin⟩ := mod_range (hashLoop key).toUInt32.toInt32 hn
  have hloop : hashFrom key.bytes 0 7 = some (hashLoop key) := hashFrom_eq 7 (by simp; omega)
  have hdivisor : ¬ (n = 0 ∨ (hashLoop key).toUInt32.toInt32 = Int32.minValue ∧ n = -1) := by
    rintro (rfl | ⟨-, rfl⟩) <;> exact absurd hn (by decide)
  refine ⟨hashCode key n, ?_, rfl, hashCode_range key hn⟩
  rw [definedHashCode, hashCode]
  simp only [hloop, remainder, if_neg hdivisor, Option.bind_eq_bind, Option.bind_some,
    toInt32_toUInt64,
    absolute, if_neg hmin]

/-- Bytes above 127 count as negative. -/
theorem definedHashCode_range_negative :
    ∃ r, definedHashCode ⟨[195, 169, 255], by decide⟩ 7 = some r ∧
      r = hashCode ⟨[195, 169, 255], by decide⟩ 7 ∧ 0 ≤ r.toInt ∧ r.toInt < Int32.toInt 7 :=
  definedHashCode_range _ (by decide) 7 (by decide)

/-! ## table.c -/

/-- `struct table_t`: an array of `size` lists. -/
structure Table where
  size : Int32
  lists : List ListT
  sized : (lists.length : Int) = size.toInt

/-- `table->lists[i] = list`. -/
def Table.setList (table : Table) (i : ℕ) (list : ListT) : Table where
  size := table.size
  lists := table.lists.set i list
  sized := by rw [List.length_set]; exact table.sized

/-- Reading `table->lists[index]`. -/
def Table.list (table : Table) (index : Int32) : C ListT :=
  if index < 0 then .error .outOfBounds else load table.lists index.toInt.toNat

/-- `table_create`. -/
def tableCreate (n : Int32) : Option Table :=
  if h : n ≤ 0 then none
  else some {
    size := n
    lists := List.replicate n.toInt.toNat listCreate
    sized := by
      have : 0 < n.toInt := Int32.lt_iff_toInt_lt.1 (Int32.not_le.1 h)
      rw [List.length_replicate]
      omega }

def tablePut (table : Table) : Option CString → Option Data → C (Table × Int)
  | some key, some value => do
    let index := hashCode key table.size
    let dupValue := dataDup (some value)
    let entry := entryCreate (some key) dupValue
    let list ← table.list index
    let (list, result) := listAdd list entry
    let table := table.setList index.toInt.toNat list
    if result = 1 then return (table, 0)
    return (table, result)
  | _, _ => .ok (table, -1)

def tableGet (table : Table) : Option CString → C (Option Data)
  | none => .ok none
  | some key => do
    let list ← table.list (hashCode key table.size)
    let entry ← listGet list (some key)
    match entry with
    | none => return none
    | some entry => return dataDup entry.value

def tableRemove (table : Table) : Option CString → C (Table × Int)
  | none => .ok (table, -1)
  | some key => do
    let index := hashCode key table.size
    let list ← table.list index
    let (list, result) ← listRemove list (some key)
    return (table.setList index.toInt.toNat list, result)

/-- `table_size`. -/
def tableSize (table : Table) : Int :=
  if table.size = 0 then -1
  else table.lists.foldl (fun entryCount list => entryCount + listSize list) 0

/-- The inner loop of `table_get_keys`: `count` more keys of a list's array. -/
def tableCopyKeys (listKeys : List (Option CString)) :
    ℕ → ℕ → List (Option CString) → ℕ → C (List (Option CString) × ℕ)
  | 0, _, keyArr, writeIndex => .ok (keyArr, writeIndex)
  | count + 1, j, keyArr, writeIndex => do
    let key ← load listKeys j
    let key ← deref key
    let keyArr ← store keyArr writeIndex (some key)
    tableCopyKeys listKeys count (j + 1) keyArr (writeIndex + 1)

/-- The outer loop of `table_get_keys`. -/
def tableGetKeysLoop :
    List ListT → List (Option CString) → ℕ → C (List (Option CString) × ℕ)
  | [], keyArr, writeIndex => .ok (keyArr, writeIndex)
  | list :: lists, keyArr, writeIndex => do
    match ← listGetKeys list with
    | none => tableGetKeysLoop lists keyArr writeIndex
    | some listKeys =>
      let (keyArr, writeIndex) ←
        tableCopyKeys listKeys (listSize list).toNat 0 keyArr writeIndex
      tableGetKeysLoop lists keyArr writeIndex

def tableGetKeys (table : Table) : C (List (Option CString)) := do
  let keyArr := calloc CString (tableSize table + 1).toNat
  let (keyArr, _) ← tableGetKeysLoop table.lists keyArr 0
  return keyArr

/-- The inner loop of `table_get_entries`: copy the entry of each node. -/
def tableCopyEntries : List Entry → List (Option Entry) → ℕ → C (List (Option Entry) × ℕ)
  | [], entriesArr, c => .ok (entriesArr, c)
  | node :: next, entriesArr, c => do
    let key ← deref node.key
    let value ← deref node.value
    let value ← dataCopy value
    let entriesArr ← store entriesArr c (some ⟨some key, some value⟩)
    tableCopyEntries next entriesArr (c + 1)

def tableGetEntriesLoop : List ListT → List (Option Entry) → ℕ → C (List (Option Entry) × ℕ)
  | [], entriesArr, c => .ok (entriesArr, c)
  | list :: lists, entriesArr, c => do
    let (entriesArr, c) ← tableCopyEntries list.head entriesArr c
    tableGetEntriesLoop lists entriesArr c

def tableGetEntries (table : Table) : C (List (Option Entry)) := do
  let entriesArr := calloc Entry (tableSize table + 1).toNat
  let (entriesArr, _) ← tableGetEntriesLoop table.lists entriesArr 0
  return entriesArr

/-! ## Stores -/

/-- The bucket of a key. -/
def bucketOf (n : Int32) (key : CString) : ℕ := (hashCode key n).toInt.toNat

/-- A table that satisfies the representation invariant, as its buckets: there
    are `size` of them, they represent a map under `hash_code`, and no stored
    block is empty. -/
structure Store where
  size : Int32
  buckets : Buckets CString Bytes
  pos : 0 < size
  sized : (buckets.length : Int) = size.toInt
  placed : Buckets.Placed (bucketOf size) buckets
  nonempty : ∀ e ∈ buckets.flatten, e.2 ≠ []

namespace Store

/-- The table that a store stands for. -/
def table (s : Store) : Table where
  size := s.size
  lists := s.buckets.map ListT.ofBucket
  sized := by rw [List.length_map]; exact s.sized

@[simp] theorem size_table (s : Store) : s.table.size = s.size := rfl

theorem lists_table (s : Store) : s.table.lists = s.buckets.map ListT.ofBucket := rfl

/-- The finite map that a store holds. -/
def map (s : Store) : Finmap fun _ : CString => Bytes := Buckets.toMap s.buckets

/-- The bucket that holds the bindings of a key. -/
def bucket (s : Store) (key : CString) : Bucket CString Bytes :=
  s.buckets.get ⟨bucketOf s.size key, s.placed.inRange key⟩

theorem getElem?_bucket (s : Store) (key : CString) :
    s.buckets[bucketOf s.size key]? = some (s.bucket key) :=
  List.getElem?_eq_getElem (s.placed.inRange key)

theorem lookup_map (s : Store) (key : CString) : s.map.lookup key = (s.bucket key).dlookup key :=
  s.placed.lookup_toMap (s.getElem?_bucket key)

theorem sorted_bucket (s : Store) (key : CString) : Bucket.Sorted (s.bucket key) :=
  s.placed.sorted _ (List.mem_of_getElem? (s.getElem?_bucket key))

/-- A bound block is not empty. -/
theorem lookup_ne_nil (s : Store) {key : CString} {b : Bytes} (h : s.map.lookup key = some b) :
    b ≠ [] := by
  rw [lookup_map] at h
  refine s.nonempty ⟨key, b⟩ (List.mem_flatten.2 ⟨s.bucket key, ?_, List.of_mem_dlookup h⟩)
  exact List.mem_of_getElem? (s.getElem?_bucket key)

/-- The empty store with `n` buckets. -/
def create (n : Int32) (hn : 0 < n) : Store where
  size := n
  buckets := List.replicate n.toInt.toNat []
  pos := hn
  sized := by
    have : 0 < n.toInt := Int32.lt_iff_toInt_lt.1 hn
    rw [List.length_replicate]
    omega
  placed := Buckets.placed_replicate fun key => by
    have := hashCode_range key hn
    rw [bucketOf]
    omega
  nonempty := by simp

theorem one_pos : (0 : Int32) < 1 := by decide

/-- Bind a key to a non-empty block. -/
def put (s : Store) (key : CString) (b : Bytes) (hb : b ≠ []) : Store where
  size := s.size
  buckets := s.buckets.set (bucketOf s.size key) ((s.bucket key).insert key b)
  pos := s.pos
  sized := by rw [List.length_set]; exact s.sized
  placed := s.placed.insert (s.getElem?_bucket key) b
  nonempty e he := by
    obtain ⟨b', hb', he⟩ := List.mem_flatten.1 he
    rcases List.mem_or_eq_of_mem_set hb' with hb' | rfl
    · exact s.nonempty e (List.mem_flatten.2 ⟨b', hb', he⟩)
    · rcases Bucket.mem_insert he with rfl | he
      · exact hb
      · exact s.nonempty e (List.mem_flatten.2 ⟨_, List.get_mem _ _, he⟩)

/-- Unbind a key. -/
def remove (s : Store) (key : CString) : Store where
  size := s.size
  buckets := s.buckets.set (bucketOf s.size key) ((s.bucket key).kerase key)
  pos := s.pos
  sized := by rw [List.length_set]; exact s.sized
  placed := s.placed.erase (s.getElem?_bucket key)
  nonempty e he := by
    obtain ⟨b', hb', he⟩ := List.mem_flatten.1 he
    rcases List.mem_or_eq_of_mem_set hb' with hb' | rfl
    · exact s.nonempty e (List.mem_flatten.2 ⟨b', hb', he⟩)
    · exact s.nonempty e
        (List.mem_flatten.2 ⟨_, List.get_mem _ _, (List.kerase_sublist _ _).subset he⟩)

/-- All bindings, bucket by bucket and in key order inside a bucket. -/
def entries (s : Store) : Bucket CString Bytes := s.buckets.flatten

def keys (s : Store) : List CString := s.entries.keys

@[simp] theorem map_create (n : Int32) (hn : 0 < n) : (create n hn).map = ∅ :=
  Buckets.toMap_replicate _

@[simp] theorem map_put (s : Store) (key : CString) (b : Bytes) (hb : b ≠ []) :
    (s.put key b hb).map = s.map.insert key b :=
  s.placed.toMap_insert (s.getElem?_bucket key) b

@[simp] theorem map_remove (s : Store) (key : CString) :
    (s.remove key).map = s.map.erase key :=
  s.placed.toMap_erase (s.getElem?_bucket key)

theorem card_keys_map (s : Store) : s.map.keys.card = s.entries.length :=
  s.placed.card_keys

theorem length_keys (s : Store) : s.keys.length = s.entries.length := by
  rw [keys, List.keys, List.length_map]

/-- Two stores with as many buckets and the same map are the same. -/
theorem ext_map {s s' : Store} (hsize : s.size = s'.size) (hmap : s.map = s'.map) : s = s' := by
  obtain ⟨n, bs, hpos, hsized, hplaced, hne⟩ := s
  obtain ⟨n', bs', hpos', hsized', hplaced', hne'⟩ := s'
  obtain rfl : n = n' := hsize
  have hlength : bs.length = bs'.length := by omega
  obtain rfl : bs = bs' := hplaced.ext hplaced' hlength hmap
  rfl

end Store

end ChainTable
