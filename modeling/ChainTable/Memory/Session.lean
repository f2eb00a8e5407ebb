-- SUMMARY: Whole lives of a table in memory: what callers see is what the table of values gives, and what is not released in the end.
import ChainTable.Memory.Table

open Base Base.Mem Base.Assertion

/-!
# The life of a table

A caller creates a table, calls its operations with arguments that it allocates and releases,
releases the copies that it gets, and destroys the table. No run of such a program uses memory
that it does not own, all end, and what they return is what the table of values returns. All
memory is released in the end but the keys that puts of refused blocks have copied.
-/

namespace ChainTable

/-- A call of the table by a caller that looks at what it gets. -/
inductive Call where
  | op (op : TableOp)
  | getKeys
  | getEntries

inductive CallResult where
  | op (result : TableResult)
  | keys (keys : List (Option CString))
  | entries (entries : List (Option Entry))

/-- The call on a table of values. -/
def Table.call (table : Table) : Call → C (Table × CallResult)
  | .op op => do
    let (table, result) ← table.exec op
    return (table, .op result)
  | .getKeys => do
    let keys ← tableGetKeys table
    return (table, .keys keys)
  | .getEntries => do
    let entries ← tableGetEntries table
    return (table, .entries entries)

def Table.callAll : List Call → Table → C (Table × List CallResult)
  | [], table => .ok (table, [])
  | call :: calls, table => do
    let (table, result) ← table.call call
    let (table, results) ← Table.callAll calls table
    return (table, result :: results)

namespace Memory

/-! ## Releasing the copies -/

/-- A round of `rtable_free_entries`. -/
def freeEntriesLoop (entries : Ptr) (i : ℕ) : M (Round ℕ Unit) := do
  let entryPtr ← slot entries i
  if entryPtr = 0 then pure (.done ())
  else
    let e : EntryT ← peek entryPtr
    let v : DataT ← peek e.value
    free v.data
    free e.value
    free e.key
    free entryPtr
    pure (.next (i + 1))

/-- `rtable_free_entries` -/
def rtableFreeEntries (entries : Ptr) : M Unit := do
  loop (freeEntriesLoop entries) 0
  free entries

/-! ## The caller -/

def newBytes : Option Bytes → M Ptr
  | none => pure 0
  | some b => malloc b

def newData : Option Data → M Ptr
  | none => pure 0
  | some d => do
    let block ← newBytes d.data
    malloc (⟨d.datasize, block⟩ : DataT)

def readString (p : Ptr) : M (Option CString) :=
  if p = 0 then pure none
  else do
    let s : CString ← peek p
    pure (some s)

def readBytes (p : Ptr) : M (Option Bytes) :=
  if p = 0 then pure none
  else do
    let b : Bytes ← peek p
    pure (some b)

def readData (p : Ptr) : M (Option Data) :=
  if p = 0 then pure none
  else do
    let d : DataT ← peek p
    let block ← readBytes d.data
    if fits : ∀ b ∈ block, d.datasize ≤ b.length then pure (some ⟨d.datasize, block, fits⟩)
    else fault

def readEntry (p : Ptr) : M (Option Entry) :=
  if p = 0 then pure none
  else do
    let e : EntryT ← peek p
    let key ← readString e.key
    let value ← readData e.value
    pure (some ⟨key, value⟩)

/-- What the pointers of an array point to. -/
def readArray {α : Type} (read : Ptr → M α) (p : Ptr) : M (List α) := do
  let ps : List Ptr ← peek p
  ps.mapM read

/-- A call, with the memory that it takes. -/
def callTable (table : Ptr) : Call → M CallResult
  | .op (.put key value) => do
    let k ← malloc key
    let v ← newData value
    let ret ← tablePut table k v
    free k
    let _ ← dataDestroy v
    pure (.op (.int ret))
  | .op (.get key) => do
    let k ← malloc key
    let block ← tableGet table k
    let result ← readData block
    free k
    let _ ← dataDestroy block
    pure (.op (.data result))
  | .op (.remove key) => do
    let k ← malloc key
    let ret ← tableRemove table k
    free k
    pure (.op (.int ret))
  | .op .size => do
    let ret ← tableSize table
    pure (.op (.int ret))
  | .getKeys => do
    let keys ← tableGetKeys table
    let result ← readArray readString keys
    let _ ← tableFreeKeys keys
    pure (.keys result)
  | .getEntries => do
    let entries ← tableGetEntries table
    let result ← readArray readEntry entries
    rtableFreeEntries entries
    pure (.entries result)

def callAll (table : Ptr) : List Call → M (List CallResult)
  | [] => pure []
  | call :: calls => do
    let result ← callTable table call
    let results ← callAll table calls
    pure (result :: results)

/-- The life of a table with `n` lists. -/
def session (n : Int32) (calls : List Call) : M (List CallResult) := do
  let table ← tableCreate n
  let results ← callAll table calls
  let _ ← tableDestroy table
  pure results

/-- The keys that a call copies and does not release. -/
def lostKeys : Call → List CString
  | .op (.put key (some value)) => if value.bytes = none then [key] else []
  | .op (.put _ none) => []
  | .op (.get _) => []
  | .op (.remove _) => []
  | .op .size => []
  | .getKeys => []
  | .getEntries => []

def Lost (keys : List CString) : Owns := ⨆ ps : List Ptr, each StringAt ps keys

instance opensLost (keys : List CString) : Opens (Lost keys) fun ps : List Ptr =>
    each StringAt ps keys := ⟨rfl⟩

/-! ## What the caller does -/

theorem freeEntriesLoop_spec (arr : Ptr) (front ps : List Ptr) (es : Bucket CString Bytes) :
    Triple (pointsTo arr (front ++ ps ++ [0]) * each PairAt ps es)
      (loop (freeEntriesLoop arr) front.length) (fun _ => pointsTo arr (front ++ ps ++ [0])) := by
  induction ps generalizing front es with
  | nil =>
    refine Triple.eachNil PairAt es ?_
    rintro rfl
    refine Triple.loop ?_
    have hlast : (front ++ [] ++ [0])[front.length]? = some 0 := by simp
    simp only [freeEntriesLoop, bind_assoc]
    refine Triple.callReturning (slot_spec arr hlast) ?_
    rw [if_pos rfl, pure_bind]
    exact Triple.return'
  | cons p ps ih =>
    refine Triple.eachCons PairAt p ps es ?_
    rintro e es rfl
    refine Triple.loop ?_
    have hslot : (front ++ p :: ps ++ [0])[front.length]? = some p := by simp
    simp only [freeEntriesLoop, bind_assoc]
    refine Triple.callReturning (slot_spec arr hslot) (Triple.ne_zero p fun hp => ?_)
    simp only [if_neg hp, bind_assoc, pure_bind]
    refine Triple.expose (PairAt p e) fun t => Triple.peek ?_
    refine Triple.expose (DataAt t.value (.ofBytes e.2)) fun block => Triple.peek ?_
    refine Triple.free (Triple.free (Triple.free (Triple.free ?_)))
    have ih := ih (front ++ [p]) es
    have hnext : (front ++ [p]).length = front.length + 1 := by simp
    rw [← List.append_cons front p ps, hnext] at ih
    exact Triple.last ih fun _ => le_of_frames

theorem rtableFreeEntries_spec (p : Ptr) (es : Bucket CString Bytes) :
    Triple (ArrayAt PairAt p es) (rtableFreeEntries p) (fun _ => 1) := by
  refine Triple.opens fun ps => ?_
  have hloop := freeEntriesLoop_spec p [] ps es
  rw [List.nil_append] at hloop
  refine Triple.call hloop fun _ => ?_
  exact Triple.last (Triple.free_spec p (ps ++ [0])) fun _ => le_of_frames

theorem newData_spec (d : Option Data) : Triple 1 (newData d) (fun p => nullable DataAt p d) := by
  cases d with
  | none => exact Triple.return'
  | some d =>
    obtain ⟨n, data, fits⟩ := d
    cases data with
    | none =>
      refine Triple.last (Triple.malloc_spec (⟨n, 0⟩ : DataT)) fun p => ?_
      exact fold_le (DataAt p ⟨n, none, fits⟩) 0 le_of_frames
    | some b =>
      refine Triple.malloc fun block => ?_
      refine Triple.last (Triple.malloc_spec (⟨n, block⟩ : DataT)) fun p => ?_
      exact fold_le (DataAt p ⟨n, some b, fits⟩) block le_of_frames

theorem readString_spec (p : Ptr) (s : Option CString) :
    Triple (nullable StringAt p s) (readString p) (returning s (nullable StringAt p s)) := by
  refine Triple.null_iff StringAt p s fun hp => ?_
  rw [readString]
  cases s with
  | none =>
    rw [if_pos (hp.2 rfl)]
    exact Triple.returning le_rfl
  | some s =>
    rw [if_neg (by simp [hp]), nullable_some]
    exact Triple.peek (Triple.returning le_rfl)

theorem readBytes_spec (p : Ptr) (b : Option Bytes) :
    Triple (nullable BytesAt p b) (readBytes p) (returning b (nullable BytesAt p b)) := by
  refine Triple.null_iff BytesAt p b fun hp => ?_
  rw [readBytes]
  cases b with
  | none =>
    rw [if_pos (hp.2 rfl)]
    exact Triple.returning le_rfl
  | some b =>
    rw [if_neg (by simp [hp]), nullable_some]
    exact Triple.peek (Triple.returning le_rfl)

theorem readData_spec (p : Ptr) (d : Option Data) :
    Triple (nullable DataAt p d) (readData p) (returning d (nullable DataAt p d)) := by
  refine Triple.null_iff DataAt p d fun hp => ?_
  rw [readData]
  cases d with
  | none =>
    rw [if_pos (hp.2 rfl)]
    exact Triple.returning le_rfl
  | some d =>
    rw [if_neg (by simp [hp]), nullable_some]
    refine Triple.opens fun q => Triple.peek ?_
    refine Triple.callReturning (readBytes_spec q d.data) ?_
    rw [dif_pos d.fits]
    exact Triple.returning (fold_le (DataAt p d) q le_of_frames)

theorem readEntry_spec (p : Ptr) (e : Option Entry) :
    Triple (nullable EntryAt p e) (readEntry p) (returning e (nullable EntryAt p e)) := by
  refine Triple.null_iff EntryAt p e fun hp => ?_
  rw [readEntry]
  cases e with
  | none =>
    rw [if_pos (hp.2 rfl)]
    exact Triple.returning le_rfl
  | some e =>
    rw [if_neg (by simp [hp]), nullable_some]
    obtain ⟨key, value⟩ := e
    refine Triple.opens fun t => Triple.peek ?_
    refine Triple.callReturning (readString_spec t.key key) ?_
    refine Triple.callReturning (readData_spec t.value value) ?_
    exact Triple.returning (fold_le (EntryAt p ⟨key, value⟩) t le_of_frames)

theorem readArray_spec {α : Type} {A : Ptr → α → Owns} {read : Ptr → M (Option α)}
    (hread : ∀ p a, Triple (nullable A p a) (read p) (returning a (nullable A p a))) (p : Ptr)
    (as : List α) :
    Triple (ArrayAt A p as) (readArray read p)
      (returning (as.map some ++ [none]) (ArrayAt A p as)) := by
  have heach : ∀ (ps : List Ptr) (as : List α), Triple (each A ps as) ((ps ++ [0]).mapM read)
      (returning (as.map some ++ [none]) (each A ps as)) := by
    intro ps
    induction ps with
    | nil =>
      intro as
      refine Triple.eachNil A as ?_
      rintro rfl
      rw [List.nil_append, List.mapM_cons, List.mapM_nil]
      refine Triple.callReturning (hread 0 none) ?_
      rw [pure_bind]
      exact Triple.returning (by simp)
    | cons p ps ih =>
      intro as
      refine Triple.eachCons A p ps as ?_
      rintro a as rfl
      rw [List.cons_append, List.mapM_cons]
      refine Triple.callReturning (hread p (some a)) ?_
      refine Triple.callReturning (ih as) ?_
      rw [nullable_some]
      exact Triple.returning le_of_frames
  refine Triple.opens fun ps => Triple.peek ?_
  exact Triple.lastReturning (heach ps as) (fold_le (ArrayAt A p as) ps le_of_frames)

/-! ## The run -/

theorem lost_nil : Lost [] = 1 := by
  refine le_antisymm (opens_le fun ps => ?_) (le_iSup_of_le [] le_rfl)
  cases ps with
  | nil => exact le_rfl
  | cons p ps => exact bot_le

theorem lost_append (keys keys' : List CString) :
    Lost keys * Lost keys' ≤ Lost (keys ++ keys') := by
  refine opens_le fun ps => opens_le fun ps' => ?_
  rw [each_length ps keys, lift, iSup_mul, iSup_mul]
  refine iSup_le fun hlength => ?_
  rw [one_mul, ← each_append ps keys ps' keys' hlength]
  exact le_iSup_of_le (ps ++ ps') le_rfl

/-- A call in memory is the call on values, but for the key that it loses. -/
theorem callTable_spec (s : Store) (call : Call) :
    ∃ (s' : Store) (result : CallResult), s.table.call call = .ok (s'.table, result) ∧
      ∀ p, Triple (TableAt p s) (callTable p call)
        (returning result (TableAt p s' * Lost (lostKeys call))) := by
  cases call with
  | op op =>
    cases op with
    | put key value =>
      cases value with
      | none =>
        refine ⟨s, .op (.int (-1)), rfl, fun p => ?_⟩
        rw [lostKeys, lost_nil]
        refine Triple.malloc fun k => Triple.call (newData_spec none) fun v => ?_
        rw [nullable_none]
        refine Triple.expose (lift (v = 0)) fun hv => ?_
        rw [tablePut, if_pos (by simp [hv]), pure_bind]
        refine Triple.free ?_
        rw [dataDestroy, if_pos hv, pure_bind]
        exact Triple.returning le_of_frames
      | some value =>
        cases hb : value.bytes with
        | none =>
          refine ⟨s, .op (.int (-1)), by
            simp [Table.call, Table.exec, s.tablePut_table_reject key hb], fun p => ?_⟩
          rw [lostKeys, if_pos hb]
          refine Triple.malloc fun k => Triple.call (newData_spec (some value)) fun v => ?_
          rw [nullable_some]
          refine Triple.callReturning (tablePut_spec_reject p k v s key hb) ?_
          refine Triple.expose (⨆ dupKey : Ptr, StringAt dupKey key) fun dupKey => ?_
          refine Triple.free (Triple.callReturning (dataDestroy_spec v value) ?_)
          refine Triple.fold (Lost [key]) [dupKey] ?_
          exact Triple.returning le_of_frames
        | some b =>
          refine ⟨s.put key b (Data.bytes_ne_nil hb), .op (.int 0),
            by simp [Table.call, Table.exec, s.tablePut_table key hb], fun p => ?_⟩
          rw [lostKeys, if_neg (by simp [hb]), lost_nil]
          refine Triple.malloc fun k => Triple.call (newData_spec (some value)) fun v => ?_
          rw [nullable_some]
          refine Triple.callReturning (tablePut_spec p k v s key hb) ?_
          refine Triple.free (Triple.callReturning (dataDestroy_spec v value) ?_)
          exact Triple.returning le_of_frames
    | get key =>
      refine ⟨s, .op (.data ((s.map.lookup key).map Data.ofBytes)),
        by simp [Table.call, Table.exec, s.tableGet_table key], fun p => ?_⟩
      rw [lostKeys, lost_nil]
      refine Triple.malloc fun k => Triple.call (tableGet_spec p k s key) fun block => ?_
      refine Triple.callReturning (readData_spec block ((s.map.lookup key).map Data.ofBytes)) ?_
      refine Triple.free
        (Triple.call (dataDestroy_nullable block ((s.map.lookup key).map Data.ofBytes)) fun _ => ?_)
      exact Triple.returning le_of_frames
    | remove key =>
      refine ⟨s.remove key, .op (.int (if key ∈ s.map then 0 else 1)),
        by simp [Table.call, Table.exec, s.tableRemove_table key], fun p => ?_⟩
      rw [lostKeys, lost_nil]
      refine Triple.malloc fun k => Triple.callReturning (tableRemove_spec p k s key) ?_
      exact Triple.free (Triple.returning le_of_frames)
    | size =>
      refine ⟨s, .op (.int s.entries.length), by
        simp [Table.call, Table.exec, s.tableSize_table], fun p => ?_⟩
      rw [lostKeys, lost_nil]
      exact Triple.callReturning (tableSize_spec p s) (Triple.returning le_of_frames)
  | getKeys =>
    refine ⟨s, .keys (s.keys.map some ++ [none]), by
      simp [Table.call, s.tableGetKeys_table], fun p => ?_⟩
    rw [lostKeys, lost_nil]
    refine Triple.call (tableGetKeys_spec p s) fun keys => ?_
    refine Triple.callReturning (readArray_spec readString_spec keys s.keys) ?_
    refine Triple.callReturning (tableFreeKeys_spec keys s.keys) ?_
    exact Triple.returning le_of_frames
  | getEntries =>
    refine ⟨s, .entries ((s.entries.map Entry.ofPair).map some ++ [none]),
      by simp only [Table.call, s.tableGetEntries_table, C.ok_bind, C.pure_eq], fun p => ?_⟩
    rw [lostKeys, lost_nil]
    refine Triple.call (tableGetEntries_spec p s) fun entries => ?_
    rw [arrayAt_pair]
    refine Triple.callReturning
      (readArray_spec readEntry_spec entries (s.entries.map Entry.ofPair)) ?_
    rw [← arrayAt_pair]
    refine Triple.call (rtableFreeEntries_spec entries s.entries) fun _ => ?_
    exact Triple.returning le_of_frames

theorem callAll_spec (s : Store) (calls : List Call) :
    ∃ (s' : Store) (results : List CallResult),
      Table.callAll calls s.table = .ok (s'.table, results) ∧
      ∀ p, Triple (TableAt p s) (callAll p calls)
        (returning results (TableAt p s' * Lost (calls.flatMap lostKeys))) := by
  induction calls generalizing s with
  | nil =>
    refine ⟨s, [], rfl, fun p => Triple.returning ?_⟩
    rw [List.flatMap_nil, lost_nil]
    exact le_of_frames
  | cons call calls ih =>
    obtain ⟨s₁, result, hcall, hspec⟩ := callTable_spec s call
    obtain ⟨s₂, results, hcalls, hspecs⟩ := ih s₁
    refine ⟨s₂, result :: results, ?_, fun p => ?_⟩
    · simp only [Table.callAll, hcall, C.ok_bind, hcalls, C.pure_eq]
    · rw [List.flatMap_cons]
      refine Triple.callReturning (hspec p)
        (Triple.callReturning (hspecs p) (Triple.returning ?_))
      exact weaken_le (lost_append (lostKeys call) (calls.flatMap lostKeys)) le_of_frames

/-- The life of a table in memory is that of a table of values. -/
theorem session_spec {n : Int32} (hn : 0 < n) (calls : List Call) :
    ∃ (table table' : Table) (results : List CallResult), ChainTable.tableCreate n = some table ∧
      Table.callAll calls table = .ok (table', results) ∧
      Triple 1 (session n calls) (returning results (Lost (calls.flatMap lostKeys))) := by
  obtain ⟨s', results, hcalls, hspec⟩ := callAll_spec (Store.create n hn) calls
  refine ⟨_, s'.table, results, Store.tableCreate_eq hn, hcalls, ?_⟩
  refine Triple.call (tableCreate_spec hn) fun p => Triple.callReturning (hspec p) ?_
  exact Triple.callReturning (tableDestroy_spec p s') (Triple.returning le_of_frames)

/-- In any memory and however addresses are chosen, the life of a table ends without a fault,
    returns what the table of values returns, and leaves the memory as it was, but for the copied
    keys of the puts that were refused. -/
theorem session_run {n : Int32} (hn : 1 ≤ n) (calls : List Call) (allocator : Allocator Block)
    (m : MemState Block) :
    ∃ (table table' : Table) (results : List CallResult) (lost : Heap Block) (allocations : ℕ),
      ChainTable.tableCreate n = some table ∧ Table.callAll calls table = .ok (table', results) ∧
      lost.Disjoint m.heap ∧
      lost.entries.map Sigma.snd = ↑((calls.flatMap lostKeys).map Block.string) ∧
      ∃ enough, ∀ fuel ≥ enough, (session n calls).run ⟨allocator, fuel⟩ m =
        .ok (results, ⟨lost ∪ m.heap, allocations⟩) := by
  obtain ⟨table, table', results, hcreate, hcalls, hspec⟩ :=
    session_spec (Int32.lt_of_lt_of_le (by decide) hn) calls
  obtain ⟨results', lost, allocations, hpost, hdisj, hrun⟩ :=
    hspec allocator ∅ m.heap m.allocations rfl (Finmap.disjoint_empty _)
  rw [Finmap.empty_union] at hrun
  obtain ⟨rfl, hlost⟩ := returning_iff.1 hpost
  obtain ⟨ps, hps⟩ := iSup_iff.1 hlost
  exact ⟨table, table', results', lost, allocations, hcreate, hcalls, hdisj,
    each_pointsTo_blocks hps, Filter.eventually_atTop.1 hrun⟩

/-- A refused put loses its key, and nothing else is lost. -/
theorem session_run_put :
    ∃ (table table' : Table) (results : List CallResult) (lost : Heap Block) (allocations : ℕ),
      ChainTable.tableCreate 2 = some table ∧
      Table.callAll [.op (.put .empty (some (.ofBytes []))),
        .op (.put .empty (some (.ofBytes [1]))),
        .getKeys, .op (.remove .empty)] table = .ok (table', results) ∧
      lost.Disjoint ∅ ∧ lost.entries.map Sigma.snd = ↑[Block.string .empty] ∧
      ∃ enough, ∀ fuel ≥ enough, (session 2 [.op (.put .empty (some (.ofBytes []))),
        .op (.put .empty (some (.ofBytes [1]))), .getKeys, .op (.remove .empty)]).run
          ⟨Allocator.afterAll Block, fuel⟩ ⟨∅, 0⟩ = .ok (results, ⟨lost ∪ ∅, allocations⟩) := by
  have h := session_run (n := 2) (by decide) [.op (.put .empty (some (.ofBytes []))),
    .op (.put .empty (some (.ofBytes [1]))), .getKeys, .op (.remove .empty)]
    (Allocator.afterAll Block) ⟨∅, 0⟩
  simpa [lostKeys, Data.bytes, Data.ofBytes] using h

end Memory

end ChainTable
