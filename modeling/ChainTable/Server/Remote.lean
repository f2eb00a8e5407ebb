-- SUMMARY: A stub call on a server and the local call on its table do the same.
import ChainTable.Server.Alone

open Base

/-!
# The remote table

A client calls a stub, the request is served by `invoke` on the other end, and the
response comes back. On a server without successor that is the local call, up to the
way in which results are encoded.
-/

namespace ChainTable

open Calls

/-! ## A server at the other end -/

/-- A connection to a server that serves nobody else. The second part is the response
    on its way back. -/
def Link.toServer (clock : ℕ → Timeval) : Link (ServerState × Option MessageT) where
  send msg t :=
    match msg.unpacked with
    | .ok msg =>
      let (res, server, ()) := serve clock .broken msg (t.1, ())
      -- the two bytes of the size, at least
      (2, (server, res.bind fun res => res.unpacked.toOption))
    | .error _ => (-1, t)
  receive t := ((t.2, t.2.isNone), (t.1, none))
  close t := t

/-- An exchange that goes well at every stage. -/
theorem exchange_toServer {clock : ℕ → Timeval} {msg res res' : MessageT} {ret : Int}
    {server server' : ServerState} (hrequest : msg.unpacked = .ok msg)
    (hdispatch : (dispatch msg).run (alone clock .broken) (server, ()) =
      .ok ((res, ret), (server', ())))
    (hret : 0 ≤ ret) (hresponse : (conclude (res, ret)).1.unpacked = .ok res') :
    (Link.toServer clock).exchange msg (server, none) = (some res', (server', none)) := by
  have hserve := serve_of_dispatch clock .broken hdispatch hret
  simp only [Link.exchange, Link.toServer, hrequest, hserve, Option.bind_some, hresponse]
  rfl

/-! ## Remote and local calls -/

/-- A call of a stub. -/
inductive RemoteOp where
  | put (key : CString) (value : Data)
  | get (key : CString)
  | del (key : CString)
  | size
  | getKeys
  | getTable

inductive RemoteResult where
  | int (ret : Int)
  | data (block : Option Data)
  | keys (arr : Option (List (Option CString)))
  | entries (arr : Option (List (Option Entry)))
  deriving DecidableEq

namespace RemoteOp

def stub (rtable : Option Rtable) : RemoteOp → Prog Calls RemoteResult
  | put key value => do return .int (← rtablePut rtable ⟨some key, some value⟩)
  | get key => do return .data (← rtableGet rtable key)
  | del key => do return .int (← rtableDel rtable key)
  | size => do return .int (← rtableSize rtable)
  | getKeys => do return .keys (← rtableGetKeys rtable)
  | getTable => do return .entries (← rtableGetTable rtable)

/-- The local call, with its result as the stub encodes it: a key that was not there
    is an error of `rtable_del`. -/
def onTable (table : Table) : RemoteOp → C (Table × RemoteResult)
  | put key value => do
    let (table, ret) ← tablePut table (some key) (some value)
    return (table, .int ret)
  | get key => do
    let block ← tableGet table (some key)
    return (table, .data block)
  | del key => do
    let (table, ret) ← tableRemove table (some key)
    return (table, .int (if ret = 0 then 0 else -1))
  | size => .ok (table, .int (tableSize table))
  | getKeys => do
    let keys ← tableGetKeys table
    return (table, .keys (some keys))
  | getTable => do
    let entries ← tableGetEntries table
    return (table, .entries (some entries))

/-- What the result says about the map that the server holds. The arrays end in
    `NULL` and have as many elements as there are keys. -/
def Returns (m : Spec.Map) : RemoteOp → RemoteResult → Prop
  | put _ _, result => result = .int 0
  | get key, result => result = .data ((m.lookup key).map Data.ofBytes)
  | del key, result => result = .int (if key ∈ m then 0 else -1)
  | size, result => result = .int m.keys.card
  | getKeys, result => ∃ keys : List CString,
      result = .keys (some (keys.map some ++ [none])) ∧ keys.length = m.keys.card
  | getTable, result => ∃ entries : List Entry,
      result = .entries (some (entries.map some ++ [none])) ∧ entries.length = m.keys.card

/-- A value that is put has at least one byte. -/
def Usable : RemoteOp → Prop
  | put _ value => value.bytes ≠ none
  | _ => True

end RemoteOp

/-! ## Messages on their way -/

/-- All entries of a table arrive as they are. -/
theorem mapM_unpackedEntry {b : Bucket CString Bytes} (hb : ∀ e ∈ b, e.2 ≠ []) :
    ((b.map EntryT.ofPair).map some).mapM unpackedEntry = .ok ((b.map EntryT.ofPair).map some) := by
  induction b with
  | nil => rfl
  | cons e b ih =>
    rw [List.forall_mem_cons] at hb
    have hentry : unpackedEntry (some (.ofPair e)) = .ok (some (.ofPair e)) := by
      simp only [unpackedEntry, deref_some, C.ok_bind, EntryT.unpacked, EntryT.ofPair,
        BinaryData.unpacked_ofBytes hb.1]
      rfl
    rw [List.map_cons, List.map_cons, List.mapM_cons, hentry, C.ok_bind, ih hb.2]
    rfl

/-- The loop of `rtable_get_table` makes the blocks again that the server had. -/
theorem copyLoop_unpackEntry (b : Bucket CString Bytes) :
    copyLoop unpackEntry ((b.map EntryT.ofPair).map some) b.length 0
        (calloc Entry (b.length + 1)) =
      .ok ((b.map Entry.ofPair).map some ++ [none]) := by
  have hunpack : List.Forall₂ (fun arrived entry => unpackEntry arrived = .ok entry)
      ((b.map EntryT.ofPair).map some) (b.map Entry.ofPair) := by
    simp [List.forall₂_map_left_iff, List.forall₂_map_right_iff, List.forall₂_same, unpackEntry,
      EntryT.ofPair, BinaryData.toData, Entry.ofPair]
  have hcopy := copyLoop_calloc hunpack []
  rwa [List.append_nil, List.length_map, List.length_map] at hcopy

/-- The loop of `rtable_get_keys`. -/
theorem copyLoop_deref (keys : List CString) :
    copyLoop deref (keys.map some) keys.length 0 (calloc CString (keys.length + 1)) =
      .ok (keys.map some ++ [none]) := by
  have hderef : List.Forall₂ (fun key key' => deref key = .ok key') (keys.map some) keys := by
    simp [List.forall₂_map_left_iff, List.forall₂_same]
  have hcopy := copyLoop_calloc hderef []
  rwa [List.append_nil, List.length_map] at hcopy

section Calls

variable (clock clock' : ℕ → Timeval) {rtable : Rtable} (hlive : rtable.released = false)
  (client : ServerState)

include hlive in
/-- A stub whose request is served, with its response decoded. -/
theorem stub_toServer {α : Type} {msg res res' : MessageT} {ret : Int}
    {server server' : ServerState}
    (hrequest : msg.unpacked = .ok msg)
    (hdispatch : (dispatch msg).run (alone clock .broken) (server, ()) =
      .ok ((res, ret), (server', ())))
    (hret : 0 ≤ ret) (hresponse : (conclude (res, ret)).1.unpacked = .ok res')
    {decode : Option MessageT → C α} {a : α} (hdecode : decode (some res') = .ok a) :
    (networkSendReceive (some rtable) msg >>= fun res => memory (decode res)).run
        (alone clock' (.toServer clock)) (client, (server, none)) =
      .ok (a, (client, (server', none))) := by
  rw [networkSendReceive_memory_run clock' _ hlive,
    exchange_toServer hrequest hdispatch hret hresponse, hdecode]
  rfl

variable {st : Store} {server : ServerState} (htable : server.table = st.table)
  (hstats : server.globalStats ≠ none) (htail : server.nextServerNodePath = .empty)

include hlive htable hstats

include htail in
theorem rtablePut_toServer (key : CString) {value : Data} {b : Bytes}
    (hvalue : value.bytes = some b) :
    (rtablePut (some rtable) ⟨some key, some value⟩).run (alone clock' (.toServer clock))
        (client, (server, none)) =
      .ok (0, (client,
        (server.served clock (st.put key b (Data.bytes_ne_nil hvalue)).table, none))) := by
  have hb := Data.bytes_ne_nil hvalue
  have hdispatch : (dispatch (putRequest key (.ofBytes b))).run (alone clock .broken) (server, ()) =
      .ok (({ putRequest key (.ofBytes b) with cType := ctNone }, 0),
        (server.served clock (st.put key b hb).table, ())) := by
    have hentry : (putRequest key (.ofBytes b)).entry = some ⟨some key, .ofBytes b⟩ := rfl
    have h := invokePut_run clock .broken (s := (server, ())) htable hstats hentry
      (BinaryData.copyOut_ofBytes b) hb
    rwa [htail, forwardTo_empty] at h
  have hresponse : (conclude ({ putRequest key (.ofBytes b) with cType := ctNone }, 0)).1.unpacked =
      .ok (conclude ({ putRequest key (.ofBytes b) with cType := ctNone }, 0)).1 :=
    unpacked_of_no_arrays rfl rfl (unpacked_entry key hb) rfl
  have hexchange := exchange_toServer (unpacked_putRequest key hb) hdispatch le_rfl hresponse
  rw [rtablePut_run clock' _ hlive hvalue, hexchange]
  rfl

theorem rtableGet_toServer (key : CString) :
    (rtableGet (some rtable) key).run (alone clock' (.toServer clock))
        (client, (server, none)) =
      .ok ((st.map.lookup key).map Data.ofBytes,
        (client, (server.served clock st.table, none))) := by
  have hkey : (getRequest key).key = some key := rfl
  have hdispatch := invokeGet_run clock .broken (s := (server, ())) htable hstats hkey
  have hrequest : (getRequest key).unpacked = .ok (getRequest key) := rfl
  rw [rtableGet, if_neg (by simp)]
  cases hlookup : st.map.lookup key with
  | none =>
    rw [hlookup] at hdispatch
    exact stub_toServer clock clock' hlive client hrequest hdispatch le_rfl rfl rfl
  | some b =>
    rw [hlookup] at hdispatch
    have hvalue := BinaryData.unpacked_ofBytes (st.lookup_ne_nil hlookup)
    refine stub_toServer clock clock' hlive client hrequest hdispatch le_rfl
      (unpacked_of_no_arrays rfl rfl rfl hvalue) ?_
    have hcopy := BinaryData.copyOut_ofBytes b
    simp only [getResult, BinaryData.toData, hcopy]
    rfl

include htail in
/-- A key that was not bound is answered with the result 1 and `CT_BAD`, which the
    stub takes for an error. -/
theorem rtableDel_toServer (key : CString) :
    (rtableDel (some rtable) key).run (alone clock' (.toServer clock))
        (client, (server, none)) =
      .ok (if key ∈ st.map then 0 else -1,
        (client, (server.served clock (st.remove key).table, none))) := by
  have hdispatch : (dispatch (delRequest key)).run (alone clock .broken) (server, ()) =
      .ok (if key ∈ st.map then ({ delRequest key with cType := ctNone }, 0)
        else ({ delRequest key with cType := ctBad }, 1),
        (server.served clock (st.remove key).table, ())) := by
    have hkey : (delRequest key).key = some key := rfl
    have h := invokeDel_run clock .broken (s := (server, ())) htable hstats hkey
    rwa [htail, forwardTo_empty] at h
  have hrequest : (delRequest key).unpacked = .ok (delRequest key) := rfl
  rw [rtableDel_run clock' _ hlive]
  by_cases hbound : key ∈ st.map
  · rw [if_pos hbound] at hdispatch ⊢
    rw [exchange_toServer hrequest hdispatch le_rfl rfl]
    rfl
  · rw [if_neg hbound] at hdispatch ⊢
    rw [exchange_toServer hrequest hdispatch zero_le_one rfl]
    rfl

theorem rtableSize_toServer :
    (rtableSize (some rtable)).run (alone clock' (.toServer clock)) (client, (server, none)) =
      .ok (tableSize st.table, (client, (server.served clock st.table, none))) := by
  have hdispatch := invokeSize_run clock .broken (s := (server, ())) htable hstats sizeRequest
  have hrequest : sizeRequest.unpacked = .ok sizeRequest := rfl
  have hret : (0 : Int) ≤ st.entries.length := by omega
  have hresponse : (conclude ({ sizeRequest with
      result := st.entries.length, cType := ctResult }, (st.entries.length : Int))).1.unpacked =
      .ok (conclude ({ sizeRequest with
        result := st.entries.length, cType := ctResult }, (st.entries.length : Int))).1 := by
    rw [conclude, if_pos hret]
    rfl
  have hdecode : sizeResult (some (conclude ({ sizeRequest with
      result := st.entries.length, cType := ctResult }, (st.entries.length : Int))).1) =
      st.entries.length := by
    rw [conclude, if_pos hret]
    rfl
  rw [rtableSize, if_neg (by simp), Prog.run_bind_ok (networkSendReceive_run clock' _ hlive _ _),
    exchange_toServer hrequest hdispatch hret hresponse, st.tableSize_table, hdecode]
  rfl

theorem rtableGetKeys_toServer :
    (rtableGetKeys (some rtable)).run (alone clock' (.toServer clock)) (client, (server, none)) =
      .ok (some (st.keys.map some ++ [none]),
        (client, (server.served clock st.table, none))) := by
  have hdispatch := invokeGetkeys_run clock .broken (s := (server, ())) htable hstats
    getKeysRequest
  have hrequest : getKeysRequest.unpacked = .ok getKeysRequest := rfl
  have hload := loadAll_map_some st.keys [none]
  have hcopy := copyLoop_deref st.keys
  rw [st.length_keys] at hload hcopy
  rw [rtableGetKeys, if_neg (by simp)]
  refine stub_toServer clock clock' hlive client hrequest hdispatch le_rfl
    (unpacked_of_parts rfl rfl hload rfl rfl) ?_
  have hkeys : (st.keys.map some).map (fun key => some (key.getD .empty)) = st.keys.map some := by
    simp
  rw [hkeys]
  exact congrArg (fun arr => arr >>= fun arr => .ok (some arr)) hcopy

theorem rtableGetTable_toServer :
    (rtableGetTable (some rtable)).run (alone clock' (.toServer clock)) (client, (server, none)) =
      .ok (some ((st.entries.map Entry.ofPair).map some ++ [none]),
        (client, (server.served clock st.table, none))) := by
  have hdispatch := invokeGettable_run clock .broken (s := (server, ())) htable hstats
    getTableRequest
  have hrequest : getTableRequest.unpacked = .ok getTableRequest := rfl
  have hload := loadAll_map_some (st.entries.map EntryT.ofPair) [none]
  rw [List.length_map] at hload
  rw [rtableGetTable, if_neg (by simp)]
  refine stub_toServer clock clock' hlive client hrequest hdispatch le_rfl
    (unpacked_of_parts rfl rfl rfl hload (mapM_unpackedEntry st.nonempty)) ?_
  exact congrArg (fun arr => arr >>= fun arr => .ok (some arr)) (copyLoop_unpackEntry st.entries)

include htail in
/-- Each call, together with the local one. -/
theorem RemoteOp.run_toServer {op : RemoteOp} (husable : op.Usable) :
    ∃ (st' : Store) (result : RemoteResult), op.onTable st.table = .ok (st'.table, result) ∧
      op.Returns st.map result ∧
      (op.stub (some rtable)).run (alone clock' (.toServer clock)) (client, (server, none)) =
        .ok (result, (client, (server.served clock st'.table, none))) := by
  cases op with
  -- `put` is usable only with a value that has bytes, since its stub reads them
  | put key value =>
    obtain ⟨b, hvalue⟩ := Option.ne_none_iff_exists'.1 husable
    have hlocal := st.tablePut_table key hvalue
    have hremote := rtablePut_toServer clock clock' hlive client htable hstats
      htail key hvalue
    refine ⟨st.put key b (Data.bytes_ne_nil hvalue), .int 0, ?_, rfl, Prog.run_bind_ok hremote⟩
    rw [onTable, hlocal]
    rfl
  | get key =>
    have hlocal := st.tableGet_table key
    have hremote := rtableGet_toServer clock clock' hlive client htable hstats
      key
    refine ⟨st, .data ((st.map.lookup key).map Data.ofBytes), ?_, rfl, Prog.run_bind_ok hremote⟩
    rw [onTable, hlocal]
    rfl
  | del key =>
    have hlocal := st.tableRemove_table key
    have hremote := rtableDel_toServer clock clock' hlive client htable hstats
      htail key
    refine ⟨st.remove key, .int (if key ∈ st.map then 0 else -1), ?_, rfl,
      Prog.run_bind_ok hremote⟩
    rw [onTable, hlocal]
    by_cases hbound : key ∈ st.map
    · simp [hbound]
    · simp [hbound]
  | size =>
    have hremote := rtableSize_toServer clock clock' hlive client htable hstats
    refine ⟨st, .int (tableSize st.table), rfl, ?_, Prog.run_bind_ok hremote⟩
    rw [Returns, st.tableSize_table, st.card_keys_map]
  | getKeys =>
    have hlocal := st.tableGetKeys_table
    have hremote := rtableGetKeys_toServer clock clock' hlive client htable
      hstats
    refine ⟨st, .keys (some (st.keys.map some ++ [none])), ?_, ⟨st.keys, rfl, ?_⟩,
      Prog.run_bind_ok hremote⟩
    · rw [onTable, hlocal]
      rfl
    · rw [st.length_keys, st.card_keys_map]
  | getTable =>
    have hlocal := st.tableGetEntries_table
    have hremote := rtableGetTable_toServer clock clock' hlive client htable
      hstats
    refine ⟨st, .entries (some ((st.entries.map Entry.ofPair).map some ++ [none])), ?_,
      ⟨st.entries.map Entry.ofPair, rfl, ?_⟩, Prog.run_bind_ok hremote⟩
    · rw [onTable, hlocal]
      rfl
    · rw [List.length_map, st.card_keys_map]

end Calls

/-! ## Reachable tables -/

/-- A call of a stub on a server whose table has any history returns what the local
    call returns and leaves the table that the local call leaves. `main` creates the
    statistics before the server is connected to. -/
theorem remote_refines_local {n : Int32} {table : Table} {ops : List TableOp}
    {server : ServerState} {results : List TableResult} (hcreate : tableCreate n = some table)
    (hhistory : table.execAll ops = .ok (server.table, results))
    (hstats : server.globalStats ≠ none) (htail : server.nextServerNodePath = .empty)
    {rtable : Rtable} (hlive : rtable.released = false) (clock clock' : ℕ → Timeval)
    (client : ServerState) {op : RemoteOp} (husable : op.Usable) :
    ∃ (result : RemoteResult) (server' : ServerState),
      op.onTable server.table = .ok (server'.table, result) ∧
      op.Returns (Spec.execAll ops ∅).1 result ∧
      (op.stub (some rtable)).run (alone clock' (.toServer clock)) (client, (server, none)) =
        .ok (result, (client, (server', none))) := by
  have hpos : 0 < n := by
    by_contra hn
    rw [tableCreate, dif_pos (Int32.not_lt.1 hn)] at hcreate
    cases hcreate
  obtain rfl : (Store.create n hpos).table = table :=
    Option.some.inj ((Store.tableCreate_eq hpos).symm.trans hcreate)
  obtain ⟨st, -, hmap, hexec⟩ := (Store.create n hpos).execAll_table ops
  have htable : server.table = st.table := by
    rw [hexec, Except.ok.injEq, Prod.mk.injEq] at hhistory
    exact hhistory.1.symm
  obtain ⟨st', result, hlocal, hreturns, hremote⟩ := RemoteOp.run_toServer clock clock'
    hlive client htable hstats htail husable
  rw [Store.map_create] at hmap
  rw [hmap] at hreturns
  rw [← htable] at hlocal
  exact ⟨result, server.served clock st'.table, hlocal, hreturns, hremote⟩

/-- Two keys with values of different lengths, one of them put twice. -/
def twoBindings : List TableOp :=
  [.put ⟨[1], by decide⟩ (some (.ofBytes [9])), .put ⟨[2], by decide⟩ (some (.ofBytes [8, 8])),
    .put ⟨[1], by decide⟩ (some (.ofBytes [7, 7, 7]))]

/-- The stubs on a server that holds them: the value of a key, all entries, and a key that is
    there and one that is not. -/
theorem remote_refines_local_two :
    ∃ server : ServerState,
      (Store.create 2 (by decide)).table.execAll twoBindings =
        .ok (server.table, [.int 0, .int 0, .int 0]) ∧
      (∃ server', ((RemoteOp.get ⟨[1], by decide⟩).stub (some ⟨.empty, false⟩)).run
          (alone (fun _ => ⟨0, 0⟩) (.toServer fun _ => ⟨0, 0⟩)) (server, (server, none)) =
        .ok (.data (some (.ofBytes [7, 7, 7])), (server, (server', none)))) ∧
      (∃ (entries : List Entry) (server' : ServerState), entries.length = 2 ∧
        (RemoteOp.getTable.stub (some ⟨.empty, false⟩)).run
          (alone (fun _ => ⟨0, 0⟩) (.toServer fun _ => ⟨0, 0⟩)) (server, (server, none)) =
        .ok (.entries (some (entries.map some ++ [none])), (server, (server', none)))) ∧
      (∃ server', ((RemoteOp.del ⟨[2], by decide⟩).stub (some ⟨.empty, false⟩)).run
          (alone (fun _ => ⟨0, 0⟩) (.toServer fun _ => ⟨0, 0⟩)) (server, (server, none)) =
        .ok (.int 0, (server, (server', none)))) ∧
      ∃ server', ((RemoteOp.del ⟨[3], by decide⟩).stub (some ⟨.empty, false⟩)).run
          (alone (fun _ => ⟨0, 0⟩) (.toServer fun _ => ⟨0, 0⟩)) (server, (server, none)) =
        .ok (.int (-1), (server, (server', none))) := by
  obtain ⟨table, hhistory⟩ : ∃ table, (Store.create 2 (by decide)).table.execAll twoBindings =
      .ok (table, [.int 0, .int 0, .int 0]) := ⟨_, rfl⟩
  have hstats : (ServerState.init table).globalStats ≠ none := nofun
  have hlive : (⟨.empty, false⟩ : Rtable).released = false := rfl
  have hstubs : ∀ op : RemoteOp, op.Usable → ∃ (result : RemoteResult) (server' : ServerState),
      op.Returns (Spec.execAll twoBindings ∅).1 result ∧
      (op.stub (some ⟨.empty, false⟩)).run (alone (fun _ => ⟨0, 0⟩) (.toServer fun _ => ⟨0, 0⟩))
        (ServerState.init table, (ServerState.init table, none)) =
          .ok (result, (ServerState.init table, (server', none))) := by
    intro op husable
    obtain ⟨result, server', -, hreturns, hrun⟩ :=
      remote_refines_local (Store.tableCreate_eq (by decide)) hhistory
      hstats rfl hlive (fun _ => ⟨0, 0⟩) (fun _ => ⟨0, 0⟩) (.init table) husable
    exact ⟨result, server', hreturns, hrun⟩
  refine ⟨.init table, hhistory, ?_, ?_, ?_, ?_⟩
  · obtain ⟨_, server', rfl, hrun⟩ := hstubs (.get ⟨[1], by decide⟩) trivial
    exact ⟨server', hrun⟩
  · obtain ⟨_, server', ⟨entries, rfl, hlength⟩, hrun⟩ := hstubs .getTable trivial
    exact ⟨entries, server', hlength, hrun⟩
  · obtain ⟨_, server', rfl, hrun⟩ := hstubs (.del ⟨[2], by decide⟩) trivial
    exact ⟨server', hrun⟩
  · obtain ⟨_, server', rfl, hrun⟩ := hstubs (.del ⟨[3], by decide⟩) trivial
    exact ⟨server', hrun⟩

end ChainTable
