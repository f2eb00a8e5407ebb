-- SUMMARY: The map that a log of updates leaves, and what each call of a protocol does at a server that holds it.
import ChainTable.Chain.Protocol

open Base

/-!
# Servers of a chain

A server of a chain holds the map that its updates leave of the first one. The calls
that the protocols of its threads allow keep this, and return what the protocols
expect.
-/

namespace ChainTable

open Calls Relay

/-! ## Replaying updates -/

def Update.apply : Update → Spec.Map → Spec.Map
  | put key b, m => m.insert key b
  | del key, m => m.erase key

/-- An update that was carried out is without effect the next time. -/
theorem Update.apply_apply (u : Update) (m : Spec.Map) : u.apply (u.apply m) = u.apply m := by
  cases u with
  | put key b => exact Finmap.insert_insert m
  | del key =>
    refine Finmap.ext_lookup fun key' => ?_
    by_cases h : key' = key
    · subst h
      simp [Update.apply]
    · simp [Update.apply, Finmap.lookup_erase_ne h]

def Update.key : Update → CString
  | put key _ => key
  | del key => key

/-- What the key of the update is bound to by it. -/
def Update.value : Update → Option Bytes
  | put _ b => some b
  | del _ => none

def Spec.replay (log : List Update) (m : Map) : Map := log.foldl (fun m u => u.apply m) m

@[simp] theorem Spec.replay_append_singleton (log : List Update) (u : Update) (m : Map) :
    replay (log ++ [u]) m = u.apply (replay log m) := by
  simp [replay]

theorem Update.lookup_apply_self (u : Update) (m : Spec.Map) :
    (u.apply m).lookup u.key = u.value := by
  cases u with
  | put key b => exact Finmap.lookup_insert m
  | del key => exact Finmap.lookup_erase key m

theorem Update.lookup_apply_ne {u : Update} {key : CString} (h : u.key ≠ key) (m : Spec.Map) :
    (u.apply m).lookup key = m.lookup key := by
  cases u with
  | put key' b => exact Finmap.lookup_insert_of_ne m h.symm
  | del key' => exact Finmap.lookup_erase_ne h.symm

/-- After an update of a key, the key is bound by that update or by the last later one. -/
theorem Spec.lookup_replay {log : List Update} {p : ℕ} {u : Update} (hp : log[p]? = some u)
    (m : Map) :
    ∃ q u', p ≤ q ∧ log[q]? = some u' ∧ u'.key = u.key ∧
      (∀ r u'', q < r → log[r]? = some u'' → u''.key ≠ u.key) ∧
      (replay log m).lookup u.key = u'.value := by
  induction log using List.reverseRecOn with
  | nil => simp at hp
  | append_singleton log u₁ ih =>
    by_cases hkey : u₁.key = u.key
    -- the update at the end is the last one of the key
    · refine ⟨log.length, u₁, ?_, by simp, hkey, ?_, ?_⟩
      · obtain ⟨hlt, -⟩ := List.getElem?_eq_some_iff.1 hp
        rw [List.length_append, List.length_singleton] at hlt
        omega
      · intro r u'' hr hu''
        obtain ⟨hlt, -⟩ := List.getElem?_eq_some_iff.1 hu''
        rw [List.length_append, List.length_singleton] at hlt
        omega
      · rw [replay_append_singleton, ← hkey, Update.lookup_apply_self]
    -- the update at the end is about another key, so `p` lies before it
    · have hlt : p < log.length := by
        obtain ⟨hlt, -⟩ := List.getElem?_eq_some_iff.1 hp
        rw [List.length_append, List.length_singleton] at hlt
        by_contra hge
        obtain rfl : p = log.length := by omega
        simp at hp
        exact hkey (hp ▸ rfl)
      rw [List.getElem?_append_left hlt] at hp
      obtain ⟨q, u', hpq, hq, hu', hlast, hvalue⟩ := ih hp
      have hqlt := (List.getElem?_eq_some_iff.1 hq).1
      refine ⟨q, u', hpq, by rw [List.getElem?_append_left hqlt, hq], hu', ?_, ?_⟩
      · intro r u'' hr hu''
        by_cases hrlt : r < log.length
        · rw [List.getElem?_append_left hrlt] at hu''
          exact hlast r u'' hr hu''
        · obtain ⟨hlt', -⟩ := List.getElem?_eq_some_iff.1 hu''
          rw [List.length_append, List.length_singleton] at hlt'
          obtain rfl : r = log.length := by omega
          have hu₁ : u₁ = u'' := by simpa using hu''
          exact hu₁ ▸ hkey
      · rw [replay_append_singleton, Update.lookup_apply_ne hkey, hvalue]

/-! ## Servers -/

/-- The server `i` of a chain after the updates `log` of the map `m`. -/
structure Node.Good (last : ℕ) (m : Spec.Map) (i : ℕ) (node : Node) (log : List Update) : Prop where
  applied : node.applied = log
  table : ∃ st : Store, node.server.table = st.table ∧ st.map = Spec.replay log m
  stats : node.server.globalStats ≠ none
  path : node.server.nextServerNodePath = .empty ↔ i = last
  connected : i < last → ∃ rtable : Rtable,
    node.server.nextServerRtable = some rtable ∧ rtable.released = false

/-- Two states of a server that only differ in statistics and in who reads. -/
structure Node.Like (node node' : Node) : Prop where
  applied : node'.applied = node.applied
  table : node'.server.table = node.server.table
  stats : node.server.globalStats ≠ none → node'.server.globalStats ≠ none
  path : node'.server.nextServerNodePath = node.server.nextServerNodePath
  rtable : node'.server.nextServerRtable = node.server.nextServerRtable
  writer : (node'.locks .table).writerActive = (node.locks .table).writerActive

theorem Node.Good.like {last i : ℕ} {m : Spec.Map} {node node' : Node} {log : List Update}
    (h : node.Good last m i log) (hlike : node.Like node') : node'.Good last m i log where
  applied := hlike.applied.trans h.applied
  table := by rw [hlike.table]; exact h.table
  stats := hlike.stats h.stats
  path := by rw [hlike.path]; exact h.path
  connected := by rw [hlike.rtable]; exact h.connected

/-- Only the table lock and the history tell servers apart that are otherwise the same. -/
theorem Node.Good.setLock {last i : ℕ} {m : Spec.Map} {node : Node} {log : List Update}
    (h : node.Good last m i log) (lock : LockName) (state : RwLock) :
    (node.setLock lock state).Good last m i log :=
  ⟨h.applied, h.table, h.stats, h.path, h.connected⟩

/-! ## Calls -/

section Perform

variable {time : Timeval} {node : Node} {next : Channel}

theorem Node.like_setLock_stats (node : Node) (state : RwLock) :
    node.Like (node.setLock .stats state) :=
  ⟨rfl, rfl, id, rfl, rfl, rfl⟩

/-- A call that returns leaves a similar server and does not touch the connection. -/
def Node.Quiet (time : Timeval) (node : Node) (next : Channel) (op : ServerCall) : Prop :=
  node.perform time next op = none ∨
    ∃ (r : op.Res) (node' : Node),
      node.perform time next op = some (.ok (r, node', next)) ∧ node.Like node'

theorem Node.perform_neutral (hstats : node.server.globalStats ≠ none) {op : ServerCall}
    (hop : op.Neutral) : node.Quiet time next op := by
  obtain ⟨stats, hstats⟩ := Option.ne_none_iff_exists'.1 hstats
  cases op with
  | enterRead lock =>
    cases lock with
    | table => exact absurd hop id
    | stats =>
      by_cases hwriter : (node.locks .stats).writerActive
      · exact .inl (if_pos hwriter)
      · exact .inr ⟨_, _, if_neg hwriter, node.like_setLock_stats _⟩
  | exitRead lock =>
    cases lock with
    | table => exact absurd hop id
    | stats => exact .inr ⟨_, _, rfl, node.like_setLock_stats _⟩
  | enterWrite lock =>
    cases lock with
    | table => exact absurd hop id
    | stats =>
      by_cases hbusy : (node.locks .stats).writerActive ∨ 0 < (node.locks .stats).readersReading
      · exact .inl (if_pos hbusy)
      · exact .inr ⟨_, _, if_neg hbusy, node.like_setLock_stats _⟩
  | exitWrite lock =>
    cases lock with
    | table => exact absurd hop id
    | stats => exact .inr ⟨_, _, rfl, node.like_setLock_stats _⟩
  | hasGlobalStats =>
    exact .inr ⟨_, _, rfl, ⟨List.append_nil _, rfl, id, rfl, rfl, rfl⟩⟩
  | loadStat field =>
    refine .inr ⟨stats.load field, { node with applied := node.applied ++ [] }, ?_,
      ⟨List.append_nil _, rfl, id, rfl, rfl, rfl⟩⟩
    simp only [Node.perform, alone, hstats]
    rfl
  | storeStat field value =>
    refine .inr ⟨(), { node with
      server := { node.server with globalStats := some (stats.store value field) }
      applied := node.applied ++ [] }, ?_, ⟨List.append_nil _, rfl, by simp, rfl, rfl, rfl⟩⟩
    simp only [Node.perform, alone, hstats]
    rfl
  | gettimeofday =>
    exact .inr ⟨_, _, rfl, ⟨List.append_nil _, rfl, id, rfl, rfl, rfl⟩⟩
  | _ => exact absurd hop id

theorem Node.perform_readLock {op : ServerCall}
    (hop : op = .enterRead .table ∨ op = .exitRead .table) :
    node.Quiet time next op := by
  rcases hop with rfl | rfl
  · by_cases hwriter : (node.locks .table).writerActive
    · exact .inl (if_pos hwriter)
    · refine .inr ⟨_, _, if_neg hwriter, ⟨rfl, rfl, id, rfl, rfl, ?_⟩⟩
      simp [Node.setLock]
  · refine .inr ⟨_, _, rfl, ⟨rfl, rfl, id, rfl, rfl, ?_⟩⟩
    simp [Node.setLock]

theorem Node.perform_enterWrite :
    node.perform time next (.enterWrite .table) = none ∨
      (node.locks .table).writerActive = false ∧ ∃ state : RwLock, state.writerActive = true ∧
        node.perform time next (.enterWrite .table) =
          some (.ok ((), node.setLock .table state, next)) := by
  by_cases hbusy : (node.locks .table).writerActive ∨ 0 < (node.locks .table).readersReading
  · exact .inl (if_pos hbusy)
  · exact .inr ⟨by simpa using fun hwriter => hbusy (.inl hwriter), _, rfl, if_neg hbusy⟩

theorem Node.perform_path :
    ∃ node', node.perform time next .nextServerNodePath =
      some (.ok (node.server.nextServerNodePath, node', next)) ∧ node.Like node' :=
  ⟨_, rfl, ⟨List.append_nil _, rfl, id, rfl, rfl, rfl⟩⟩

theorem Node.perform_rtable :
    ∃ node', node.perform time next .nextServerRtable =
      some (.ok (node.server.nextServerRtable, node', next)) ∧ node.Like node' :=
  ⟨_, rfl, ⟨List.append_nil _, rfl, id, rfl, rfl, rfl⟩⟩

theorem Node.perform_send {u : Update} (hbytes : u.hasBytes) (rtable : Rtable) :
    node.perform time next (.messageSendAll rtable u.request) =
      some (.ok (2, node, { next with requests := next.requests ++ [u.request] })) := by
  have hrequest := unpacked_request (Update.ne_put_nil hbytes)
  simp only [Node.perform, hrequest]
  rfl

theorem Node.perform_receive (rtable : Rtable) :
    node.perform time next (.messageReceiveAll rtable) =
      match next.responses with
      | [] => none
      | res :: rest => some (.ok ((some res, false), node, { next with responses := rest })) :=
  rfl

variable {last i : ℕ} {m : Spec.Map} {log : List Update}

theorem Node.Good.perform_get (h : node.Good last m i log) (key : CString) :
    ∃ node', node.perform time next (.tableGet key) =
        some (.ok (((Spec.replay log m).lookup key).map Data.ofBytes, node', next)) ∧
      node.Like node' ∧ ∀ b ∈ (Spec.replay log m).lookup key, b ≠ [] := by
  obtain ⟨st, htable, hmap⟩ := h.table
  rw [← hmap]
  refine ⟨{ node with applied := node.applied ++ [] }, ?_,
    ⟨List.append_nil _, rfl, id, rfl, rfl, rfl⟩, fun b hb => st.lookup_ne_nil hb⟩
  simp only [Node.perform, alone, htable, st.tableGet_table key]
  rfl

theorem Node.Good.perform_size (h : node.Good last m i log) :
    ∃ (size : ℕ) (node' : Node), node.perform time next .tableSize =
      some (.ok ((size : Int), node', next)) ∧ node.Like node' := by
  obtain ⟨st, htable, -⟩ := h.table
  refine ⟨st.entries.length, { node with applied := node.applied ++ [] }, ?_,
    ⟨List.append_nil _, rfl, id, rfl, rfl, rfl⟩⟩
  simp only [Node.perform, alone, htable, st.tableSize_table]
  rfl

/-- The call of an update carries it out. -/
theorem Node.Good.perform_update (h : node.Good last m i log) {u : Update} (hbytes : u.hasBytes)
    (isLast : Bool) :
    ∃ (r : u.call.Res) (node' : Node),
      node.perform time next u.call = some (.ok (r, node', next)) ∧
      Expected isLast u.call r ∧ node'.Good last m i (log ++ [u]) ∧
      (node'.locks .table).writerActive = (node.locks .table).writerActive := by
  obtain ⟨st, htable, hmap⟩ := h.table
  cases u with
  | put key b =>
    have hb : b ≠ [] := by simpa [Update.hasBytes] using hbytes
    have hput := st.tablePut_table key (Data.bytes_ofBytes hb)
    refine ⟨(0 : Int), { node with
      server := { node.server with table := (st.put key b hb).table }
      applied := node.applied ++ [.put key b] }, ?_, rfl,
        ⟨?_, ?_, h.stats, h.path, h.connected⟩, rfl⟩
    · simp only [Update.call, Node.perform, alone, htable, hput, ServerCall.update?,
        Data.bytes_ofBytes hb]
      rfl
    · rw [h.applied]
    · refine ⟨st.put key b hb, rfl, ?_⟩
      rw [Spec.replay_append_singleton, ← hmap, Store.map_put]
      rfl
  | del key =>
    have hremove := st.tableRemove_table key
    refine ⟨(if key ∈ st.map then 0 else 1 : Int), { node with
      server := { node.server with table := (st.remove key).table }
      applied := node.applied ++ [.del key] }, ?_, ?_, ⟨?_, ?_, h.stats, h.path, h.connected⟩, rfl⟩
    · simp only [Update.call, Node.perform, alone, htable, hremove, ServerCall.update?]
      rfl
    · by_cases hbound : key ∈ st.map
      · exact .inl (if_pos hbound)
      · exact .inr (if_neg hbound)
    · rw [h.applied]
    · refine ⟨st.remove key, rfl, ?_⟩
      rw [Spec.replay_append_singleton, ← hmap, Store.map_remove]
      rfl

theorem Update.update?_call {u : Update} (hbytes : u.hasBytes) : u.call.update? = some u := by
  cases u with
  | put key b =>
    have hb : b ≠ [] := by simpa [Update.hasBytes] using hbytes
    simp [Update.call, ServerCall.update?, Data.bytes_ofBytes hb]
  | del key => rfl

end Perform

end ChainTable
