-- SUMMARY: dup_table_from_server on a tail that goes on serving others, and when the copy has all entries that were received.
import ChainTable.Chain.Joining
import ChainTable.Server.Effects
import ChainTable.Store.Listing

open Base

/-!
# The copy of a new server

A new server asks the tail for its entries, then for its size, and puts as many of the
entries as the size says. The tail serves the requests of other clients in between, each
one at a time, so that the two answers can come from different tables.
-/

namespace ChainTable

open Calls

/-! ## dup_table_from_server -/

/-- `table_put` of a received entry into the server's own table. -/
def putEntry (entry : Entry) : Prog Calls Int :=
  match entry.key, entry.value with
  | some key, some value => call (.tablePut key value)
  -- `table_put` refuses a missing argument
  | _, _ => return -1

/-- The loop over the received entries. -/
def dupEntriesLoop (entries : List (Option Entry)) : ℕ → ℕ → Prog Calls Int
  | 0, _ => return 0
  | n + 1, i => do
    let entry ← memory (load entries i)
    let entry ← memory (deref entry)
    let ret ← putEntry entry
    if ret = -1 then return ret
    else dupEntriesLoop entries n (i + 1)

/-- `dup_table_from_server`, where the network lets `rtable_connect` succeed or not. -/
def dupTableFromServer (lastNodeAddr : CString) (connects : Bool) : Prog Calls Int :=
  match rtableConnect lastNodeAddr connects with
  | none => return -1
  | some rtable => do
    let entries ← rtableGetTable (some rtable)
    match entries with
    | none => return -1
    | some entries => do
      let tabSize ← rtableSize (some rtable)
      if tabSize = -1 then return -1
      else do
        call (.networkClose rtable)
        dupEntriesLoop entries tabSize.toNat 0

/-! ## The tail -/

/-- Requests that a tail serves one after the other. -/
def serveAll (clock : ℕ → Timeval) : List MessageT → ServerState → C ServerState
  | [], tail => .ok tail
  | msg :: msgs, tail => do
    let (_, tail, ()) ← (invoke msg).run (alone clock .broken) (tail, ())
    serveAll clock msgs tail

/-- A tail with its response on the way, and the requests of others that it serves before
    each of ours. -/
structure BusyTail where
  tail : ServerState
  reply : Option MessageT
  others : List (List MessageT)

/-- The connection to a tail that has other clients. -/
def Link.toBusyTail (clock : ℕ → Timeval) : Link BusyTail where
  send msg t :=
    match serveAll clock (t.others.headD []) t.tail with
    | .error _ => (-1, t)
    | .ok tail =>
      let (sent, tail, reply) := (Link.toServer clock).send msg (tail, t.reply)
      (sent, ⟨tail, reply, t.others.tail⟩)
  receive t :=
    let (received, tail, reply) := (Link.toServer clock).receive (t.tail, t.reply)
    (received, ⟨tail, reply, t.others⟩)
  close t := t

/-- What an array of entries with distinct keys binds a key to. -/
def lookupEntry (entries : List Entry) (key : CString) : Option Data :=
  (entries.find? fun entry => entry.key = some key).bind Entry.value

/-- The copy reads no further than the entries that were received, and a copy that is
    reported to have succeeded holds all of them. -/
def CopyMatches (clock clock' : ℕ → Timeval) (lastNodeAddr : CString) (new : ServerState)
    (tail : BusyTail) : Prop :=
  ∃ (entries : List Entry) (ret : Int) (new' : ServerState) (t t' : BusyTail),
    (rtableGetTable (some ⟨lastNodeAddr, false⟩)).run
      (alone clock' (.toBusyTail clock)) (new, tail) =
      .ok (some (entries.map some ++ [none]), (new, t)) ∧
    (dupTableFromServer lastNodeAddr true).run (alone clock' (.toBusyTail clock)) (new, tail) =
      .ok (ret, (new', t')) ∧
    (ret = 0 → ∀ key, tableGet new'.table (some key) = .ok (lookupEntry entries key))

/-! ## The loop -/

section Loop

variable {τ : Type} (clock : ℕ → Timeval) (link : Link τ)

theorem putEntry_run (entry : Entry) (s : ServerState × τ) :
    (putEntry entry).run (alone clock link) s =
      tablePut s.1.table entry.key entry.value >>= fun r =>
        .ok (r.2, ({ s.1 with table := r.1 }, s.2)) := by
  obtain ⟨key, value⟩ := entry
  cases key with
  | none => rfl
  | some key =>
    cases value with
    | none => rfl
    | some value =>
      change (Prog.call (S := Calls) (.tablePut key value) Prog.ret).run (alone clock link) s = _
      rw [Prog.run_call]
      simp only [alone]
      cases tablePut s.1.table (some key) (some value) <;> rfl

/-- The loop acts on the table of the server as `dupLoop` does. -/
theorem dupEntriesLoop_run (entries : List (Option Entry)) (n i : ℕ) (s : ServerState × τ) :
    (dupEntriesLoop entries n i).run (alone clock link) s =
      dupLoop entries n i s.1.table >>= fun r => .ok (r.2, ({ s.1 with table := r.1 }, s.2)) := by
  induction n generalizing i s with
  | zero => rfl
  | succ n ih =>
    rw [dupEntriesLoop, dupLoop]
    cases load entries i with
    | error f => rfl
    | ok entry =>
      cases entry with
      | none => rfl
      | some entry =>
        simp only [memory_ok, Prog.ret_bind, deref_some, C.ok_bind]
        rw [Prog.run_bind, putEntry_run]
        cases tablePut s.1.table entry.key entry.value with
        | error f => rfl
        | ok r =>
          simp only [C.ok_bind]
          split_ifs with hret
          · rfl
          · exact ih (i + 1) _

end Loop

/-- Past the last entry the loop follows the `NULL`. -/
theorem dupLoop_overrun (st : Store) {b : Bucket CString Bytes} (hb : ∀ e ∈ b, e.2 ≠ [])
    (front : List (Option Entry)) {n : ℕ} (hn : b.length < n) :
    dupLoop (front ++ (b.map Entry.ofPair).map some ++ [none]) n front.length st.table =
      .error .nullDeref := by
  obtain ⟨n, rfl⟩ : ∃ m, n = m + 1 := ⟨n - 1, by omega⟩
  induction b generalizing st front n with
  | nil =>
    have hload : load (front ++ (([] : Bucket CString Bytes).map Entry.ofPair).map some ++ [none])
        front.length = .ok none := load_eq_ok (by simp)
    rw [dupLoop, hload]
    rfl
  | cons e b ih =>
    rw [List.forall_mem_cons] at hb
    rw [List.length_cons] at hn
    obtain ⟨n, rfl⟩ : ∃ m, n = m + 1 := ⟨n - 1, by omega⟩
    have hput := st.tablePut_table e.1 (Data.bytes_ofBytes hb.1)
    have hload : load (front ++ ((e :: b).map Entry.ofPair).map some ++ [none]) front.length =
        .ok (some (Entry.ofPair e)) := load_eq_ok (by simp)
    have hrest := ih (st.put e.1 e.2 hb.1) hb.2 (front ++ [some (Entry.ofPair e)]) n (by omega)
    -- what was read so far moves to the front
    have harr : front ++ ((e :: b).map Entry.ofPair).map some ++ [none] =
        front ++ [some (Entry.ofPair e)] ++ (b.map Entry.ofPair).map some ++ [none] := by simp
    rw [List.length_append, List.length_singleton, ← harr] at hrest
    rw [dupLoop, hload, C.ok_bind, deref_some, C.ok_bind, Entry.key_ofPair, Entry.value_ofPair,
      hput, C.ok_bind]
    exact hrest

/-! ## The exchanges -/

section Exchange

variable {clock clock' : ℕ → Timeval}

theorem serveAll_cons {msg : MessageT} (msgs : List MessageT) {result : MessageT × Int}
    {tail tail₁ : ServerState}
    (hrun : (dispatch msg).run (alone clock .broken) (tail, ()) = .ok (result, (tail₁, ()))) :
    serveAll clock (msg :: msgs) tail = serveAll clock msgs tail₁ := by
  rw [serveAll, invoke_run clock .broken hrun]
  rfl

theorem serveAll_holds {msgs : List MessageT} {st : Store} {tail tail' : ServerState}
    (hs : tail.Holds st) (hlast : tail.nextServerNodePath = .empty)
    (hserve : serveAll clock msgs tail = .ok tail') :
    ∃ st' : Store, tail'.Holds st' ∧ tail'.nextServerNodePath = .empty := by
  induction msgs generalizing st tail with
  | nil =>
    cases hserve
    exact ⟨st, hs, hlast⟩
  | cons msg msgs ih =>
    obtain ⟨⟨⟨res, ret⟩, tail₁, ⟨⟩⟩, hinvoke, hserve⟩ := C.bind_eq_ok hserve
    obtain ⟨res', -, hend⟩ := ended_of_invoke (s := (tail, ())) hs.table hs.stats hinvoke
    obtain ⟨⟨st₁, htable₁⟩, hsame⟩ := hend.keeps hs.table
    exact ih ⟨htable₁, mt hsame.stats.1 hs.stats, .inl (hsame.path.trans hlast)⟩
      (hsame.path.trans hlast) hserve

/-- An exchange with a busy tail is one with the tail after the requests of others. -/
theorem exchange_toBusyTail {reqs : List MessageT} {tail tail₁ : ServerState}
    (hserve : serveAll clock reqs tail = .ok tail₁) (msg : MessageT) (reply : Option MessageT)
    (others : List (List MessageT)) :
    (Link.toBusyTail clock).exchange msg ⟨tail, reply, reqs :: others⟩ =
      (((Link.toServer clock).exchange msg (tail₁, reply)).1,
        ⟨((Link.toServer clock).exchange msg (tail₁, reply)).2.1,
          ((Link.toServer clock).exchange msg (tail₁, reply)).2.2, others⟩) := by
  have hsend : (Link.toBusyTail clock).send msg ⟨tail, reply, reqs :: others⟩ =
      (((Link.toServer clock).send msg (tail₁, reply)).1,
        ⟨((Link.toServer clock).send msg (tail₁, reply)).2.1,
          ((Link.toServer clock).send msg (tail₁, reply)).2.2, others⟩) := by
    simp only [Link.toBusyTail, List.headD_cons, hserve, List.tail_cons]
  simp only [Link.exchange, hsend]
  generalize (Link.toServer clock).send msg (tail₁, reply) = sent
  by_cases hfailed : sent.1 = -1 ∨ sent.1 = 0
  · rw [if_pos hfailed, if_pos hfailed]
    rfl
  · rw [if_neg hfailed, if_neg hfailed]
    by_cases hgone : ((Link.toServer clock).receive sent.2).1.2 = true ∨
        ((Link.toServer clock).receive sent.2).1.1 = none
    · rw [if_pos hgone]
      exact if_pos hgone
    · rw [if_neg hgone]
      exact if_neg hgone

/-- A stub that is answered by the tail alone is answered the same by a busy tail. -/
theorem stub_toBusyTail {α : Type} {rtable : Rtable} (hlive : rtable.released = false)
    {reqs : List MessageT} {tail tail₁ tail₂ client : ServerState}
    (hserve : serveAll clock reqs tail = .ok tail₁) {msg : MessageT}
      {decode : Option MessageT → C α}
    {a : α}
    (hstub : (networkSendReceive (some rtable) msg >>= fun res => memory (decode res)).run
        (alone clock' (.toServer clock)) (client, (tail₁, none)) = .ok (a, (client, (tail₂, none))))
    (others : List (List MessageT)) :
    (networkSendReceive (some rtable) msg >>= fun res => memory (decode res)).run
        (alone clock' (.toBusyTail clock)) (client, ⟨tail, none, reqs :: others⟩) =
      .ok (a, (client, ⟨tail₂, none, others⟩)) := by
  rw [networkSendReceive_memory_run clock' _ hlive] at hstub ⊢
  rw [exchange_toBusyTail hserve]
  obtain ⟨a', hdecode, hstub⟩ := C.bind_eq_ok hstub
  obtain ⟨rfl, hclient⟩ := Prod.mk.inj (Except.ok.inj hstub)
  obtain ⟨-, hexchange⟩ := Prod.mk.inj hclient
  dsimp only at hdecode hexchange ⊢
  rw [hdecode, hexchange]
  rfl

end Exchange

/-! ## The copy -/

/-- What the new server receives, and what it makes of it. -/
theorem dupTableFromServer_run (clock clock' : ℕ → Timeval) (lastNodeAddr : CString)
    (new : ServerState) {tail tail₁ tail₂ : ServerState} {st₁ st₂ : Store}
    {before between : List MessageT} (hbefore : serveAll clock before tail = .ok tail₁)
    (hbetween : serveAll clock (getTableRequest :: between) tail₁ = .ok tail₂)
    (hs₁ : tail₁.Holds st₁) (hs₂ : tail₂.Holds st₂) :
    (∃ t, (rtableGetTable (some ⟨lastNodeAddr, false⟩)).run (alone clock' (.toBusyTail clock))
        (new, ⟨tail, none, [before, between]⟩) =
      .ok (some ((st₁.entries.map Entry.ofPair).map some ++ [none]), (new, t))) ∧
    ∃ t, (dupTableFromServer lastNodeAddr true).run (alone clock' (.toBusyTail clock))
        (new, ⟨tail, none, [before, between]⟩) =
      dupLoop ((st₁.entries.map Entry.ofPair).map some ++ [none]) st₂.entries.length 0 new.table >>=
        fun r => .ok (r.2, ({ new with table := r.1 }, t)) := by
  have hlive : (⟨lastNodeAddr, false⟩ : Rtable).released = false := rfl
  have hdispatch : dispatch getTableRequest = invokeGettable getTableRequest := rfl
  have hserved := invokeGettable_run clock .broken (s := (tail₁, ())) hs₁.table hs₁.stats
    getTableRequest
  rw [← hdispatch] at hserved
  -- the other requests start where OP_GETTABLE has left the tail
  have hrest : serveAll clock between (tail₁.served clock st₁.table) = .ok tail₂ := by
    rw [← hbetween, serveAll_cons _ hserved]
  have hget := stub_toBusyTail hlive hbefore
    (rtableGetTable_toServer clock clock' hlive new hs₁.table hs₁.stats) [between]
  have hserver : (networkSendReceive (some ⟨lastNodeAddr, false⟩) sizeRequest >>=
      fun res => memory (.ok (sizeResult res))).run (alone clock' (.toServer clock))
        (new, (tail₂, none)) = _ := rtableSize_toServer clock clock' hlive new hs₂.table hs₂.stats
  have hsize := stub_toBusyTail hlive hrest hserver []
  refine ⟨⟨_, hget⟩, ⟨tail₂.served clock st₂.table, none, []⟩, ?_⟩
  have hcount : tableSize st₂.table ≠ -1 := by
    rw [st₂.tableSize_table]
    omega
  refine (Prog.run_bind_ok hget).trans ((Prog.run_bind_ok hsize).trans ?_)
  rw [if_neg hcount, run_call, st₂.tableSize_table, Int.toNat_natCast]
  exact dupEntriesLoop_run clock' _ _ _ 0 _

theorem lookupEntry_map (b : Bucket CString Bytes) (key : CString) :
    lookupEntry (b.map Entry.ofPair) key = (b.dlookup key).map Data.ofBytes := by
  induction b with
  | nil => rfl
  | cons e b ih =>
    obtain ⟨k, v⟩ := e
    rw [lookupEntry, List.map_cons, List.find?_cons, Entry.key_ofPair]
    by_cases hkey : key = k
    · subst hkey
      rw [List.dlookup_cons_eq]
      simp
    · have hne : ¬ (some k = some key) := fun h => hkey (Option.some.inj h).symm
      rw [List.dlookup_cons_ne _ _ hkey, ← ih, lookupEntry]
      simp [hne]

/-- A copy of the first entries lacks the others. -/
theorem dlookup_take_ne (st : Store) {k : ℕ} (hk : k < st.entries.length) :
    ∃ key, (st.entries.take k).dlookup key ≠ st.entries.dlookup key := by
  refine ⟨st.entries[k].1, ?_⟩
  have hnodup := st.nodupKeys_entries
  have hbound : st.entries.dlookup st.entries[k].1 = some st.entries[k].2 :=
    List.mem_dlookup hnodup (List.getElem_mem hk)
  have hfresh : st.entries[k].1 ∉ (st.entries.take k).keys := by
    have hsplit : st.entries.keys = (st.entries.take k).keys ++ (st.entries.drop k).keys := by
      rw [← List.keys_append, List.take_append_drop]
    have hkeys : st.entries.keys.Nodup := hnodup
    rw [hsplit, List.nodup_append] at hkeys
    intro hmem
    refine hkeys.2.2 _ hmem _ ?_ rfl
    rw [List.drop_eq_getElem_cons hk, List.keys_cons]
    exact List.mem_cons_self
  rw [List.dlookup_eq_none.2 hfresh, hbound]
  exact (Option.some_ne_none _).symm

/-- The table that the loop makes of the first `k` entries. -/
theorem dupLoop_take (st : Store) {k : ℕ} (hk : k ≤ st.entries.length) {st' : Store}
    (hempty : st'.map = ∅) :
    ∃ copy : Store, dupLoop ((st.entries.map Entry.ofPair).map some ++ [none]) k 0 st'.table =
        .ok (copy.table, 0) ∧
      ∀ key, copy.map.lookup key = (st.entries.take k).dlookup key := by
  have hbytes : ∀ e ∈ st.entries.take k, e.2 ≠ [] :=
    fun e he => st.nonempty e (List.mem_of_mem_take he)
  obtain ⟨copy, hloop, hmap⟩ := dupLoop_entries st' hbytes []
    (((st.entries.drop k).map Entry.ofPair).map some ++ [none])
  have hsplit : ((st.entries.take k).map Entry.ofPair).map some ++
      (((st.entries.drop k).map Entry.ofPair).map some ++ [none]) =
        (st.entries.map Entry.ofPair).map some ++ [none] := by
    rw [← List.append_assoc, ← List.map_append, ← List.map_append, List.take_append_drop]
  rw [List.nil_append, hsplit, List.length_take, min_eq_left hk] at hloop
  refine ⟨copy, hloop, fun key => ?_⟩
  have hnodup : (st.entries.take k).NodupKeys :=
    List.Pairwise.sublist ((List.take_sublist k st.entries).map _) st.nodupKeys_entries
  rw [hmap, Spec.replay_puts, Bucket.lookup_insertAll hnodup, hempty, Finmap.lookup_empty,
    Option.or_none]

section Sizes

variable (clock clock' : ℕ → Timeval) (lastNodeAddr : CString) {n' : Int32}
  {tail tail₁ tail₂ new : ServerState} {st₁ st₂ : Store} (hpos : 0 < n')
  (hfresh : new.table = (Store.create n' hpos).table) {before between : List MessageT}
  (hbefore : serveAll clock before tail = .ok tail₁)
  (hbetween : serveAll clock (getTableRequest :: between) tail₁ = .ok tail₂)
  (hs₁ : tail₁.Holds st₁) (hs₂ : tail₂.Holds st₂)

include hfresh hbefore hbetween hs₁ hs₂

theorem copyMatches_of_length_eq (heq : st₂.entries.length = st₁.entries.length) :
    CopyMatches clock clock' lastNodeAddr new ⟨tail, none, [before, between]⟩ := by
  obtain ⟨⟨t, hget⟩, t', hdup⟩ := dupTableFromServer_run clock clock' lastNodeAddr new hbefore
    hbetween hs₁ hs₂
  obtain ⟨copy, hloop, hcopy⟩ := dupLoop_take st₁ heq.le (Store.map_create n' hpos)
  rw [hfresh, hloop, C.ok_bind] at hdup
  refine ⟨_, 0, _, t, t', hget, hdup, fun _ key => ?_⟩
  rw [copy.tableGet_table, lookupEntry_map, hcopy, heq, List.take_length]

theorem CopyMatches.length_eq
    (h : CopyMatches clock clock' lastNodeAddr new ⟨tail, none, [before, between]⟩) :
    st₂.entries.length = st₁.entries.length := by
  obtain ⟨entries, ret, new', t₁, t₁', hget', hdup', hmatches⟩ := h
  obtain ⟨⟨t, hget⟩, t', hdup⟩ := dupTableFromServer_run clock clock' lastNodeAddr new hbefore
    hbetween hs₁ hs₂
  obtain rfl : entries = st₁.entries.map Entry.ofPair := by
    have harr := congrArg Prod.fst (Except.ok.inj (hget'.symm.trans hget))
    have hmap := List.append_cancel_right (Option.some.inj harr)
    exact List.map_injective_iff.2 (Option.some_injective _) hmap
  rw [hfresh, hdup'] at hdup
  rcases lt_trichotomy st₂.entries.length st₁.entries.length with hlt | heq | hgt
  · -- fewer entries are asked for than were received
    obtain ⟨copy, hloop, hcopy⟩ := dupLoop_take st₁ hlt.le (Store.map_create n' hpos)
    rw [hloop, C.ok_bind] at hdup
    obtain ⟨rfl, hnew⟩ := Prod.mk.inj (Except.ok.inj hdup)
    obtain ⟨rfl, -⟩ := Prod.mk.inj hnew
    obtain ⟨key, hkey⟩ := dlookup_take_ne st₁ hlt
    have hfound := hmatches rfl key
    rw [copy.tableGet_table, lookupEntry_map, Except.ok.injEq, hcopy] at hfound
    refine absurd (Option.map_injective (fun b b' hb => ?_) hfound) hkey
    exact Option.some.inj (congrArg Data.data hb)
  · exact heq
  · -- the loop comes to the `NULL`
    have hover := dupLoop_overrun (Store.create n' hpos) (b := st₁.entries) st₁.nonempty [] hgt
    rw [List.nil_append, List.length_nil] at hover
    rw [hover] at hdup
    cases hdup

end Sizes

/-- The copy is right exactly when the tail has as many entries when it answers OP_SIZE as
    it had when it answered OP_GETTABLE. -/
theorem copyMatches_iff (clock clock' : ℕ → Timeval) (lastNodeAddr : CString) {n n' : Int32}
    {tail tail₁ tail₂ new : ServerState} (htable : tail.table.Reached n)
    (hstats : tail.globalStats ≠ none) (hlast : tail.nextServerNodePath = .empty)
    (hnew : tableCreate n' = some new.table) {before between : List MessageT}
    (hbefore : serveAll clock before tail = .ok tail₁)
    (hbetween : serveAll clock (getTableRequest :: between) tail₁ = .ok tail₂) :
    CopyMatches clock clock' lastNodeAddr new ⟨tail, none, [before, between]⟩ ↔
      tableSize tail₂.table = tableSize tail₁.table := by
  obtain ⟨st, -, hstore⟩ := htable.store
  obtain ⟨st₁, hs₁, hlast₁⟩ := serveAll_holds ⟨hstore, hstats, .inl hlast⟩ hlast hbefore
  obtain ⟨st₂, hs₂, -⟩ := serveAll_holds hs₁ hlast₁ hbetween
  have hpos := tableCreate_pos hnew
  have hfresh : new.table = (Store.create n' hpos).table :=
    Option.some.inj (hnew.symm.trans (Store.tableCreate_eq hpos))
  rw [hs₁.table, hs₂.table, st₁.tableSize_table, st₂.tableSize_table, Int.ofNat_inj]
  exact ⟨CopyMatches.length_eq clock clock' lastNodeAddr hpos hfresh hbefore hbetween hs₁ hs₂,
    copyMatches_of_length_eq clock clock' lastNodeAddr hpos hfresh hbefore hbetween hs₁ hs₂⟩

/-- A server that has just been started with one list. -/
def startedTail : ServerState := .init (Store.create 1 Store.one_pos).table

theorem startedTail_holds : startedTail.Holds (Store.create 1 (by decide)) :=
  ServerState.holds_init _

/-- The same server behind its reply to OP_GETTABLE. -/
def listedTail : ServerState :=
  startedTail.served (fun _ => ⟨0, 0⟩) (Store.create 1 Store.one_pos).table

theorem listedTail_holds : listedTail.Holds (Store.create 1 (by decide)) :=
  startedTail_holds.served _ _

theorem serveAll_getTable (msg : MessageT) {result : MessageT × Int} {tail₂ : ServerState}
    (hrun : (dispatch msg).run (alone (fun _ => ⟨0, 0⟩) .broken) (listedTail, ()) =
      .ok (result, (tail₂, ()))) :
    serveAll (fun _ => ⟨0, 0⟩) [getTableRequest, msg] startedTail = .ok tail₂ := by
  have hdispatch : dispatch getTableRequest = invokeGettable getTableRequest := rfl
  have hserved := invokeGettable_run (fun _ => ⟨0, 0⟩) .broken (s := (startedTail, ()))
    startedTail_holds.table startedTail_holds.stats getTableRequest
  rw [← hdispatch] at hserved
  rw [serveAll_cons _ hserved]
  exact serveAll_cons _ hrun

/-- A table of two lists that holds two keys. -/
def twoKeys : List TableUpdate :=
  [.put (some (node 1)) (some (.ofBytes [10])), .put (some (node 2)) (some (.ofBytes [20]))]

/-- Another client replaces the value of one of two keys after they have been listed, and
    removes a key that is not there. The two entries are copied as they were listed. -/
theorem copyMatches_replaced :
    ∃ table : Table, (Store.create 2 (by decide)).table.updateAll twoKeys = .ok (table, [0, 0]) ∧
      CopyMatches (fun _ => ⟨0, 0⟩) (fun _ => ⟨0, 0⟩) .empty startedTail
        ⟨.init table, none, [[], [putRequest (node 1) (.ofBytes [11]), delRequest (node 3)]]⟩ := by
  obtain ⟨table, hrun, tail₂, hbetween, hsize⟩ : ∃ table,
      (Store.create 2 (by decide)).table.updateAll twoKeys = .ok (table, [0, 0]) ∧
        ∃ tail₂, serveAll (fun _ => ⟨0, 0⟩) [getTableRequest, putRequest (node 1) (.ofBytes [11]),
            delRequest (node 3)] (.init table) = .ok tail₂ ∧
          tableSize tail₂.table = tableSize table := by
    refine ⟨_, rfl, ?_⟩
    refine ⟨_, rfl, ?_⟩
    rfl
  have hreached : (ServerState.init table).table.Reached 2 :=
    ⟨_, _, _, Store.tableCreate_eq (by decide), hrun⟩
  have hstats : (ServerState.init table).globalStats ≠ none := nofun
  have hcreate : tableCreate 1 = some startedTail.table := Store.tableCreate_eq (by decide)
  exact ⟨table, hrun, (copyMatches_iff _ _ _ hreached hstats rfl hcreate rfl hbetween).2 hsize⟩

/-- In between the first key is put, and the loop comes to the `NULL`. -/
theorem not_copyMatches_put :
    ¬ CopyMatches (fun _ => ⟨0, 0⟩) (fun _ => ⟨0, 0⟩) .empty startedTail
      ⟨startedTail, none, [[], [putRequest .empty (.ofBytes [1])]]⟩ := by
  intro h
  have hentry : (putRequest .empty (.ofBytes [1])).entry = some ⟨some .empty, .ofBytes [1]⟩ := rfl
  have hvalue : (BinaryData.ofBytes [1]).copyOut = .ok [1] := rfl
  have hpath : listedTail.nextServerNodePath = .empty := rfl
  have hrun := invokePut_run (fun _ => ⟨0, 0⟩) .broken (s := (listedTail, ()))
    listedTail_holds.table listedTail_holds.stats hentry hvalue (by decide)
  rw [hpath, forwardTo_empty, C.ok_bind] at hrun
  have hdispatch : dispatch (putRequest .empty (.ofBytes [1])) =
      invokePut (putRequest .empty (.ofBytes [1])) := rfl
  rw [← hdispatch] at hrun
  have hfresh : startedTail.table = (Store.create 1 (by decide)).table := rfl
  have heq := CopyMatches.length_eq _ _ _ _ hfresh rfl (serveAll_getTable _ hrun)
    startedTail_holds (listedTail_holds.served _ _) h
  rw [← Store.card_keys_map, ← Store.card_keys_map, Store.map_put, Store.map_create] at heq
  exact absurd heq (by decide)

end ChainTable
