-- SUMMARY: Which messages from a peer invoke survives, and which of the replies it makes of them are well formed.
import ChainTable.Server.Conversation
import ChainTable.Server.Effects

open Base

/-!
# Requests from any peer

A peer can send any bytes, so that `invoke` gets any message that `message_t__unpack`
makes. The message is also the reply, with every field that the operation does not set
as the peer sent it.
-/

namespace ChainTable

open Calls

/-! ## Well-formed messages -/

/-- A value with a length has its block. -/
def BinaryData.Whole (v : BinaryData) : Prop := 0 < v.len → v.data ≠ none

/-- A message that can be packed, with every count and every length right. -/
structure MessageT.WellFormed (msg : MessageT) : Prop where
  packable : ∃ arrived, msg.unpacked = .ok arrived
  value : msg.value.Whole
  keys : msg.nKeys = (msg.keys.filter Option.isSome).length
  entries : msg.nEntries = (msg.entries.filter Option.isSome).length
  blocks : ∀ entry, some entry ∈ msg.entries → entry.value.Whole

/-- What the response to OP_GET shows of a block, or of there being none. -/
def BinaryData.Shows (v : BinaryData) : Option Data → Prop
  | some block => (v.len : Int) = block.datasize ∧ v.data = block.data
  | none => v.len = 0

/-- A reply that is well formed and, to OP_GET, shows what the table has. -/
structure MeaningfulReply (table : Table) (msg res : MessageT) : Prop where
  wellFormed : res.WellFormed
  found : msg.opcode = opGet → ∀ key ∈ msg.key, ∃ block, tableGet table (some key) = .ok block ∧
    res.value.Shows block

theorem BinaryData.whole_ofBytes (b : Bytes) : (ofBytes b).Whole :=
  fun _ => Option.some_ne_none b

theorem BinaryData.Whole.unpacked {v : BinaryData} (h : v.Whole) :
    ∃ arrived, v.unpacked = .ok arrived := by
  rw [BinaryData.unpacked]
  by_cases hlen : v.len = 0
  · rw [if_pos hlen]
    exact ⟨_, rfl⟩
  · obtain ⟨b, hb⟩ := Option.ne_none_iff_exists'.1 (h (Nat.pos_of_ne_zero hlen))
    rw [if_neg hlen, hb]
    exact ⟨_, rfl⟩

theorem BinaryData.whole_of_unpacked {v arrived : BinaryData} (h : v.unpacked = .ok arrived) :
    arrived.Whole := by
  rw [BinaryData.unpacked] at h
  split at h
  · cases h
    exact fun hlen => absurd hlen (lt_irrefl 0)
  · obtain ⟨b, -, h⟩ := C.bind_eq_ok h
    cases h
    exact whole_ofBytes _

/-- An array that points to `xs`, with nothing but `NULL` after that. -/
def Pointers {α : Type} (arr : List (Option α)) (xs : List α) : Prop :=
  ∃ m, arr = xs.map some ++ List.replicate m none

namespace Pointers

variable {α : Type} {arr : List (Option α)} {xs : List α}

theorem mem_iff (h : Pointers arr xs) {x : α} : some x ∈ arr ↔ x ∈ xs := by
  obtain ⟨m, rfl⟩ := h
  simp

theorem filter (h : Pointers arr xs) : (arr.filter Option.isSome).length = xs.length := by
  obtain ⟨m, rfl⟩ := h
  simp [List.filter_map, Function.comp_def]

theorem loadAll (h : Pointers arr xs) : loadAll arr xs.length = .ok (xs.map some) := by
  obtain ⟨m, rfl⟩ := h
  exact loadAll_map_some xs _

theorem map_some (xs : List α) : Pointers (xs.map some) xs := ⟨0, (List.append_nil _).symm⟩

theorem terminated (xs : List α) : Pointers (xs.map some ++ [none]) xs := ⟨1, rfl⟩

end Pointers

/-- The parts of a message from which it is packed. -/
structure MessageT.Parts (msg : MessageT) : Prop where
  entry : ∀ entry ∈ msg.entry, entry.value.Whole
  value : msg.value.Whole
  keys : ∃ keys, Pointers msg.keys keys ∧ msg.nKeys = keys.length
  entries : ∃ entries, Pointers msg.entries entries ∧ msg.nEntries = entries.length ∧
    ∀ entry ∈ entries, entry.value.Whole

theorem mapM_unpackedEntry_whole {entries : List EntryT}
    (h : ∀ entry ∈ entries, entry.value.Whole) :
    ∃ arrived, (entries.map some).mapM unpackedEntry = .ok arrived := by
  induction entries with
  | nil => exact ⟨[], rfl⟩
  | cons entry entries ih =>
    obtain ⟨hentry, hrest⟩ := List.forall_mem_cons.1 h
    obtain ⟨value, hvalue⟩ := hentry.unpacked
    obtain ⟨arrived, harrived⟩ := ih hrest
    have hhead : unpackedEntry (some entry) = .ok (some ⟨some (entry.key.getD .empty), value⟩) := by
      rw [unpackedEntry, deref_some, C.ok_bind, EntryT.unpacked, hvalue]
      rfl
    rw [List.map_cons, List.mapM_cons, hhead, C.ok_bind, harrived]
    exact ⟨_, rfl⟩

/-- The entries of a message that was unpacked. -/
theorem whole_of_mapM_unpackedEntry {arr arrived : List (Option EntryT)}
    (h : arr.mapM unpackedEntry = .ok arrived) :
    ∃ entries : List EntryT, arrived = entries.map some ∧ entries.length = arr.length ∧
      ∀ entry ∈ entries, entry.value.Whole := by
  induction arr generalizing arrived with
  | nil =>
    cases h
    exact ⟨[], rfl, rfl, nofun⟩
  | cons sent arr ih =>
    rw [List.mapM_cons] at h
    obtain ⟨first, hfirst, h⟩ := C.bind_eq_ok h
    obtain ⟨rest, hrest, h⟩ := C.bind_eq_ok h
    cases h
    obtain ⟨entries, rfl, hlength, hwhole⟩ := ih hrest
    obtain ⟨sent, -, hfirst⟩ := C.bind_eq_ok hfirst
    obtain ⟨entry, hentry, hfirst⟩ := C.bind_eq_ok hfirst
    cases hfirst
    obtain ⟨value, hvalue, hentry⟩ := C.bind_eq_ok hentry
    cases hentry
    refine ⟨⟨_, value⟩ :: entries, rfl, congrArg (· + 1) hlength, ?_⟩
    exact List.forall_mem_cons.2 ⟨BinaryData.whole_of_unpacked hvalue, hwhole⟩

namespace MessageT

variable {msg : MessageT}

theorem Parts.wellFormed (h : msg.Parts) : msg.WellFormed := by
  obtain ⟨keys, hkeys, hnKeys⟩ := h.keys
  obtain ⟨entries, hentries, hnEntries, hwhole⟩ := h.entries
  refine ⟨?_, h.value, ?_, ?_, ?_⟩
  · obtain ⟨value, hvalue⟩ := h.value.unpacked
    obtain ⟨arrived, harrived⟩ := mapM_unpackedEntry_whole hwhole
    have hentry : ∃ entry, msg.entry.mapM EntryT.unpacked = .ok entry := by
      cases hentry : msg.entry with
      | none => exact ⟨none, rfl⟩
      | some entry =>
        obtain ⟨value, hvalue⟩ := (h.entry entry hentry).unpacked
        rw [Option.mapM_some, EntryT.unpacked, hvalue]
        exact ⟨_, rfl⟩
    obtain ⟨entry, hentry⟩ := hentry
    exact ⟨_, unpacked_of_parts hentry hvalue (hnKeys ▸ hkeys.loadAll)
      (hnEntries ▸ hentries.loadAll)
      harrived⟩
  · rw [hkeys.filter, hnKeys]
  · rw [hentries.filter, hnEntries]
  · exact fun entry hentry => hwhole entry (hentries.mem_iff.1 hentry)

/-- What was unpacked can be packed again. -/
theorem parts_of_unpacked {packed : MessageT} (h : packed.unpacked = .ok msg) : msg.Parts := by
  obtain ⟨entry, hentry, h⟩ := C.bind_eq_ok h
  obtain ⟨value, hvalue, h⟩ := C.bind_eq_ok h
  obtain ⟨keys, hkeys, h⟩ := C.bind_eq_ok h
  obtain ⟨entries, hentries, h⟩ := C.bind_eq_ok h
  obtain ⟨arrived, harrived, h⟩ := C.bind_eq_ok h
  cases h
  -- a count that was read in full is the length of what was read
  have hlength : ∀ {α : Type} {arr xs : List α} {n : ℕ}, loadAll arr n = .ok xs →
    n = xs.length := by
    intro α arr xs n hload
    rw [loadAll] at hload
    split at hload
    · cases hload
      rw [List.length_take]
      omega
    · cases hload
  refine ⟨?_, BinaryData.whole_of_unpacked hvalue, ?_, ?_⟩
  · intro arrivedEntry harrivedEntry
    cases hpacked : packed.entry with
    | none =>
      rw [hpacked] at hentry
      cases hentry
      cases harrivedEntry
    | some sent =>
      rw [hpacked, Option.mapM_some] at hentry
      obtain ⟨first, hfirst, hentry⟩ := C.bind_eq_ok hentry
      cases hentry
      cases harrivedEntry
      obtain ⟨value', hvalue', hfirst⟩ := C.bind_eq_ok hfirst
      cases hfirst
      exact BinaryData.whole_of_unpacked hvalue'
  · refine ⟨keys.map fun key => key.getD .empty, ⟨0, ?_⟩, ?_⟩
    · simp
    · rw [List.length_map]
      exact hlength hkeys
  · obtain ⟨xs, rfl, hxs, hwhole⟩ := whole_of_mapM_unpackedEntry harrived
    exact ⟨xs, .map_some xs, (hlength hentries).trans hxs.symm, hwhole⟩

end MessageT

/-! ## Whether invoke returns -/

section Invoke

variable {τ : Type} (clock : ℕ → Timeval) (link : Link τ) {n : Int32} {s : ServerState × τ}
  (htable : s.1.table.Reached n) (hstats : s.1.globalStats ≠ none) {packed msg : MessageT}

include htable hstats

/-- A request is executed or refused unless its forwarding stops the server. -/
theorem invoke_returns (hmsg : Received msg) (hforwards : ForwardsSafely s.1 msg) :
    ∃ res ret s', (invoke msg).run (alone clock link) s = .ok ((res, ret), s') := by
  obtain ⟨st, -, hstore⟩ := htable.store
  by_cases hproper : Proper msg
  · have hexecuted : Executed clock link msg s :=
      executed_of_answerable hstore hmsg ⟨hproper, hforwards, hstats⟩
    obtain ⟨res, ret, s', hrun, -⟩ := hexecuted
    exact ⟨_, _, s', invoke_run clock link hrun⟩
  · have hrefused : ∃ res, (dispatch msg).run (alone clock link) s = .ok ((res, -1), s) :=
      dispatch_refused hmsg hproper
    obtain ⟨res, hrun⟩ := hrefused
    exact ⟨_, _, s, invoke_run clock link hrun⟩

/-- The one thing that a peer can leave out and `invoke` does not look for is the entry of
    a put. -/
theorem invoke_returns_iff (hlive : s.1.LiveSuccessor) (hmsg : packed.unpacked = .ok msg) :
    (∃ res ret s', (invoke msg).run (alone clock link) s = .ok ((res, ret), s')) ↔
      (msg.opcode = opPut → msg.entry ≠ none) := by
  constructor
  · rintro ⟨res, ret, s', hrun⟩ hput hentry
    have hcarries : ¬ msg.CarriesEntry := by
      rintro ⟨key, value, b, hsome, -⟩
      rw [hentry] at hsome
      cases hsome
    obtain ⟨f, hf⟩ : ∃ f, (invoke msg).run (alone clock link) s = .error f :=
      invoke_run_error hput hcarries
    rw [hf] at hrun
    cases hrun
  · intro hentry
    exact invoke_returns clock link htable hstats ⟨⟨packed, hmsg⟩, hentry⟩ fun _ =>
      hlive.imp_right .inr

end Invoke

theorem freshServer_reached : freshServer.1.table.Reached 1 :=
  Store.reached_create 1 (by decide)

theorem freshServer_stats : freshServer.1.globalStats ≠ none :=
  (ServerState.holds_init _).stats

/-- A put whose value is empty is refused, and `invoke` returns. -/
theorem invoke_returns_emptyValue :
    ∃ res ret s', (invoke (putRequest .empty .zero)).run (alone (fun _ => ⟨0, 0⟩) .broken)
      freshServer = .ok ((res, ret), s') := by
  have hmsg : (putRequest .empty .zero).unpacked = .ok (putRequest .empty .zero) := rfl
  have hlive : freshServer.1.LiveSuccessor := .inl rfl
  have hentry : (putRequest .empty .zero).entry ≠ none := by simp [putRequest]
  exact (invoke_returns_iff _ _ freshServer_reached freshServer_stats hlive hmsg).2 fun _ => hentry

/-- What is unpacked from the two bytes `08 0a`: OP_PUT and nothing else. -/
def bareOpPut : MessageT := { MessageT.init with opcode := opPut }

theorem not_invoke_returns_withoutEntry :
    (∃ packed : MessageT, packed.unpacked = .ok bareOpPut) ∧
      ¬ ∃ res ret s', (invoke bareOpPut).run (alone (fun _ => ⟨0, 0⟩) .broken) freshServer =
        .ok ((res, ret), s') := by
  refine ⟨⟨bareOpPut, rfl⟩, ?_⟩
  rintro ⟨res, ret, s', hrun⟩
  have hfault : (invoke bareOpPut).run (alone (fun _ => ⟨0, 0⟩) .broken) freshServer =
      .error .nullDeref := rfl
  cases hfault.symm.trans hrun

/-! ## Whether the reply is well formed -/

section Replies

variable {τ : Type} {clock : ℕ → Timeval} {link : Link τ} {st : Store} {msg res : MessageT}
  {ret : Int} {s s' : ServerState × τ}

/-- Each handler keeps what the peer sent except for what it sets, and that is well
    formed, but for the length next to a key that OP_GET does not find. -/
theorem Ended.parts (hend : Ended clock link msg st s res ret s') (hret : 0 ≤ ret)
    (hparts : msg.Parts)
    (hempty : msg.opcode = opGet → ∀ key ∈ msg.key, st.map.lookup key = none → msg.value.len = 0) :
    res.Parts := by
  cases hend with
  | refused => exact absurd hret (by decide)
  | put => exact ⟨hparts.entry, hparts.value, hparts.keys, hparts.entries⟩
  | @get hop key hkey =>
    cases hlookup : st.map.lookup key with
    | none =>
      have hlen := hempty hop key hkey hlookup
      exact ⟨hparts.entry, fun h => absurd (hlen ▸ h) (lt_irrefl 0), hparts.keys, hparts.entries⟩
    | some b =>
      exact ⟨hparts.entry, BinaryData.whole_ofBytes b, hparts.keys, hparts.entries⟩
  | del _ _ res hres =>
    obtain ⟨cType, rfl⟩ := hres
    exact ⟨hparts.entry, hparts.value, hparts.keys, hparts.entries⟩
  | size => exact ⟨hparts.entry, hparts.value, hparts.keys, hparts.entries⟩
  | getkeys =>
    have hkeys : ∃ keys, Pointers (st.keys.map some ++ [none]) keys ∧
        st.entries.length = keys.length := ⟨st.keys, .terminated _, st.length_keys.symm⟩
    exact ⟨hparts.entry, hparts.value, hkeys, hparts.entries⟩
  | gettable =>
    refine ⟨hparts.entry, hparts.value, hparts.keys,
      ⟨st.entries.map EntryT.ofPair, .terminated _, (List.length_map _).symm, ?_⟩⟩
    intro entry hentry
    obtain ⟨e, -, rfl⟩ := List.mem_map.1 hentry
    exact BinaryData.whole_ofBytes e.2
  | stats => exact ⟨hparts.entry, hparts.value, hparts.keys, hparts.entries⟩

theorem Ended.shows (hend : Ended clock link msg st s res ret s') (hret : 0 ≤ ret)
    (hget : msg.opcode = opGet) {key : CString} (hkey : msg.key = some key)
    (hempty : st.map.lookup key = none → msg.value.len = 0) :
    res.value.Shows ((st.map.lookup key).map Data.ofBytes) := by
  cases hend with
  | refused => exact absurd hret (by decide)
  | @get hop key' hkey' =>
    obtain rfl : key = key' := Option.some.inj (hkey.symm.trans hkey')
    cases hlookup : st.map.lookup key with
    | none => exact hempty hlookup
    | some b => exact ⟨rfl, rfl⟩
  | put hop => exact absurd (hget.symm.trans hop) (by decide)
  | del hop => exact absurd (hget.symm.trans hop) (by decide)
  | size hop => exact absurd (hget.symm.trans hop) (by decide)
  | getkeys hop => exact absurd (hget.symm.trans hop) (by decide)
  | gettable hop => exact absurd (hget.symm.trans hop) (by decide)
  | stats hop => exact absurd (hget.symm.trans hop) (by decide)

theorem conclude_of_nonneg (hret : 0 ≤ ret) :
    conclude (res, ret) = ({ res with opcode := res.opcode + 1 }, ret) := if_pos hret

end Replies

/-- OP_GET asks for a key that is not bound, in a message whose value is not empty. -/
def GetsUnbound (table : Table) (msg : MessageT) : Prop :=
  msg.opcode = opGet ∧ tableGet table msg.key = .ok none ∧ 0 < msg.value.len

/-- `invoke` returns unless forwarding the request stops the server, and every reply with
    a result that is not negative is a meaningful one. -/
structure RepliesWell {τ : Type} (clock : ℕ → Timeval) (link : Link τ) (s : ServerState × τ)
    (msg : MessageT) : Prop where
  returns : ForwardsSafely s.1 msg →
    ∃ res ret s', (invoke msg).run (alone clock link) s = .ok ((res, ret), s')
  meaningful : ∀ res ret s', (invoke msg).run (alone clock link) s = .ok ((res, ret), s') →
    0 ≤ ret → MeaningfulReply s.1.table msg res

section Replies

variable {τ : Type} (clock : ℕ → Timeval) (link : Link τ) {n : Int32} {s : ServerState × τ}
  (htable : s.1.table.Reached n) (hstats : s.1.globalStats ≠ none) {packed msg : MessageT}

include htable hstats

/-- The reply keeps the length of the value, and its block is set to `NULL`. -/
theorem GetsUnbound.not_repliesWell (h : GetsUnbound s.1.table msg) {key : CString}
    (hkey : msg.key = some key) : ¬ RepliesWell clock link s msg := by
  obtain ⟨hop, hnone, hlen⟩ := h
  intro hreplies
  obtain ⟨st, -, hstore⟩ := htable.store
  have hlookup : st.map.lookup key = none := by
    rw [hstore, hkey, st.tableGet_table, Except.ok.injEq, Option.map_eq_none_iff] at hnone
    exact hnone
  have hget := invokeGet_run clock link hstore hstats hkey
  rw [hlookup, ← dispatch_get hop] at hget
  have hreply := hreplies.meaningful _ _ _ (invoke_run clock link hget) le_rfl
  exact hreply.wellFormed.value hlen rfl

/-- A message that is not one of these gets a meaningful reply. -/
theorem meaningful_of_not_getsUnbound (hmsg : Received msg) (hcond : ¬ GetsUnbound s.1.table msg)
    {res : MessageT} {ret : Int} {s' : ServerState × τ}
    (hrun : (invoke msg).run (alone clock link) s = .ok ((res, ret), s')) (hret : 0 ≤ ret) :
    MeaningfulReply s.1.table msg res := by
  obtain ⟨key, hkey⟩ := hmsg.key
  obtain ⟨⟨packed, hpacked⟩, -⟩ := hmsg
  obtain ⟨st, -, hstore⟩ := htable.store
  have hfound : tableGet s.1.table msg.key = .ok ((st.map.lookup key).map Data.ofBytes) := by
    rw [hstore, hkey, st.tableGet_table]
  have hempty : msg.opcode = opGet → st.map.lookup key = none → msg.value.len = 0 := by
    intro hop hlookup
    by_contra hlen
    refine hcond ⟨hop, ?_, Nat.pos_of_ne_zero hlen⟩
    rw [hfound, hlookup]
    rfl
  obtain ⟨res', rfl, hend⟩ := ended_of_invoke hstore hstats hrun
  have hparts : res'.Parts := by
    refine hend.parts hret (MessageT.parts_of_unpacked hpacked) fun hop key' hkey' => ?_
    obtain rfl : key = key' := Option.some.inj (hkey.symm.trans hkey')
    exact hempty hop
  rw [conclude_of_nonneg hret]
  refine ⟨MessageT.Parts.wellFormed ⟨hparts.entry, hparts.value, hparts.keys, hparts.entries⟩, ?_⟩
  intro hop key' hkey'
  obtain rfl : key = key' := Option.some.inj (hkey.symm.trans hkey')
  refine ⟨_, ?_, hend.shows hret hop hkey (hempty hop)⟩
  rw [← hkey, hfound]

theorem repliesWell_iff (hmsg : packed.unpacked = .ok msg)
    (hentry : msg.opcode = opPut → msg.entry ≠ none) :
    RepliesWell clock link s msg ↔ ¬ GetsUnbound s.1.table msg := by
  have hreceived : Received msg := ⟨⟨packed, hmsg⟩, hentry⟩
  obtain ⟨key, hkey⟩ := hreceived.key
  constructor
  · exact fun hreplies hunbound =>
      hunbound.not_repliesWell clock link htable hstats hkey hreplies
  · exact fun hcond => ⟨invoke_returns clock link htable hstats hreceived, fun _ _ _ =>
      meaningful_of_not_getsUnbound clock link htable hstats hreceived hcond⟩

end Replies

theorem repliesWell_getRequest :
    RepliesWell (fun _ => ⟨0, 0⟩) .broken freshServer (getRequest .empty) := by
  have hmsg : (getRequest .empty).unpacked = .ok (getRequest .empty) := rfl
  refine (repliesWell_iff _ _ freshServer_reached freshServer_stats hmsg ?_).2 ?_
  · intro hput
    exact absurd hput (by decide)
  · exact fun hunbound => absurd hunbound.2.2 (lt_irrefl 0)

/-- A value of one byte in a request for a key that is not bound. -/
theorem not_repliesWell_withValue :
    (∃ packed : MessageT, packed.unpacked = .ok { getRequest .empty with value := .ofBytes [1] }) ∧
      ¬ RepliesWell (fun _ => ⟨0, 0⟩) .broken freshServer
        { getRequest .empty with value := .ofBytes [1] } := by
  refine ⟨⟨{ getRequest .empty with value := .ofBytes [1] }, rfl⟩, ?_⟩
  have hunbound :
    GetsUnbound freshServer.1.table { getRequest .empty with value := .ofBytes [1] } := by
    refine ⟨rfl, ?_, by decide⟩
    have hget := (Store.create 1 (by decide)).tableGet_table .empty
    rw [Store.map_create, Finmap.lookup_empty] at hget
    exact hget
  exact hunbound.not_repliesWell _ _ freshServer_reached freshServer_stats rfl

end ChainTable
