-- SUMMARY: A server that joins the chain: the copy of the tail's table, the registration and the link of the old tail, interleaved with updates.
import ChainTable.Base.Transition
import ChainTable.Chain.Node
import ChainTable.Server.Remote
import ChainTable.Zoo.Topology

open Base

/-!
# Joining the chain

The `main` of a new server copies the table of the tail, then registers its node, and only
the child event of the old tail makes this one forward its updates. Meanwhile the old tail
serves updates. An update holds the table lock of the old tail from its call on the table
to the end of its forward, which is all that the two steps of an update have to respect.
-/

namespace ChainTable

open Calls

/-! ## dup_table_from_server -/

/-- The loop over the fetched entries. -/
def dupLoop (entries : List (Option Entry)) : ℕ → ℕ → Table → C (Table × Int)
  | 0, _, table => .ok (table, 0)
  | n + 1, i, table => do
    let entry ← load entries i
    let entry ← deref entry
    let (table, ret) ← tablePut table entry.key entry.value
    if ret = -1 then return (table, ret)
    else dupLoop entries n (i + 1) table

/-- How far `main` has come. -/
inductive JoinPhase where
  | listed
  | connected
  /-- The tail has looked at the size of its table for OP_GETTABLE. -/
  | counted (tabSize : Int)
  | fetched (entries : List (Option Entry))
  | sized (entries : List (Option Entry)) (tabSize : Int)
  /-- `dup_table_from_server` has returned; `main` does not look at its result. -/
  | copied
  | registered
  | exited

/-- The tail has collected the entries of its table. -/
def JoinPhase.collected : JoinPhase → Bool
  | .listed => false
  | .connected => false
  | .counted _ => false
  | _ => true

def JoinPhase.isRegistered : JoinPhase → Bool
  | .registered => true
  | _ => false

theorem JoinPhase.isRegistered_iff {phase : JoinPhase} :
    phase.isRegistered = true ↔ phase = .registered := by
  cases phase <;> simp [isRegistered]

/-- The old tail, the update that holds its table lock, and the new server. It is
    remembered whether the update came after the entries were collected. -/
structure Joining where
  tail : ServerState
  updating : Option (Update × Bool)
  phase : JoinPhase
  new : NextServer Unit

/-- The steps. Each call of `main` on the tail may fail. -/
inductive JoinStep where
  | connect (ok : Bool)
  | count (ok : Bool)
  | collect (ok : Bool)
  | size (ok : Bool)
  | insert
  | create (ok : Bool)
  /-- A child event of the old tail. -/
  | event (event : ChildEvent)
  /-- The call of an update on the table of the old tail. -/
  | update (u : Update)
  /-- The rest of the update. -/
  | forward (outcome : Outcome)

/-- What follows the call of an update on the table. -/
def Update.forward : Update → Prog Calls Unit
  | put key b => forwardUpdate fun rtable => rtablePut rtable ⟨some key, some (.ofBytes b)⟩
  | del key => forwardUpdate fun rtable => rtableDel rtable key

namespace Joining

variable (clock : ℕ → Timeval) (tailPath newPath : CString)

/-- What `rtable_get_table` makes of the reply of the tail, if that arrives. -/
def getTable (tail : ServerState) (tabSize : Int) (ok : Bool) :
    C (Option (List (Option Entry))) := do
  let ((res, ret), _) ← (gettableReply getTableRequest tabSize).run (alone clock .broken) (tail, ())
  getTableResult (if ok then (conclude (res, ret)).1.unpacked.toOption else none)

/-- The nodes of the chain, and the one of the new server once it is registered. -/
def Lists (s : Joining) (event : ChildEvent) : Prop :=
  ∀ children, event.children = some children → ∀ node ∈ children,
    concatZpath node ≤ tailPath ∨ s.phase.isRegistered = true ∧ concatZpath node = newPath

instance (s : Joining) (event : ChildEvent) : Decidable (s.Lists tailPath newPath event) :=
  inferInstanceAs (Decidable (∀ children, event.children = some children → ∀ node ∈ children,
    concatZpath node ≤ tailPath ∨ s.phase.isRegistered = true ∧ concatZpath node = newPath))

/-- The steps of `main` up to the registration. A fault of either server ends the run. -/
def stepMain (s : Joining) : JoinStep → Option Joining
  | .connect ok =>
    match s.phase with
    | .listed => some { s with phase := if ok then .connected else .copied }
    | _ => none
  | .count ok =>
    match s.phase, s.updating with
    | .connected, none =>
      some { s with phase := if ok then .counted (tableSize s.tail.table) else .copied }
    | _, _ => none
  | .collect ok =>
    match s.phase with
    | .counted tabSize =>
      match getTable clock s.tail tabSize ok with
      | .ok (some entries) => some { s with phase := .fetched entries }
      | .ok none => some { s with phase := .copied }
      | .error _ => none
    | _ => none
  | .size ok =>
    match s.phase, s.updating with
    | .fetched entries, none =>
      let tabSize := if ok then tableSize s.tail.table else -1
      some { s with phase := if tabSize = -1 then .copied else .sized entries tabSize }
    | _, _ => none
  | .insert =>
    match s.phase with
    | .sized entries tabSize =>
      match dupLoop entries tabSize.toNat 0 s.new.state.1.table with
      | .ok (table, _) => some { s with
          new := { s.new with state := ({ s.new.state.1 with table := table }, ()) }
          phase := .copied }
      | .error _ => none
    | _ => none
  | .create ok =>
    match s.phase with
    | .copied => some { s with phase := if ok then .registered else .exited }
    | _ => none
  | _ => none

def stepEvent (s : Joining) (event : ChildEvent) : Option Joining :=
  if s.Lists tailPath newPath event then
    match serverWatchChildren
      ⟨tailPath, s.tail.nextServerNodePath, s.tail.nextServerRtable⟩ event with
    | .ok successor => some { s with
        tail := { s.tail with
          nextServerNodePath := successor.nextServerNodePath
          nextServerRtable := successor.nextServerRtable } }
    | .error _ => none
  else none

/-- A client puts no empty value. -/
def stepUpdate (s : Joining) (u : Update) : Option Joining :=
  match s.updating with
  | some _ => none
  | none =>
    if u.hasBytes then
      match alone clock .broken u.call (s.tail, ()) with
      | .ok (_, tail, _) => some { s with tail := tail, updating := some (u, s.phase.collected) }
      | .error _ => none
    else none

def stepForward (s : Joining) (outcome : Outcome) : Option Joining :=
  match s.updating with
  | none => none
  | some (u, _) =>
    match u.forward.run (alone clock (.toNextServer clock .broken outcome)) (s.tail, s.new) with
    | .ok (_, tail, new) => some { s with tail := tail, new := new, updating := none }
    | .error _ => none

def step : JoinStep → Joining → Option Joining
  | .event event, s => s.stepEvent tailPath newPath event
  | .update u, s => s.stepUpdate clock u
  | .forward outcome, s => s.stepForward clock outcome
  | l, s => s.stepMain clock l

/-- The old tail holds some map, and `main` has listed the children. -/
structure Start (s : Joining) : Prop where
  tail : ∃ st : Store, s.tail.table = st.table
  last : s.tail.nextServerNodePath = .empty
  updating : s.updating = none
  phase : s.phase = .listed
  new : ∃ st : Store, s.new.state.1.table = st.table ∧ st.map = ∅
  stats : s.new.state.1.globalStats ≠ none
  newLast : s.new.state.1.nextServerNodePath = .empty

/-- When the old tail has the new server as its successor and no update is under way, both
    hold the same map. -/
def LosesNothing (s : Joining) : Prop :=
  s.updating = none → s.tail.nextServerNodePath = newPath →
    ∃ st st' : Store, s.tail.table = st.table ∧ s.new.state.1.table = st'.table ∧ st.map = st'.map

/-- The number of entries that the next step of the copy relies on. -/
def entriesAsked (s : Joining) : Option Int :=
  match s.phase with
  | .counted tabSize => some tabSize
  | .fetched entries => some (entries.length - 1)
  | _ => none

/-- The copy succeeds, with as many entries each time that the tail is asked for them, and
    an update that comes after the entries were collected reaches the new server. -/
def Complete : JoinStep → Joining → Prop
  | .connect ok, _ => ok = true
  | .count ok, _ => ok = true
  | .collect ok, s => ok = true ∧ s.entriesAsked = some (tableSize s.tail.table)
  | .size ok, s => ok = true ∧ s.entriesAsked = some (tableSize s.tail.table)
  | .forward outcome, s => ∀ update ∈ s.updating, update.2 = true →
      s.tail.nextServerNodePath ≠ .empty ∧ s.tail.nextServerRtable ≠ none ∧ outcome.Delivers
  | _, _ => True

instance : (l : JoinStep) → (s : Joining) → Decidable (Complete l s)
  | .connect ok, _ => inferInstanceAs (Decidable (ok = true))
  | .count ok, _ => inferInstanceAs (Decidable (ok = true))
  | .collect ok, s =>
    inferInstanceAs (Decidable (ok = true ∧ s.entriesAsked = some (tableSize s.tail.table)))
  | .size ok, s =>
    inferInstanceAs (Decidable (ok = true ∧ s.entriesAsked = some (tableSize s.tail.table)))
  | .forward outcome, s =>
    inferInstanceAs (Decidable (∀ update ∈ s.updating, update.2 = true →
      s.tail.nextServerNodePath ≠ .empty ∧ s.tail.nextServerRtable ≠ none ∧ outcome.Delivers))
  | .insert, _ => .isTrue trivial
  | .create _, _ => .isTrue trivial
  | .event _, _ => .isTrue trivial
  | .update _, _ => .isTrue trivial

end Joining

/-- One new server, whose node gets the path `newPath`, behind the tail with the node at
    `tailPath`. -/
def joinSystem (clock : ℕ → Timeval) (tailPath newPath : CString) : LTS Joining JoinStep where
  init := Joining.Start
  step := Joining.step clock tailPath newPath

/-! ## The copy -/

/-- The entries of a table as puts. -/
def Spec.puts (b : Bucket CString Bytes) : List Update := b.map fun e => .put e.1 e.2

theorem Spec.replay_puts (b : Bucket CString Bytes) (m : Map) :
    replay (puts b) m = b.insertAll m := by
  rw [replay, puts, List.foldl_map]
  rfl

/-- Putting all entries of a table into an empty one makes its map again. -/
theorem Store.replay_entries (st : Store) : Spec.replay (Spec.puts st.entries) ∅ = st.map := by
  rw [Spec.replay_puts]
  exact Bucket.insertAll_perm st.placed.nodupKeys (List.Perm.refl _)

theorem dupLoop_entries (st : Store) {b : Bucket CString Bytes} (hb : ∀ e ∈ b, e.2 ≠ [])
    (front rest : List (Option Entry)) :
    ∃ st' : Store, dupLoop (front ++ (b.map Entry.ofPair).map some ++ rest) b.length
      front.length st.table =
        .ok (st'.table, 0) ∧ st'.map = Spec.replay (Spec.puts b) st.map := by
  induction b generalizing st front with
  | nil => exact ⟨st, rfl, rfl⟩
  | cons e b ih =>
    rw [List.forall_mem_cons] at hb
    have hput := st.tablePut_table e.1 (Data.bytes_ofBytes hb.1)
    obtain ⟨st', hloop, hmap⟩ := ih (st.put e.1 e.2 hb.1) hb.2 (front ++ [some (Entry.ofPair e)])
    refine ⟨st', ?_, ?_⟩
    · have hload : load (front ++ ((e :: b).map Entry.ofPair).map some ++ rest) front.length =
          .ok (some (Entry.ofPair e)) := load_eq_ok (by simp)
      have harr : front ++ ((e :: b).map Entry.ofPair).map some ++ rest =
          front ++ [some (Entry.ofPair e)] ++ (b.map Entry.ofPair).map some ++ rest := by simp
      rw [List.length_cons, dupLoop, hload, C.ok_bind, deref_some, C.ok_bind, Entry.key_ofPair,
        Entry.value_ofPair, hput, C.ok_bind]
      dsimp only
      rw [if_neg (by decide), harr, ← hloop, List.length_append, List.length_singleton]
    · rw [hmap, Store.map_put]
      rfl

/-- The copy of a whole table into an empty one. -/
theorem dupLoop_table (st : Store) {st' : Store} (hempty : st'.map = ∅) :
    ∃ copy : Store, dupLoop ((st.entries.map Entry.ofPair).map some ++ [none]) st.entries.length 0
        st'.table = .ok (copy.table, 0) ∧ copy.map = st.map := by
  obtain ⟨copy, hloop, hmap⟩ := dupLoop_entries st' (b := st.entries) st.nonempty [] [none]
  refine ⟨copy, hloop, ?_⟩
  rw [hmap, hempty, st.replay_entries]

/-- The reply of a tail whose table has as many entries as were counted. -/
theorem Joining.getTable_table (clock : ℕ → Timeval) {tail : ServerState} {st : Store}
    (htable : tail.table = st.table) :
    getTable clock tail (tableSize tail.table) true =
      .ok (some ((st.entries.map Entry.ofPair).map some ++ [none])) := by
  have hcount : ((st.entries.length : Int) + 1).toNat = st.entries.length + 1 := by omega
  have hreply : (gettableReply getTableRequest st.entries.length).run
    (alone clock .broken) (tail, ()) =
      .ok (({ getTableRequest with
        nEntries := st.entries.length
        entries := (st.entries.map EntryT.ofPair).map some ++ [none]
        cType := ctTable }, 0), (tail, ())) := by
    rw [gettableReply, run_call]
    simp only [alone, htable, st.tableGetEntries_table, C.ok_bind, C.pure_eq, Int.toNat_natCast,
      hcount, copyLoop_packEntry, memory_ok, Prog.ret_bind]
    rfl
  have hload := loadAll_map_some (st.entries.map EntryT.ofPair) [none]
  rw [List.length_map] at hload
  obtain ⟨res, hunpacked, hresult⟩ : ∃ res, (conclude ({ getTableRequest with
        nEntries := st.entries.length
        entries := (st.entries.map EntryT.ofPair).map some ++ [none]
        cType := ctTable }, 0)).1.unpacked = .ok res ∧
      getTableResult (some res) =
        .ok (some ((st.entries.map Entry.ofPair).map some ++ [none])) := by
    refine ⟨_, unpacked_of_parts rfl rfl rfl hload (mapM_unpackedEntry st.nonempty), ?_⟩
    exact congrArg (fun arr => arr >>= fun arr => .ok (some arr)) (copyLoop_unpackEntry st.entries)
  rw [htable, st.tableSize_table, getTable, hreply, C.ok_bind]
  dsimp only
  rw [if_pos rfl, hunpacked]
  exact hresult

/-! ## Updates -/

section Updates

variable {τ : Type} (clock : ℕ → Timeval) (link : Link τ) {u : Update} (hbytes : u.hasBytes = true)
  {st : Store}

include hbytes

/-- The call of an update carries it out. -/
theorem Update.call_alone {server : ServerState} (htable : server.table = st.table) (t : τ) :
    ∃ (r : u.call.Res) (st' : Store), alone clock link u.call (server, t) =
        .ok (r, ({ server with table := st'.table }, t)) ∧ st'.map = u.apply st.map := by
  cases u with
  | put key b =>
    have hb : b ≠ [] := by simpa [Update.hasBytes] using hbytes
    have hput := st.tablePut_table key (Data.bytes_ofBytes hb)
    refine ⟨(0 : Int), st.put key b hb, ?_, st.map_put key b hb⟩
    simp only [Update.call, alone, htable, hput]
    rfl
  | del key =>
    have hremove := st.tableRemove_table key
    refine ⟨(if key ∈ st.map then 0 else 1 : Int), st.remove key, ?_, st.map_remove key⟩
    simp only [Update.call, alone, htable, hremove]
    rfl

theorem Update.forward_run (s : ServerState × τ) :
    u.forward.run (alone clock link) s =
      forwardTo link s.1.nextServerNodePath s.1.nextServerRtable u.nullSafe u.request
        s.2 >>= fun t =>
        .ok ((), (s.1, t)) := by
  cases u with
  | put key b =>
    have hb : b ≠ [] := by simpa [Update.hasBytes] using hbytes
    exact forwardPut_run clock link (Data.bytes_ofBytes hb) key s
  | del key => exact forwardDel_run clock link key s

/-- A last server that gets the update carries it out. -/
theorem NextServer.process_update {t : NextServer τ} (htable : t.state.1.table = st.table)
    (hstats : t.state.1.globalStats ≠ none) (hlast : t.state.1.nextServerNodePath = .empty) :
    ∃ st' : Store, (t.process clock link u.request).state.1 = t.state.1.served clock st'.table ∧
      st'.map = u.apply st.map := by
  cases u with
  | put key b =>
    have hb : b ≠ [] := by simpa [Update.hasBytes] using hbytes
    have hentry : (putRequest key (.ofBytes b)).entry = some ⟨some key, .ofBytes b⟩ := rfl
    have hrun := invokePut_run clock link htable hstats hentry (BinaryData.copyOut_ofBytes b) hb
    rw [hlast, forwardTo_empty] at hrun
    have hserve : serve clock link (putRequest key (.ofBytes b)) t.state = _ :=
      serve_of_dispatch clock link hrun le_rfl
    exact ⟨st.put key b hb, congrArg (fun r => r.2.1) hserve, st.map_put key b hb⟩
  | del key =>
    have hkey : (delRequest key).key = some key := rfl
    have hrun := invokeDel_run clock link htable hstats hkey
    rw [hlast, forwardTo_empty] at hrun
    refine ⟨st.remove key, ?_, st.map_remove key⟩
    by_cases hbound : key ∈ st.map
    · rw [if_pos hbound] at hrun
      have hserve : serve clock link (delRequest key) t.state = _ :=
        serve_of_dispatch clock link hrun le_rfl
      exact congrArg (fun r => r.2.1) hserve
    · rw [if_neg hbound] at hrun
      have hserve : serve clock link (delRequest key) t.state = _ :=
        serve_of_dispatch clock link hrun zero_le_one
      exact congrArg (fun r => r.2.1) hserve

end Updates

/-! ## What the new server holds -/

/-- The map that the new server has, or makes of what `main` has fetched. -/
inductive JoinPhase.Makes (st' : Store) : JoinPhase → Spec.Map → Prop where
  | fetched (st : Store) : st'.map = ∅ →
      Makes st' (.fetched ((st.entries.map Entry.ofPair).map some ++ [none])) st.map
  | sized (st : Store) : st'.map = ∅ →
      Makes st' (.sized ((st.entries.map Entry.ofPair).map some ++ [none]) st.entries.length) st.map
  | copied : Makes st' .copied st'.map
  | registered : Makes st' .registered st'.map
  | exited (m : Spec.Map) : Makes st' .exited m

/-- The map of the tail is ahead by an update that came after the copy. -/
def Ahead : Option (Update × Bool) → Spec.Map → Spec.Map → Prop
  | some (u, true), m, m' => m = u.apply m'
  | _, m, m' => m = m'

namespace Joining

/-- The tail holds `st` and the new server `st'`. -/
structure Synced (newPath : CString) (s : Joining) (st st' : Store) : Prop where
  tail : s.tail.table = st.table
  new : s.new.state.1.table = st'.table
  stats : s.new.state.1.globalStats ≠ none
  newLast : s.new.state.1.nextServerNodePath = .empty
  link : s.tail.nextServerNodePath = .empty ∨
    s.phase.isRegistered = true ∧ s.tail.nextServerNodePath = newPath
  bytes : ∀ update ∈ s.updating, update.1.hasBytes = true
  /-- An update that came before the copy is in it. -/
  early : ∀ u, s.updating = some (u, false) → u.apply st.map = st.map
  before : s.phase.collected = false → st'.map = ∅ ∧ ∀ update ∈ s.updating, update.2 = false
  after : s.phase.collected = true → ∃ m, s.phase.Makes st' m ∧ Ahead s.updating st.map m

variable {clock : ℕ → Timeval} {tailPath newPath : CString} {s s' : Joining} {st st' : Store}

theorem Start.synced (h : s.Start) : ∃ st st', s.Synced newPath st st' := by
  obtain ⟨st, htail⟩ := h.tail
  obtain ⟨st', hnew, hempty⟩ := h.new
  refine ⟨st, st', htail, hnew, h.stats, h.newLast, .inl h.last, ?_, ?_, ?_, ?_⟩
  · rw [h.updating]
    nofun
  · rw [h.updating]
    nofun
  · rw [h.updating]
    exact fun _ => ⟨hempty, nofun⟩
  · rw [h.phase]
    nofun

namespace Synced

variable (h : s.Synced newPath st st')

include h

/-- `main` goes on, and the tail is not linked before the registration. -/
theorem setPhase (phase : JoinPhase) (hphase : s.phase.isRegistered = false)
    (hbefore : phase.collected = false → s.phase.collected = false)
    (hafter : phase.collected = true → ∃ m, phase.Makes st' m ∧ Ahead s.updating st.map m) :
    ({ s with phase := phase } : Joining).Synced newPath st st' where
  tail := h.tail
  new := h.new
  stats := h.stats
  newLast := h.newLast
  link := .inl (h.link.resolve_right fun hlink => by simp [hphase] at hlink)
  bytes := h.bytes
  early := h.early
  before hcollected := h.before (hbefore hcollected)
  after := hafter

theorem ahead_of_not_collected (hcollected : s.phase.collected = false) :
    Ahead s.updating st.map st.map := by
  cases hupdating : s.updating with
  | none => rfl
  | some update =>
    obtain ⟨u, late⟩ := update
    obtain rfl := (h.before hcollected).2 _ hupdating
    rfl

/-! ### main -/

section Main

variable (clock)

theorem connect {ok : Bool} (hok : Complete (.connect ok) s)
    (hstep : s.stepMain clock (.connect ok) = some s') : s'.Synced newPath st st' := by
  obtain rfl : ok = true := hok
  simp only [stepMain] at hstep
  split at hstep
  · rename_i hphase
    obtain rfl := Option.some.inj hstep
    refine h.setPhase .connected (by rw [hphase]; rfl) ?_ nofun
    rw [hphase]
    exact id
  · cases hstep

theorem count {ok : Bool} (hok : Complete (.count ok) s)
    (hstep : s.stepMain clock (.count ok) = some s') : s'.Synced newPath st st' := by
  obtain rfl : ok = true := hok
  simp only [stepMain] at hstep
  split at hstep
  · rename_i hphase hupdating
    obtain rfl := Option.some.inj hstep
    refine h.setPhase (.counted _) (by rw [hphase]; rfl) ?_ nofun
    rw [hphase]
    exact id
  · cases hstep

/-- An update under way is in the table that is collected. -/
theorem collect {ok : Bool} (hok : Complete (.collect ok) s)
    (hstep : s.stepMain clock (.collect ok) = some s') : s'.Synced newPath st st' := by
  obtain ⟨rfl, hasked⟩ := hok
  simp only [stepMain] at hstep
  split at hstep
  · rename_i tabSize hphase
    rw [entriesAsked, hphase] at hasked
    rw [Option.some.inj hasked, getTable_table clock h.tail] at hstep
    obtain rfl := Option.some.inj hstep
    have hcollected : s.phase.collected = false := by
      rw [hphase]
      rfl
    refine h.setPhase (.fetched _) (by rw [hphase]; rfl) nofun fun _ => ?_
    exact ⟨st.map, .fetched st (h.before hcollected).1, h.ahead_of_not_collected hcollected⟩
  · cases hstep

theorem size {ok : Bool} (hok : Complete (.size ok) s)
    (hstep : s.stepMain clock (.size ok) = some s') : s'.Synced newPath st st' := by
  obtain ⟨rfl, hasked⟩ := hok
  simp only [stepMain] at hstep
  split at hstep
  · rename_i entries hphase hupdating
    obtain ⟨m, hmakes, hahead⟩ := h.after (by rw [hphase]; rfl)
    rw [hphase] at hmakes
    cases hmakes with
    | fetched copy hempty =>
      have hlength : tableSize s.tail.table = copy.entries.length := by
        rw [entriesAsked, hphase] at hasked
        simpa using (Option.some.inj hasked).symm
      rw [hlength, if_pos trivial, if_neg (by omega)] at hstep
      obtain rfl := Option.some.inj hstep
      refine h.setPhase (.sized _ _) (by rw [hphase]; rfl) nofun fun _ => ?_
      exact ⟨copy.map, .sized copy hempty, hahead⟩
  · cases hstep

theorem insert (hstep : s.stepMain clock .insert = some s') :
    ∃ st'', s'.Synced newPath st st'' := by
  simp only [stepMain] at hstep
  split at hstep
  · rename_i entries tabSize hphase
    obtain ⟨m, hmakes, hahead⟩ := h.after (by rw [hphase]; rfl)
    rw [hphase] at hmakes
    cases hmakes with
    | sized fetched hempty =>
      -- the loop puts what was fetched, and the table it fills was empty
      obtain ⟨copy, hloop, hmap⟩ := dupLoop_table fetched hempty
      rw [h.new, Int.toNat_natCast, hloop] at hstep
      obtain rfl := Option.some.inj hstep
      have hlink := h.link.resolve_right fun hlink => by
        simp [hphase, JoinPhase.isRegistered] at hlink
      refine ⟨copy, h.tail, rfl, h.stats, h.newLast, .inl hlink, h.bytes, h.early,
        nofun, fun _ => ?_⟩
      exact ⟨copy.map, .copied, hmap.symm ▸ hahead⟩
  · cases hstep

theorem create {ok : Bool} (hstep : s.stepMain clock (.create ok) = some s') :
    s'.Synced newPath st st' := by
  simp only [stepMain] at hstep
  split at hstep
  · rename_i hphase
    obtain rfl := Option.some.inj hstep
    obtain ⟨m, hmakes, hahead⟩ := h.after (by rw [hphase]; rfl)
    rw [hphase] at hmakes
    cases hmakes with
    | copied =>
      refine h.setPhase _ (by rw [hphase]; rfl) ?_ fun _ => ?_
      · cases ok <;> nofun
      · cases ok with
        | false => exact ⟨st'.map, .exited _, hahead⟩
        | true => exact ⟨st'.map, .registered, hahead⟩
  · cases hstep

end Main

/-! ### The old tail -/

/-- The callback links the new server or nothing. -/
theorem event {event : ChildEvent} (hstep : s.stepEvent tailPath newPath event = some s') :
    s'.Synced newPath st st' := by
  obtain ⟨hlists, hs'⟩ := Option.ite_none_right_eq_some.1 hstep
  split at hs'
  · rename_i successor hevent
    obtain rfl := Option.some.inj hs'
    refine ⟨h.tail, h.new, h.stats, h.newLast, ?_, h.bytes, h.early, h.before, h.after⟩
    change successor.nextServerNodePath = .empty ∨
      s.phase.isRegistered = true ∧ successor.nextServerNodePath = newPath
    cases hchildren : event.children with
    | none =>
      rw [serverWatchChildren_none hchildren] at hevent
      obtain rfl := Except.ok.inj hevent
      exact h.link
    | some children =>
      obtain ⟨-, hfound, hnotFound⟩ := serverWatchChildren_some hchildren hevent
      by_cases haddress : event.address = none
      · rcases hnotFound haddress with hkept | hlost
        · rw [hkept]
          exact h.link
        · exact .inl hlost
      · rw [hfound haddress]
        by_cases hscan : scanSuccessor tailPath (childrenAbsZpaths children) = .empty
        · exact .inl hscan
        · -- only the new server is listed behind the old tail
          right
          obtain ⟨hmem, hlt⟩ := scanSuccessor_spec hscan
          obtain ⟨node, hnode, hpath⟩ := List.mem_map.1 hmem
          rw [← hpath] at hlt ⊢
          exact (hlists children hchildren node hnode).resolve_left (not_le.2 hlt)
  · cases hs'

theorem update {u : Update} (hstep : s.stepUpdate clock u = some s') :
    ∃ st'', s'.Synced newPath st'' st' := by
  simp only [stepUpdate] at hstep
  split at hstep
  · cases hstep
  · rename_i hupdating
    obtain ⟨hbytes, hs'⟩ := Option.ite_none_right_eq_some.1 hstep
    obtain ⟨r, st'', hcall, hmap⟩ := Update.call_alone clock .broken hbytes h.tail ()
    rw [hcall] at hs'
    obtain rfl := Option.some.inj hs'
    refine ⟨st'', rfl, h.new, h.stats, h.newLast, h.link, ?_, ?_, ?_, ?_⟩
    · rintro _ ⟨⟩
      exact hbytes
    · intro v hv
      obtain ⟨rfl, -⟩ := Prod.mk.inj (Option.some.inj hv)
      rw [hmap, Update.apply_apply]
    · intro hcollected
      refine ⟨(h.before hcollected).1, ?_⟩
      rintro _ ⟨⟩
      exact hcollected
    · intro hcollected
      obtain ⟨m, hmakes, hahead⟩ := h.after hcollected
      have hcollected' : s.phase.collected = true := hcollected
      refine ⟨m, hmakes, ?_⟩
      rw [hupdating] at hahead
      show Ahead (some (u, s.phase.collected)) st''.map m
      rw [hcollected']
      exact hmap.trans (congrArg u.apply hahead)

/-! ### The forward -/

/-- A registered server processes the update, or it is one that came before the copy. -/
theorem forward_new {u : Update} {late : Bool} {outcome : Outcome}
    (hupdating : s.updating = some (u, late)) (hok : Complete (.forward outcome) s)
    {t : NextServer Unit}
    (hforward : forwardTo (.toNextServer clock .broken outcome) s.tail.nextServerNodePath
      s.tail.nextServerRtable u.nullSafe u.request s.new = .ok t) :
    late = false ∧ t = s.new ∨
      s.phase.isRegistered = true ∧ t = s.new.process clock .broken u.request := by
  have hbytes := Update.ne_put_nil (h.bytes _ hupdating)
  have hlate : late = true → s.tail.nextServerNodePath ≠ .empty ∧
      s.tail.nextServerRtable ≠ none ∧ outcome.Delivers := hok _ hupdating
  -- `Complete` asks for a delivered forward of the late updates only
  have hearly {P : Prop} (hnot : ¬ P) (himp : late = true → P) : late = false :=
    Bool.eq_false_iff.2 fun htrue => hnot (himp htrue)
  by_cases hpath : s.tail.nextServerNodePath = .empty
  · rw [hpath, forwardTo_empty] at hforward
    exact .inl ⟨hearly (not_not.2 hpath) fun htrue =>
      (hlate htrue).1, (Except.ok.inj hforward).symm⟩
  obtain ⟨hregistered, -⟩ := h.link.resolve_left hpath
  cases hrtable : s.tail.nextServerRtable with
  | none =>
    rw [hrtable, forwardTo_none _ _ _ _ hpath] at hforward
    split_ifs at hforward
    exact .inl ⟨hearly (not_not.2 hrtable) fun htrue => (hlate htrue).2.1,
      (Except.ok.inj hforward).symm⟩
  | some rtable =>
    cases hreleased : rtable.released with
    | true =>
      rw [hrtable, forwardTo_released _ _ _ _ hpath hreleased] at hforward
      cases hforward
    | false =>
      rw [hrtable, forwardTo_live _ _ _ _ hpath hreleased] at hforward
      obtain rfl := Except.ok.inj hforward
      by_cases hdelivers : outcome.Delivers
      · exact .inr ⟨hregistered, exchange_of_delivers clock .broken hbytes hdelivers s.new⟩
      · exact .inl ⟨hearly hdelivers fun htrue => (hlate htrue).2.2,
          exchange_of_not_delivers clock .broken hbytes hdelivers s.new⟩

/-- The new server has carried out the update of which the tail was ahead, or one that it
    had already. -/
theorem forwarded {u : Update} {late : Bool} (hupdating : s.updating = some (u, late))
    (hregistered : s.phase.isRegistered = true) {t : NextServer Unit} {st'' : Store}
    (hstate : t.state.1 = s.new.state.1.served clock st''.table)
    (hmap : st''.map = u.apply st'.map) :
    ({ s with new := t, updating := none } : Joining).Synced newPath st st'' := by
  have hphase := JoinPhase.isRegistered_iff.1 hregistered
  have hcollected : s.phase.collected = true := by
    rw [hphase]
    rfl
  have hsame : st.map = st''.map := by
    obtain ⟨m, hmakes, hahead⟩ := h.after hcollected
    rw [hphase] at hmakes
    rw [hupdating] at hahead
    rw [hmap]
    cases hmakes with
    | registered =>
      cases late with
      | true => exact hahead
      | false =>
        -- the copy had the update already
        have hcopied : st.map = st'.map := hahead
        rw [← hcopied, h.early u hupdating]
  refine ⟨h.tail, ?_, ?_, ?_, h.link, nofun, nofun, ?_, ?_⟩
  · change t.state.1.table = st''.table
    rw [hstate]
    rfl
  · change t.state.1.globalStats ≠ none
    rw [hstate]
    simpa using h.stats
  · change t.state.1.nextServerNodePath = .empty
    rw [hstate]
    simpa using h.newLast
  · intro hnot
    exact absurd (hcollected.symm.trans hnot) Bool.noConfusion
  · intro _
    refine ⟨st''.map, ?_, hsame⟩
    change s.phase.Makes st'' st''.map
    rw [hphase]
    exact .registered

/-- An update that came before the copy needs no forward. -/
theorem kept {u : Update} (hupdating : s.updating = some (u, false)) :
    ({ s with updating := none } : Joining).Synced newPath st st' := by
  refine ⟨h.tail, h.new, h.stats, h.newLast, h.link, nofun, nofun, ?_, ?_⟩
  · intro hcollected
    exact ⟨(h.before hcollected).1, nofun⟩
  · intro hcollected
    obtain ⟨m, hmakes, hahead⟩ := h.after hcollected
    rw [hupdating] at hahead
    exact ⟨m, hmakes, hahead⟩

theorem forward {outcome : Outcome} (hok : Complete (.forward outcome) s)
    (hstep : s.stepForward clock outcome = some s') : ∃ st'', s'.Synced newPath st st'' := by
  simp only [stepForward] at hstep
  split at hstep
  · cases hstep
  · rename_i u late hupdating
    have hbytes := h.bytes _ hupdating
    rw [Update.forward_run clock _ hbytes] at hstep
    cases hforward : forwardTo (.toNextServer clock .broken outcome) s.tail.nextServerNodePath
        s.tail.nextServerRtable u.nullSafe u.request s.new with
    | error fault =>
      rw [hforward] at hstep
      cases hstep
    | ok t =>
      rw [hforward] at hstep
      obtain rfl := Option.some.inj hstep
      rcases h.forward_new hupdating hok hforward with ⟨rfl, rfl⟩ | ⟨hregistered, rfl⟩
      · exact ⟨st', h.kept hupdating⟩
      · obtain ⟨st'', hstate, hmap⟩ :=
          NextServer.process_update clock .broken hbytes h.new h.stats h.newLast
        exact ⟨st'', h.forwarded hupdating hregistered hstate hmap⟩

/-- One step. -/
theorem step {l : JoinStep} (hok : Complete l s)
    (hstep : Joining.step clock tailPath newPath l s = some s') :
    ∃ st₁ st₁', s'.Synced newPath st₁ st₁' := by
  cases l with
  | connect ok => exact ⟨st, st', h.connect clock hok hstep⟩
  | count ok => exact ⟨st, st', h.count clock hok hstep⟩
  | collect ok => exact ⟨st, st', h.collect clock hok hstep⟩
  | size ok => exact ⟨st, st', h.size clock hok hstep⟩
  | insert => exact ⟨st, h.insert clock hstep⟩
  | create ok => exact ⟨st, st', h.create clock hstep⟩
  | event event => exact ⟨st, st', h.event hstep⟩
  | update u =>
    obtain ⟨st₁, hsynced⟩ := h.update hstep
    exact ⟨st₁, st', hsynced⟩
  | forward outcome => exact ⟨st, h.forward hok hstep⟩

theorem losesNothing (hpath : newPath ≠ .empty) : s.LosesNothing newPath := by
  intro hupdating hlinked
  obtain ⟨hregistered, -⟩ := h.link.resolve_left fun hempty => hpath (hlinked.symm.trans hempty)
  have hphase := JoinPhase.isRegistered_iff.1 hregistered
  obtain ⟨m, hmakes, hahead⟩ := h.after (by rw [hphase]; rfl)
  rw [hphase] at hmakes
  rw [hupdating] at hahead
  cases hmakes with
  | registered => exact ⟨st, st', h.tail, h.new, hahead⟩

end Synced

/-- A server joins without a loss in every run in which the copy is complete and every
    update after it is forwarded. -/
theorem losesNothing_of_reachable {clock : ℕ → Timeval} {tailPath newNode : CString} {s : Joining}
    (h : (joinSystem clock tailPath (concatZpath newNode)).ReachableUnder Complete s) :
    s.LosesNothing (concatZpath newNode) := by
  have hsynced : ∃ st st', s.Synced (concatZpath newNode) st st' := by
    refine h.invariant (I := fun s => ∃ st st', s.Synced (concatZpath newNode) st st') ?_ ?_
    · intro s hstart
      exact Start.synced hstart
    · rintro l s s' ⟨st, st', hsynced⟩ hok hstep
      exact hsynced.step hok hstep
  obtain ⟨st, st', hsynced⟩ := hsynced
  exact hsynced.losesNothing (concatZpath_ne_empty newNode)

/-! ## Two servers -/

/-- The server of node 0 and one that is starting, both with one list. -/
def starting (table : Store) : Joining where
  tail := .init table.table
  updating := none
  phase := .listed
  new := lastServer

theorem starting_start (table : Store) : (starting table).Start where
  tail := ⟨table, rfl⟩
  last := rfl
  updating := rfl
  phase := rfl
  new := ⟨.create 1 (by decide), rfl, Store.map_create 1 (by decide)⟩
  stats := by simp [starting, lastServer, ServerState.init]
  newLast := rfl

/-- A copy that succeeds. -/
def copy : List JoinStep := [.connect true, .count true, .collect true, .size true, .insert]

/-- The callback of the old tail, which finds node 1 and connects. -/
def link : JoinStep := .event ⟨some [node 0, node 1], some .empty, true⟩

/-- Node 1 joins behind node 0. -/
abbrev firstJoins : LTS Joining JoinStep :=
  joinSystem (fun _ => ⟨0, 0⟩) (concatZpath (node 0)) (concatZpath (node 1))

def oneEntry : Store := (Store.create 1 Store.one_pos).put .empty [1] (by decide)

/-- The key of the copy is bound to another value when node 1 has joined. -/
def linkedFirst : List JoinStep :=
  copy ++ [.create true, link, .update (.put .empty [2]), .forward .responds]

theorem losesNothing_linkedFirst :
    ∃ s, firstJoins.ReachableUnder Complete s ∧ s.updating = none ∧
      s.tail.nextServerNodePath = concatZpath (node 1) ∧ s.LosesNothing (concatZpath (node 1)) := by
  have hmeets : firstJoins.RunMeets Complete linkedFirst (starting oneEntry) := by decide
  have hend : (firstJoins.run linkedFirst (starting oneEntry)).map
      (fun s => (s.updating, s.tail.nextServerNodePath)) = some (none, concatZpath (node 1)) := rfl
  obtain ⟨s, hrun, hs⟩ := Option.map_eq_some_iff.1 hend
  obtain ⟨hupdating, hpath⟩ := Prod.mk.inj hs
  have hreach := LTS.ReachableUnder.run (.init (starting_start _)) hmeets hrun
  exact ⟨s, hreach, hupdating, hpath, losesNothing_of_reachable hreach⟩

/-- A put that the old tail carries out before its callback is missing in the new tail,
    though every call of the copy has succeeded. -/
theorem not_losesNothing_linkedLast :
    ∃ s, firstJoins.Reachable s ∧ ¬ s.LosesNothing (concatZpath (node 1)) := by
  have hend : (firstJoins.run
      (copy ++ [.update (.put .empty [1]), .forward .responds, .create true, link])
      (starting (.create 1 (by decide)))).map (fun s =>
        (s.updating, s.tail.nextServerNodePath, tableGet s.tail.table (some .empty),
          tableGet s.new.state.1.table (some .empty))) =
      some (none, concatZpath (node 1), .ok (some (.ofBytes [1])), .ok none) := rfl
  obtain ⟨s, hrun, hs⟩ := Option.map_eq_some_iff.1 hend
  simp only [Prod.mk.injEq] at hs
  obtain ⟨hupdating, hpath, htail, hnew⟩ := hs
  refine ⟨s, LTS.reachable_of_run (starting_start _) hrun, ?_⟩
  intro h
  obtain ⟨st, st', hst, hst', hsame⟩ := h hupdating hpath
  rw [hst, st.tableGet_table, hsame] at htail
  rw [hst', st'.tableGet_table, htail] at hnew
  cases hnew

end Joining

end ChainTable
