-- SUMMARY: The ways in which invoke can end on an arbitrary message, and what each leaves of the server and of its connection.
import ChainTable.Server.Sections
import ChainTable.Server.Conversation
import ChainTable.Store.Invariant

open Base

/-!
# The effects of invoke

A thread that runs alone on a server with statistics either refuses a request, which
leaves everything as it was, or carries its operation out. `Ended` has one case for each
handler that carries its operation out. What holds of every handler is read off these
cases.
-/

namespace ChainTable

open Calls

/-! ## The successor -/

/-- There is no next server, or a connection to it that was not released. -/
def ServerState.LiveSuccessor (s : ServerState) : Prop :=
  s.nextServerNodePath = .empty ∨
    ∃ rtable, s.nextServerRtable = some rtable ∧ rtable.released = false

section Ended

variable {τ : Type} (clock : ℕ → Timeval) (link : Link τ)

/-- What forwarding an update leaves of the connection to a successor that is live. -/
def Link.forwarded (path : CString) (msg : MessageT) (t : τ) : τ :=
  if path = .empty then t else (link.exchange msg t).2

theorem ServerState.LiveSuccessor.forwardTo {s : ServerState} (h : s.LiveSuccessor)
    (nullSafe : Bool) (msg : MessageT) (t : τ) :
    forwardTo link s.nextServerNodePath s.nextServerRtable nullSafe msg t =
      .ok (link.forwarded s.nextServerNodePath msg t) := by
  by_cases hpath : s.nextServerNodePath = .empty
  · rw [Link.forwarded, if_pos hpath, hpath, forwardTo_empty]
  · obtain ⟨rtable, hrtable, hreleased⟩ := h.resolve_left hpath
    rw [Link.forwarded, if_neg hpath, hrtable, forwardTo_live link _ _ _ hpath hreleased]

/-! ## The ends of a dispatch -/

/-- The response, the result and the state after `dispatch` on `msg`, in a server whose
    table stands for `st`. An update ends only if forwarding it does. -/
inductive Ended (msg : MessageT) (st : Store) (s : ServerState × τ) :
    MessageT → Int → ServerState × τ → Prop
  | refused (res : MessageT) : Ended msg st s res (-1) s
  | put (hop : msg.opcode = opPut) {key : CString} {value : BinaryData} {b : Bytes}
      (hentry : msg.entry = some ⟨some key, value⟩) (hvalue : value.copyOut = .ok b) (hb : b ≠ [])
      {t : τ} (hforward : forwardTo link s.1.nextServerNodePath s.1.nextServerRtable true
        (putRequest key (.ofBytes b)) s.2 = .ok t) :
      Ended msg st s { msg with cType := ctNone } 0 (s.1.served clock (st.put key b hb).table, t)
  | get (hop : msg.opcode = opGet) {key : CString} (hkey : msg.key = some key) :
      Ended msg st s
        (match st.map.lookup key with
          | some b => { msg with value := .ofBytes b, cType := ctValue }
          | none => { msg with value := msg.value.dropData }) 0
        (s.1.served clock st.table, s.2)
  | del (hop : msg.opcode = opDel) {key : CString} (hkey : msg.key = some key) (res : MessageT)
      (hres : ∃ cType, res = { msg with cType := cType }) {t : τ}
      (hforward : forwardTo link s.1.nextServerNodePath s.1.nextServerRtable false
        (delRequest key) s.2 = .ok t) :
      Ended msg st s res (if key ∈ st.map then 0 else 1) (s.1.served clock (st.remove key).table, t)
  | size (hop : msg.opcode = opSize) :
      Ended msg st s { msg with result := st.entries.length, cType := ctResult } st.entries.length
        (s.1.served clock st.table, s.2)
  | getkeys (hop : msg.opcode = opGetkeys) :
      Ended msg st s
        { msg with
          nKeys := st.entries.length
          keys := st.keys.map some ++ [none]
          cType := ctKeys } 0
        (s.1.served clock st.table, s.2)
  | gettable (hop : msg.opcode = opGettable) :
      Ended msg st s
        { msg with
          nEntries := st.entries.length
          entries := (st.entries.map EntryT.ofPair).map some ++ [none]
          cType := ctTable } 0
        (s.1.served clock st.table, s.2)
  | stats (hop : msg.opcode = opStats) (stats : StatisticsT) :
      Ended msg st s { msg with stats := some stats, cType := ctStats } 0 s

/-- The message carries an entry with a key, and as many bytes as it says. -/
def MessageT.CarriesEntry (msg : MessageT) : Prop :=
  ∃ key value b, msg.entry = some ⟨some key, value⟩ ∧ value.copyOut = .ok b

variable {clock link} {msg : MessageT} {st : Store} {s : ServerState × τ}

/-- Without a usable entry a put does not get as far as its tests. -/
theorem invokePut_run_error (h : ¬ msg.CarriesEntry) :
    ∃ f, (invokePut msg).run (alone clock link) s = .error f := by
  rw [invokePut]
  cases hentry : msg.entry with
  | none => exact ⟨.nullDeref, rfl⟩
  | some entry =>
    rw [deref_some, memory_ok, Prog.ret_bind]
    cases hvalue : entry.value.copyOut with
    | error f => exact ⟨f, rfl⟩
    | ok b =>
      rw [memory_ok, Prog.ret_bind]
      cases hkey : entry.key with
      | none => exact ⟨.nullDeref, rfl⟩
      | some key =>
        refine absurd ⟨key, entry.value, b, ?_, hvalue⟩ h
        rw [hentry, ← hkey]

theorem invoke_run_error (hop : msg.opcode = opPut) (h : ¬ msg.CarriesEntry) :
    ∃ f, (invoke msg).run (alone clock link) s = .error f := by
  obtain ⟨f, hf⟩ : ∃ f, (invokePut msg).run (alone clock link) s = .error f := invokePut_run_error h
  refine ⟨f, ?_⟩
  rw [invoke, dispatch_put hop]
  exact Prog.run_bind_error hf

section Run

variable (htable : s.1.table = st.table) (hstats : s.1.globalStats ≠ none)
  {res : MessageT} {ret : Int} {s' : ServerState × τ}

include htable hstats

theorem ended_of_invokePut (hop : msg.opcode = opPut)
    (hrun : (invokePut msg).run (alone clock link) s = .ok ((res, ret), s')) :
    Ended clock link msg st s res ret s' := by
  have hcarries : msg.CarriesEntry := by
    by_contra hcarries
    obtain ⟨f, hf⟩ : ∃ f, (invokePut msg).run (alone clock link) s = .error f :=
      invokePut_run_error hcarries
    rw [hf] at hrun
    cases hrun
  obtain ⟨key, value, b, hentry, hvalue⟩ := hcarries
  by_cases hb : b = []
  · rw [invokePut_empty hentry (hb ▸ hvalue)] at hrun
    cases hrun
    exact .refused _
  · rw [invokePut_run clock link htable hstats hentry hvalue hb] at hrun
    obtain ⟨t, hforward, hrun⟩ := C.bind_eq_ok hrun
    cases hrun
    exact .put hop hentry hvalue hb hforward

theorem ended_of_invokeGet (hop : msg.opcode = opGet)
    (hrun : (invokeGet msg).run (alone clock link) s = .ok ((res, ret), s')) :
    Ended clock link msg st s res ret s' := by
  cases hkey : msg.key with
  | none =>
    rw [invokeGet, hkey] at hrun
    cases hrun
    exact .refused _
  | some key =>
    rw [invokeGet_run clock link htable hstats hkey] at hrun
    cases hrun
    exact .get hop hkey

theorem ended_of_invokeDel (hop : msg.opcode = opDel)
    (hrun : (invokeDel msg).run (alone clock link) s = .ok ((res, ret), s')) :
    Ended clock link msg st s res ret s' := by
  cases hkey : msg.key with
  | none =>
    rw [invokeDel, hkey] at hrun
    cases hrun
    exact .refused _
  | some key =>
    rw [invokeDel_run clock link htable hstats hkey] at hrun
    obtain ⟨t, hforward, hrun⟩ := C.bind_eq_ok hrun
    have hend : ∀ res, (∃ cType, res = { msg with cType := cType }) → Ended clock link msg st s res
        (if key ∈ st.map then 0 else 1) (s.1.served clock (st.remove key).table, t) :=
      fun res hres => .del hop hkey res hres hforward
    by_cases hbound : key ∈ st.map
    · rw [if_pos hbound] at hrun hend
      cases hrun
      exact hend _ ⟨_, rfl⟩
    · rw [if_neg hbound] at hrun hend
      cases hrun
      exact hend _ ⟨_, rfl⟩

omit htable in
theorem ended_of_invokeStats (hop : msg.opcode = opStats)
    (hrun : (invokeStats msg).run (alone clock link) s = .ok ((res, ret), s')) :
    Ended clock link msg st s res ret s' := by
  obtain ⟨stats, hstats⟩ := Option.ne_none_iff_exists'.1 hstats
  rw [invokeStats_run clock link hstats msg] at hrun
  cases hrun
  exact .stats hop _

theorem ended_of_dispatch
    (hrun : (dispatch msg).run (alone clock link) s = .ok ((res, ret), s')) :
    Ended clock link msg st s res ret s' := by
  have hcase := dispatched msg
  generalize dispatch msg = handler at hcase hrun
  cases hcase with
  | put hop => exact ended_of_invokePut htable hstats hop hrun
  | get hop => exact ended_of_invokeGet htable hstats hop hrun
  | del hop => exact ended_of_invokeDel htable hstats hop hrun
  | size hop =>
    rw [invokeSize_run clock link htable hstats msg] at hrun
    cases hrun
    exact .size hop
  | getkeys hop =>
    rw [invokeGetkeys_run clock link htable hstats msg] at hrun
    cases hrun
    exact .getkeys hop
  | gettable hop =>
    rw [invokeGettable_run clock link htable hstats msg] at hrun
    cases hrun
    exact .gettable hop
  | stats hop => exact ended_of_invokeStats hstats hop hrun
  | unknown =>
    cases hrun
    exact .refused _

/-- Every run of `invoke` that returns is one of the cases. -/
theorem ended_of_invoke
    (hrun : (invoke msg).run (alone clock link) s = .ok ((res, ret), s')) :
    ∃ res', res = (conclude (res', ret)).1 ∧ Ended clock link msg st s res' ret s' := by
  rw [invoke, Prog.run_bind] at hrun
  obtain ⟨⟨⟨res', ret'⟩, s''⟩, hdispatch, hrun⟩ := C.bind_eq_ok hrun
  have hpair : conclude (res', ret') = (res, ret) ∧ s'' = s' := by simpa using hrun
  obtain ⟨hconclude, rfl⟩ := hpair
  -- the result is not changed by what `invoke` does to the opcode
  have hret : ret' = ret := by
    have hsecond : (conclude (res', ret')).2 = ret := congrArg Prod.snd hconclude
    rw [conclude] at hsecond
    split at hsecond <;> exact hsecond
  subst hret
  exact ⟨res', (congrArg Prod.fst hconclude).symm, ended_of_dispatch htable hstats hdispatch⟩

end Run

/-- A server whose table holds a store has one that does after every request. -/
theorem Ended.keeps {res : MessageT} {ret : Int} {s' : ServerState × τ}
    (hend : Ended clock link msg st s res ret s') (htable : s.1.table = st.table) :
    (∃ st' : Store, s'.1.table = st'.table) ∧ SameNext s.1 s'.1 := by
  have hserved : ∀ st' : Store, (∃ st'' : Store, (s.1.served clock st'.table).table = st''.table) ∧
      SameNext s.1 (s.1.served clock st'.table) :=
    fun st' => ⟨⟨st', rfl⟩, rfl, rfl, by simp⟩
  cases hend with
  | refused => exact ⟨⟨st, htable⟩, rfl, rfl, Iff.rfl⟩
  | @put _ key _ b _ _ hb => exact hserved (st.put key b hb)
  | get => exact hserved st
  | @del _ key => exact hserved (st.remove key)
  | size => exact hserved st
  | getkeys => exact hserved st
  | gettable => exact hserved st
  | stats => exact ⟨⟨st, htable⟩, rfl, rfl, Iff.rfl⟩

end Ended

/-! ## What is forwarded -/

/-- A link that remembers the messages that were sent on it. -/
def Link.logged {τ : Type} (link : Link τ) : Link (τ × List MessageT) where
  send msg t := ((link.send msg t.1).1, ((link.send msg t.1).2, t.2 ++ [msg]))
  receive t := ((link.receive t.1).1, ((link.receive t.1).2, t.2))
  close t := (link.close t.1, t.2)

/-- An exchange sends one message, whatever becomes of it. -/
theorem Link.log_exchange {τ : Type} (link : Link τ) (msg : MessageT) (t : τ × List MessageT) :
    (link.logged.exchange msg t).2.2 = t.2 ++ [msg] := by
  simp only [exchange]
  by_cases hfailed : (link.logged.send msg t).1 = -1 ∨ (link.logged.send msg t).1 = 0
  · rw [if_pos hfailed]
    rfl
  · rw [if_neg hfailed]
    by_cases hgone : (link.logged.receive (link.logged.send msg t).2).1.2 = true ∨
        (link.logged.receive (link.logged.send msg t).2).1.1 = none
    · rw [if_pos hgone]
      rfl
    · rw [if_neg hgone]
      rfl

theorem Link.log_forwarded {τ : Type} (link : Link τ) (path : CString) (msg : MessageT)
    (t : τ × List MessageT) :
    (link.logged.forwarded path msg t).2 = t.2 ++ if path = .empty then [] else [msg] := by
  rw [forwarded]
  split
  · exact (List.append_nil _).symm
  · exact link.log_exchange msg t

/-! ## The effects -/

/-- The call of an update on a table. -/
def Update.onTable (table : Table) : Update → C (Table × Int)
  | put key b => tablePut table (some key) (some (.ofBytes b))
  | del key => tableRemove table (some key)

/-- What a request leaves that was not carried out. The logs are the messages that were
    sent to the successor. -/
structure Untouched (s s' : ServerState) (log log' : List MessageT) : Prop where
  table : s'.table = s.table
  operations : s'.globalStats.map Statistics.nOperacoes = s.globalStats.map Statistics.nOperacoes
  time : s'.globalStats.map Statistics.totalTime = s.globalStats.map Statistics.totalTime
  log : log' = log

/-- What a request leaves that was carried out with this result. -/
structure CarriedOut (msg : MessageT) (ret : Int) (s s' : ServerState)
    (log log' : List MessageT) : Prop where
  operations : s'.globalStats.map Statistics.nOperacoes = s.globalStats.map fun stats =>
    stats.nOperacoes + if msg.opcode = opStats then 0 else 1
  update : msg.opcode = opPut ∨ msg.opcode = opDel → ∃ u : Update, u.AskedBy msg ∧
    u.onTable s.table = .ok (s'.table, ret) ∧
    log' = log ++ if s.nextServerNodePath = .empty then [] else [u.request]
  read : msg.opcode ≠ opPut → msg.opcode ≠ opDel → s'.table = s.table ∧ log' = log

theorem ServerState.operations_served (s : ServerState) (clock : ℕ → Timeval) (table : Table) :
    (s.served clock table).globalStats.map Statistics.nOperacoes =
      s.globalStats.map fun stats => stats.nOperacoes + 1 := by
  simp [served, timed, counts, Function.comp_def]

section Effects

variable {τ : Type} {clock : ℕ → Timeval} {link : Link τ} {msg res : MessageT} {ret : Int}
  {st : Store} {s s' : ServerState × (τ × List MessageT)}

/-- The operations that only read the table. -/
theorem CarriedOut.of_read {log : List MessageT} {s : ServerState} {op : Int}
    (hop : msg.opcode = op) (hreads : op ≠ opPut ∧ op ≠ opDel ∧ op ≠ opStats)
    (htable : s.table = st.table) : CarriedOut msg ret s (s.served clock st.table) log log where
  operations := by rw [ServerState.operations_served, hop, if_neg hreads.2.2]
  update h := (h.elim (hop ▸ hreads.1) (hop ▸ hreads.2.1)).elim
  read _ _ := ⟨htable.symm, rfl⟩

theorem Ended.effects (hend : Ended clock link.logged msg st s res ret s')
    (htable : s.1.table = st.table) (hlive : s.1.LiveSuccessor) :
    (ret < 0 → Untouched s.1 s'.1 s.2.2 s'.2.2) ∧
      (0 ≤ ret → CarriedOut msg ret s.1 s'.1 s.2.2 s'.2.2) := by
  cases hend with
  -- `invoke` is negative here and in no other case
  | refused => exact ⟨fun _ => ⟨rfl, rfl, rfl, rfl⟩, fun h => absurd h (by decide)⟩
  | @put hop key value b hentry hvalue hb t hforward =>
    rw [hlive.forwardTo, Except.ok.injEq] at hforward
    subst hforward
    refine ⟨fun h => absurd h (by decide), fun _ => ⟨?_, fun _ => ?_, fun h => absurd hop h⟩⟩
    · rw [ServerState.operations_served, hop]
      rfl
    · refine ⟨.put key b, ⟨hop, value, hentry, hvalue⟩, ?_, link.log_forwarded _ _ _⟩
      rw [htable]
      exact st.tablePut_table key (Data.bytes_ofBytes hb)
  | get hop hkey =>
    exact ⟨fun h => absurd h (by decide), fun _ => .of_read hop (by decide) htable⟩
  | @del hop key hkey _ _ t hforward =>
    rw [hlive.forwardTo, Except.ok.injEq] at hforward
    subst hforward
    -- removing a key that is not there returns 1, which is no failure
    have hret : ¬ (if key ∈ st.map then 0 else 1) < (0 : Int) := by split <;> decide
    refine ⟨fun h => absurd h hret, fun _ => ⟨?_, fun _ => ?_, fun _ h => absurd hop h⟩⟩
    · rw [ServerState.operations_served, hop]
      rfl
    · refine ⟨.del key, ⟨hop, hkey⟩, ?_, link.log_forwarded _ _ _⟩
      rw [htable]
      exact st.tableRemove_table key
  | size hop =>
    exact ⟨fun h => absurd h (by omega), fun _ => .of_read hop (by decide) htable⟩
  | getkeys hop =>
    exact ⟨fun h => absurd h (by decide), fun _ => .of_read hop (by decide) htable⟩
  | gettable hop =>
    exact ⟨fun h => absurd h (by decide), fun _ => .of_read hop (by decide) htable⟩
  | stats hop =>
    refine ⟨fun h => absurd h (by decide), fun _ => ⟨?_, fun h => ?_, fun _ _ => ⟨rfl, rfl⟩⟩⟩
    · simp [hop]
    · rw [hop] at h
      exact absurd h (by decide)

end Effects

/-- A request whose result is negative has no effect. Any other result means that the
    request was counted once, unless it asked for the statistics, that the table is what
    the operation makes of it, and that an update was sent on once when there is a next
    server. -/
theorem invoke_effects {τ : Type} (clock : ℕ → Timeval) (link : Link τ) {n : Int32}
    {s s' : ServerState} (htable : s.table.Reached n) (hstats : s.globalStats ≠ none)
    (hlive : s.LiveSuccessor) {msg res : MessageT} {ret : Int} {t t' : τ}
    {log log' : List MessageT}
    (hrun : (invoke msg).run (alone clock link.logged) (s, (t, log)) =
      .ok ((res, ret), (s', (t', log')))) :
    (ret < 0 → Untouched s s' log log') ∧ (0 ≤ ret → CarriedOut msg ret s s' log log') := by
  obtain ⟨st, -, hstore⟩ := htable.store
  obtain ⟨res', -, hend⟩ := ended_of_invoke (s := (s, (t, log))) hstore hstats hrun
  exact hend.effects hstore hlive

/-- A key is removed that is not there, and the successor is asked to remove it too. -/
theorem invoke_effects_absent :
    ∃ s' log', CarriedOut (delRequest .empty) 1
      (connectedServer (some ⟨.empty, false⟩)) s' [] log' ∧
      log' = [delRequest .empty] := by
  let s := connectedServer (some ⟨.empty, false⟩)
  have hstore : s.table = (Store.create 1 (by decide)).table := rfl
  have hreached : s.table.Reached 1 := Store.reached_create 1 (by decide)
  have hstats : s.globalStats ≠ none := by simp [s, connectedServer, ServerState.init]
  have hlive : s.LiveSuccessor := .inr ⟨⟨.empty, false⟩, rfl, rfl⟩
  have hkey : (delRequest .empty).key = some .empty := rfl
  have hunbound : CString.empty ∉ (Store.create 1 (by decide)).map := by
    rw [Store.map_create]
    exact Finmap.notMem_empty
  have hrun := invokeDel_run (fun _ => ⟨0, 0⟩) Link.broken.logged (s := (s, ((), []))) hstore
    hstats hkey
  rw [hlive.forwardTo, C.ok_bind, if_neg hunbound] at hrun
  have hdispatch : dispatch (delRequest .empty) = invokeDel (delRequest .empty) := rfl
  rw [← hdispatch] at hrun
  have hinvoke := invoke_run (fun _ => ⟨0, 0⟩) Link.broken.logged hrun
  exact ⟨_, _, (invoke_effects _ _ hreached hstats hlive hinvoke).2 (by decide), rfl⟩

end ChainTable
