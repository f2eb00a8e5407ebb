-- SUMMARY: Whether an update that is answered with success has reached the successor, for every outcome of the forward.
import ChainTable.Server.Alone

open Base

/-!
# Forwarding an update

A server forwards an update to its successor while it serves it, and answers its own
client by what its own table said. The outcome of the forward decides nothing of the
answer, so an update can be acknowledged that the successor never saw.
-/

namespace ChainTable

open Calls

/-! ## Updates -/

/-- An update of the table. -/
inductive Update where
  | put (key : CString) (b : Bytes)
  | del (key : CString)
  deriving DecidableEq

namespace Update

/-- The requests that ask for the update. -/
def AskedBy : Update → MessageT → Prop
  | put key b, msg => msg.opcode = opPut ∧
    ∃ value : BinaryData, msg.entry = some ⟨some key, value⟩ ∧ value.copyOut = .ok b
  | del key, msg => msg.opcode = opDel ∧ msg.key = some key

/-- The request that a server sends on. -/
def request : Update → MessageT
  | put key b => putRequest key (.ofBytes b)
  | del key => delRequest key

/-- The call on the table. -/
def call : Update → ServerCall
  | put key b => .tablePut key (.ofBytes b)
  | del key => .tableRemove key

/-- The updates that a table with this map carries out. -/
def Accepted : Update → Spec.Map → Prop
  | put _ b, _ => b ≠ []
  | del key, m => key ∈ m

/-- A put has at least one byte to bind. -/
def hasBytes : Update → Bool
  | put _ b => b ≠ []
  | del _ => true

/-- Whether the stub of the update tests its `rtable`. -/
def nullSafe : Update → Bool
  | put _ _ => true
  | del _ => false

end Update

/-! ## The successor -/

/-- How far the exchange with the successor gets. -/
inductive Outcome where
  /-- `message_send_all` fails, or finds the connection closed. -/
  | sendFails (closed : Bool)
  | requestLost (disconnected : Bool)
  | responseLost (disconnected : Bool)
  | responds
  deriving DecidableEq

/-- The request was processed at the other end. -/
def Outcome.Delivers : Outcome → Prop
  | sendFails _ => False
  | requestLost _ => False
  | responseLost _ => True
  | responds => True

instance : DecidablePred Outcome.Delivers
  | .sendFails _ => .isFalse id
  | .requestLost _ => .isFalse id
  | .responseLost _ => .isTrue trivial
  | .responds => .isTrue trivial

/-- The server at the other end, with its own link and the calls that it has made. -/
structure NextServer (τ : Type) where
  state : ServerState × τ
  calls : List ServerCall
  response : Option MessageT

/-- The successor processes a request. -/
def NextServer.process {τ : Type} (clock : ℕ → Timeval) (below : Link τ) (msg : MessageT)
    (t : NextServer τ) : NextServer τ where
  state := (serve clock below msg t.state).2
  calls := t.calls ++ (invoke msg).calls (alone clock below) t.state
  response := (serve clock below msg t.state).1.bind fun res => res.unpacked.toOption

/-- The connection to the successor. -/
def Link.toNextServer {τ : Type} (clock : ℕ → Timeval) (below : Link τ) (outcome : Outcome) :
    Link (NextServer τ) where
  send msg t :=
    match msg.unpacked, outcome with
    | .error _, _ => (-1, t)
    | .ok _, .sendFails closed => (if closed then 0 else -1, t)
    | .ok _, .requestLost _ => (2, t)
    | .ok msg, .responseLost _ => (2, t.process clock below msg)
    | .ok msg, .responds => (2, t.process clock below msg)
  receive t :=
    match outcome with
    | .sendFails _ => ((none, true), t)
    | .requestLost disconnected => ((none, disconnected), t)
    | .responseLost disconnected => ((none, disconnected), t)
    | .responds => ((t.response, t.response.isNone), t)
  close t := t

/-- The client is told that its request succeeded. -/
def Succeeds (msg : MessageT) (result : MessageT × Int) : Prop :=
  0 ≤ result.2 ∧ result.1.opcode = msg.opcode + 1 ∧ result.1.cType = ctNone

/-- The successor has carried the update out since. -/
def Update.AppliedSince {τ : Type} (u : Update) (t t' : NextServer τ) : Prop :=
  ∃ calls, t'.calls = t.calls ++ calls ∧ u.call ∈ calls

theorem not_appliedSince_self {τ : Type} {u : Update} (next : NextServer τ) :
    ¬ u.AppliedSince next next := by
  rintro ⟨calls, hcalls, hmem⟩
  have hnil : calls = [] := List.append_right_eq_self.1 hcalls.symm
  rw [hnil] at hmem
  cases hmem

section Handler

variable {τ : Type} (clock : ℕ → Timeval) (below : Link τ)

/-! ## The calls of a section -/

theorem mem_calls_counted {α : Type} {body : Prog Calls α} {op : ServerCall} {s : ServerState × τ}
    (hstats : s.1.globalStats ≠ none)
    (hop : op ∈ body.calls (alone clock below) (s.1.counts, s.2)) :
    op ∈ (counted body).calls (alone clock below) s := by
  obtain ⟨stats, hstats⟩ := Option.ne_none_iff_exists'.1 hstats
  rw [s.1.counts_eq hstats] at hop
  rw [counted, Prog.calls_bind_ok (increaseOperations_run clock below hstats),
    Prog.calls_bind_ok (returnTime_run clock below _)]
  refine List.mem_append_right _ (List.mem_append_right _ ?_)
  exact (Prog.calls_prefix_bind _ _ _ _).subset hop

/-- A section that starts with a call on the table makes it. -/
theorem mem_calls_writeSection {α : Type} {op : ServerCall} {k : op.Res → Prog Calls α}
    {s s' : ServerState × τ} {r : op.Res} (hstats : s.1.globalStats ≠ none)
    (hop : alone clock below op (s.1.counts, s.2) = .ok (r, s')) :
    op ∈ (writeSection (call op >>= k)).calls (alone clock below) s := by
  have henter : (call (.enterWrite .table)).run (alone clock below) s = .ok ((), s) := rfl
  rw [writeSection, locked, Prog.calls_bind_ok henter]
  refine List.mem_append_right _ ((Prog.calls_prefix_bind _ _ _ _).subset ?_)
  refine mem_calls_counted clock below hstats ((Prog.calls_prefix_bind _ _ _ _).subset ?_)
  rw [call, Prog.perform, Prog.calls_call_ok hop]
  exact List.mem_cons_self

/-- A server that processes the request of an update makes its call on the table,
    whatever comes of the forward. -/
theorem call_mem_calls_invoke {u : Update} {st : Store} {s : ServerState × τ}
    (hbytes : ∀ key, u ≠ .put key []) (htable : s.1.table = st.table)
    (hstats : s.1.globalStats ≠ none) :
    u.call ∈ (invoke u.request).calls (alone clock below) s := by
  refine (Prog.calls_prefix_bind _ _ _ _).subset ?_
  cases u with
  | put key b =>
    have hb : b ≠ [] := fun hnil => hbytes key (hnil ▸ rfl)
    have hput := st.tablePut_table key (Data.bytes_ofBytes hb)
    have hop : alone clock below (.tablePut key (.ofBytes b)) (s.1.counts, s.2) =
        .ok (0, ({ s.1.counts with table := (st.put key b hb).table }, s.2)) := by
      simp only [alone, ServerState.table_counts, htable, hput]
      rfl
    have hdispatch : dispatch (putRequest key (.ofBytes b)) =
        invokePut (putRequest key (.ofBytes b)) := rfl
    rw [Update.request, hdispatch, invokePut_eq rfl (BinaryData.copyOut_ofBytes b) hb]
    exact (Prog.calls_prefix_bind _ _ _ _).subset (mem_calls_writeSection clock below hstats hop)
  | del key =>
    have hremove := st.tableRemove_table key
    have hop : alone clock below (.tableRemove key) (s.1.counts, s.2) =
        .ok (if key ∈ st.map then 0 else 1,
          ({ s.1.counts with table := (st.remove key).table }, s.2)) := by
      simp only [alone, ServerState.table_counts, htable, hremove]
      rfl
    exact (Prog.calls_prefix_bind _ _ _ _).subset (mem_calls_writeSection clock below hstats hop)

/-! ## The exchange -/

theorem Update.ne_put_nil {u : Update} (hbytes : u.hasBytes = true) (key : CString) :
    u ≠ .put key [] := by
  rintro rfl
  exact absurd hbytes (by simp [Update.hasBytes])

theorem unpacked_request {u : Update} (hbytes : ∀ key, u ≠ .put key []) :
    u.request.unpacked = .ok u.request := by
  cases u with
  | put key b => exact unpacked_putRequest key fun hnil => hbytes key (hnil ▸ rfl)
  | del key => rfl

theorem exchange_of_delivers {u : Update} (hbytes : ∀ key, u ≠ .put key []) {outcome : Outcome}
    (hdelivers : outcome.Delivers) (t : NextServer τ) :
    ((Link.toNextServer clock below outcome).exchange u.request t).2 =
      t.process clock below u.request := by
  have hrequest := unpacked_request hbytes
  cases outcome with
  | sendFails closed => exact absurd hdelivers id
  | requestLost disconnected => exact absurd hdelivers id
  | responseLost disconnected =>
    simp [Link.exchange, Link.toNextServer, hrequest]
  | responds =>
    simp only [Link.exchange, Link.toNextServer, hrequest]
    split_ifs <;> rfl

theorem exchange_of_not_delivers {u : Update} (hbytes : ∀ key, u ≠ .put key [])
    {outcome : Outcome} (hlost : ¬ outcome.Delivers) (t : NextServer τ) :
    ((Link.toNextServer clock below outcome).exchange u.request t).2 = t := by
  have hrequest := unpacked_request hbytes
  cases outcome with
  | sendFails closed =>
    cases closed <;> simp [Link.exchange, Link.toNextServer, hrequest]
  | requestLost disconnected =>
    simp [Link.exchange, Link.toNextServer, hrequest]
  | responseLost disconnected => exact absurd trivial hlost
  | responds => exact absurd trivial hlost

/-- The update is carried out by the successor exactly when its request arrives. -/
theorem appliedSince_exchange_iff {u : Update} (hbytes : ∀ key, u ≠ .put key []) {st : Store}
    {t : NextServer τ} (htable : t.state.1.table = st.table) (hstats : t.state.1.globalStats ≠ none)
    (outcome : Outcome) :
    u.AppliedSince t ((Link.toNextServer clock below outcome).exchange u.request t).2 ↔
      outcome.Delivers := by
  constructor
  · intro happlied
    by_contra hlost
    rw [exchange_of_not_delivers clock below hbytes hlost t] at happlied
    exact not_appliedSince_self t happlied
  · intro hdelivers
    have hprocess := exchange_of_delivers clock below hbytes hdelivers t
    exact ⟨_, congrArg NextServer.calls hprocess,
      call_mem_calls_invoke clock below hbytes htable hstats⟩

/-! ## The answer -/

section Answer

variable (link : Link τ) {u : Update} {msg : MessageT} {st : Store} {s : ServerState × τ}
  (hasked : u.AskedBy msg) (htable : s.1.table = st.table) (hstats : s.1.globalStats ≠ none)

include hasked htable hstats

/-- An update that the table carries out is answered with success after the forward,
    whatever came of it. -/
theorem invoke_accepted_run (haccepted : u.Accepted st.map) :
    ∃ st' : Store, (invoke msg).run (alone clock link) s =
      forwardTo link s.1.nextServerNodePath s.1.nextServerRtable u.nullSafe u.request s.2 >>=
        fun t => .ok (({ msg with opcode := msg.opcode + 1, cType := ctNone }, 0),
          (s.1.served clock st'.table, t)) := by
  cases u with
  | put key b =>
    obtain ⟨hopcode, value, hentry, hvalue⟩ := hasked
    refine ⟨st.put key b haccepted, ?_⟩
    rw [invoke, dispatch_put hopcode, Prog.run_bind,
      invokePut_run clock link htable hstats hentry hvalue haccepted, Update.request,
      Update.nullSafe]
    cases forwardTo link s.1.nextServerNodePath s.1.nextServerRtable true
      (putRequest key (.ofBytes b)) s.2 <;> rfl
  | del key =>
    obtain ⟨hopcode, hkey⟩ := hasked
    refine ⟨st.remove key, ?_⟩
    rw [invoke, dispatch_del hopcode, Prog.run_bind, invokeDel_run clock link htable hstats hkey,
      if_pos (show key ∈ st.map from haccepted), Update.request, Update.nullSafe]
    cases forwardTo link s.1.nextServerNodePath s.1.nextServerRtable false (delRequest key) s.2 <;>
      rfl

/-- An update that the table does not carry out is not answered with success. -/
theorem not_succeeds_of_not_accepted (hrefused : ¬ u.Accepted st.map) {result : MessageT × Int}
    {s' : ServerState × τ} (hrun : (invoke msg).run (alone clock link) s = .ok (result, s')) :
    ¬ Succeeds msg result := by
  cases u with
  | put key b =>
    obtain ⟨hopcode, value, hentry, hvalue⟩ := hasked
    obtain rfl : b = [] := not_not.1 hrefused
    rw [invoke, dispatch_put hopcode, invokePut_empty hentry hvalue] at hrun
    obtain ⟨rfl, -⟩ : conclude (respondBadOp msg, -1) = result ∧ s = s' := by simpa using hrun
    rintro ⟨hret, -⟩
    exact absurd hret (show ¬ (0 : Int) ≤ -1 by decide)
  | del key =>
    obtain ⟨hopcode, hkey⟩ := hasked
    rw [invoke, dispatch_del hopcode, Prog.run_bind, invokeDel_run clock link htable hstats hkey,
      if_neg (show key ∉ st.map from hrefused)] at hrun
    cases hforward : forwardTo link s.1.nextServerNodePath s.1.nextServerRtable false
        (delRequest key) s.2 with
    | error f =>
      rw [hforward] at hrun
      cases hrun
    | ok t =>
      rw [hforward] at hrun
      cases hrun
      rintro ⟨-, -, hcType⟩
      exact absurd hcType (show ctBad ≠ ctNone by decide)

end Answer

end Handler

/-! ## Acknowledged updates -/

section Replicated

variable {τ : Type} (clock clock' : ℕ → Timeval) (below : Link τ)

/-- A connection as `network_send_receive` uses it: it reads `sockfd` from the block of an
    `rtable` that is released as well. -/
def Rtable.asRead (rtable : Rtable) : Rtable := { rtable with released := false }

def ServerState.asRead (s : ServerState) : ServerState :=
  { s with nextServerRtable := s.nextServerRtable.map Rtable.asRead }

/-- The exchange over this `rtable`. The socket of a released one has been closed. -/
def Outcome.over (outcome : Outcome) (rtable : Option Rtable) : Outcome :=
  if rtable.any Rtable.released then .sendFails false else outcome

/-- When the server answers a request for the update with success, its successor has
    carried the update out. -/
def Replicated (outcome : Outcome) (server : ServerState) (next : NextServer τ) (msg : MessageT)
    (u : Update) : Prop :=
  ∀ (result : MessageT × Int) (server' : ServerState) (next' : NextServer τ),
    (invoke msg).run
        (alone clock (.toNextServer clock' below (outcome.over server.nextServerRtable)))
        (server.asRead, next) = .ok (result, (server', next')) →
    Succeeds msg result → u.AppliedSince next next'

/-- The request of the forward arrives, or the server gets no further than the forward: a
    stub that does not test its `rtable` stops it. -/
def ForwardDecides (u : Update) (rtable : Option Rtable) (outcome : Outcome) : Prop :=
  match rtable with
  | none => u.nullSafe = false
  | some rtable => rtable.released = false ∧ outcome.Delivers

/-- Nothing is delivered over the socket of a released `rtable`. -/
theorem delivers_over_iff {outcome : Outcome} {rtable : Rtable} :
    (outcome.over (some rtable)).Delivers ↔ rtable.released = false ∧ outcome.Delivers := by
  cases hreleased : rtable.released with
  | false => simp [Outcome.over, hreleased]
  | true => simp [Outcome.over, hreleased, Outcome.Delivers]

variable {outcome : Outcome} {server : ServerState} {next : NextServer τ} {msg : MessageT}
  {u : Update}

theorem replicated_iff_of_ok {result : MessageT × Int} {server' : ServerState}
    {next' : NextServer τ} (hsucceeds : Succeeds msg result)
    (hrun : (invoke msg).run
        (alone clock (.toNextServer clock' below (outcome.over server.nextServerRtable)))
        (server.asRead, next) = .ok (result, (server', next'))) :
    Replicated clock clock' below outcome server next msg u ↔ u.AppliedSince next next' := by
  constructor
  · intro hreplicated
    exact hreplicated result server' next' hrun hsucceeds
  · intro happlied result₁ server₁ next₁ hrun₁ _
    rw [hrun] at hrun₁
    cases hrun₁
    exact happlied

theorem replicated_iff {st st' : Store} (hasked : u.AskedBy msg)
    (htable : server.table = st.table) (hstats : server.globalStats ≠ none)
    (hpath : server.nextServerNodePath ≠ .empty)
    (htable' : next.state.1.table = st'.table) (hstats' : next.state.1.globalStats ≠ none) :
    Replicated clock clock' below outcome server next msg u ↔
      (u.Accepted st.map → ForwardDecides u server.nextServerRtable outcome) := by
  by_cases haccepted : u.Accepted st.map
  · rw [imp_iff_right haccepted]
    have hbytes : ∀ key, u ≠ .put key [] := by
      rintro key rfl
      exact haccepted rfl
    have hsucceeds : Succeeds msg ({ msg with opcode := msg.opcode + 1, cType := ctNone }, 0) :=
      ⟨le_rfl, rfl, rfl⟩
    obtain ⟨st₁, hrun⟩ := invoke_accepted_run clock
      (.toNextServer clock' below (outcome.over server.nextServerRtable))
      (s := (server.asRead, next)) hasked htable hstats haccepted
    have hpath' : server.asRead.nextServerNodePath ≠ .empty := hpath
    cases hrtable : server.nextServerRtable with
    | none =>
      have hread : server.asRead.nextServerRtable = none := congrArg (Option.map _) hrtable
      simp only [hread, forwardTo_none _ _ _ _ hpath'] at hrun
      cases hsafe : u.nullSafe with
      -- a stub that dereferences its NULL argument stops the server, so no reply is sent
      | false =>
        rw [hsafe] at hrun
        refine iff_of_true (fun result server' next' hok => ?_) hsafe
        rw [hrun] at hok
        cases hok
      | true =>
        rw [hsafe] at hrun
        rw [replicated_iff_of_ok clock clock' below hsucceeds hrun]
        exact iff_of_false (not_appliedSince_self next) (by simp [ForwardDecides, hsafe])
    | some rtable =>
      have hread : server.asRead.nextServerRtable = some rtable.asRead :=
        congrArg (Option.map _) hrtable
      have hlive : rtable.asRead.released = false := rfl
      simp only [hread, forwardTo_live _ _ _ _ hpath' hlive] at hrun
      rw [replicated_iff_of_ok clock clock' below hsucceeds hrun,
        appliedSince_exchange_iff clock' below hbytes htable' hstats', hrtable]
      exact delivers_over_iff
  -- a refused update is not answered with success
  · refine iff_of_true ?_ fun hcontra => absurd hcontra haccepted
    intro result server' next' hrun hsucceeds
    exact absurd hsucceeds
      (not_succeeds_of_not_accepted clock _ hasked htable hstats haccepted hrun)

end Replicated

/-- A server with an empty table that the watch has connected to a next server. -/
def connectedServer (rtable : Option Rtable) : ServerState :=
  { ServerState.init (Store.create 1 Store.one_pos).table with
    nextServerNodePath := ⟨[47], CString.zero_notMem_slash⟩
    nextServerRtable := rtable }

/-- The server after it, which is the last one. -/
def lastServer : NextServer Unit where
  state := (.init (Store.create 1 Store.one_pos).table, ())
  calls := []
  response := none

theorem replicated_responds :
    Replicated (fun _ => ⟨0, 0⟩) (fun _ => ⟨0, 0⟩) .broken .responds
      (connectedServer (some ⟨.empty, false⟩)) lastServer (Update.put .empty [1]).request
      (.put .empty [1]) := by
  have hasked : (Update.put .empty [1]).AskedBy (Update.put .empty [1]).request :=
    ⟨rfl, .ofBytes [1], rfl, rfl⟩
  have htable : (connectedServer (some ⟨.empty, false⟩)).table =
      (Store.create 1 (by decide)).table := rfl
  have htable' : lastServer.state.1.table = (Store.create 1 (by decide)).table := rfl
  refine (replicated_iff _ _ _ hasked htable ?_ ?_ htable' ?_).2 fun _ => ⟨rfl, trivial⟩
  · simp [connectedServer, ServerState.init]
  · decide
  · simp [lastServer, ServerState.init]

/-- The connection is closed and the client hears of a success all the same. -/
theorem not_replicated_sendFails :
    ¬ Replicated (fun _ => ⟨0, 0⟩) (fun _ => ⟨0, 0⟩) .broken (.sendFails false)
      (connectedServer (some ⟨.empty, false⟩)) lastServer (Update.put .empty [1]).request
      (.put .empty [1]) := by
  have hasked : (Update.put .empty [1]).AskedBy (Update.put .empty [1]).request :=
    ⟨rfl, .ofBytes [1], rfl, rfl⟩
  have htable : (connectedServer (some ⟨.empty, false⟩)).table =
      (Store.create 1 (by decide)).table := rfl
  have hstats : (connectedServer (some ⟨.empty, false⟩)).globalStats ≠ none := by
    simp [connectedServer, ServerState.init]
  have hpath : (connectedServer (some ⟨.empty, false⟩)).nextServerNodePath ≠ .empty := by decide
  have hlive : (⟨.empty, false⟩ : Rtable).released = false := rfl
  have haccepted : (Update.put .empty [1]).Accepted (Store.create 1 (by decide)).map :=
    List.cons_ne_nil _ _
  obtain ⟨st, hrun⟩ := invoke_accepted_run (fun _ => ⟨0, 0⟩)
    (.toNextServer (fun _ => ⟨0, 0⟩) .broken (.sendFails false))
    (s := (connectedServer (some ⟨.empty, false⟩), lastServer)) hasked htable hstats haccepted
  have hforward : forwardTo (.toNextServer (fun _ => ⟨0, 0⟩) .broken (.sendFails false))
      (connectedServer (some ⟨.empty, false⟩)).nextServerNodePath (some ⟨.empty, false⟩) true
      (Update.put .empty [1]).request lastServer = .ok lastServer := by
    rw [forwardTo_live _ _ _ _ hpath hlive, exchange_of_not_delivers _ _ (by simp) id]
  have hrun := hrun.trans (congrArg (· >>= _) hforward)
  rw [replicated_iff_of_ok _ _ _ ⟨le_rfl, rfl, rfl⟩ hrun]
  exact not_appliedSince_self lastServer

end ChainTable
