-- SUMMARY: A chain of servers that serves one client: what comes back over the connections to its head and its tail.
import ChainTable.Server.Remote

open Base

/-!
# A chain that serves one client

Every server of a chain forwards the updates that it executes before it answers them. The
client is connected to the first server and to the last. As long as it is alone, all servers
hold one map whenever it has its answer, and the answers are those of this map.
-/

namespace ChainTable

open Calls

/-! ## Connections to a chain -/

/-- Who is at the other end of a connection to a server: the server in front of it, whose place
    the client takes at the head, or the client that asks the tail. -/
inductive Peer where
  | front
  | client
  deriving DecidableEq

/-- A connection to a server: the responses on their way back, the requests that have gone over
    it, each with its response, and whether it is still open. -/
structure Traffic where
  replies : List MessageT
  exchanged : List (MessageT × Option MessageT)
  isOpen : Bool

/-- One request more. -/
def Traffic.serve (c : Traffic) (msg : MessageT) (res : Option MessageT) : Traffic where
  replies := c.replies ++ (res.bind fun res => res.unpacked.toOption).toList
  exchanged := c.exchanged ++ [(msg, res)]
  isOpen := c.isOpen

/-- A server with the connections to it. -/
structure Hop where
  server : ServerState
  traffic : Peer → Traffic

namespace Hop

/-- The server has changed, and one of its connections with it. -/
def set (hop : Hop) (peer : Peer) (server : ServerState) (c : Traffic) : Hop :=
  ⟨server, Function.update hop.traffic peer c⟩

/-- A request that could not be delivered. -/
def refuse (hop : Hop) (peer : Peer) (msg : MessageT) : Hop :=
  hop.set peer hop.server ((hop.traffic peer).serve msg none)

@[simp] theorem server_set (hop : Hop) (peer : Peer) (server : ServerState) (c : Traffic) :
    (hop.set peer server c).server = server := rfl

@[simp] theorem traffic_set (hop : Hop) (peer : Peer) (server : ServerState) (c : Traffic) :
    (hop.set peer server c).traffic peer = c := Function.update_self _ _ _

theorem traffic_set_of_ne {peer peer' : Peer} (h : peer' ≠ peer) (hop : Hop) (server : ServerState)
    (c : Traffic) : (hop.set peer server c).traffic peer' = hop.traffic peer' :=
  Function.update_of_ne h _ _

@[simp] theorem set_self (hop : Hop) (peer : Peer) :
    hop.set peer hop.server (hop.traffic peer) = hop := by
  simp [set]

@[simp] theorem set_set (hop : Hop) (peer : Peer) (server server' : ServerState) (c c' : Traffic) :
    (hop.set peer server c).set peer server' c' = hop.set peer server' c' := by
  simp [set]

end Hop

/-- The connection of a peer to the first server, which forwards over the connection to the
    next. `size` gives the packed size of a message. A message of any size is handed over whole,
    which a stream does only with one that fits a packet (see `ChainTable.Server.Bytes`). -/
def Link.over (size : MessageT → ℕ) (clock : ℕ → Timeval) (peer : Peer) (next : Link (List Hop)) :
    Link (List Hop) where
  send msg
    | [] => (-1, [])
    | hop :: hops =>
      if (hop.traffic peer).isOpen then
        match msg.unpacked with
        | .ok arrived =>
          let (res, server, hops) := serve clock next arrived (hop.server, hops)
          (2 + size msg, hop.set peer server ((hop.traffic peer).serve msg res) :: hops)
        | .error _ => (-1, hop.refuse peer msg :: hops)
      else (-1, hop.refuse peer msg :: hops)
  receive
    | [] => ((none, false), [])
    | hop :: hops =>
      if (hop.traffic peer).isOpen then
        match (hop.traffic peer).replies with
        | [] => ((none, true), hop :: hops)
        | res :: replies =>
          ((some res, false),
            hop.set peer hop.server { hop.traffic peer with replies := replies } :: hops)
      else ((none, false), hop :: hops)
  close
    | [] => []
    | hop :: hops => hop.set peer hop.server { hop.traffic peer with isOpen := false } :: hops

/-- A connection to nobody. -/
def Link.nowhere {τ : Type} : Link τ where
  send _ t := (-1, t)
  receive t := ((none, false), t)
  close := id

/-- A connection past the first server. -/
def Link.behind (link : Link (List Hop)) : Link (List Hop) where
  send msg
    | [] => (-1, [])
    | hop :: hops => ((link.send msg hops).1, hop :: (link.send msg hops).2)
  receive
    | [] => ((none, false), [])
    | hop :: hops => ((link.receive hops).1, hop :: (link.receive hops).2)
  close
    | [] => []
    | hop :: hops => hop :: link.close hops

/-- The calls on a connection. -/
def Link.handler {τ : Type} (link : Link τ) : Prog.Handler Calls τ Fault
  | .messageSendAll _ msg, t => .ok (link.send msg t)
  | .messageReceiveAll _, t => .ok (link.receive t)
  | .networkClose _, t => .ok ((), link.close t)
  | .fault f, _ => .error f
  -- a stub makes no other call
  | _, _ => .error .nullDeref

section Links

variable (size : MessageT → ℕ) (clock : ℕ → ℕ → Timeval)

/-- The connection to the first of `k` servers, each connected to the next. -/
def Link.toChain : ℕ → Link (List Hop)
  | 0 => .nowhere
  | k + 1 => .over size (clock k) .front (toChain k)

/-- The connection of a client to the last of `k + 1` servers. -/
def Link.toTail : ℕ → Link (List Hop)
  | 0 => .over size (clock 0) .client .nowhere
  | k + 1 => (toTail k).behind

end Links

/-- An exchange has a result when both of its calls go well. -/
theorem Link.exchange_eq_some {τ : Type} {link : Link τ} {msg res : MessageT} {t t' : τ} :
    link.exchange msg t = (some res, t') ↔
      ((link.send msg t).1 ≠ -1 ∧ (link.send msg t).1 ≠ 0) ∧
        link.receive (link.send msg t).2 = ((some res, false), t') := by
  rw [Link.exchange, ← not_or]
  by_cases hsent : (link.send msg t).1 = -1 ∨ (link.send msg t).1 = 0
  · simp only [hsent, if_true]
    simp
  · simp only [hsent, if_false]
    rcases hreceived : link.receive (link.send msg t).2 with ⟨⟨_ | received, _ | _⟩, t₁⟩
    · simp
    · simp
    · simp
    · simp

namespace Hop

/-- What one exchange leaves of the first server. -/
def after (hop : Hop) (peer : Peer) (server : ServerState) (msg res : MessageT) : Hop :=
  hop.set peer server ⟨[], (hop.traffic peer).exchanged ++ [(msg, some res)], true⟩

/-- Nothing is under way on the connections of the server. -/
def Ready (hop : Hop) : Prop :=
  ∀ peer, (hop.traffic peer).replies = [] ∧ (hop.traffic peer).isOpen = true

theorem Ready.after {hop : Hop} (h : hop.Ready) (peer : Peer) (server : ServerState)
    (msg res : MessageT) :
    (hop.after peer server msg res).Ready := by
  intro peer'
  by_cases hpeer : peer' = peer
  · subst hpeer
    rw [Hop.after, traffic_set]
    exact ⟨rfl, rfl⟩
  · rw [Hop.after, traffic_set_of_ne hpeer]
    exact h peer'

end Hop

section Exchange

variable {size : MessageT → ℕ} {clock : ℕ → Timeval} {peer : Peer} {next : Link (List Hop)}
  {msg res : MessageT} {hop : Hop} {hops hops' : List Hop}

/-- An exchange that goes well at every stage. -/
theorem exchange_over {response : MessageT × Int} {server' : ServerState} (hready : hop.Ready)
    (hrequest : msg.unpacked = .ok msg)
    (hdispatch : (dispatch msg).run (alone clock next) (hop.server, hops) =
      .ok (response, (server', hops')))
    (hret : 0 ≤ response.2) (hresponse : (conclude response).1.unpacked = .ok res) :
    (Link.over size clock peer next).exchange msg (hop :: hops) =
      (some res, hop.after peer server' msg (conclude response).1 :: hops') := by
  obtain ⟨hreplies, hopen⟩ := hready peer
  have hserve := serve_of_dispatch clock next hdispatch hret
  have hsend : (Link.over size clock peer next).send msg (hop :: hops) =
      (2 + (size msg : Int), hop.set peer server' ⟨[res],
        (hop.traffic peer).exchanged ++ [(msg, some (conclude response).1)], true⟩ :: hops') := by
    simp only [Link.over, hopen, if_true, hrequest, hserve, Traffic.serve, hreplies,
      Option.bind_some,
      hresponse]
    rfl
  rw [Link.exchange_eq_some, hsend]
  refine ⟨⟨by omega, by omega⟩, ?_⟩
  simp only [Link.over, Hop.traffic_set, if_true, Hop.set_set]
  rfl

theorem exchange_behind {link : Link (List Hop)} (h : link.exchange msg hops = (some res, hops')) :
    link.behind.exchange msg (hop :: hops) = (some res, hop :: hops') := by
  rw [Link.exchange_eq_some] at h ⊢
  obtain ⟨hsent, hreceived⟩ := h
  refine ⟨hsent, ?_⟩
  simp only [Link.behind, hreceived]

end Exchange

/-! ## Servers that agree -/

/-- A server that holds the map, and waits for a request. -/
structure Hop.Holds (hop : Hop) (m : Spec.Map) : Prop where
  store : ∃ st : Store, hop.server.table = st.table ∧ st.map = m
  stats : hop.server.globalStats ≠ none
  ready : hop.Ready

/-- Servers that hold one map, each connected to the next. -/
inductive Agreed (m : Spec.Map) : List Hop → Prop
  | last {hop : Hop} (holds : hop.Holds m) (path : hop.server.nextServerNodePath = .empty) :
      Agreed m [hop]
  | next {hop : Hop} {hops : List Hop} {rtable : Rtable} (holds : hop.Holds m)
      (path : hop.server.nextServerNodePath ≠ .empty)
      (connected : hop.server.nextServerRtable = some rtable) (live : rtable.released = false)
      (rest : Agreed m hops) : Agreed m (hop :: hops)

/-- The statistics of the last server. -/
def tailStats (hops : List Hop) : Option Statistics :=
  hops.getLast?.bind fun hop => hop.server.globalStats

/-- A chain of `n` servers that hold the map, the last of them with these statistics. -/
structure ChainHolds (n : ℕ) (m : Spec.Map) (stats : Statistics) (hops : List Hop) : Prop where
  agreed : Agreed m hops
  length : hops.length = n
  stats : tailStats hops = some stats

/-- One operation more, and the time that all have taken. -/
def Statistics.counted (stats : Statistics) (time : Int) : Statistics :=
  { stats with nOperacoes := stats.nOperacoes + 1, totalTime := time }

theorem ServerState.stats_served (s : ServerState) (clock : ℕ → Timeval) (table : Table)
    {stats : Statistics} (h : s.globalStats = some stats) :
    ∃ time, (s.served clock table).globalStats = some (stats.counted time) := by
  rw [served, timed, counts, h]
  exact ⟨_, rfl⟩

theorem Hop.Holds.served {hop : Hop} {m : Spec.Map} (h : hop.Holds m)
    (clock : ℕ → Timeval) (peer : Peer)
    (st : Store) (msg res : MessageT) :
    (hop.after peer (hop.server.served clock st.table) msg res).Holds st.map where
  store := ⟨st, rfl, rfl⟩
  stats := by
    have hstats := h.stats
    simpa [Hop.after] using hstats
  ready := h.ready.after peer _ msg res

section Tail

variable {hop : Hop} {hops : List Hop} {m : Spec.Map}

theorem Agreed.ne_nil (h : Agreed m hops) : hops ≠ [] := by
  cases h <;> exact List.cons_ne_nil _ _

theorem Agreed.ready (h : Agreed m hops) : ∀ hop ∈ hops, hop.Ready := by
  induction h with
  | last holds _ => exact List.forall_mem_singleton.2 holds.ready
  | next holds _ _ _ _ ih => exact List.forall_mem_cons.2 ⟨holds.ready, ih⟩

theorem tailStats_cons (h : hops ≠ []) : tailStats (hop :: hops) = tailStats hops := by
  obtain ⟨hop', hops', rfl⟩ := List.exists_cons_of_ne_nil h
  rw [tailStats, List.getLast?_cons_cons]
  rfl

/-- The first server of a longer chain has changed, and the others with it. -/
theorem ChainHolds.cons {hop' : Hop} {n : ℕ} {stats : Statistics} {hops' : List Hop}
    (h : ChainHolds n m stats hops') (holds : hop'.Holds m) {rtable : Rtable}
    (path : hop'.server.nextServerNodePath ≠ .empty)
    (connected : hop'.server.nextServerRtable = some rtable) (live : rtable.released = false) :
    ChainHolds (n + 1) m stats (hop' :: hops') where
  agreed := .next holds path connected live h.agreed
  length := congrArg (· + 1) h.length
  stats := (tailStats_cons h.agreed.ne_nil).trans h.stats

end Tail

/-- `n + 1` servers that have been started, each but the last connected to the next. -/
def startedChain {nLists : Int32} (hpos : 0 < nLists) (path : CString)
    (rtable : Rtable) : ℕ → List Hop
  | 0 => [⟨.init (Store.create nLists hpos).table, fun _ => ⟨[], [], true⟩⟩]
  | n + 1 =>
    ⟨{ ServerState.init (Store.create nLists hpos).table with
        nextServerNodePath := path, nextServerRtable := some rtable }, fun _ => ⟨[], [], true⟩⟩ ::
      startedChain hpos path rtable n

/-- A chain starts with nothing in it. -/
theorem ChainHolds.started {nLists : Int32} (hpos : 0 < nLists) {path : CString}
    (hpath : path ≠ .empty)
    {rtable : Rtable} (hlive : rtable.released = false) (n : ℕ) :
    ChainHolds (n + 1) ∅ ⟨0, 0, 0⟩ (startedChain hpos path rtable n) := by
  have hstore := Store.map_create nLists hpos
  induction n with
  | zero => exact ⟨.last ⟨⟨_, rfl, hstore⟩, nofun, fun _ => ⟨rfl, rfl⟩⟩ rfl, rfl, rfl⟩
  | succ n ih => exact ih.cons ⟨⟨_, rfl, hstore⟩, nofun, fun _ => ⟨rfl, rfl⟩⟩ hpath rfl hlive

/-! ## Updates at the head -/

section Updates

variable {size : MessageT → ℕ} {clock : ℕ → Timeval} {peer : Peer}
    {next : Link (List Hop)} {hop : Hop}
  {hops hops' : List Hop} {st : Store} (hready : hop.Ready) (htable : hop.server.table = st.table)
  (hstats : hop.server.globalStats ≠ none) (key : CString)

include hready htable hstats

/-- The response of a server that could forward the put. -/
theorem exchange_put {b : Bytes} (hb : b ≠ [])
    (hforward : forwardTo next hop.server.nextServerNodePath
      hop.server.nextServerRtable true (putRequest key (.ofBytes b)) hops = .ok hops') :
    ∃ res sent, (Link.over size clock peer next).exchange (putRequest key (.ofBytes b))
      (hop :: hops) =
        (some res, hop.after peer (hop.server.served clock (st.put key b hb).table)
          (putRequest key (.ofBytes b)) sent :: hops') ∧ putResult (some res) = 0 := by
  have hentry : (putRequest key (.ofBytes b)).entry = some ⟨some key, .ofBytes b⟩ := rfl
  have hdispatch := invokePut_run clock next (s := (hop.server, hops)) htable hstats
    hentry (BinaryData.copyOut_ofBytes b) hb
  rw [hforward, C.ok_bind] at hdispatch
  have hresponse : (conclude ({ putRequest key (.ofBytes b) with cType := ctNone }, 0)).1.unpacked =
      .ok (conclude ({ putRequest key (.ofBytes b) with cType := ctNone }, 0)).1 :=
    unpacked_of_no_arrays rfl rfl (unpacked_entry key hb) rfl
  exact ⟨_, _, exchange_over hready (unpacked_putRequest key hb) hdispatch le_rfl hresponse, rfl⟩

theorem exchange_del (hforward : forwardTo next hop.server.nextServerNodePath
      hop.server.nextServerRtable false (delRequest key) hops = .ok hops') :
    ∃ res sent, (Link.over size clock peer next).exchange (delRequest key) (hop :: hops) =
        (some res, hop.after peer (hop.server.served clock (st.remove key).table)
          (delRequest key) sent :: hops') ∧
      delResult (some res) = if key ∈ st.map then 0 else -1 := by
  have hkey : (delRequest key).key = some key := rfl
  have hdispatch := invokeDel_run clock next (s := (hop.server, hops)) htable hstats
    hkey
  rw [hforward, C.ok_bind] at hdispatch
  have hrequest : (delRequest key).unpacked = .ok (delRequest key) := rfl
  by_cases hbound : key ∈ st.map
  · rw [if_pos hbound] at hdispatch ⊢
    exact ⟨_, _, exchange_over hready hrequest hdispatch le_rfl rfl, rfl⟩
  · rw [if_neg hbound] at hdispatch ⊢
    exact ⟨_, _, exchange_over hready hrequest hdispatch zero_le_one rfl, rfl⟩

end Updates

section Head

variable (size : MessageT → ℕ) (clock : ℕ → ℕ → Timeval) {n : ℕ} {m m' : Spec.Map}
    {stats : Statistics}
  {hops : List Hop}

/-- An update that each server executes and forwards reaches them all. -/
theorem ChainHolds.update (nullSafe : Bool) {msg : MessageT} {P : MessageT → Prop}
    (hserver : ∀ {clock : ℕ → Timeval} {next : Link (List Hop)} {hop : Hop} {hops hops' : List Hop},
      hop.Holds m →
      forwardTo next hop.server.nextServerNodePath hop.server.nextServerRtable nullSafe msg hops =
        .ok hops' →
      ∃ (res sent : MessageT) (st : Store),
        (Link.over size clock .front next).exchange msg (hop :: hops) =
          (some res, hop.after .front (hop.server.served clock st.table) msg sent :: hops') ∧
        st.map = m' ∧ P res)
    (h : ChainHolds n m stats hops) :
    ∃ (res : MessageT) (hops' : List Hop) (time : Int),
      (Link.toChain size clock n).exchange msg hops = (some res, hops') ∧
        ChainHolds n m' (stats.counted time) hops' ∧ P res := by
  obtain ⟨hagreed, rfl, hstats⟩ := h
  induction hagreed with
  | @last hop holds path =>
    have hforward :=
      forwardTo_empty (.toChain size clock 0) nullSafe msg [] hop.server.nextServerRtable
    rw [← path] at hforward
    obtain ⟨res, sent, st, hexchange, rfl, hres⟩ := hserver holds hforward
    obtain ⟨time, htime⟩ := hop.server.stats_served (clock 0) st.table hstats
    exact ⟨res, _, time, hexchange, ⟨.last (holds.served _ _ st _ _) path, rfl, htime⟩, hres⟩
  | @next hop hops rtable holds path connected live rest ih =>
    rw [tailStats_cons rest.ne_nil] at hstats
    obtain ⟨_, hops', time, hrest, hholds, -⟩ := ih hstats
    have hforward := forwardTo_live (.toChain size clock hops.length) nullSafe msg hops path live
    rw [hrest, ← connected] at hforward
    obtain ⟨res, sent, st, hexchange, rfl, hres⟩ := hserver holds hforward
    exact ⟨res, _, time, hexchange, hholds.cons (holds.served _ _ st _ _) path connected live, hres⟩

variable (h : ChainHolds n m stats hops) (key : CString)

include h

theorem ChainHolds.put {b : Bytes} (hb : b ≠ []) :
    ∃ (res : MessageT) (hops' : List Hop) (time : Int),
      (Link.toChain size clock n).exchange (putRequest key (.ofBytes b)) hops = (some res, hops') ∧
        ChainHolds n (m.insert key b) (stats.counted time) hops' ∧ putResult (some res) = 0 := by
  refine h.update size clock true fun hholds hforward => ?_
  obtain ⟨st, htable, rfl⟩ := hholds.store
  obtain ⟨res, sent, hexchange, hres⟩ :=
    exchange_put hholds.ready htable hholds.stats key hb hforward
  exact ⟨res, sent, st.put key b hb, hexchange, st.map_put key b hb, hres⟩

theorem ChainHolds.del :
    ∃ (res : MessageT) (hops' : List Hop) (time : Int),
      (Link.toChain size clock n).exchange (delRequest key) hops = (some res, hops') ∧
        ChainHolds n (m.erase key) (stats.counted time) hops' ∧
        delResult (some res) = if key ∈ m then 0 else -1 := by
  refine h.update size clock false fun hholds hforward => ?_
  obtain ⟨st, htable, rfl⟩ := hholds.store
  obtain ⟨res, sent, hexchange, hres⟩ := exchange_del hholds.ready htable hholds.stats key hforward
  exact ⟨res, sent, st.remove key, hexchange, st.map_remove key, hres⟩

end Head

/-! ## Queries at the tail -/

section Queries

variable {size : MessageT → ℕ} {clock : ℕ → Timeval} {peer : Peer}
    {next : Link (List Hop)} {hop : Hop}
  {hops : List Hop} {st : Store} (hready : hop.Ready)

include hready

/-- The response of a server to a request that is not forwarded. -/
theorem exchange_query {msg res : MessageT} {response : MessageT × Int} {server' : ServerState}
    {P : MessageT → Prop} (hrequest : msg.unpacked = .ok msg)
    (hdispatch : (dispatch msg).run (alone clock next) (hop.server, hops) =
      .ok (response, (server', hops)))
    (hret : 0 ≤ response.2) (hresponse : (conclude response).1.unpacked = .ok res) (hres : P res) :
    ∃ res sent, (Link.over size clock peer next).exchange msg (hop :: hops) =
      (some res, hop.after peer server' msg sent :: hops) ∧ P res :=
  ⟨res, _, exchange_over hready hrequest hdispatch hret hresponse, hres⟩

/-- The statistics are not counted. -/
theorem exchange_stats {stats : Statistics} (hstats : hop.server.globalStats = some stats) :
    ∃ res sent, (Link.over size clock peer next).exchange statsRequest (hop :: hops) =
        (some res, hop.after peer hop.server statsRequest sent :: hops) ∧
      statsResult (some res) = .ok (some ⟨stats.nClientes, stats.nOperacoes, stats.totalTime⟩) := by
  have hdispatch := invokeStats_run clock next (s := (hop.server, hops)) hstats
    statsRequest
  exact exchange_query hready rfl hdispatch le_rfl rfl rfl

variable (htable : hop.server.table = st.table) (hstats : hop.server.globalStats ≠ none)

include htable hstats

theorem exchange_get (key : CString) :
    ∃ res sent, (Link.over size clock peer next).exchange (getRequest key) (hop :: hops) =
        (some res, hop.after peer (hop.server.served clock st.table)
          (getRequest key) sent :: hops) ∧
      getResult (some res) = .ok ((st.map.lookup key).map Data.ofBytes) := by
  have hkey : (getRequest key).key = some key := rfl
  have hdispatch := invokeGet_run clock next (s := (hop.server, hops)) htable hstats
    hkey
  have hrequest : (getRequest key).unpacked = .ok (getRequest key) := rfl
  cases hlookup : st.map.lookup key with
  | none =>
    rw [hlookup] at hdispatch
    exact exchange_query hready hrequest hdispatch le_rfl rfl rfl
  | some b =>
    rw [hlookup] at hdispatch
    have hvalue := BinaryData.unpacked_ofBytes (st.lookup_ne_nil hlookup)
    refine exchange_query hready hrequest hdispatch le_rfl
      (unpacked_of_no_arrays rfl rfl rfl hvalue) ?_
    have hcopy := BinaryData.copyOut_ofBytes b
    simp only [getResult, BinaryData.toData, hcopy]
    rfl

theorem exchange_size :
    ∃ res sent, (Link.over size clock peer next).exchange sizeRequest (hop :: hops) =
        (some res, hop.after peer (hop.server.served clock st.table) sizeRequest sent :: hops) ∧
      sizeResult (some res) = st.map.keys.card := by
  have hdispatch := invokeSize_run clock next (s := (hop.server, hops)) htable hstats
    sizeRequest
  have hret : (0 : Int) ≤ st.entries.length := Int.natCast_nonneg _
  have hresponse : (conclude ({ sizeRequest with
      result := st.entries.length, cType := ctResult }, (st.entries.length : Int))).1.unpacked =
        .ok (conclude ({ sizeRequest with
          result := st.entries.length, cType := ctResult }, (st.entries.length : Int))).1 := by
    rw [conclude, if_pos hret]
    rfl
  refine exchange_query hready rfl hdispatch hret hresponse ?_
  rw [conclude, if_pos hret, st.card_keys_map]
  rfl

theorem exchange_getKeys :
    ∃ res sent, (Link.over size clock peer next).exchange getKeysRequest (hop :: hops) =
        (some res, hop.after peer (hop.server.served clock st.table) getKeysRequest sent :: hops) ∧
      getKeysResult (some res) = .ok (some (st.keys.map some ++ [none])) := by
  have hdispatch := invokeGetkeys_run clock next (s := (hop.server, hops)) htable hstats
    getKeysRequest
  have hload := loadAll_map_some st.keys [none]
  have hcopy := copyLoop_deref st.keys
  rw [st.length_keys] at hload hcopy
  refine exchange_query hready rfl hdispatch le_rfl (unpacked_of_parts rfl rfl hload rfl rfl) ?_
  have hkeys : (st.keys.map some).map (fun key => some (key.getD .empty)) =
    st.keys.map some := by simp
  rw [hkeys]
  exact congrArg (fun arr => arr >>= fun arr => .ok (some arr)) hcopy

theorem exchange_getTable :
    ∃ res sent, (Link.over size clock peer next).exchange getTableRequest (hop :: hops) =
        (some res, hop.after peer (hop.server.served clock st.table) getTableRequest sent :: hops) ∧
      getTableResult (some res) =
        .ok (some ((st.entries.map Entry.ofPair).map some ++ [none])) := by
  have hdispatch := invokeGettable_run clock next (s := (hop.server, hops)) htable hstats
    getTableRequest
  have hload := loadAll_map_some (st.entries.map EntryT.ofPair) [none]
  rw [List.length_map] at hload
  refine exchange_query hready rfl hdispatch le_rfl
    (unpacked_of_parts rfl rfl rfl hload (mapM_unpackedEntry st.nonempty)) ?_
  exact congrArg (fun arr => arr >>= fun arr => .ok (some arr)) (copyLoop_unpackEntry st.entries)

end Queries

section Tail

variable (size : MessageT → ℕ) (clock : ℕ → ℕ → Timeval) {n : ℕ} {m : Spec.Map} {stats : Statistics}
  {hops : List Hop}

/-- What the last server answers comes back over the connection to it. -/
theorem ChainHolds.query {msg : MessageT} {Q : MessageT → Statistics → Prop}
    (hserver : ∀ hop : Hop, hop.Holds m → hop.server.globalStats = some stats →
      ∃ (res sent : MessageT) (server' : ServerState) (stats' : Statistics),
        (Link.over size (clock 0) .client .nowhere).exchange msg [hop] =
          (some res, [hop.after .client server' msg sent]) ∧
          (hop.after .client server' msg sent).Holds m ∧
          server'.nextServerNodePath = hop.server.nextServerNodePath ∧
          server'.globalStats = some stats' ∧ Q res stats')
    (h : ChainHolds (n + 1) m stats hops) :
    ∃ (res : MessageT) (hops' : List Hop) (stats' : Statistics),
      (Link.toTail size clock n).exchange msg hops = (some res, hops') ∧
        ChainHolds (n + 1) m stats' hops' ∧ Q res stats' := by
  obtain ⟨hagreed, hlength, hstats⟩ := h
  induction hagreed generalizing n with
  | @last hop holds path =>
    obtain rfl : n = 0 := (Nat.succ.inj hlength).symm
    obtain ⟨res, sent, server', stats', hexchange, hholds, hpath, hstats', hres⟩ :=
      hserver hop holds hstats
    exact ⟨res, _, stats', hexchange, ⟨.last hholds (hpath.trans path), rfl, hstats'⟩, hres⟩
  | @next hop hops rtable holds path connected live rest ih =>
    rw [tailStats_cons rest.ne_nil] at hstats
    obtain ⟨k, rfl⟩ : ∃ k, n = k + 1 :=
      Nat.exists_eq_succ_of_ne_zero fun hzero =>
        rest.ne_nil (List.eq_nil_of_length_eq_zero ((Nat.succ.inj hlength).trans hzero))
    obtain ⟨res, hops', stats', hexchange, hholds, hres⟩ := ih (Nat.succ.inj hlength) hstats
    exact ⟨res, _, stats', exchange_behind hexchange, hholds.cons holds path connected live, hres⟩

/-- A query that is counted. -/
theorem ChainHolds.countedQuery {msg : MessageT} {P : Store → MessageT → Prop}
    (hserver : ∀ {hop : Hop} {st : Store}, hop.Ready → hop.server.table = st.table →
      hop.server.globalStats ≠ none →
        ∃ res sent, (Link.over size (clock 0) .client .nowhere).exchange msg [hop] =
        (some res, [hop.after .client (hop.server.served (clock 0) st.table) msg sent]) ∧ P st res)
    (h : ChainHolds (n + 1) m stats hops) :
    ∃ (res : MessageT) (hops' : List Hop) (time : Int),
      (Link.toTail size clock n).exchange msg hops = (some res, hops') ∧
        ChainHolds (n + 1) m (stats.counted time) hops' ∧ ∃ st : Store, st.map = m ∧ P st res := by
  have hquery : ∃ (res : MessageT) (hops' : List Hop) (stats' : Statistics),
      (Link.toTail size clock n).exchange msg hops = (some res, hops') ∧
        ChainHolds (n + 1) m stats' hops' ∧
        (∃ st : Store, st.map = m ∧ P st res) ∧ ∃ time, stats' = stats.counted time :=
    h.query size clock fun hop holds hstats => by
      obtain ⟨st, htable, rfl⟩ := holds.store
      obtain ⟨res, sent, hexchange, hres⟩ := hserver holds.ready htable holds.stats
      obtain ⟨time, htime⟩ := hop.server.stats_served (clock 0) st.table hstats
      exact ⟨res, sent, _, _, hexchange, holds.served _ _ st _ _, rfl, htime,
        ⟨st, rfl, hres⟩, time, rfl⟩
  obtain ⟨res, hops', stats', hexchange, hholds, hres, time, rfl⟩ := hquery
  exact ⟨res, hops', time, hexchange, hholds, hres⟩

/-- The statistics that a client gets are those of the last server. -/
theorem ChainHolds.getStats (h : ChainHolds (n + 1) m stats hops) :
    ∃ (res : MessageT) (hops' : List Hop),
      (Link.toTail size clock n).exchange statsRequest hops = (some res, hops') ∧
        ChainHolds (n + 1) m stats hops' ∧
        statsResult (some res) =
          .ok (some ⟨stats.nClientes, stats.nOperacoes, stats.totalTime⟩) := by
  have hquery : ∃ (res : MessageT) (hops' : List Hop) (stats' : Statistics),
      (Link.toTail size clock n).exchange statsRequest hops = (some res, hops') ∧
        ChainHolds (n + 1) m stats' hops' ∧ stats' = stats ∧
        statsResult (some res) = .ok (some ⟨stats.nClientes, stats.nOperacoes, stats.totalTime⟩) :=
    h.query size clock fun hop holds hstats => by
      obtain ⟨res, sent, hexchange, hres⟩ := exchange_stats holds.ready hstats
      exact ⟨res, sent, _, _, hexchange, ⟨holds.store, holds.stats, holds.ready.after _ _ _ _⟩, rfl,
        hstats, rfl, hres⟩
  obtain ⟨res, hops', stats', hexchange, hholds, rfl, hres⟩ := hquery
  exact ⟨res, hops', hexchange, hholds, hres⟩

end Tail

end ChainTable
