-- SUMMARY: The connections to a chain as streams of bytes, which carry what its connections of messages exchange.
import ChainTable.Server.Conversation
import ChainTable.Server.Serving
import ChainTable.Wire.Streams

open Base

/-!
# A chain on streams of bytes

A request is written as a frame, the thread of the connection reads it, and its response comes
back as a frame. The thread runs `serve_conn` with `network_receive` and `network_send` over its
end of the two streams. As long as every message fits the one packet that a frame can have, the
connections do what the connections of messages in `ChainTable.Server.Serving` do.
-/

namespace ChainTable

open Calls

/-! ## Streams -/

/-- A connection to a server: the requests that its thread has not read, the responses that the
    peer has not read, and whether the two ends are open. -/
structure Streams where
  requests : Bytes
  responses : Bytes
  isOpen : Bool
  isServed : Bool

/-- A server with the streams of the connections to it. -/
structure WireHop where
  server : ServerState
  streams : Peer → Streams

namespace WireHop

def set (w : WireHop) (peer : Peer) (server : ServerState) (c : Streams) : WireHop :=
  ⟨server, Function.update w.streams peer c⟩

@[simp] theorem server_set (w : WireHop) (peer : Peer) (server : ServerState) (c : Streams) :
    (w.set peer server c).server = server := rfl

@[simp] theorem streams_set (w : WireHop) (peer : Peer) (server : ServerState) (c : Streams) :
    (w.set peer server c).streams peer = c := Function.update_self _ _ _

theorem streams_set_of_ne {peer peer' : Peer} (h : peer' ≠ peer) (w : WireHop)
    (server : ServerState)
    (c : Streams) : (w.set peer server c).streams peer' = w.streams peer' :=
  Function.update_of_ne h _ _

@[simp] theorem set_server (w : WireHop) (peer : Peer) (server server' : ServerState)
    (c : Streams) :
    ⟨server', (w.set peer server c).streams⟩ = w.set peer server' c := rfl

@[simp] theorem set_set (w : WireHop) (peer : Peer) (server server' : ServerState)
    (c c' : Streams) :
    (w.set peer server c).set peer server' c' = w.set peer server' c' := by
  simp [set]

end WireHop

/-- A function of message.c on a stream. -/
def onStream {α : Type} (pb : Protobuf) (p : Prog Socket α) (stream : Bytes) : C (α × Bytes) :=
  match p.run (reliable pb) ⟨stream, []⟩ with
  | .ok (a, c) => .ok (a, c.stream)
  | .error (f, _) => .error f

/-! ## The two ends of a connection -/

/-- The calls of `invoke`, with those on the next server over its connection. -/
def callsOver {τ : Type} (clock : ℕ → Timeval) (next : Prog.Handler Calls τ Fault) :
    Prog.Handler Calls (ServerState × τ) Fault
  | .messageSendAll rtable msg, s => do
    let (sent, t) ← next (.messageSendAll rtable msg) s.2
    return (sent, (s.1, t))
  | .messageReceiveAll rtable, s => do
    let (received, t) ← next (.messageReceiveAll rtable) s.2
    return (received, (s.1, t))
  | .networkClose rtable, s => do
    let (_, t) ← next (.networkClose rtable) s.2
    return ((), (s.1, t))
  | op, s => do
    let (r, (server, ())) ← alone clock .broken op (s.1, ())
    return (r, (server, s.2))

section Ends

variable (pb : Protobuf) (peer : Peer) (clock : ℕ → Timeval)
    (next : Prog.Handler Calls (List WireHop) Fault)

/-- The calls of the thread of the connection. -/
def threadOn : Prog.Handler Conn (WireHop × List WireHop) Fault
  | .server op, (hop, hops) => do
    let (r, (server, hops)) ← callsOver clock next op (hop.server, hops)
    return (r, ({ hop with server := server }, hops))
  | .terminated, s => .ok (false, s)
  | .networkReceive, (hop, hops) =>
    if (hop.streams peer).isServed then do
      let ((msg, _), requests) ← onStream pb messageReceiveAll (hop.streams peer).requests
      return (msg, (hop.set peer hop.server { hop.streams peer with requests := requests }, hops))
    else return (none, (hop, hops))
  | .networkSend msg, (hop, hops) =>
    if (hop.streams peer).isServed then do
      let (sent, responses) ← onStream pb (messageSendAll pb msg) (hop.streams peer).responses
      return (sent, (hop.set peer hop.server { hop.streams peer with responses := responses }, hops))
    else return (-1, (hop, hops))
  | .close, (hop, hops) =>
    .ok ((), (hop.set peer hop.server { hop.streams peer with isServed := false }, hops))

/-- What the thread does when there is a request: a round, and what follows the loop when the
    round has failed. -/
def answer (s : WireHop × List WireHop) : C (WireHop × List WireHop) := do
  let (processingError, s) ← serveRound.run (threadOn pb peer clock next) s
  if processingError then do
    let (_, s) ← ServeConn.leave.prog.run (threadOn pb peer clock next) s
    return s
  else return s

/-- The calls of the peer on the connection. -/
def wired : Prog.Handler Calls (List WireHop) Fault
  | .messageSendAll _ msg, hop :: hops =>
    if (hop.streams peer).isOpen then do
      let (sent, requests) ← onStream pb (messageSendAll pb msg) (hop.streams peer).requests
      let hop := hop.set peer hop.server { hop.streams peer with requests := requests }
      if (hop.streams peer).isServed then do
        let (hop, hops) ← answer pb peer clock next (hop, hops)
        return (sent, hop :: hops)
      else return (sent, hop :: hops)
    else return (-1, hop :: hops)
  | .messageReceiveAll _, hop :: hops =>
    if (hop.streams peer).isOpen then do
      let (received, responses) ← onStream pb messageReceiveAll (hop.streams peer).responses
      return (received,
        hop.set peer hop.server { hop.streams peer with responses := responses } :: hops)
    else return ((none, false), hop :: hops)
  | .networkClose _, hop :: hops =>
    .ok ((), hop.set peer hop.server { hop.streams peer with isOpen := false } :: hops)
  | op, hops => Link.nowhere.handler op hops

end Ends

/-- A connection past the first server. -/
def wiredBehind (h : Prog.Handler Calls (List WireHop) Fault) :
    Prog.Handler Calls (List WireHop) Fault
  | op, hop :: hops => do
    let (r, hops) ← h op hops
    return (r, hop :: hops)
  | op, [] => Link.nowhere.handler op []

section Chain

variable (pb : Protobuf) (clock : ℕ → ℕ → Timeval)

/-- The connection to the first of `k` servers, each connected to the next. -/
def wiredChain : ℕ → Prog.Handler Calls (List WireHop) Fault
  | 0 => Link.nowhere.handler
  | k + 1 => wired pb .front (clock k) (wiredChain k)

/-- The connection of a client to the last of `k + 1` servers. -/
def wiredTail : ℕ → Prog.Handler Calls (List WireHop) Fault
  | 0 => wired pb .client (clock 0) Link.nowhere.handler
  | k + 1 => wiredBehind (wiredTail k)

end Chain

/-! ## What is carried -/

/-- `message_t__get_packed_size` -/
def Protobuf.size (pb : Protobuf) (msg : MessageT) : ℕ := (pb.pack msg).length

/-- The message fits one packet, and what is unpacked at the other end is what was packed. -/
def Protobuf.Carries (pb : Protobuf) (msg : MessageT) : Prop :=
  (pb.pack msg).length ≤ maxMsg ∧
    ∃ arrived, msg.unpacked = .ok arrived ∧ pb.unpack (pb.pack msg) = some arrived

/-- Every request that has gone over a connection to the server had its response, and both were
    carried. -/
def Hop.Carried (pb : Protobuf) (hop : Hop) : Prop :=
  ∀ peer, ∀ e ∈ (hop.traffic peer).exchanged, pb.Carries e.1 ∧ ∃ res ∈ e.2, pb.Carries res

def Carried (pb : Protobuf) (hops : List Hop) : Prop := ∀ hop ∈ hops, hop.Carried pb

/-- The responses on their way back are the frames on the stream. -/
structure Streams.Matches (pb : Protobuf) (c : Traffic) (w : Streams) : Prop where
  requests : w.requests = []
  responses : ∃ sent, w.responses = frames pb sent ∧
    List.Forall₂ (fun res reply => (pb.pack res).length ≤ maxMsg ∧
      pb.unpack (pb.pack res) = some reply)
      sent c.replies
  isOpen : w.isOpen = c.isOpen
  isServed : w.isServed = true

structure Hop.Matches (pb : Protobuf) (hop : Hop) (w : WireHop) : Prop where
  server : w.server = hop.server
  streams : ∀ peer, (w.streams peer).Matches pb (hop.traffic peer)

/-- The chains are in the same state. -/
abbrev ChainMatches (pb : Protobuf) : List Hop → List WireHop → Prop :=
  List.Forall₂ (Hop.Matches pb)

/-- The streams of a server with nothing under way. -/
def WireHop.quiet (hop : Hop) : WireHop := ⟨hop.server, fun _ => ⟨[], [], true, true⟩⟩

theorem ChainMatches.of_ready {pb : Protobuf} {hops : List Hop} (h : ∀ hop ∈ hops, hop.Ready) :
    ChainMatches pb hops (hops.map WireHop.quiet) := by
  refine List.forall₂_map_right_iff.2 (List.forall₂_same.2 fun hop hmem => ⟨rfl, fun peer => ?_⟩)
  obtain ⟨hreplies, hopen⟩ := h hop hmem peer
  exact ⟨rfl, ⟨[], rfl, by rw [hreplies]; exact .nil⟩, hopen.symm, rfl⟩

section Stream

variable {pb : Protobuf} {msg : MessageT} {stream packed rest : Bytes}

theorem onStream_send (hfits : (pb.pack msg).length ≤ maxMsg) (stream : Bytes) :
    onStream pb (messageSendAll pb msg) stream =
      .ok (2 + ((pb.pack msg).length : Int), stream ++ frame (pb.pack msg)) := by
  have hrun := messageSendAll_run (lt_of_le_of_lt hfits (by decide)) ⟨stream, []⟩
  rw [if_pos hfits] at hrun
  rw [onStream, hrun]

theorem onStream_receive (hfits : packed.length ≤ maxMsg) (rest : Bytes) :
    onStream pb messageReceiveAll (frame packed ++ rest) =
      .ok ((pb.unpack packed, false), rest) := by
  have hrun := messageReceiveAll_run pb packed rest [] (lt_of_le_of_lt hfits (by decide))
  rw [if_pos hfits] at hrun
  rw [onStream, hrun]

theorem onStream_nothing (pb : Protobuf) : onStream pb messageReceiveAll [] =
    .ok ((none, true), []) := by
  rw [onStream, messageReceiveAll_nothing]

theorem frames_cons (pb : Protobuf) (msg : MessageT) (msgs : List MessageT) :
    frames pb (msg :: msgs) = frame (pb.pack msg) ++ frames pb msgs := rfl

theorem frames_concat (pb : Protobuf) (msgs : List MessageT) (msg : MessageT) :
    frames pb (msgs ++ [msg]) = frames pb msgs ++ frame (pb.pack msg) := by
  simp [frames]

end Stream

section Carried

variable {pb : Protobuf} {hop : Hop} {hops : List Hop} {peer : Peer}
    {server : ServerState} {c : Traffic}

@[simp] theorem carried_cons : Carried pb (hop :: hops) ↔ hop.Carried pb ∧ Carried pb hops :=
  List.forall_mem_cons

/-- More has gone over the connections than before. -/
theorem Hop.Carried.of_set (h : (hop.set peer server c).Carried pb)
    (hmore : (hop.traffic peer).exchanged ⊆ c.exchanged) : hop.Carried pb := by
  intro peer' e he
  by_cases hpeer : peer' = peer
  · subst hpeer
    have hcarried := h peer' e
    rw [Hop.traffic_set] at hcarried
    exact hcarried (hmore he)
  · have hcarried := h peer' e
    rw [Hop.traffic_set_of_ne hpeer] at hcarried
    exact hcarried he

/-- The last request was carried. -/
theorem Hop.Carried.last {msg : MessageT} {res : Option MessageT}
    (h : (hop.set peer server ((hop.traffic peer).serve msg res)).Carried pb) :
    hop.Carried pb ∧ pb.Carries msg ∧ ∃ response, res = some response ∧ pb.Carries response := by
  have hlast := h peer (msg, res)
  rw [Hop.traffic_set] at hlast
  obtain ⟨hmsg, response, hres, hresponse⟩ := hlast (List.mem_append_right _ List.mem_cons_self)
  exact ⟨h.of_set (List.subset_append_left _ _), hmsg, response, hres, hresponse⟩

theorem Hop.not_carried_refuse (msg : MessageT) : ¬ (hop.refuse peer msg).Carried pb := by
  intro h
  obtain ⟨-, -, _, hres, -⟩ := Hop.Carried.last h
  cases hres

/-- A response is on its way on the stream. -/
theorem Streams.Matches.serve {w : Streams} (h : w.Matches pb c) (msg : MessageT)
    {res reply : MessageT}
    (hreply : res.unpacked = .ok reply) (hfits : (pb.pack res).length ≤ maxMsg)
    (hunpack : pb.unpack (pb.pack res) = some reply) :
    Streams.Matches pb (c.serve msg (some res))
      { w with requests := [], responses := w.responses ++ frame (pb.pack res) } := by
  obtain ⟨-, ⟨sent, hresponses, hsent⟩, hopen, hserved⟩ := h
  refine ⟨rfl, ⟨sent ++ [res], ?_, ?_⟩, hopen, hserved⟩
  · rw [hresponses, frames_concat]
  · simp only [Traffic.serve, Option.bind_some, hreply]
    exact List.rel_append hsent (.cons ⟨hfits, hunpack⟩ .nil)

/-- One connection has changed in the same way in both. -/
theorem Hop.Matches.set {w : WireHop} (h : hop.Matches pb w) (peer : Peer) (server : ServerState)
    {streams : Streams} (hstreams : streams.Matches pb c) :
    (hop.set peer server c).Matches pb (w.set peer server streams) := by
  refine ⟨rfl, fun peer' => ?_⟩
  by_cases hpeer : peer' = peer
  · subst hpeer
    rwa [Hop.traffic_set, WireHop.streams_set]
  · rw [Hop.traffic_set_of_ne hpeer, WireHop.streams_set_of_ne hpeer]
    exact h.streams peer'

end Carried

/-! ## Refinement -/

section Calls

variable {τ υ : Type} (clock : ℕ → Timeval)

theorem alone_eq_callsOver (link : Link τ) : alone clock link = callsOver clock link.handler := by
  funext op s
  cases op with
  | messageSendAll rtable msg | messageReceiveAll rtable | networkClose rtable => rfl
  | enterRead lock | exitRead lock | enterWrite lock | exitWrite lock
  | hasGlobalStats | gettimeofday | tableSize
  | nextServerNodePath | nextServerRtable | fault f => rfl
  | loadStat field | storeStat field value =>
    simp only [alone, callsOver]
    cases deref s.1.globalStats <;> rfl
  | tablePut key value =>
    simp only [alone, callsOver]
    cases tablePut s.1.table (some key) (some value) <;> rfl
  | tableGet key =>
    simp only [alone, callsOver]
    cases tableGet s.1.table (some key) <;> rfl
  | tableRemove key =>
    simp only [alone, callsOver]
    cases tableRemove s.1.table (some key) <;> rfl
  | tableGetKeys =>
    simp only [alone, callsOver]
    cases tableGetKeys s.1.table <;> rfl
  | tableGetEntries =>
    simp only [alone, callsOver]
    cases tableGetEntries s.1.table <;> rfl

/-- A server over one connection is a server over another that refines it. -/
theorem callsOver_refines {g : Prog.Handler Calls τ Fault} {h : Prog.Handler Calls υ Fault}
    {Good : τ → Prop}
    {R : τ → υ → Prop} (href : Prog.Refines g h Good R) :
    Prog.Refines (callsOver clock g) (callsOver clock h) (fun s => Good s.2)
      (fun s t => s.1 = t.1 ∧ R s.2 t.2) := by
  rintro op ⟨server, t⟩ r ⟨server', t'⟩ hop hgood
  -- a call on the connection
  have hremote : ∀ {op' : ServerCall} {r' : op'.Res}, g op' t = .ok (r', t') →
      Good t ∧ ∀ u, server = server ∧ R t u → ∃ u', h op' u = .ok (r', u') ∧ R t' u' := by
    intro op' r' hop'
    obtain ⟨hgood', hcall⟩ := href op' t r' t' hop' hgood
    exact ⟨hgood', fun u hR => hcall u hR.2⟩
  cases op with
  | messageSendAll rtable msg | messageReceiveAll rtable | networkClose rtable =>
    simp only [callsOver] at hop
    obtain ⟨⟨r', t₁⟩, hop', hop⟩ := C.bind_eq_ok hop
    cases hop
    obtain ⟨hgood', hcall⟩ := hremote hop'
    refine ⟨hgood', ?_⟩
    rintro ⟨server₁, u⟩ ⟨rfl, hR⟩
    obtain ⟨u', hop', hR'⟩ := hcall u ⟨rfl, hR⟩
    refine ⟨(_, u'), ?_, rfl, hR'⟩
    simp only [callsOver, hop', C.ok_bind, C.pure_eq]
  | _ =>
    obtain ⟨⟨r', server₁, _⟩, hop', hop⟩ := C.bind_eq_ok hop
    cases hop
    refine ⟨hgood, ?_⟩
    rintro ⟨server₁, u⟩ ⟨rfl, hR⟩
    refine ⟨(_, u), ?_, rfl, hR⟩
    simp only [callsOver, hop', C.ok_bind, C.pure_eq]

end Calls

/-- A connection is refined when its three calls are. -/
theorem Link.refines {τ υ : Type} {link : Link τ} {net : Prog.Handler Calls υ Fault}
    {Good : τ → Prop}
    {R : τ → υ → Prop}
    (hsend : ∀ rtable msg t, Good (link.send msg t).2 → Good t ∧ ∀ u, R t u →
      ∃ u', net (.messageSendAll rtable msg) u = .ok ((link.send msg t).1, u') ∧
        R (link.send msg t).2 u')
    (hreceive : ∀ rtable t, Good (link.receive t).2 → Good t ∧ ∀ u, R t u →
      ∃ u', net (.messageReceiveAll rtable) u = .ok ((link.receive t).1, u') ∧
        R (link.receive t).2 u')
    (hclose : ∀ rtable t, Good (link.close t) → Good t ∧ ∀ u, R t u →
      ∃ u', net (.networkClose rtable) u = .ok ((), u') ∧ R (link.close t) u') :
    Prog.Refines link.handler net Good R := by
  intro op t r t' hop hgood
  cases op with
  | messageSendAll rtable msg =>
    have hcall := hsend rtable msg t
    rw [show link.send msg t = (r, t') from Except.ok.inj hop] at hcall
    exact hcall hgood
  | messageReceiveAll rtable =>
    have hcall := hreceive rtable t
    rw [show link.receive t = (r, t') from Except.ok.inj hop] at hcall
    exact hcall hgood
  | networkClose rtable =>
    obtain rfl : link.close t = t' := congrArg Prod.snd (Except.ok.inj hop)
    exact hclose rtable t hgood
  | _ => cases hop

section Over

variable {pb : Protobuf} {peer : Peer} {clock : ℕ → Timeval} {next : Link (List Hop)}
  {net : Prog.Handler Calls (List WireHop) Fault}

theorem run_thread {α : Type} {op : ConnCall} {k : op.Res → Prog Conn α}
    {s : WireHop × List WireHop} :
    (conn op >>= k).run (threadOn pb peer clock net) s =
      threadOn pb peer clock net op s >>= fun rs =>
        (k rs.1).run (threadOn pb peer clock net) rs.2 := rfl

/-- A program of the server inside the thread acts on the server and on what is behind it. -/
theorem onServer_thread {α : Type} (p : Prog Calls α) (w : WireHop) (ws : List WireHop) :
    (onServer p).run (threadOn pb peer clock net) (w, ws) =
      p.run (callsOver clock net) (w.server, ws) >>= fun r =>
        .ok (r.1, ({ w with server := r.2.1 }, r.2.2)) := by
  induction p generalizing w ws with
  | ret a => rfl
  | call op k ih =>
    rw [onServer_call, Prog.run_call, Prog.run_call]
    cases hop : callsOver clock net op (w.server, ws) with
    | error f => simp [threadOn, hop]
    | ok rs =>
      simp only [threadOn, hop, C.ok_bind, C.pure_eq]
      exact ih rs.1 _ _

/-- A request is answered when `invoke` has executed it. -/
theorem serve_eq_some {τ : Type} {link : Link τ} {msg res : MessageT} {s s' : ServerState × τ}
    (h : serve clock link msg s = (some res, s')) :
    ∃ ret, (invoke msg).run (alone clock link) s = .ok ((res, ret), s') ∧ 0 ≤ ret := by
  rw [serve] at h
  split at h
  · rename_i response ret s₁ hrun
    obtain ⟨hres, rfl⟩ := Prod.mk.inj h
    by_cases hret : ret < 0
    · rw [if_pos hret] at hres
      cases hres
    · rw [if_neg hret, Option.some.injEq] at hres
      subst hres
      exact ⟨ret, hrun, not_lt.1 hret⟩
  · cases h

variable (peer) in
/-- The thread reads the request, and its response is a frame behind those that are there. -/
theorem answer_of_serve (hnext : Prog.Refines next.handler net (Carried pb) (ChainMatches pb))
    {msg arrived res : MessageT} {server server' : ServerState} {hops hops' : List Hop}
    (hserve : serve clock next arrived (server, hops) = (some res, (server', hops')))
    (hgood : Carried pb hops') (hmsg : (pb.pack msg).length ≤ maxMsg)
    (hunpack : pb.unpack (pb.pack msg) = some arrived) (hres : (pb.pack res).length ≤ maxMsg) :
    Carried pb hops ∧
      ∀ (w : WireHop) (c : Streams) (ws : List WireHop), c.requests = frame (pb.pack msg) →
      c.isServed = true → ChainMatches pb hops ws →
      ∃ ws', answer pb peer clock net (w.set peer server c, ws) =
          .ok (w.set peer server'
            { c with requests := [], responses := c.responses ++ frame (pb.pack res) }, ws') ∧
        ChainMatches pb hops' ws' := by
  obtain ⟨ret, hrun, hret⟩ := serve_eq_some hserve
  rw [alone_eq_callsOver] at hrun
  obtain ⟨hgood', hinvoke⟩ := (callsOver_refines clock hnext).run hrun hgood
  refine ⟨hgood', fun w c ws hrequests hserved hmatches => ?_⟩
  obtain ⟨⟨_, ws'⟩, hrun', rfl, hmatches'⟩ := hinvoke (server, ws) ⟨rfl, hmatches⟩
  refine ⟨ws', ?_, hmatches'⟩
  have hreceive := @onStream_receive pb _ hmsg []
  rw [List.append_nil, ← hrequests, hunpack] at hreceive
  have hsend := onStream_send hres c.responses
  have hround : serveRound.run (threadOn pb peer clock net) (w.set peer server c, ws) =
      .ok (false, (w.set peer server'
        { c with requests := [], responses := c.responses ++ frame (pb.pack res) }, ws')) := by
    have hpositive : ¬ 2 + ((pb.pack res).length : Int) ≤ 0 := by omega
    rw [serveRound, run_thread]
    simp only [threadOn, WireHop.streams_set, WireHop.set_set, WireHop.server_set, hserved,
      if_true, hreceive,
      C.ok_bind, C.pure_eq]
    rw [Prog.run_bind, onServer_thread, WireHop.server_set, hrun', C.ok_bind, C.ok_bind,
      if_neg (not_lt.2 hret),
      run_thread]
    simp only [threadOn, WireHop.set_server, WireHop.streams_set, WireHop.set_set, if_true, hsend,
      C.ok_bind, C.pure_eq]
    rw [if_neg hpositive]
    rfl
  rw [answer, hround]
  rfl

section Ends

variable {rtable : Rtable} {hops : List Hop}

theorem over_send (hnext : Prog.Refines next.handler net (Carried pb) (ChainMatches pb))
    {msg : MessageT}
    (hgood : Carried pb ((Link.over pb.size clock peer next).send msg hops).2) :
    Carried pb hops ∧ ∀ ws, ChainMatches pb hops ws →
      ∃ ws', wired pb peer clock net (.messageSendAll rtable msg) ws =
          .ok (((Link.over pb.size clock peer next).send msg hops).1, ws') ∧
        ChainMatches pb ((Link.over pb.size clock peer next).send msg hops).2 ws' := by
  cases hops with
  | nil =>
    refine ⟨hgood, fun ws hmatches => ?_⟩
    cases hmatches
    exact ⟨[], rfl, .nil⟩
  | cons hop hops =>
    cases hopen : (hop.traffic peer).isOpen with
    | false =>
      simp only [Link.over, hopen, Bool.false_eq_true, if_false] at hgood
      exact absurd (carried_cons.1 hgood).1 (Hop.not_carried_refuse msg)
    | true =>
      cases hmsg : msg.unpacked with
      | error f =>
        simp only [Link.over, hopen, if_true, hmsg] at hgood
        exact absurd (carried_cons.1 hgood).1 (Hop.not_carried_refuse msg)
      | ok arrived =>
        rcases hserve : serve clock next arrived (hop.server, hops) with ⟨res, server', hops'⟩
        simp only [Link.over, hopen, if_true, hmsg, hserve] at hgood ⊢
        obtain ⟨hhop, hhops⟩ := carried_cons.1 hgood
        obtain ⟨hcarried, ⟨hmsgFits, arrived', harrived, hunpack⟩, res, rfl, hresFits, reply,
          hreply, hresUnpack⟩ :=
          hhop.last
        obtain rfl := Except.ok.inj (hmsg.symm.trans harrived)
        obtain ⟨hcarried', hanswer⟩ :=
          answer_of_serve peer hnext hserve hhops hmsgFits hunpack hresFits
        refine ⟨carried_cons.2 ⟨hcarried, hcarried'⟩, fun ws hmatches => ?_⟩
        cases hmatches with
        | @cons _ w _ ws hmatch hrest =>
          obtain ⟨hserver, hstreams⟩ := hmatch
          obtain ⟨hrequests, hresponses, hopen', hserved⟩ := hstreams peer
          have hsend := onStream_send hmsgFits (w.streams peer).requests
          rw [hrequests, List.nil_append, ← hrequests] at hsend
          obtain ⟨ws', hanswered, hrest'⟩ := hanswer w
            { w.streams peer with requests := frame (pb.pack msg) } ws rfl hserved hrest
          refine ⟨_ :: ws', ?_, .cons (Hop.Matches.set ⟨hserver, hstreams⟩ peer server'
            (Streams.Matches.serve ⟨hrequests, hresponses, hopen', hserved⟩ msg hreply hresFits
              hresUnpack)) hrest'⟩
          rw [wired, if_pos (hopen'.trans hopen), hsend, C.ok_bind]
          dsimp only
          rw [WireHop.streams_set, if_pos hserved, hserver, hanswered]
          rfl

theorem over_receive {hops : List Hop}
    (hgood : Carried pb ((Link.over pb.size clock peer next).receive hops).2) :
    Carried pb hops ∧ ∀ ws, ChainMatches pb hops ws →
      ∃ ws', wired pb peer clock net (.messageReceiveAll rtable) ws =
          .ok (((Link.over pb.size clock peer next).receive hops).1, ws') ∧
        ChainMatches pb ((Link.over pb.size clock peer next).receive hops).2 ws' := by
  cases hops with
  | nil =>
    refine ⟨hgood, fun ws hmatches => ?_⟩
    cases hmatches
    exact ⟨[], rfl, .nil⟩
  | cons hop hops =>
    cases hopen : (hop.traffic peer).isOpen with
    | false =>
      simp only [Link.over, hopen, Bool.false_eq_true, if_false] at hgood ⊢
      refine ⟨hgood, fun ws hmatches => ?_⟩
      cases hmatches with
      | @cons _ w _ ws hhop hrest =>
        have hopen' := (hhop.streams peer).isOpen.trans hopen
        refine ⟨w :: ws, ?_, .cons hhop hrest⟩
        simp only [wired, hopen', Bool.false_eq_true, if_false, C.pure_eq]
    | true =>
      cases hreplies : (hop.traffic peer).replies with
      | nil =>
        simp only [Link.over, hopen, if_true, hreplies] at hgood ⊢
        refine ⟨hgood, fun ws hmatches => ?_⟩
        cases hmatches with
        | @cons _ w _ ws hmatch hrest =>
          obtain ⟨hrequests, ⟨sent, hresponses, hsent⟩, hopen', hserved⟩ := hmatch.streams peer
          rw [hreplies] at hsent
          cases hsent
          have hnothing : onStream pb messageReceiveAll (w.streams peer).responses =
            .ok ((none, true), []) := by
            rw [hresponses]
            exact onStream_nothing pb
          have hstreams :
            Streams.Matches pb (hop.traffic peer) { w.streams peer with responses := [] } :=
            ⟨hrequests, ⟨[], rfl, by rw [hreplies]; exact .nil⟩, hopen', hserved⟩
          have hsame := hmatch.set peer hop.server hstreams
          rw [Hop.set_self] at hsame
          refine ⟨_, ?_, .cons hsame hrest⟩
          rw [wired, if_pos (hopen'.trans hopen), hnothing, hmatch.server]
          rfl
      | cons reply replies =>
        simp only [Link.over, hopen, if_true, hreplies] at hgood ⊢
        obtain ⟨hhop, hhops⟩ := carried_cons.1 hgood
        refine ⟨carried_cons.2 ⟨hhop.of_set (List.Subset.refl _), hhops⟩, fun ws hmatches => ?_⟩
        cases hmatches with
        | @cons _ w _ ws hmatch hrest =>
          obtain ⟨hrequests, ⟨sent, hresponses, hsent⟩, hopen', hserved⟩ := hmatch.streams peer
          rw [hreplies] at hsent
          cases hsent with
          | @cons res _ sent _ hres hsent =>
            have hreceive : onStream pb messageReceiveAll (w.streams peer).responses =
                .ok ((some reply, false), frames pb sent) := by
              rw [hresponses, frames_cons, onStream_receive hres.1, hres.2]
            have hstreams : Streams.Matches pb { hop.traffic peer with replies := replies }
                { w.streams peer with responses := frames pb sent } :=
              ⟨hrequests, ⟨sent, rfl, hsent⟩, hopen', hserved⟩
            rw [← hopen]
            refine ⟨_, ?_, .cons (hmatch.set peer hop.server hstreams) hrest⟩
            rw [wired, if_pos (hopen'.trans hopen), hreceive, hmatch.server]
            rfl

theorem over_close {hops : List Hop}
    (hgood : Carried pb ((Link.over pb.size clock peer next).close hops)) :
    Carried pb hops ∧ ∀ ws, ChainMatches pb hops ws →
      ∃ ws', wired pb peer clock net (.networkClose rtable) ws = .ok ((), ws') ∧
        ChainMatches pb ((Link.over pb.size clock peer next).close hops) ws' := by
  cases hops with
  | nil =>
    refine ⟨hgood, fun ws hmatches => ?_⟩
    cases hmatches
    exact ⟨[], rfl, .nil⟩
  | cons hop hops =>
    simp only [Link.over] at hgood ⊢
    obtain ⟨hhop, hhops⟩ := carried_cons.1 hgood
    refine ⟨carried_cons.2 ⟨hhop.of_set (List.Subset.refl _), hhops⟩, fun ws hmatches => ?_⟩
    cases hmatches with
    | @cons _ w _ ws hmatch hrest =>
      have hstreams := hmatch.streams peer
      refine ⟨_, rfl, .cons ?_ hrest⟩
      rw [hmatch.server]
      exact hmatch.set peer _ ⟨hstreams.requests, hstreams.responses, rfl, hstreams.isServed⟩

end Ends

/-- What the streams of a connection carry is what the connection exchanges. -/
theorem over_refines (hnext : Prog.Refines next.handler net (Carried pb) (ChainMatches pb)) :
    Prog.Refines (Link.over pb.size clock peer next).handler (wired pb peer clock net) (Carried pb)
      (ChainMatches pb) :=
  Link.refines (fun _ _ _ => over_send hnext) (fun _ _ => over_receive) fun _ _ => over_close

end Over

section Chain

variable {pb : Protobuf} (clock : ℕ → ℕ → Timeval)

theorem nowhere_refines :
    Prog.Refines Link.nowhere.handler Link.nowhere.handler (Carried pb) (ChainMatches pb) :=
  Link.refines (fun _ _ _ hgood => ⟨hgood, fun ws hmatches => ⟨ws, rfl, hmatches⟩⟩)
    (fun _ _ hgood => ⟨hgood, fun ws hmatches => ⟨ws, rfl, hmatches⟩⟩)
    fun _ _ hgood => ⟨hgood, fun ws hmatches => ⟨ws, rfl, hmatches⟩⟩

/-- The first server has nothing to do with what goes on behind it. -/
theorem behind_refines {link : Link (List Hop)} {net : Prog.Handler Calls (List WireHop) Fault}
    (h : Prog.Refines link.handler net (Carried pb) (ChainMatches pb)) :
    Prog.Refines link.behind.handler (wiredBehind net) (Carried pb) (ChainMatches pb) := by
  -- one call past the first server
  have hbehind : ∀ {op : ServerCall} {r : op.Res} {hop : Hop} {hops hops' : List Hop},
      link.handler op hops = .ok (r, hops') → Carried pb (hop :: hops') →
        Carried pb (hop :: hops) ∧ ∀ ws, ChainMatches pb (hop :: hops) ws →
          ∃ ws', wiredBehind net op ws = .ok (r, ws') ∧ ChainMatches pb (hop :: hops') ws' := by
    intro op r hop hops hops' hcall hgood
    obtain ⟨hhop, hhops⟩ := carried_cons.1 hgood
    obtain ⟨hhops', hrest⟩ := h op hops r hops' hcall hhops
    refine ⟨carried_cons.2 ⟨hhop, hhops'⟩, fun ws hmatches => ?_⟩
    cases hmatches with
    | @cons _ w _ ws hmatch hmatches =>
      obtain ⟨ws', hcall', hmatches'⟩ := hrest ws hmatches
      refine ⟨w :: ws', ?_, .cons hmatch hmatches'⟩
      rw [wiredBehind, hcall']
      rfl
  have hnobody : ∀ {op : ServerCall} {r : op.Res},
    Link.nowhere.handler op ([] : List WireHop) = .ok (r, []) →
      ∀ ws, ChainMatches pb [] ws → ∃ ws', wiredBehind net op ws = .ok (r, ws') ∧
        ChainMatches pb [] ws' := by
    intro op r hcall ws hmatches
    cases hmatches
    exact ⟨[], hcall, .nil⟩
  refine Link.refines (fun rtable msg hops hgood => ?_)
    (fun rtable hops hgood => ?_) fun rtable hops hgood => ?_
  · cases hops with
    | nil => exact ⟨hgood, hnobody rfl⟩
    | cons hop hops => exact @hbehind (.messageSendAll rtable msg) _ _ _ _ rfl hgood
  · cases hops with
    | nil => exact ⟨hgood, hnobody rfl⟩
    | cons hop hops => exact @hbehind (.messageReceiveAll rtable) _ _ _ _ rfl hgood
  · cases hops with
    | nil => exact ⟨hgood, hnobody rfl⟩
    | cons hop hops => exact @hbehind (.networkClose rtable) _ _ _ _ rfl hgood

/-- The streams to a chain carry what its connection exchanges. -/
theorem chain_refines (k : ℕ) :
    Prog.Refines (Link.toChain pb.size clock k).handler (wiredChain pb clock k) (Carried pb)
      (ChainMatches pb) := by
  induction k with
  | zero => exact nowhere_refines
  | succ k ih => exact over_refines ih

theorem tail_refines (k : ℕ) :
    Prog.Refines (Link.toTail pb.size clock k).handler (wiredTail pb clock k) (Carried pb)
      (ChainMatches pb) := by
  induction k with
  | zero => exact over_refines nowhere_refines
  | succ k ih => exact behind_refines ih

end Chain

end ChainTable
