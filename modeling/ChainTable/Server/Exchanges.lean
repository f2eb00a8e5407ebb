-- SUMMARY: Connections are used in whole exchanges only, so a chain with nothing under way is left with nothing under way.
import ChainTable.Server.Bytes

open Base

/-!
# Whole exchanges

`invoke` and the stubs send and receive through `network_send_receive` alone. An exchange takes
off a connection what it has put there, on this connection and on those that the update is
forwarded over, as long as every request is answered.
-/

namespace ChainTable

open Calls

/-! ## Programs of exchanges -/

/-- The calls that a program makes on a connection. -/
def ServerCall.onConnection : ServerCall → Bool
  | .messageSendAll _ _ => true
  | .messageReceiveAll _ => true
  | .networkClose _ => true
  | _ => false

/-- Connections are used through `network_send_receive` only. -/
inductive Exchanging {α : Type} : Prog Calls α → Prop
  | ret (a : α) : Exchanging (.ret a)
  | call {op : ServerCall} {k : op.Res → Prog Calls α} (own : op.onConnection = false)
      (rest : ∀ r, Exchanging (k r)) : Exchanging (.call (S := Calls) op k)
  | exchange (rtable : Option Rtable) (msg : MessageT) {k : Option MessageT → Prog Calls α}
      (rest : ∀ res, Exchanging (k res)) : Exchanging (networkSendReceive rtable msg >>= k)

section Exchanging

variable {α β : Type}

theorem Exchanging.bind {p : Prog Calls α} {f : α → Prog Calls β} (hp : Exchanging p)
    (hf : ∀ a, Exchanging (f a)) : Exchanging (p >>= f) := by
  induction hp with
  | ret a => exact hf a
  | call own _ ih => exact .call own ih
  | exchange rtable msg _ ih =>
    rw [Prog.bind_assoc]
    exact .exchange rtable msg ih

theorem exchanging_call {op : ServerCall} (own : op.onConnection = false) : Exchanging (call op) :=
  .call own fun r => .ret r

theorem exchanging_memory (x : C α) : Exchanging (memory x) := by
  cases x with
  | ok a => exact .ret a
  | error f => exact .call rfl nofun

/-- What the calls and the exchanges keep is kept by the program, as long as it ends well. -/
theorem Exchanging.keeps {σ τ δ : Type} {h : Prog.Handler Calls σ Fault}
    {g : Prog.Handler Calls τ δ}
    {Good I : σ → Prop} {R : σ → τ → Prop} (href : Prog.Refines h g Good R)
    (hown : ∀ op s r s', op.onConnection = false → h op s = .ok (r, s') → I s → I s')
    (hexchange : ∀ rtable msg s res s', (networkSendReceive rtable msg).run h s = .ok (res, s') →
      Good s' → I s → I s')
    {p : Prog Calls α} (hp : Exchanging p) {s s' : σ} {a : α} (hrun : p.run h s = .ok (a, s'))
    (hgood : Good s') (hkept : I s) : I s' := by
  induction hp generalizing s with
  | ret b =>
    obtain ⟨rfl, rfl⟩ : b = a ∧ s = s' := by simpa using hrun
    exact hkept
  | @call op k own rest ih =>
    cases hop : h op s with
    | error f =>
      rw [Prog.run_call_error hop] at hrun
      cases hrun
    | ok rs =>
      rw [Prog.run_call_ok hop] at hrun
      exact ih rs.1 hrun (hown op s rs.1 rs.2 own hop hkept)
  | exchange rtable msg rest ih =>
    rw [Prog.run_bind] at hrun
    obtain ⟨⟨res, s₁⟩, hfirst, hrest⟩ := C.bind_eq_ok hrun
    have hgood₁ : Good s₁ := (href.run hrest hgood).1
    exact ih res hrest (hexchange rtable msg s res s₁ hfirst hgood₁ hkept)

end Exchanging

/-! ## The stubs -/

section Stubs

variable (rtable : Option Rtable)

theorem exchanging_rtablePut (entry : Entry) : Exchanging (rtablePut rtable entry) := by
  unfold rtablePut
  split_ifs
  · exact .ret _
  · refine (exchanging_memory _).bind fun key => (exchanging_memory _).bind fun value => ?_
    exact (exchanging_memory _).bind fun value => .exchange rtable _ fun res => .ret _

theorem exchanging_rtableDel (key : CString) : Exchanging (rtableDel rtable key) :=
  .exchange rtable _ fun _ => .ret _

theorem exchanging_rtableSize : Exchanging (rtableSize rtable) := by
  unfold rtableSize
  split_ifs
  · exact .ret _
  · exact .exchange rtable _ fun res => .ret _

/-- A stub that decodes the response. -/
theorem exchanging_decode {α : Type} (msg : MessageT) (decode : Option MessageT → C (Option α)) :
    Exchanging (if rtable = none then .ret none
      else networkSendReceive rtable msg >>= fun res => memory (decode res)) := by
  split_ifs
  · exact .ret _
  · exact .exchange rtable msg fun res => exchanging_memory _

end Stubs

/-! ## invoke -/

section Invoke

variable {α : Type}

theorem exchanging_change (field : StatField) (value : Int → Int) :
    Exchanging (do
      call (.enterWrite .stats)
      let current ← call (.loadStat field)
      call (.storeStat field (value current))
      call (.exitWrite .stats)) :=
  .call rfl fun _ => .call rfl fun _ => .call rfl fun _ => exchanging_call rfl

theorem exchanging_returnTime : Exchanging returnTime := .call rfl fun _ => .ret _

theorem exchanging_counted {body : Prog Calls α} (hbody : Exchanging body) :
    Exchanging (counted body) := by
  refine (exchanging_change .nOperacoes (· + 1)).bind fun _ =>
    exchanging_returnTime.bind fun start => ?_
  refine hbody.bind fun result => exchanging_returnTime.bind fun stop => ?_
  exact (exchanging_change .totalTime fun current => int32 (current + _)).bind fun _ => .ret _

theorem exchanging_readSection {body : Prog Calls α} (hbody : Exchanging body) :
    Exchanging (readSection body) :=
  .call rfl fun _ => (exchanging_counted hbody).bind fun _ => .call rfl fun _ => .ret _

theorem exchanging_writeSection {body : Prog Calls α} (hbody : Exchanging body) :
    Exchanging (writeSection body) :=
  .call rfl fun _ => (exchanging_counted hbody).bind fun _ => .call rfl fun _ => .ret _

theorem exchanging_forwardUpdate {stub : Option Rtable → Prog Calls Int}
    (hstub : ∀ rtable, Exchanging (stub rtable)) :
    Exchanging (forwardUpdate stub) := by
  unfold forwardUpdate
  refine (exchanging_call rfl).bind fun path => ?_
  split_ifs
  · exact .call rfl fun rtable => (hstub rtable).bind fun _ => .ret _
  · exact .ret _

theorem exchanging_invokePut (msg : MessageT) : Exchanging (invokePut msg) := by
  unfold invokePut
  refine (exchanging_memory _).bind fun entry => (exchanging_memory _).bind fun v => ?_
  refine (exchanging_memory _).bind fun dupKey => ?_
  dsimp only
  split
  · refine (exchanging_writeSection (.call rfl fun res => ?_)).bind fun res => ?_
    · exact (exchanging_forwardUpdate fun rtable =>
        exchanging_rtablePut rtable _).bind fun _ => .ret _
    · split_ifs <;> exact .ret _
  · exact .ret _

theorem exchanging_invokeGet (msg : MessageT) : Exchanging (invokeGet msg) := by
  unfold invokeGet
  split
  · exact .ret _
  · refine (exchanging_readSection (exchanging_call rfl)).bind fun gotten => ?_
    cases gotten with
    | none => exact .ret _
    | some value => exact (exchanging_memory _).bind fun value => .ret _

theorem exchanging_invokeDel (msg : MessageT) : Exchanging (invokeDel msg) := by
  unfold invokeDel
  split
  · exact .ret _
  · refine (exchanging_writeSection (.call rfl fun res => ?_)).bind fun res => ?_
    · exact (exchanging_forwardUpdate fun rtable =>
        exchanging_rtableDel rtable _).bind fun _ => .ret _
    · split_ifs <;> exact .ret _

theorem exchanging_invokeSize (msg : MessageT) : Exchanging (invokeSize msg) := by
  refine (exchanging_readSection (exchanging_call rfl)).bind fun res => ?_
  split_ifs <;> exact .ret _

theorem exchanging_invokeGetkeys (msg : MessageT) : Exchanging (invokeGetkeys msg) :=
  (exchanging_readSection (exchanging_call rfl)).bind fun _ => .call rfl fun _ => .ret _

theorem exchanging_invokeGettable (msg : MessageT) : Exchanging (invokeGettable msg) :=
  (exchanging_readSection (exchanging_call rfl)).bind fun _ =>
    .call rfl fun _ => (exchanging_memory _).bind fun _ => .ret _

theorem exchanging_invokeStats (msg : MessageT) : Exchanging (invokeStats msg) := by
  refine .call rfl fun _ => .call rfl fun hasStats => ?_
  cases hasStats with
  | false => exact .call rfl fun _ => .ret _
  | true =>
    exact .call rfl fun nClientes => .call rfl fun nOperacoes => .call rfl fun totalTime =>
      .call rfl fun _ => .ret _

theorem exchanging_invoke (msg : MessageT) : Exchanging (invoke msg) := by
  have hcase := dispatched msg
  unfold invoke
  generalize dispatch msg = handler at hcase ⊢
  refine Exchanging.bind ?_ fun result => .ret _
  cases hcase with
  | put _ => exact exchanging_invokePut msg
  | get _ => exact exchanging_invokeGet msg
  | del _ => exact exchanging_invokeDel msg
  | size _ => exact exchanging_invokeSize msg
  | getkeys _ => exact exchanging_invokeGetkeys msg
  | gettable _ => exact exchanging_invokeGettable msg
  | stats _ => exact exchanging_invokeStats msg
  | unknown _ => exact .ret _

end Invoke

/-! ## Quiet chains -/

/-- Nothing is under way on any connection of the chain. -/
def Quiet (hops : List Hop) : Prop := ∀ hop ∈ hops, hop.Ready

@[simp] theorem quiet_cons {hop : Hop} {hops : List Hop} :
    Quiet (hop :: hops) ↔ hop.Ready ∧ Quiet hops :=
  List.forall_mem_cons

/-- An exchange on the connection leaves nothing under way, as long as all is carried. -/
def Link.Settles (pb : Protobuf) (link : Link (List Hop)) : Prop :=
  ∀ msg hops, Quiet hops → Carried pb (link.exchange msg hops).2 → Quiet (link.exchange msg hops).2

section Settles

variable {pb : Protobuf} {peer : Peer} {clock : ℕ → Timeval} {link next : Link (List Hop)}
  {net : Prog.Handler Calls (List WireHop) Fault}

/-- What an exchange leaves has been carried when it was sent. -/
theorem carried_send (href : Prog.Refines link.handler net (Carried pb) (ChainMatches pb))
    {msg : MessageT} {hops : List Hop} (h : Carried pb (link.exchange msg hops).2) :
    Carried pb (link.send msg hops).2 := by
  have hclose : ∀ {hops : List Hop}, Carried pb (link.close hops) → Carried pb hops := fun hgood =>
    (href (.networkClose ⟨.empty, false⟩) _ () _ rfl hgood).1
  have hreceive : ∀ {hops : List Hop}, Carried pb (link.receive hops).2 →
    Carried pb hops := fun hgood =>
    (href (.messageReceiveAll ⟨.empty, false⟩) _ _ _ rfl hgood).1
  unfold Link.exchange at h
  dsimp only at h
  split_ifs at h
  · exact hclose h
  · exact hreceive (hclose h)
  · exact hreceive h

/-- A call of the server itself does nothing to what is behind it. -/
theorem alone_own {op : ServerCall} (hown : op.onConnection = false) {server server' : ServerState}
    {hops hops' : List Hop} {r : op.Res}
    (h : alone clock link op (server, hops) = .ok (r, (server', hops'))) : hops' = hops := by
  cases op with
  | messageSendAll rtable msg | messageReceiveAll rtable | networkClose rtable => cases hown
  | fault f => exact r.elim
  | enterRead lock | exitRead lock | enterWrite lock | exitWrite lock
  | hasGlobalStats | gettimeofday | tableSize
  | nextServerNodePath | nextServerRtable =>
    cases h
    rfl
  | _ =>
    obtain ⟨_, -, h⟩ := C.bind_eq_ok h
    cases h
    rfl

/-- A server that answers a request leaves the chain behind it quiet. -/
theorem serve_settles (href : Prog.Refines next.handler net (Carried pb) (ChainMatches pb))
    (hnext : next.Settles pb) {msg res : MessageT} {server server' : ServerState}
      {hops hops' : List Hop}
    (hserve : serve clock next msg (server, hops) = (some res, (server', hops')))
      (hgood : Carried pb hops')
    (hquiet : Quiet hops) : Quiet hops' := by
  obtain ⟨ret, hrun, -⟩ := serve_eq_some hserve
  have halone := callsOver_refines clock href
  rw [← alone_eq_callsOver] at halone
  refine (exchanging_invoke msg).keeps (I := fun s => Quiet s.2) halone ?_ ?_ hrun hgood hquiet
  · rintro op ⟨server, hops⟩ r ⟨server', hops'⟩ hown hop hquiet
    rwa [alone_own hown hop]
  · rintro rtable request ⟨server, hops⟩ received ⟨server', hops'⟩ hrun hgood hquiet
    rcases rtable with _ | rtable
    · cases hrun
    · cases hreleased : rtable.released with
      | true =>
        rw [networkSendReceive_released clock next hreleased] at hrun
        cases hrun
      | false =>
        rw [networkSendReceive_run clock next hreleased] at hrun
        cases hrun
        exact hnext request hops hquiet hgood

theorem over_settles (href : Prog.Refines next.handler net (Carried pb) (ChainMatches pb))
    (hnext : next.Settles pb) : (Link.over pb.size clock peer next).Settles pb := by
  intro msg hops hquiet hcarried
  have hsent := carried_send (over_refines href) hcarried
  cases hops with
  | nil => exact nofun
  | cons hop hops =>
    obtain ⟨hready, hrest⟩ := quiet_cons.1 hquiet
    obtain ⟨hreplies, hopen⟩ := hready peer
    cases hmsg : msg.unpacked with
    | error f =>
      simp only [Link.over, hopen, if_true, hmsg] at hsent
      exact absurd (carried_cons.1 hsent).1 (Hop.not_carried_refuse msg)
    | ok arrived =>
      rcases hserve : serve clock next arrived (hop.server, hops) with ⟨res, server', hops'⟩
      have hsend : (Link.over pb.size clock peer next).send msg (hop :: hops) =
          (2 + (pb.size msg : Int),
            hop.set peer server' ((hop.traffic peer).serve msg res) :: hops') := by
        simp only [Link.over, hopen, if_true, hmsg, hserve]
      rw [hsend] at hsent
      obtain ⟨hhop, hhops⟩ := carried_cons.1 hsent
      obtain ⟨-, -, response, rfl, -, reply, hreply, -⟩ := hhop.last
      -- the response is the only one on its way, and is received
      have hserved : (hop.traffic peer).serve msg (some response) =
          ⟨[reply], (hop.traffic peer).exchanged ++ [(msg, some response)], true⟩ := by
        rw [Traffic.serve, hreplies, Option.bind_some, hreply, hopen]
        rfl
      have hexchange : (Link.over pb.size clock peer next).exchange msg (hop :: hops) =
          (some reply, hop.after peer server' msg response :: hops') := by
        rw [Link.exchange_eq_some, hsend, hserved]
        refine ⟨⟨by omega, by omega⟩, ?_⟩
        simp only [Link.over, Hop.traffic_set, if_true, Hop.set_set]
        rfl
      rw [hexchange]
      exact quiet_cons.2 ⟨hready.after peer server' msg response,
        serve_settles href hnext hserve hhops hrest⟩

end Settles

section Chain

variable {pb : Protobuf} (clock : ℕ → ℕ → Timeval)

theorem nowhere_settles : Link.nowhere.Settles pb := fun _ _ hquiet _ => hquiet

theorem behind_settles {link : Link (List Hop)} (h : link.Settles pb) : link.behind.Settles pb := by
  intro msg hops hquiet hcarried
  cases hops with
  | nil => exact nofun
  | cons hop hops =>
    obtain ⟨hready, hrest⟩ := quiet_cons.1 hquiet
    have hexchange : (link.behind.exchange msg (hop :: hops)).2 =
      hop :: (link.exchange msg hops).2 := by
      by_cases hsent : (link.send msg hops).1 = -1 ∨ (link.send msg hops).1 = 0
      · simp only [Link.exchange, Link.behind, hsent, if_true]
      · by_cases hreceived : (link.receive (link.send msg hops).2).1.2 = true ∨
            (link.receive (link.send msg hops).2).1.1 = none
        · simp only [Link.exchange, Link.behind, hsent, hreceived, if_false, if_true]
        · simp only [Link.exchange, Link.behind, hsent, hreceived, if_false]
    rw [hexchange] at hcarried ⊢
    exact quiet_cons.2 ⟨hready, h msg hops hrest (carried_cons.1 hcarried).2⟩

theorem chain_settles (k : ℕ) : (Link.toChain pb.size clock k).Settles pb := by
  induction k with
  | zero => exact nowhere_settles
  | succ k ih => exact over_settles (chain_refines clock k) ih

theorem tail_settles (k : ℕ) : (Link.toTail pb.size clock k).Settles pb := by
  induction k with
  | zero => exact over_settles nowhere_refines nowhere_settles
  | succ k ih => exact behind_settles ih

end Chain

/-- The streams that match a quiet chain are empty and open. -/
theorem ChainMatches.eq_of_quiet {pb : Protobuf} {hops : List Hop} {ws : List WireHop}
    (h : ChainMatches pb hops ws) (hquiet : Quiet hops) : ws = hops.map WireHop.quiet := by
  induction h with
  | nil => rfl
  | @cons hop w hops ws hmatch _ ih =>
    obtain ⟨hready, hrest⟩ := quiet_cons.1 hquiet
    obtain ⟨server, streams⟩ := w
    obtain ⟨hserver, hstreams⟩ := hmatch
    rw [List.map_cons, ← ih hrest, WireHop.quiet]
    congr 2
    funext peer
    obtain ⟨hrequests, ⟨sent, hresponses, hsent⟩, hopen, hserved⟩ := hstreams peer
    obtain ⟨hreplies, hopened⟩ := hready peer
    rw [hreplies] at hsent
    cases hsent
    rw [hopened] at hopen
    dsimp only at hrequests hresponses hopen hserved
    rcases hc : streams peer with ⟨requests, responses, isOpen, isServed⟩
    rw [hc] at hrequests hresponses hopen hserved
    exact congr (congr (congr (congrArg Streams.mk hrequests) hresponses) hopen) hserved

end ChainTable
