-- SUMMARY: Sessions of the client over streams of bytes: what is typed, sent, received and printed, from end to end.
import ChainTable.Server.Exchanges
import ChainTable.Zoo.Session

open Base

/-!
# Sessions on streams of bytes

The stubs of a session over connections of messages make the same calls as those of a session
over streams of bytes. What holds of the first is true of the second, as long as every message
that they exchange is carried.
-/

namespace ChainTable

open Calls

section Refinement

variable {τ υ : Type} {Good : τ → Prop} {R : τ → υ → Prop}

theorem connection_refines {g : Prog.Handler Calls τ Fault} {h : Prog.Handler Calls υ Fault}
    (href : Prog.Refines g h Good R) :
    Prog.Refines (connection g) (connection h) (fun s => Good s.1)
      (fun s t => s.2 = t.2 ∧ R s.1 t.1) := by
  rintro op ⟨t, connected⟩ r ⟨t', connected'⟩ hop hgood
  cases op with
  | _ =>
    obtain ⟨⟨r', t₁⟩, hop', hop⟩ := C.bind_eq_ok hop
    cases hop
    obtain ⟨hgood', hcall⟩ := href _ _ _ _ hop' hgood
    refine ⟨hgood', ?_⟩
    rintro ⟨u, connected⟩ ⟨rfl, hR⟩
    obtain ⟨u', hop', hR'⟩ := hcall u hR
    refine ⟨(u', _), ?_, rfl, hR'⟩
    simp only [connection, hop', C.ok_bind, C.pure_eq]

/-- The same session with something else behind its connections. -/
def Session.over (s : Session τ) (u : υ) : Session υ :=
  ⟨s.console, s.stdout, s.terminated, s.connected, s.connectedToZk, u⟩

variable {net : Role → Prog.Handler Calls (τ × Bool) Fault}
  {net' : Role → Prog.Handler Calls (υ × Bool) Fault}
  (href : ∀ role,
    Prog.Refines (net role) (net' role) (fun s => Good s.1) (fun s t => s.2 = t.2 ∧ R s.1 t.1))
  {rtable : Role → Option Rtable} {s s' : Session τ}

include href

theorem Session.round_refines (hround : s.round net rtable = .ok s') (hgood : Good s'.net) :
    Good s.net ∧ ∀ u, R s.net u →
      ∃ u', (s.over u).round net' rtable = .ok (s'.over u') ∧ R s'.net u' := by
  rw [round] at hround
  obtain ⟨⟨operation, result, console⟩, hparsed, hround⟩ := C.bind_eq_ok hround
  cases result with
  | stub op =>
    obtain ⟨⟨text, t, connected⟩, hrun, hround⟩ := C.bind_eq_ok hround
    cases hround
    obtain ⟨hgood', hcalls⟩ := (href op.role).run hrun hgood
    refine ⟨hgood', fun u hR => ?_⟩
    obtain ⟨⟨u', _⟩, hrun', rfl, hR'⟩ := hcalls (u, s.connected op.role) ⟨rfl, hR⟩
    refine ⟨u', ?_, hR'⟩
    have hparsed' : parsedCommand (s.over u).console = .ok (operation, .stub op, console) := hparsed
    have hrun'' : (op.print (rtable op.role)).run (net' op.role)
      ((s.over u).net, (s.over u).connected op.role) =
      .ok (text, (u', connected)) := hrun'
    simp only [round, printf, hparsed', C.ok_bind, hrun'', C.pure_eq]
    rfl
  | invalidArguments | invalidCommand | quit =>
    cases hround
    refine ⟨hgood, fun u hR => ⟨u, ?_, hR⟩⟩
    have hparsed' : parsedCommand (s.over u).console = .ok (operation, _, console) := hparsed
    simp only [round, printf, hparsed', C.ok_bind, C.pure_eq]
    rfl

theorem Session.loop_refines {n : ℕ} (hloop : s.loop net rtable n = .ok s') (hgood : Good s'.net) :
    Good s.net ∧ ∀ u, R s.net u →
      ∃ u', (s.over u).loop net' rtable n = .ok (s'.over u') ∧ R s'.net u' := by
  induction n generalizing s with
  | zero =>
    cases hloop
    exact ⟨hgood, fun u hR => ⟨u, rfl, hR⟩⟩
  | succ n ih =>
    cases hgoes : s.goesOn with
    | false =>
      rw [loop_of_ended hgoes] at hloop
      cases hloop
      refine ⟨hgood, fun u hR => ⟨u, ?_, hR⟩⟩
      have hgoes' : (s'.over u).goesOn = false := hgoes
      exact loop_of_ended hgoes' _
    | true =>
      rw [loop, if_pos hgoes] at hloop
      obtain ⟨s₁, hround, hloop⟩ := C.bind_eq_ok hloop
      obtain ⟨hgood₁, hrest⟩ := ih hloop
      obtain ⟨hgood₀, hfirst⟩ := round_refines href hround hgood₁
      refine ⟨hgood₀, fun u hR => ?_⟩
      obtain ⟨u₁, hround', hR₁⟩ := hfirst u hR
      obtain ⟨u', hloop', hR'⟩ := hrest u₁ hR₁
      have hgoes' : (s.over u).goesOn = true := hgoes
      exact ⟨u', (loop_succ hgoes' hround' n).trans hloop', hR'⟩

end Refinement

/-! ## A client of a chain -/

/-- The streams of the two connections of a client to a chain of `n + 1` servers. -/
def wiredLink (pb : Protobuf) (clock : ℕ → ℕ → Timeval) (n : ℕ) : Role →
    Prog.Handler Calls (List WireHop) Fault
  | .head => wiredChain pb clock (n + 1)
  | .tail => wiredTail pb clock n

theorem wiredLink_refines {pb : Protobuf} (clock : ℕ → ℕ → Timeval) (n : ℕ) (role : Role) :
    Prog.Refines (chainLink pb.size clock n role).handler (wiredLink pb clock n role) (Carried pb)
      (ChainMatches pb) := by
  cases role with
  | head => exact chain_refines clock (n + 1)
  | tail => exact tail_refines clock n

/-! ## Quiet sessions -/

theorem exchanging_print (rtable : Option Rtable) (op : StubOp) : Exchanging (op.print rtable) := by
  cases op with
  | put entry =>
    exact (exchanging_rtablePut rtable entry).bind fun _ =>
      (exchanging_memory _).bind fun _ => .ret _
  | get key => exact (exchanging_decode rtable _ getResult).bind fun data => exchanging_memory _
  | del key => exact (exchanging_rtableDel rtable key).bind fun _ => .ret _
  | size => exact (exchanging_rtableSize rtable).bind fun _ => .ret _
  | getKeys => exact (exchanging_decode rtable _ getKeysResult).bind fun keys => exchanging_memory _
  | getTable => exact (exchanging_decode rtable _ getTableResult).bind fun entries =>
      exchanging_memory _
  | stats => exact (exchanging_decode rtable _ statsResult).bind fun _ => .ret _

/-- What an exchange of the client leaves behind its connection. -/
theorem exchange_of_connection {τ : Type} {link : Link τ} {rtable : Option Rtable} {msg : MessageT}
    {t t' : τ} {connected connected' : Bool} {res : Option MessageT}
    (h : (networkSendReceive rtable msg).run (connection link.handler) (t, connected) =
      .ok (res, (t', connected'))) : t' = (link.exchange msg t).2 := by
  rcases rtable with _ | rtable
  · cases h
  cases hreleased : rtable.released with
  | true =>
    have hrtable : rtable.live = .error .useAfterFree := if_pos hreleased
    rw [networkSendReceive, deref_some, memory_ok, Prog.ret_bind, hrtable] at h
    cases h
  | false =>
    have hrtable : rtable.live = .ok rtable := Rtable.live_ok hreleased
    rw [networkSendReceive, deref_some, memory_ok, Prog.ret_bind, hrtable, memory_ok, Prog.ret_bind,
      call_bind, Prog.run_call] at h
    simp only [connection, Link.handler, C.ok_bind, C.pure_eq] at h
    rw [Link.exchange]
    by_cases herror : (link.send msg t).1 = -1
    · rw [if_pos herror] at h
      rw [if_pos (.inl herror)]
      cases h
      rfl
    · rw [if_neg herror] at h
      by_cases hgone : (link.send msg t).1 = 0
      · rw [if_pos hgone] at h
        rw [if_pos (.inr hgone)]
        cases h
        rfl
      · rw [if_neg hgone, call_bind, Prog.run_call] at h
        rw [if_neg (not_or.2 ⟨herror, hgone⟩)]
        simp only [connection, Link.handler, C.ok_bind, C.pure_eq] at h ⊢
        rcases hreceived : link.receive (link.send msg t).2 with ⟨⟨_ | received, _ | _⟩, t₁⟩
        all_goals
          rw [hreceived] at h
          cases h
          rfl

section Sessions

variable {pb : Protobuf} {clock : ℕ → ℕ → Timeval} {n : ℕ} {rtable : Role → Rtable}
    {s s' : Session (List Hop)}

theorem chainLink_settles (role : Role) : (chainLink pb.size clock n role).Settles pb := by
  cases role with
  | head => exact chain_settles clock (n + 1)
  | tail => exact tail_settles clock n

/-- A round leaves nothing under way, as long as its exchange is carried. -/
theorem Session.round_quiet
    (hround : s.round (fun role => connection (chainLink pb.size clock n role).handler)
      (fun role => some (rtable role)) = .ok s')
    (hcarried : Carried pb s'.net) (hquiet : Quiet s.net) : Quiet s'.net := by
  rw [round] at hround
  obtain ⟨⟨operation, result, console⟩, -, hround⟩ := C.bind_eq_ok hround
  cases result with
  | stub op =>
    obtain ⟨⟨text, hops, connected⟩, hrun, hround⟩ := C.bind_eq_ok hround
    cases hround
    refine (exchanging_print _ op).keeps (I := fun s => Quiet s.1)
      (connection_refines (wiredLink_refines clock n op.role)) ?_ ?_ hrun hcarried hquiet
    · rintro op ⟨hops, connected⟩ r ⟨hops', connected'⟩ hown hop hquiet
      -- the client makes no other call
      cases op with
      | messageSendAll rtable msg | messageReceiveAll rtable | networkClose rtable => cases hown
      | _ => cases hop
    · rintro rtable msg ⟨hops, connected⟩ res ⟨hops', connected'⟩ hrun hgood hquiet
      obtain rfl := exchange_of_connection hrun
      exact chainLink_settles _ msg hops hquiet hgood
  | invalidArguments | invalidCommand | quit =>
    cases hround
    exact hquiet

theorem Session.rounds_quiet {fuel : ℕ} (hrounds : s.rounds pb.size clock n rtable fuel = .ok s')
    (hcarried : Carried pb s'.net) (hquiet : Quiet s.net) : Quiet s'.net := by
  induction fuel generalizing s with
  | zero =>
    cases hrounds
    exact hquiet
  | succ fuel ih =>
    cases hgoes : s.goesOn with
    | false =>
      rw [Session.rounds, loop_of_ended hgoes] at hrounds
      cases hrounds
      exact hquiet
    | true =>
      rw [Session.rounds, loop, if_pos hgoes] at hrounds
      obtain ⟨s₁, hround, hrounds⟩ := C.bind_eq_ok hrounds
      have hcarried₁ : Carried pb s₁.net :=
        (loop_refines (fun role => connection_refines (wiredLink_refines clock n role))
          hrounds hcarried).1
      exact ih hrounds (round_quiet hround hcarried₁ hquiet)

end Sessions

/-! ## From end to end -/

/-- The session over streams of bytes, with nothing on any of them. -/
def Session.onStreams (s : Session (List Hop)) : Session (List WireHop) :=
  s.over (s.net.map WireHop.quiet)

/-- The loop over the streams of bytes to a chain. -/
abbrev Session.wiredRounds (pb : Protobuf) (clock : ℕ → ℕ → Timeval) (n : ℕ)
    (rtable : Role → Rtable) (fuel : ℕ)
    (s : Session (List WireHop)) : C (Session (List WireHop)) :=
  s.loop (fun role => connection (wiredLink pb clock n role)) (fun role => some (rtable role)) fuel

section EndToEnd

variable (pb : Protobuf) (clock : ℕ → ℕ → Timeval) {n : ℕ} {rtable : Role → Rtable}
    {s : Session (List Hop)}

/-- A session over streams of bytes does what it does over connections of messages, and leaves
    nothing on any stream, as long as each of its messages is carried. -/
theorem Session.carried {s' : Session (List Hop)} {fuel : ℕ} (hquiet : Quiet s.net)
    (hrounds : s.rounds pb.size clock n rtable fuel = .ok s') (hcarried : Carried pb s'.net) :
    s.onStreams.wiredRounds pb clock n rtable fuel = .ok s'.onStreams ∧ Quiet s'.net := by
  have hquiet' := rounds_quiet hrounds hcarried hquiet
  obtain ⟨ws', hloop, hmatches⟩ :=
    (loop_refines (fun role => connection_refines (wiredLink_refines clock n role))
    hrounds hcarried).2 _ (ChainMatches.of_ready hquiet)
  rw [hmatches.eq_of_quiet hquiet'] at hloop
  exact ⟨hloop, hquiet'⟩

variable {m : Spec.Map} {stats : Statistics} (h : s.Holds n m stats)
    (hterminated : s.terminated = false)
  (hlive : ∀ role, (rtable role).released = false) {lines : List UserLine}
  (hfits : ∀ line ∈ lines, line.bytes.length ≤ 98) (hquit : ∀ line ∈ lines, line.command ≠ .quit)

include h hterminated hlive hfits hquit

/-- A session shows the user the map that the servers hold, line by line, and leaves them with
    the map that the lines make of it. -/
theorem Session.transcript {letter : Bool} {rest : Bytes}
    (hstdin : s.console.stdin = lines.flatMap UserLine.bytes ++
      ((UserLine.quit letter).bytes ++ rest))
    (hcarried : ∀ s', s.rounds pb.size clock n rtable (lines.length + 1) = .ok s' →
      Carried pb s'.net) :
    ∃ (texts : Bytes) (m' : Spec.Map) (stats' : Statistics) (s' : Session (List Hop)),
      (∀ fuel, lines.length < fuel →
        s.onStreams.wiredRounds pb clock n rtable fuel = .ok s'.onStreams) ∧
      Spec.Transcript stats.nClientes m stats.nOperacoes lines texts m' stats'.nOperacoes ∧
      s'.stdout = s.stdout ++ texts ++ prompt ++ bye ∧ s'.terminated = true ∧
        s'.console.stdin = rest ∧
      s'.Holds n m' stats' := by
  obtain ⟨texts, m', stats', s', hrounds, htranscript, hstdout, hended, hrest, hholds⟩ :=
    h.rounds_transcript pb.size clock hterminated hlive hfits hquit hstdin
  have hcarried' := hcarried s' (hrounds _ (Nat.lt_succ_self _))
  exact ⟨texts, m', stats', s', fun fuel hfuel =>
    (Session.carried pb clock h.net.agreed.ready (hrounds fuel hfuel) hcarried').1, htranscript,
      hstdout, hended,
    hrest, hholds⟩

/-- A client whose input ends without `quit` never leaves its loop, and the rounds behind the
    last line update nothing. -/
theorem Session.endless (hne : lines ≠ []) (hstdin : s.console.stdin = lines.flatMap UserLine.bytes)
    (hcarried : ∀ fuel s', s.rounds pb.size clock n rtable fuel = .ok s' → Carried pb s'.net) :
    ∃ (texts : Bytes) (m' : Spec.Map) (operations' : Int),
      Spec.Transcript stats.nClientes m stats.nOperacoes lines texts m' operations' ∧
      ∀ more, ∃ (stats' : Statistics) (s' : Session (List Hop)),
        s.onStreams.wiredRounds pb clock n rtable (lines.length + more) = .ok s'.onStreams ∧
          s'.Holds n m' stats' ∧ s'.goesOn = true := by
  obtain ⟨texts, m', operations', htranscript, hmore⟩ :=
    h.rounds_endless pb.size clock hterminated hlive hne hfits hquit hstdin
  refine ⟨texts, m', operations', htranscript, fun more => ?_⟩
  obtain ⟨stats', s', hrounds, hholds, hgoes⟩ := hmore more
  have hwired := Session.carried pb clock h.net.agreed.ready hrounds (hcarried _ s' hrounds)
  exact ⟨stats', s', hwired.1, hholds, hgoes⟩

end EndToEnd

/-! ## A session in bytes -/

def typedKey : Word := .replicate 1 107 (by decide) (by decide)

def typedValue : Word := .replicate 2 118 (by decide) (by decide)

/-- A value is stored under a key. -/
def putLine : UserLine := .keyed (.put true typedKey typedValue)

/-- A value is stored, and the table is asked for. -/
def typedLines : List UserLine := [putLine, .query .getTable false]

theorem typedLines_short : ∀ line ∈ typedLines, line.bytes.length ≤ 98 := by decide

theorem typedLines_goOn : ∀ line ∈ typedLines, line.command ≠ .quit := by
  simp [typedLines, putLine, UserLine.command]

def typedPut : MessageT := putRequest typedKey.toCString (.ofBytes typedValue.bytes)

def putResponse : MessageT := { typedPut with opcode := opPut + 1, cType := ctNone }

/-- The response to OP_GETTABLE, with the `NULL` behind its entries or without it. -/
def tableResponse (rest : List (Option EntryT)) : MessageT :=
  { getTableRequest with
    opcode := opGettable + 1
    cType := ctTable
    nEntries := 1
    entries := some ⟨some typedKey.toCString, .ofBytes typedValue.bytes⟩ :: rest }

/-- The bytes of the messages that the lines lead to. -/
def typedMessages : Protobuf :=
  .ofList [(typedPut, [0x08, 10, 0x10, 10, 0x1a, 7, 0x0a, 1, 107, 0x12, 2, 118, 118], typedPut),
    (putResponse, [0x08, 11, 0x10, 70, 0x1a, 7, 0x0a, 1, 107, 0x12, 2, 118, 118], putResponse),
    (getTableRequest, [0x08, 60, 0x10, 70], getTableRequest),
    (tableResponse [none], [0x08, 61, 0x10, 60, 0x42, 7, 0x0a, 1, 107, 0x12, 2, 118, 118],
      tableResponse [])]

theorem typedPut_carried : typedMessages.Carries typedPut := ⟨by decide, _, rfl, by decide⟩

theorem putResponse_carried : typedMessages.Carries putResponse := ⟨by decide, _, rfl, by decide⟩

theorem getTableRequest_carried : typedMessages.Carries getTableRequest :=
  ⟨by decide, _, rfl, by decide⟩

theorem tableResponse_carried : typedMessages.Carries (tableResponse [none]) :=
  ⟨by decide, _, rfl, by decide⟩

def startedNet : List Hop :=
  startedChain Store.one_pos ⟨[47], CString.zero_notMem_slash⟩ ⟨.empty, false⟩ 1

def putNet : List Hop :=
  ((Link.toChain typedMessages.size (fun _ _ => ⟨0, 0⟩) 2).exchange typedPut startedNet).2

def tableNet : List Hop :=
  ((Link.toTail typedMessages.size (fun _ _ => ⟨0, 0⟩) 1).exchange getTableRequest putNet).2

theorem putNet_exchange :
    (Link.toChain typedMessages.size (fun _ _ => ⟨0, 0⟩) 2).exchange typedPut startedNet =
      (some putResponse, putNet) := rfl

theorem tableNet_exchange :
    (Link.toTail typedMessages.size (fun _ _ => ⟨0, 0⟩) 1).exchange getTableRequest putNet =
      (some (tableResponse []), tableNet) := rfl

/-- All exchanges of a server. -/
theorem hop_carried {hop : Hop} {exchanged : List (MessageT × Option MessageT)}
    (h : (hop.traffic .front).exchanged ++ (hop.traffic .client).exchanged = exchanged)
    (hall : ∀ e ∈ exchanged, typedMessages.Carries e.1 ∧ ∃ res ∈ e.2, typedMessages.Carries res) :
    hop.Carried typedMessages := by
  subst h
  intro peer e he
  cases peer with
  | front => exact hall e (List.mem_append_left _ he)
  | client => exact hall e (List.mem_append_right _ he)

theorem startedNet_carried : Carried typedMessages startedNet :=
  carried_cons.2 ⟨hop_carried rfl (List.forall_mem_nil _),
    carried_cons.2 ⟨hop_carried rfl (List.forall_mem_nil _), nofun⟩⟩

theorem putNet_carried : Carried typedMessages putNet := by
  have hput : ∀ e ∈ [(typedPut, some putResponse)],
      typedMessages.Carries e.1 ∧ ∃ res ∈ e.2, typedMessages.Carries res := by
    intro e he
    obtain rfl := List.mem_singleton.1 he
    exact ⟨typedPut_carried, _, rfl, putResponse_carried⟩
  exact carried_cons.2 ⟨hop_carried rfl hput, carried_cons.2 ⟨hop_carried rfl hput, nofun⟩⟩

theorem tableNet_carried : Carried typedMessages tableNet := by
  obtain ⟨hhead, -⟩ := carried_cons.1 putNet_carried
  refine carried_cons.2
    ⟨hhead, carried_cons.2 ⟨hop_carried rfl (List.forall_mem_cons.2 ⟨?_, ?_⟩), nofun⟩⟩
  · exact ⟨typedPut_carried, _, rfl, putResponse_carried⟩
  · intro e he
    obtain rfl := List.mem_singleton.1 he
    exact ⟨getTableRequest_carried, _, rfl, tableResponse_carried⟩

section Typed

/-- A round of a session with two servers. -/
abbrev typedRound (s : Session (List Hop)) : C (Session (List Hop)) :=
  s.round (fun role => connection (chainLink typedMessages.size (fun _ _ => ⟨0, 0⟩) 1 role).handler)
    (fun _ => some ⟨.empty, false⟩)

variable {s : Session (List Hop)} {rest : Bytes} {t : Tokens} (hline : t.buf.length = maxMsg)

include hline

theorem putLine_round (hconsole : s.console = ⟨putLine.bytes ++ rest, t⟩)
    (hnet : s.net = startedNet) :
    ∃ (operation : Operation) (t' : Tokens),
      parsedCommand s.console = .ok (operation, putLine.command, ⟨rest, t'⟩) ∧
        typedRound s = .ok { s with
          console := ⟨rest, t'⟩, net := putNet,
          stdout := s.stdout ++ prompt ++ printPut typedKey.toCString 0 } := by
  obtain ⟨operation, t', hparsed, -⟩ := parsedCommand_line rest hline putLine (by decide)
  rw [← hconsole] at hparsed
  have hlive : (⟨.empty, false⟩ : Rtable).released = false := rfl
  refine ⟨operation, t', hparsed, Session.round_stub hparsed ?_⟩
  rw [hnet]
  exact print_put hlive _ typedValue.nonempty putNet_exchange

theorem tableLine_round (hconsole : s.console = ⟨(UserLine.query .getTable false).bytes ++ rest, t⟩)
    (hnet : s.net = putNet) :
    ∃ (operation : Operation) (t' : Tokens),
      parsedCommand s.console = .ok (operation, .stub .getTable, ⟨rest, t'⟩) ∧
        typedRound s = .ok { s with
          console := ⟨rest, t'⟩, net := tableNet,
          stdout := s.stdout ++ prompt ++ chars "k: vv\n" } := by
  obtain ⟨operation, t', hparsed, -⟩ :=
    parsedCommand_line rest hline (.query .getTable false) (by decide)
  rw [← hconsole] at hparsed
  have hlive : (⟨.empty, false⟩ : Rtable).released = false := rfl
  refine ⟨operation, t', hparsed, Session.round_stub hparsed ?_⟩
  rw [hnet]
  exact print_getTable hlive _ tableNet_exchange rfl rfl

end Typed

/-- The rounds of the two lines and of `quit`. -/
theorem typedLines_rounds :
    ∃ s', (newSession
      (typedLines.flatMap UserLine.bytes ++ ((UserLine.quit true).bytes ++ []))).rounds
        typedMessages.size (fun _ _ => ⟨0, 0⟩) 1 (fun _ => ⟨.empty, false⟩) 3 = .ok s' ∧
      Carried typedMessages s'.net := by
  have hline : (List.replicate maxMsg (0 : UInt8)).length = maxMsg := List.length_replicate
  obtain ⟨_, t₁, hparsed₁, hround₁⟩ := @putLine_round
    (newSession (typedLines.flatMap UserLine.bytes ++ ((UserLine.quit true).bytes ++ []))) _
      ⟨_, none⟩ hline rfl rfl
  have hline₁ : t₁.buf.length = maxMsg := (parsedCommand_length hparsed₁).trans hline
  obtain ⟨_, t₂, hparsed₂, hround₂⟩ := @tableLine_round
    { newSession _ with console := ⟨_, t₁⟩, stdout := _, net := putNet } _ t₁ hline₁ rfl rfl
  have hline₂ : t₂.buf.length = maxMsg := (parsedCommand_length hparsed₂).trans hline₁
  obtain ⟨_, t₃, hparsed₃, -⟩ := parsedCommand_line [] hline₂ (.quit true) (by decide)
  have hrounds := (Session.loop_succ rfl hround₁ 2).trans ((Session.loop_succ rfl hround₂ 1).trans
    (Session.loop_succ rfl (Session.round_quit hparsed₃) 0))
  exact ⟨_, hrounds, tableNet_carried⟩

/-- A put that is forwarded, and a query, over the streams of two servers. -/
theorem carried_typedLines :
    ∃ s' : Session (List Hop),
      (newSession (typedLines.flatMap UserLine.bytes ++ ((UserLine.quit true).bytes ++ []))).onStreams.wiredRounds
          typedMessages (fun _ _ => ⟨0, 0⟩) 1 (fun _ => ⟨.empty, false⟩) 3 = .ok s'.onStreams ∧
            Quiet s'.net := by
  obtain ⟨s', hrounds, hcarried⟩ := typedLines_rounds
  exact ⟨s', Session.carried typedMessages _ (newSession_holds _).net.agreed.ready hrounds hcarried⟩

/-- The two lines, and `quit`. -/
theorem transcript_typedLines :
    ∃ (texts : Bytes) (m' : Spec.Map) (stats' : Statistics) (s' : Session (List Hop)),
      (∀ fuel, 2 < fuel →
        (newSession (typedLines.flatMap UserLine.bytes ++ ((UserLine.quit true).bytes ++ []))).onStreams.wiredRounds
          typedMessages (fun _ _ => ⟨0, 0⟩) 1 (fun _ => ⟨.empty, false⟩) fuel = .ok s'.onStreams) ∧
      Spec.Transcript 0 ∅ 0 typedLines texts m' stats'.nOperacoes ∧
      s'.stdout = texts ++ prompt ++ bye ∧ s'.terminated = true ∧ s'.console.stdin = [] ∧
        s'.Holds 1 m' stats' := by
  have hstdin : (newSession
    (typedLines.flatMap UserLine.bytes ++ ((UserLine.quit true).bytes ++ []))).console.stdin =
      typedLines.flatMap UserLine.bytes ++ ((UserLine.quit true).bytes ++ []) := rfl
  refine Session.transcript typedMessages (fun _ _ => ⟨0, 0⟩) (newSession_holds _) rfl
    (fun _ => rfl)
    typedLines_short typedLines_goOn hstdin fun s' hrounds' => ?_
  obtain ⟨s'', hrounds, hcarried⟩ := typedLines_rounds
  obtain rfl := Except.ok.inj (hrounds.symm.trans hrounds')
  exact hcarried

/-- Rounds that complain exchange nothing. -/
theorem Session.net_of_complaint {size : MessageT → ℕ} {clock : ℕ → ℕ → Timeval} {n fuel : ℕ}
    {rtable : Role → Rtable}
    {s s' : Session (List Hop)} {operation : Operation} (hstdin : s.console.stdin = [])
    (hrepeats : Repeats s.console.line.buf operation .invalidArguments)
    (hrounds : s.rounds size clock n rtable fuel = .ok s') : s'.net = s.net := by
  induction fuel generalizing s with
  | zero =>
    cases hrounds
    rfl
  | succ fuel ih =>
    cases hgoes : s.goesOn with
    | false =>
      rw [Session.rounds, loop_of_ended hgoes] at hrounds
      cases hrounds
      rfl
    | true =>
      obtain ⟨saved', hparsed⟩ := hrepeats s.console.line.saved
      have hparsed : parsedCommand s.console =
          .ok (operation, .invalidArguments, ⟨[], ⟨s.console.line.buf, saved'⟩⟩) := by
        rw [← hparsed, ← hstdin]
      rw [Session.rounds, loop_succ hgoes (round_complaint hparsed)] at hrounds
      have hsame := ih (by rfl) (by exact hrepeats) hrounds
      exact hsame

/-- A put is the last line that is typed. -/
def putSession : Session (List Hop) := newSession (putLine.bytes ++ [])

/-- Of the line of the put its name is left. -/
theorem putLine_left {t' : Tokens} {operation : Operation} {result : Command}
    (hparsed : parsedCommand putSession.console = .ok (operation, result, ⟨[], t'⟩)) :
    t'.buf = (literal "p").bytes ++ 0 :: t'.buf.drop 2 := by
  have htake : (match parsedCommand putSession.console with
      | .ok r => r.2.2.line.buf.take 2
      | .error _ => []) = [112, 0] := by decide +kernel
  rw [hparsed] at htake
  exact (List.take_append_drop 2 t'.buf).symm.trans (congrArg (· ++ t'.buf.drop 2) htake)

theorem putSession_carried {fuel : ℕ} {s' : Session (List Hop)}
    (hrounds : putSession.rounds typedMessages.size (fun _ _ => ⟨0, 0⟩) 1
      (fun _ => ⟨.empty, false⟩) fuel = .ok s') :
    Carried typedMessages s'.net := by
  cases fuel with
  | zero =>
    cases hrounds
    exact startedNet_carried
  | succ fuel =>
    have hline : (List.replicate maxMsg (0 : UInt8)).length = maxMsg := List.length_replicate
    obtain ⟨_, t₁, hparsed, hround⟩ := @putLine_round putSession [] ⟨_, none⟩ hline rfl rfl
    -- what is left of the line is complained about from now on
    have hrepeats : Repeats t₁.buf .put .invalidArguments := by
      rw [putLine_left hparsed]
      exact @repeats_complaint _ (literal "p") (literal "p") []
        (by decide) rfl nofun (by decide) (by decide) .put rfl
    rw [Session.rounds, Session.loop_succ rfl hround] at hrounds
    have hsame := Session.net_of_complaint (by rfl) (by exact hrepeats) hrounds
    rw [hsame]
    exact putNet_carried

theorem endless_putSession :
    ∃ (texts : Bytes) (m' : Spec.Map) (operations' : Int),
      Spec.Transcript 0 ∅ 0 [putLine] texts m' operations' ∧
      ∀ more, ∃ (stats' : Statistics) (s' : Session (List Hop)),
        putSession.onStreams.wiredRounds typedMessages (fun _ _ => ⟨0, 0⟩) 1
          (fun _ => ⟨.empty, false⟩) (1 + more) =
            .ok s'.onStreams ∧ s'.Holds 1 m' stats' ∧ s'.goesOn = true :=
  Session.endless typedMessages (fun _ _ => ⟨0, 0⟩) (newSession_holds _) rfl
    (fun _ => rfl) (by decide)
    (by simp [putLine, UserLine.command]) (List.cons_ne_nil _ _) rfl fun _ _ => putSession_carried

end ChainTable
