-- SUMMARY: serve_conn on the requests of one client: which of them get their reply.
import ChainTable.Server.Connection
import ChainTable.Server.Alone

open Base

/-!
# One reply for each request

A thread of `serve_conn` answers the requests that arrive on its connection one after the
other. Nothing interferes here, `terminated` is not set and every send succeeds, so that
the replies depend on the requests and the server alone.
-/

namespace ChainTable

open Calls

/-! ## The loop -/

/-- At most `n` rounds of the loop of `serve_conn`, and the value of `processing_error`
    after them. -/
def serveLoop : ℕ → Prog Conn Bool
  | 0 => return false
  | n + 1 => do
    let processingError ← serveRound
    let terminated ← conn .terminated
    if !processingError && !terminated then serveLoop n else return processingError

/-- The server with its link to the successor, the requests that have not been received
    yet, the replies that were sent, and how often the connection was closed. -/
structure Conversation (τ : Type) where
  server : ServerState × τ
  incoming : List MessageT
  sent : List MessageT
  closes : ℕ

section Handler

variable {τ : Type} (clock : ℕ → Timeval) (link : Link τ)

/-- After the last request the client is gone. What `network_send` returns is positive. -/
def converse : Prog.Handler Conn (Conversation τ) Fault
  | .server op, s => do
    let (r, server) ← alone clock link op s.server
    return (r, { s with server := server })
  | .terminated, s => .ok (false, s)
  | .networkReceive, s => .ok (s.incoming.head?, { s with incoming := s.incoming.tail })
  | .networkSend msg, s => .ok (1, { s with sent := s.sent ++ [msg] })
  | .close, s => .ok ((), { s with closes := s.closes + 1 })

theorem run_conn {α : Type} {op : ConnCall} {k : op.Res → Prog Conn α} {s : Conversation τ} :
    (conn op >>= k).run (converse clock link) s =
      converse clock link op s >>= fun rs => (k rs.1).run (converse clock link) rs.2 := rfl

/-- A program of the server acts on the server alone. -/
theorem onServer_run {α : Type} (p : Prog Calls α) (s : Conversation τ) :
    (onServer p).run (converse clock link) s =
      p.run (alone clock link) s.server >>= fun a => .ok (a.1, { s with server := a.2 }) := by
  induction p generalizing s with
  | ret a => rfl
  | call op k ih =>
    rw [onServer_call, Prog.run_call, Prog.run_call]
    cases hop : alone clock link op s.server with
    | error f => simp [converse, hop]
    | ok rs =>
      simp only [converse, hop, C.ok_bind, C.pure_eq]
      exact ih rs.1 _

end Handler

/-! ## Requests -/

/-- A request whose unpacking succeeded. A put carries an entry. -/
def Received (msg : MessageT) : Prop :=
  (∃ packed : MessageT, packed.unpacked = .ok msg) ∧ (msg.opcode = opPut → msg.entry ≠ none)

/-- A known operation, and for a put an entry whose value has bytes. -/
def Proper (msg : MessageT) : Prop :=
  (msg.opcode = opPut ∨ msg.opcode = opGet ∨ msg.opcode = opDel ∨ msg.opcode = opSize ∨
      msg.opcode = opGetkeys ∨ msg.opcode = opGettable ∨ msg.opcode = opStats) ∧
    (msg.opcode = opPut → ∀ entry ∈ msg.entry, entry.value.len ≠ 0)

/-- Forwarding the request to the successor does not stop the server: only a put looks
    whether there is a connection. -/
def ForwardsSafely (s : ServerState) (msg : MessageT) : Prop :=
  msg.opcode = opPut ∨ msg.opcode = opDel → s.nextServerNodePath = .empty ∨
    (s.nextServerRtable = none ∧ msg.opcode = opPut) ∨
    ∃ rtable, s.nextServerRtable = some rtable ∧ rtable.released = false

/-- The one way in which an operation can fail on a table that holds a store. -/
def Fails (s : ServerState) (msg : MessageT) : Prop :=
  msg.opcode = opStats ∧ s.globalStats = none

/-- The reply that a request should get. -/
structure Replies (s : ServerState) (msg res : MessageT) : Prop where
  executed : Proper msg → ¬ Fails s msg → res.opcode = msg.opcode + 1
  failed : Proper msg → Fails s msg → res.opcode = opError ∧ res.cType = ctNone
  refused : ¬ Proper msg → res.opcode = opBad ∧ res.cType = ctBad

/-- Every request has one reply, in order, and the thread goes on serving. -/
def OneReplyEach {τ : Type} (clock : ℕ → Timeval) (link : Link τ) (server : ServerState × τ)
    (msgs : List MessageT) : Prop :=
  ∃ s, (serveLoop msgs.length).run (converse clock link) ⟨server, msgs, [], 0⟩ =
      .ok (false, s) ∧
    s.closes = 0 ∧ List.Forall₂ (Replies server.1) msgs s.sent

/-- A request that `invoke` answers. -/
structure Answerable (s : ServerState) (msg : MessageT) : Prop where
  proper : Proper msg
  forwards : ForwardsSafely s msg
  stats : s.globalStats ≠ none

/-- What serving a request leaves as it was. -/
structure SameNext (s s' : ServerState) : Prop where
  path : s'.nextServerNodePath = s.nextServerNodePath
  rtable : s'.nextServerRtable = s.nextServerRtable
  stats : s'.globalStats = none ↔ s.globalStats = none

theorem SameNext.answerable_iff {s s' : ServerState} (h : SameNext s s') (msg : MessageT) :
    Answerable s' msg ↔ Answerable s msg := by
  have hforwards : ForwardsSafely s' msg ↔ ForwardsSafely s msg := by
    rw [ForwardsSafely, ForwardsSafely, h.path, h.rtable]
  have hstats : s'.globalStats ≠ none ↔ s.globalStats ≠ none := not_congr h.stats
  exact ⟨fun ha => ⟨ha.proper, hforwards.1 ha.forwards, hstats.1 ha.stats⟩,
    fun ha => ⟨ha.proper, hforwards.2 ha.forwards, hstats.2 ha.stats⟩⟩

/-! ## invoke -/

section Received

variable {msg : MessageT}

theorem copyOut_of_unpacked {packed value : BinaryData} (h : packed.unpacked = .ok value) :
    ∃ b, value.copyOut = .ok b ∧ b.length = value.len := by
  rw [BinaryData.unpacked] at h
  split_ifs at h with hlen
  · cases h
    exact ⟨[], rfl, rfl⟩
  · obtain ⟨b, -, h⟩ := C.bind_eq_ok h
    cases h
    exact ⟨_, BinaryData.copyOut_ofBytes _, rfl⟩

/-- In what was unpacked every string is there, and every value has its bytes. -/
theorem parts_of_unpacked {packed msg : MessageT} (h : packed.unpacked = .ok msg) :
    (∃ key, msg.key = some key) ∧ ∀ entry ∈ msg.entry, ∃ key b, entry = ⟨some key, entry.value⟩ ∧
      entry.value.copyOut = .ok b ∧ b.length = entry.value.len := by
  obtain ⟨entry, hentry, h⟩ := C.bind_eq_ok h
  obtain ⟨value, -, h⟩ := C.bind_eq_ok h
  obtain ⟨keys, -, h⟩ := C.bind_eq_ok h
  obtain ⟨entries, -, h⟩ := C.bind_eq_ok h
  obtain ⟨entries', -, h⟩ := C.bind_eq_ok h
  cases h
  refine ⟨⟨_, rfl⟩, fun arrived harrived => ?_⟩
  cases hpacked : packed.entry with
  | none =>
    rw [hpacked] at hentry
    cases hentry
    cases harrived
  | some sent =>
    rw [hpacked, Option.mapM_some] at hentry
    obtain ⟨arrived', hsent, hentry⟩ := C.bind_eq_ok hentry
    cases hentry
    obtain rfl : arrived' = arrived := Option.some.inj harrived
    obtain ⟨value, hvalue, hsent⟩ := C.bind_eq_ok hsent
    cases hsent
    obtain ⟨b, hb⟩ := copyOut_of_unpacked hvalue
    exact ⟨_, b, rfl, hb⟩

theorem Received.key (h : Received msg) : ∃ key, msg.key = some key := by
  obtain ⟨⟨packed, hpacked⟩, -⟩ := h
  exact (parts_of_unpacked hpacked).1

theorem Received.entry (h : Received msg) (hop : msg.opcode = opPut) :
    ∃ key value b, msg.entry = some ⟨some key, value⟩ ∧ value.copyOut = .ok b ∧
      b.length = value.len := by
  obtain ⟨⟨packed, hpacked⟩, hentry⟩ := h
  obtain ⟨entry, hentry⟩ := Option.ne_none_iff_exists'.1 (hentry hop)
  obtain ⟨key, b, heq, hb⟩ := (parts_of_unpacked hpacked).2 entry hentry
  exact ⟨key, entry.value, b, by rw [hentry, heq], hb⟩

end Received

section Invoke

variable {τ : Type} {clock : ℕ → Timeval} {link : Link τ} {msg : MessageT} {st : Store}
  {s : ServerState × τ}

theorem counted_run_none {α : Type} (body : Prog Calls α) (hstats : s.1.globalStats = none) :
    (counted body).run (alone clock link) s = .error .nullDeref := by
  have hincrease : increaseOperations.run (alone clock link) s = .error .nullDeref := by
    obtain ⟨⟨table, globalStats, path, rtable, ticks⟩, t⟩ := s
    obtain rfl : globalStats = none := hstats
    rfl
  exact Prog.run_bind_error hincrease

theorem readSection_run_none {α β : Type} (body : Prog Calls α) (k : α → Prog Calls β)
    (hstats : s.1.globalStats = none) :
    (readSection body >>= k).run (alone clock link) s = .error .nullDeref :=
  Prog.run_bind_error ((readSection_run_counted clock link body s).trans
    (counted_run_none body hstats))

theorem writeSection_run_none {α β : Type} (body : Prog Calls α) (k : α → Prog Calls β)
    (hstats : s.1.globalStats = none) :
    (writeSection body >>= k).run (alone clock link) s = .error .nullDeref :=
  Prog.run_bind_error ((writeSection_run_counted clock link body s).trans
    (counted_run_none body hstats))

/-- A request that is not proper is refused before it touches the server. -/
theorem dispatch_refused (hmsg : Received msg) (hproper : ¬ Proper msg) :
    ∃ res, (dispatch msg).run (alone clock link) s = .ok ((res, -1), s) := by
  have hcase := dispatched msg
  generalize dispatch msg = handler at hcase ⊢
  cases hcase with
  | put hop =>
    obtain ⟨key, value, b, hentry, hvalue, hlen⟩ := hmsg.entry hop
    have hempty : b = [] := by
      by_contra hb
      refine hproper ⟨.inl hop, fun _ entry hentry' => ?_⟩
      obtain rfl : ⟨some key, value⟩ = entry := Option.some.inj (hentry.symm.trans hentry')
      exact fun hzero => hb (List.eq_nil_of_length_eq_zero (hlen.trans hzero))
    rw [invokePut_empty hentry (hempty ▸ hvalue)]
    exact ⟨_, rfl⟩
  | get hop => exact absurd ⟨by simp [hop], by simp [hop]⟩ hproper
  | del hop => exact absurd ⟨by simp [hop], by simp [hop]⟩ hproper
  | size hop => exact absurd ⟨by simp [hop], by simp [hop]⟩ hproper
  | getkeys hop => exact absurd ⟨by simp [hop], by simp [hop]⟩ hproper
  | gettable hop => exact absurd ⟨by simp [hop], by simp [hop]⟩ hproper
  | stats hop => exact absurd ⟨by simp [hop], by simp [hop]⟩ hproper
  | unknown => exact ⟨_, rfl⟩

theorem invokePut_without_stats (hmsg : Received msg) (hproper : Proper msg)
    (hput : msg.opcode = opPut) (hstats : s.1.globalStats = none) :
    (invokePut msg).run (alone clock link) s = .error .nullDeref := by
  obtain ⟨key, value, b, hentry, hvalue, hlen⟩ := hmsg.entry hput
  have hb : b ≠ [] := by
    rintro rfl
    exact hproper.2 hput _ hentry hlen.symm
  rw [invokePut_eq hentry hvalue hb]
  exact writeSection_run_none _ _ hstats

/-- Without statistics there is no answer. -/
theorem dispatch_without_stats (hmsg : Received msg) (hproper : Proper msg)
    (hstats : s.1.globalStats = none) {res : MessageT} {ret : Int} {s' : ServerState × τ}
    (hrun : (dispatch msg).run (alone clock link) s = .ok ((res, ret), s')) : ret < 0 := by
  obtain ⟨key, hkey⟩ := hmsg.key
  have hfault : ∀ {p : Prog Calls (MessageT × Int)},
      p.run (alone clock link) s = .error .nullDeref →
      p.run (alone clock link) s = .ok ((res, ret), s') → ret < 0 := by
    intro p herror hok
    rw [herror] at hok
    cases hok
  have hcase := dispatched msg
  generalize dispatch msg = handler at hcase hrun
  cases hcase with
  | put hop => exact hfault (invokePut_without_stats hmsg hproper hop hstats) hrun
  | get =>
    rw [invokeGet, hkey] at hrun
    exact hfault (readSection_run_none _ _ hstats) hrun
  | del =>
    rw [invokeDel, hkey] at hrun
    exact hfault (writeSection_run_none _ _ hstats) hrun
  | size => exact hfault (readSection_run_none _ _ hstats) hrun
  | getkeys => exact hfault (readSection_run_none _ _ hstats) hrun
  | gettable => exact hfault (readSection_run_none _ _ hstats) hrun
  | stats =>
    obtain ⟨⟨table, globalStats, path, rtable, ticks⟩, t⟩ := s
    obtain rfl : globalStats = none := hstats
    cases hrun
    decide
  | unknown =>
    cases hrun
    decide

/-- Whether forwarding stops the server does not depend on what is at the other end. -/
theorem forwardTo_ok_iff {path : CString} {rtable : Option Rtable} {nullSafe : Bool}
    {req : MessageT} {t : τ} :
    (∃ t', forwardTo link path rtable nullSafe req t = .ok t') ↔ path = .empty ∨
      (rtable = none ∧ nullSafe = true) ∨ ∃ r, rtable = some r ∧ r.released = false := by
  by_cases hpath : path = .empty
  · subst hpath
    exact iff_of_true ⟨t, forwardTo_empty link _ _ _ _⟩ (.inl rfl)
  · rw [or_iff_right hpath]
    cases rtable with
    | none =>
      rw [forwardTo_none link _ _ _ hpath]
      cases nullSafe <;> simp
    | some r =>
      cases hr : r.released with
      | true =>
        rw [forwardTo_released link _ _ _ hpath hr]
        simp [hr]
      | false =>
        rw [forwardTo_live link _ _ _ hpath hr]
        simp [hr]

/-- A request that was executed: the response, and a server that still holds a store. -/
def Executed (clock : ℕ → Timeval) (link : Link τ) (msg : MessageT) (s : ServerState × τ) : Prop :=
  ∃ res ret s', (dispatch msg).run (alone clock link) s = .ok ((res, ret), s') ∧ 0 ≤ ret ∧
    res.opcode = msg.opcode ∧ (∃ st : Store, s'.1.table = st.table) ∧ SameNext s.1 s'.1

theorem executed_of_served {res : MessageT} {ret : Int} {t : τ}
    (hrun : (dispatch msg).run (alone clock link) s =
      .ok ((res, ret), (s.1.served clock st.table, t)))
    (hret : 0 ≤ ret) (hop : res.opcode = msg.opcode) : Executed clock link msg s :=
  ⟨res, ret, _, hrun, hret, hop, ⟨st, rfl⟩, rfl, rfl, by simp⟩

/-- An update is executed, or its forwarding stops the server. -/
theorem executed_update {nullSafe : Bool} {req : MessageT} {result : MessageT × Int}
    (hrun : (dispatch msg).run (alone clock link) s =
      forwardTo link s.1.nextServerNodePath s.1.nextServerRtable nullSafe req s.2 >>= fun t =>
        .ok (result, (s.1.served clock st.table, t)))
    (hret : 0 ≤ result.2) (hop : result.1.opcode = msg.opcode)
    (hupdate : msg.opcode = opPut ∨ msg.opcode = opDel)
    (hnull : nullSafe = true ↔ msg.opcode = opPut) :
    (ForwardsSafely s.1 msg → Executed clock link msg s) ∧
      (¬ ForwardsSafely s.1 msg → ∃ f, (dispatch msg).run (alone clock link) s = .error f) := by
  have hsafe : ForwardsSafely s.1 msg ↔ ∃ t', forwardTo link s.1.nextServerNodePath
      s.1.nextServerRtable nullSafe req s.2 = .ok t' := by
    rw [forwardTo_ok_iff, hnull, ForwardsSafely, imp_iff_right hupdate]
  cases hforward : forwardTo link s.1.nextServerNodePath s.1.nextServerRtable nullSafe req s.2 with
  | error f =>
    rw [hforward] at hrun hsafe
    refine ⟨fun hforwards => ?_, fun _ => ⟨f, hrun⟩⟩
    obtain ⟨t', ht'⟩ := hsafe.1 hforwards
    cases ht'
  | ok t =>
    rw [hforward] at hrun hsafe
    exact ⟨fun _ => executed_of_served hrun hret hop, fun h => absurd (hsafe.2 ⟨t, rfl⟩) h⟩

variable (htable : s.1.table = st.table) (hstats : s.1.globalStats ≠ none)

include htable hstats

theorem executed_put (hmsg : Received msg) (hproper : Proper msg) (hput : msg.opcode = opPut) :
    (ForwardsSafely s.1 msg → Executed clock link msg s) ∧
      (¬ ForwardsSafely s.1 msg → ∃ f, (dispatch msg).run (alone clock link) s = .error f) := by
  obtain ⟨key, value, b, hentry, hvalue, hlen⟩ := hmsg.entry hput
  have hb : b ≠ [] := by
    rintro rfl
    exact hproper.2 hput _ hentry hlen.symm
  have hrun := invokePut_run clock link htable hstats hentry hvalue hb
  rw [← dispatch_put hput] at hrun
  exact executed_update hrun le_rfl rfl (.inl hput) (iff_of_true rfl hput)

theorem executed_del (hmsg : Received msg) (hdel : msg.opcode = opDel) :
    (ForwardsSafely s.1 msg → Executed clock link msg s) ∧
      (¬ ForwardsSafely s.1 msg → ∃ f, (dispatch msg).run (alone clock link) s = .error f) := by
  obtain ⟨key, hkey⟩ := hmsg.key
  have hrun := invokeDel_run clock link htable hstats hkey
  rw [← dispatch_del hdel] at hrun
  refine executed_update hrun ?_ ?_ (.inr hdel) (iff_of_false Bool.false_ne_true ?_)
  · split_ifs
    · exact le_rfl
    · exact zero_le_one
  · split_ifs <;> rfl
  · rw [hdel]
    decide

/-- The other operations are always executed. -/
theorem executed_read (hmsg : Received msg) (hproper : Proper msg) (hput : msg.opcode ≠ opPut)
    (hdel : msg.opcode ≠ opDel) : Executed clock link msg s := by
  obtain ⟨key, hkey⟩ := hmsg.key
  rcases hproper.1 with hop | hop | hop | hop | hop | hop | hop
  · exact absurd hop hput
  · have hrun := invokeGet_run clock link htable hstats hkey
    rw [← dispatch_get hop] at hrun
    refine executed_of_served hrun le_rfl ?_
    cases st.map.lookup key <;> rfl
  · exact absurd hop hdel
  · have hrun := invokeSize_run clock link htable hstats msg
    rw [← dispatch_size hop] at hrun
    exact executed_of_served hrun (Int.natCast_nonneg _) rfl
  · have hrun := invokeGetkeys_run clock link htable hstats msg
    rw [← dispatch_getkeys hop] at hrun
    exact executed_of_served hrun le_rfl rfl
  · have hrun := invokeGettable_run clock link htable hstats msg
    rw [← dispatch_gettable hop] at hrun
    exact executed_of_served hrun le_rfl rfl
  · obtain ⟨stats, hstats⟩ := Option.ne_none_iff_exists'.1 hstats
    have hrun := invokeStats_run clock link hstats msg
    rw [← dispatch_stats hop] at hrun
    exact ⟨_, _, s, hrun, le_rfl, rfl, ⟨st, htable⟩, rfl, rfl, Iff.rfl⟩

omit hstats in
theorem executed_of_answerable (hmsg : Received msg) (h : Answerable s.1 msg) :
    Executed clock link msg s := by
  by_cases hput : msg.opcode = opPut
  · exact (executed_put htable h.stats hmsg h.proper hput).1 h.forwards
  · by_cases hdel : msg.opcode = opDel
    · exact (executed_del htable h.stats hmsg hdel).1 h.forwards
    · exact executed_read htable h.stats hmsg h.proper hput hdel

omit hstats in
/-- A request that is not answered ends the thread, or the whole server. -/
theorem dispatch_of_not_answerable (hmsg : Received msg) (h : ¬ Answerable s.1 msg)
    {res : MessageT} {ret : Int} {s' : ServerState × τ}
    (hrun : (dispatch msg).run (alone clock link) s = .ok ((res, ret), s')) : ret < 0 := by
  by_cases hproper : Proper msg
  · by_cases hstats : s.1.globalStats = none
    · exact dispatch_without_stats hmsg hproper hstats hrun
    · have hunsafe : ¬ ForwardsSafely s.1 msg := fun hforwards => h ⟨hproper, hforwards, hstats⟩
      have hfault : ∃ f, (dispatch msg).run (alone clock link) s = .error f := by
        by_cases hput : msg.opcode = opPut
        · exact (executed_put htable hstats hmsg hproper hput).2 hunsafe
        · by_cases hdel : msg.opcode = opDel
          · exact (executed_del htable hstats hmsg hdel).2 hunsafe
          · exact absurd (fun hupdate => absurd hupdate (not_or.2 ⟨hput, hdel⟩)) hunsafe
      obtain ⟨f, hf⟩ := hfault
      rw [hf] at hrun
      cases hrun
  · have hrefused : ∃ res', (dispatch msg).run (alone clock link) s = .ok ((res', -1), s) :=
      dispatch_refused hmsg hproper
    obtain ⟨res', hrefused⟩ := hrefused
    rw [hrefused] at hrun
    cases hrun
    decide

end Invoke

/-! ## Rounds -/

section Rounds

variable {τ : Type} (clock : ℕ → Timeval) (link : Link τ) {msg : MessageT}

/-- A round sends what `invoke` returns, or closes the connection. -/
theorem serveRound_run {s : Conversation τ} {rest : List MessageT}
    (hincoming : s.incoming = msg :: rest) :
    serveRound.run (converse clock link) s =
      (invoke msg).run (alone clock link) s.server >>= fun a =>
        if a.1.2 < 0 then
          .ok (true, { s with server := a.2, incoming := rest, closes := s.closes + 1 })
        else
          .ok (false, { s with server := a.2, incoming := rest, sent := s.sent ++ [a.1.1] }) := by
  obtain ⟨server, incoming, sent, closes⟩ := s
  obtain rfl : incoming = msg :: rest := hincoming
  rw [serveRound, run_conn]
  simp only [converse, C.ok_bind, List.head?_cons, List.tail_cons, Prog.run_bind, onServer_run]
  cases (invoke msg).run (alone clock link) server with
  | error f => rfl
  | ok a =>
    obtain ⟨⟨res, ret⟩, server'⟩ := a
    simp only [C.ok_bind]
    split_ifs <;> rfl

theorem serveLoop_run (n : ℕ) (s : Conversation τ) :
    (serveLoop (n + 1)).run (converse clock link) s =
      serveRound.run (converse clock link) s >>= fun a =>
        if a.1 then .ok (true, a.2) else (serveLoop n).run (converse clock link) a.2 := by
  rw [serveLoop, Prog.run_bind]
  cases serveRound.run (converse clock link) s with
  | error f => rfl
  | ok a =>
    obtain ⟨processingError, s'⟩ := a
    cases processingError <;> rfl

/-- The thread goes on after a request that is answered. -/
theorem serveLoop_answered {n : ℕ} {s : Conversation τ} {rest : List MessageT} {st : Store}
    (hincoming : s.incoming = msg :: rest) (htable : s.server.1.table = st.table)
    (hmsg : Received msg) (h : Answerable s.server.1 msg) :
    ∃ res server, res.opcode = msg.opcode + 1 ∧ (∃ st : Store, server.1.table = st.table) ∧
      SameNext s.server.1 server.1 ∧
      (serveLoop (n + 1)).run (converse clock link) s =
        (serveLoop n).run (converse clock link)
          { s with server := server, incoming := rest, sent := s.sent ++ [res] } := by
  have hexecuted : Executed clock link msg s.server := executed_of_answerable htable hmsg h
  obtain ⟨res, ret, server, hrun, hret, hop, hst, hsame⟩ := hexecuted
  refine ⟨(conclude (res, ret)).1, server, ?_, hst, hsame, ?_⟩
  · rw [conclude, if_pos hret]
    exact congrArg (· + 1) hop
  · have hconclude : ¬ (conclude (res, ret)).2 < 0 := by
      rw [conclude, if_pos hret]
      exact not_lt.2 hret
    rw [serveLoop_run, serveRound_run clock link hincoming, invoke_run clock link hrun, C.ok_bind,
      if_neg hconclude, C.ok_bind]
    rfl

/-- No thread goes on after a request that is not answered. -/
theorem serveLoop_not_answered {n : ℕ} {s s' : Conversation τ} {rest : List MessageT} {st : Store}
    (hincoming : s.incoming = msg :: rest) (htable : s.server.1.table = st.table)
    (hmsg : Received msg) (h : ¬ Answerable s.server.1 msg) :
    (serveLoop (n + 1)).run (converse clock link) s ≠ .ok (false, s') := by
  intro hrun
  rw [serveLoop_run, serveRound_run clock link hincoming] at hrun
  cases hdispatch : (dispatch msg).run (alone clock link) s.server with
  | error f =>
    have hinvoke : (invoke msg).run (alone clock link) s.server = .error f :=
      Prog.run_bind_error hdispatch
    rw [hinvoke] at hrun
    cases hrun
  | ok a =>
    obtain ⟨⟨res, ret⟩, server⟩ := a
    have hret := dispatch_of_not_answerable htable hmsg h hdispatch
    have hconclude : (conclude (res, ret)).2 < 0 := by
      rw [conclude, if_neg (not_le.2 hret)]
      exact hret
    rw [invoke_run clock link hdispatch, C.ok_bind, if_pos hconclude, C.ok_bind] at hrun
    cases hrun

/-- The loop takes the requests one after the other. -/
theorem serveLoop_all {msgs : List MessageT} (hmsgs : ∀ msg ∈ msgs, Received msg) {st : Store}
    {s : Conversation τ} (hincoming : s.incoming = msgs) (htable : s.server.1.table = st.table) :
    ((∃ s', (serveLoop msgs.length).run (converse clock link) s = .ok (false, s')) ↔
        ∀ msg ∈ msgs, Answerable s.server.1 msg) ∧
      ∀ s', (serveLoop msgs.length).run (converse clock link) s = .ok (false, s') →
        s'.closes = s.closes ∧ ∃ replies, s'.sent = s.sent ++ replies ∧
          List.Forall₂ (fun msg res => Answerable s.server.1 msg ∧ res.opcode = msg.opcode + 1)
            msgs replies := by
  induction msgs generalizing s st with
  | nil =>
    refine ⟨iff_of_true ⟨s, rfl⟩ (List.forall_mem_nil _), fun s' hs' => ?_⟩
    cases hs'
    exact ⟨rfl, [], (List.append_nil _).symm, .nil⟩
  | cons msg msgs ih =>
    have hmsg := hmsgs msg List.mem_cons_self
    by_cases h : Answerable s.server.1 msg
    · obtain ⟨res, server, hop, ⟨st', hst⟩, hsame, hrun⟩ :=
        serveLoop_answered clock link (n := msgs.length) hincoming htable hmsg h
      obtain ⟨hiff, hreplies⟩ := ih (fun m hm => hmsgs m (List.mem_cons_of_mem _ hm))
        (s := { s with server := server, incoming := msgs, sent := s.sent ++ [res] }) rfl hst
      rw [List.length_cons, hrun, hiff, List.forall_mem_cons, and_iff_right h]
      refine ⟨forall₂_congr fun m _ => hsame.answerable_iff m, fun s' hs' => ?_⟩
      obtain ⟨hcloses, replies, hsent, hforall⟩ := hreplies s' hs'
      refine ⟨hcloses, res :: replies, by rw [hsent, List.append_assoc]; rfl, .cons ⟨h, hop⟩ ?_⟩
      exact hforall.imp fun m _ => And.imp_left (hsame.answerable_iff m).1
    · have hstops : ∀ s', (serveLoop (msg :: msgs).length).run (converse clock link) s ≠
          .ok (false, s') := fun s' => serveLoop_not_answered clock link hincoming htable hmsg h
      exact ⟨iff_of_false (fun ⟨s', hs'⟩ => hstops s' hs')
        (fun hall => h (hall msg List.mem_cons_self)), fun s' hs' => absurd hs' (hstops s')⟩

/-- Exactly the sequences of proper requests that the server can forward are answered. -/
theorem oneReplyEach_iff {msgs : List MessageT} (hmsgs : ∀ msg ∈ msgs, Received msg) {st : Store}
    {server : ServerState × τ} (htable : server.1.table = st.table) :
    OneReplyEach clock link server msgs ↔ ∀ msg ∈ msgs, Answerable server.1 msg := by
  have hall := serveLoop_all clock link hmsgs (s := ⟨server, msgs, [], 0⟩) rfl htable
  rw [← hall.1]
  constructor
  · rintro ⟨s, hrun, -⟩
    exact ⟨s, hrun⟩
  · rintro ⟨s, hrun⟩
    obtain ⟨hcloses, replies, hsent, hforall⟩ := hall.2 s hrun
    refine ⟨s, hrun, hcloses, ?_⟩
    rw [hsent, List.nil_append]
    refine hforall.imp fun msg res hboth => ?_
    obtain ⟨hanswerable, hop⟩ := hboth
    exact ⟨fun _ _ => hop, fun _ hfails => absurd hfails.2 hanswerable.stats,
      fun hrefused => absurd hanswerable.proper hrefused⟩

/-- A server that has no successor. -/
def freshServer : ServerState × Unit := (.init (Store.create 1 Store.one_pos).table, ())

theorem received_sizeRequest (opcode : Int) (h : opcode ≠ opPut) :
    Received { sizeRequest with opcode := opcode } :=
  ⟨⟨{ sizeRequest with opcode := opcode }, rfl⟩, fun hop => absurd hop h⟩

/-- Two requests for the size are both answered. -/
theorem oneReplyEach_sizes :
    OneReplyEach (fun _ => ⟨0, 0⟩) .broken freshServer [sizeRequest, sizeRequest] := by
  have hproper : Proper sizeRequest := ⟨by decide, nofun⟩
  have hanswerable : Answerable freshServer.1 sizeRequest := ⟨hproper, nofun, nofun⟩
  have hreceived : Received sizeRequest := received_sizeRequest opSize (by decide)
  have htable : freshServer.1.table = (Store.create 1 (by decide)).table := rfl
  refine (oneReplyEach_iff _ _ ?_ htable).2 ?_
  · simpa using hreceived
  · simpa using hanswerable

/-- After a request with an unknown opcode the connection is closed without a reply, and
    the request behind it is not received either. -/
theorem not_oneReplyEach_unknown :
    Received { sizeRequest with opcode := 11 } ∧ Received sizeRequest ∧
      ¬ OneReplyEach (fun _ => ⟨0, 0⟩) .broken freshServer
        [{ sizeRequest with opcode := 11 }, sizeRequest] := by
  refine ⟨received_sizeRequest 11 (by decide), received_sizeRequest opSize (by decide), ?_⟩
  rintro ⟨s, hrun, -⟩
  have hstops : (serveLoop 2).run (converse (fun _ => ⟨0, 0⟩) .broken)
      ⟨freshServer, [{ sizeRequest with opcode := 11 }, sizeRequest], [], 0⟩ =
        .ok (true, ⟨freshServer, [sizeRequest], [], 1⟩) := rfl
  cases hstops.symm.trans hrun

end Rounds

end ChainTable
