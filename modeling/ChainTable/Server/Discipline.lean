-- SUMMARY: The discipline that serve_conn keeps with the two locks and the statistics, whatever is asked of it.
import ChainTable.Server.Threads

open Base

/-!
# Discipline

The statistics lock is taken last and for a few calls only, a field is stored as what
was loaded before and one more, the first change that a thread makes while it has the table
is that of the number of operations, and the reply to OP_STATS reports what was loaded in one
section. A protocol says this of a thread by itself; `serve_conn` follows it for every
request and every result of its calls.
-/

namespace ChainTable

open Calls

/-! ## Standing -/

/-- What a thread has of a lock. -/
inductive Held where
  | nothing
  | reading
  | writing
  deriving DecidableEq

/-- How far a thread is in a section in which it changes the statistics. -/
inductive Pending where
  | fresh
  | loaded (field : StatField) (value : Int)
  | stored (field : StatField)
  deriving DecidableEq

inductive StatsPoint where
  | outside
  | reading
  | writing (pending : Pending)
  deriving DecidableEq

def StatsPoint.held : StatsPoint → Held
  | outside => .nothing
  | reading => .reading
  | writing _ => .writing

/-- Where a thread stands. The counters are those loaded in the last section in which it
    only read; the last parts say whether it has changed the number of clients, and whether it
    has changed the statistics since it last got the table. -/
structure Standing where
  table : Held
  stats : StatsPoint
  nClientes : Option Int
  nOperacoes : Option Int
  changed : Bool
  counted : Bool

namespace Standing

def load (q : Standing) (field : StatField) (value : Int) : Standing :=
  match q.stats, field with
  | .reading, .nClientes => { q with nClientes := some value }
  | .reading, .nOperacoes => { q with nOperacoes := some value }
  | .writing _, field => { q with stats := .writing (.loaded field value) }
  | _, _ => q

def next (q : Standing) : (op : ServerCall) → op.Res → Standing
  | .enterRead .table, _ => { q with table := .reading, counted := false }
  | .enterWrite .table, _ => { q with table := .writing, counted := false }
  | .exitRead .table, _ => { q with table := .nothing }
  | .exitWrite .table, _ => { q with table := .nothing }
  | .enterRead .stats, _ => { q with stats := .reading, nClientes := none, nOperacoes := none }
  | .enterWrite .stats, _ => { q with stats := .writing .fresh }
  | .exitRead .stats, _ => { q with stats := .outside }
  | .exitWrite .stats, _ => { q with stats := .outside, counted := true }
  | .loadStat field, value => q.load field value
  | .storeStat field _, _ =>
    { q with stats := .writing (.stored field), changed := q.changed || field = .nClientes }
  | _, _ => q

/-- The calls that are allowed in a part of `serve_conn` that changes the number of
    clients by `change`, if at all. -/
def Allows (change : Option Int) (q : Standing) : ServerCall → Prop
  | .enterRead .table => q.table = .nothing ∧ q.stats = .outside
  | .enterWrite .table => q.table = .nothing ∧ q.stats = .outside
  | .exitRead .table => q.table = .reading ∧ q.counted = true
  | .exitWrite .table => q.table = .writing ∧ q.counted = true
  | .enterRead .stats => q.stats = .outside
  | .enterWrite .stats => q.stats = .outside
  | .exitRead .stats => q.stats = .reading
  | .exitWrite .stats => ∃ pending, q.stats = .writing pending ∧
    (q.table ≠ .nothing → q.counted = false → pending = .stored .nOperacoes)
  | .loadStat _ => q.stats = .reading ∨ q.stats = .writing .fresh
  | .storeStat field value =>
    ∃ current, q.stats = .writing (.loaded field current) ∧
      (field = .nOperacoes → q.table ≠ .nothing ∧ q.counted = false ∧ value = current + 1) ∧
      (field = .nClientes → q.changed = false ∧ change = some (value - current))
  | _ => True

/-- The number of clients has been changed, and nothing is left to be done. -/
def Over (change : Option Int) (q : Standing) : Prop :=
  change ≠ none ∧ q.changed = true ∧ q.stats.held ≠ .writing

structure Rests (q : Standing) : Prop where
  table : q.table = .nothing
  stats : q.stats = .outside

/-- Statistics with the counters that were loaded last. -/
def Reports (q : Standing) (stats : Option StatisticsT) : Prop :=
  ∃ loaded, stats = some loaded ∧ q.nClientes = some loaded.nClientes ∧
    q.nOperacoes = some loaded.nOperacoes

/-- The end of `invoke`: a successful OP_STATS reports what was loaded. -/
structure Answers (q : Standing) (result : MessageT × Int) : Prop where
  rests : q.Rests
  reports : 0 ≤ result.2 → result.1.opcode = opStats → q.Reports result.1.stats

end Standing

def serverProtocol (change : Option Int) : Prog.Protocol Calls Standing where
  allowed q op := q.Allows change op ∧ ¬ q.Over change
  expected _ _ _ := True
  next := Standing.next

/-! ## Calls that change nothing -/

/-- Calls that are neither about locks nor about statistics. -/
def ServerCall.free : ServerCall → Bool
  | .enterRead _ => false
  | .exitRead _ => false
  | .enterWrite _ => false
  | .exitWrite _ => false
  | .loadStat _ => false
  | .storeStat _ _ => false
  | _ => true

theorem next_of_free {op : ServerCall} (h : op.free = true) (q : Standing) (r : op.Res) :
    q.next op r = q := by
  cases op <;> first | rfl | cases h

theorem allows_of_free {op : ServerCall} (h : op.free = true) (change : Option Int)
    (q : Standing) : q.Allows change op := by
  cases op <;> trivial

/-- The program takes the thread from `q` to `q'`. -/
def Leads {α : Type} (p : Prog Calls α) (q q' : Standing) : Prop :=
  p.Follows (serverProtocol none) (fun r _ => r = q') q

/-- The program leaves the thread where it stands. -/
abbrev Keeps {α : Type} (p : Prog Calls α) (q : Standing) : Prop := Leads p q q

section Leads

variable {α β : Type} {q q' : Standing}

theorem not_over_none (q : Standing) : ¬ q.Over none := fun h => h.1 rfl

theorem free_follows {op : ServerCall} (hop : op.free = true) {k : op.Res → Prog Calls α}
    {final : Standing → α → Prop}
    (hk : ∀ r, (k r).Follows (serverProtocol none) final q) :
    (call op >>= k).Follows (serverProtocol none) final q := by
  refine ⟨⟨allows_of_free hop none q, not_over_none q⟩, fun r _ => ?_⟩
  change (k r).Follows _ _ (q.next op r)
  rw [next_of_free hop q r]
  exact hk r

theorem Leads.bind {p : Prog Calls α} {f : α → Prog Calls β} {final : Standing → β → Prop}
    (hp : Leads p q q') (hf : ∀ a, (f a).Follows (serverProtocol none) final q') :
    (p >>= f).Follows (serverProtocol none) final q := by
  refine Prog.Follows.bind hp ?_
  rintro _ a rfl
  exact hf a

theorem keeps_ret (a : α) (q : Standing) : Keeps (.ret a) q := rfl

theorem keeps_call {op : ServerCall} (hop : op.free = true) (q : Standing) : Keeps (call op) q :=
  free_follows hop fun _ => rfl

theorem keeps_memory (x : C α) (q : Standing) : Keeps (memory x) q := by
  cases x with
  | ok a => exact keeps_ret a q
  | error f => exact ⟨⟨trivial, not_over_none q⟩, nofun⟩

theorem keeps_networkSendReceive (rtable : Option Rtable) (msg : MessageT) (q : Standing) :
    Keeps (networkSendReceive rtable msg) q := by
  unfold networkSendReceive
  refine (keeps_memory _ q).bind fun rtable => (keeps_memory _ q).bind fun rtable => ?_
  refine free_follows rfl fun sent => ?_
  split_ifs
  · exact free_follows rfl fun _ => rfl
  · exact free_follows rfl fun _ => rfl
  · refine free_follows rfl fun ⟨receivedMsg, disconnected⟩ => ?_
    dsimp only
    split_ifs
    · exact free_follows rfl fun _ => rfl
    · exact free_follows rfl fun _ => rfl
    · rfl

theorem keeps_rtablePut (rtable : Option Rtable) (entry : Entry) (q : Standing) :
    Keeps (rtablePut rtable entry) q := by
  unfold rtablePut
  split_ifs
  · rfl
  · refine (keeps_memory _ q).bind fun key => (keeps_memory _ q).bind fun value => ?_
    refine (keeps_memory _ q).bind fun value => ?_
    exact (keeps_networkSendReceive rtable _ q).bind fun _ => rfl

theorem keeps_rtableDel (rtable : Option Rtable) (key : CString) (q : Standing) :
    Keeps (rtableDel rtable key) q := by
  unfold rtableDel
  exact (keeps_networkSendReceive rtable _ q).bind fun _ => rfl

theorem keeps_forwardUpdate {stub : Option Rtable → Prog Calls Int}
    (hstub : ∀ rtable, Keeps (stub rtable) q) : Keeps (forwardUpdate stub) q := by
  unfold forwardUpdate
  refine free_follows rfl fun path => ?_
  split_ifs
  · exact free_follows rfl fun rtable => (hstub rtable).bind fun _ => rfl
  · rfl

theorem keeps_putAndForward (key : CString) (value : Data) (entry : Entry) (q : Standing) :
    Keeps (putAndForward key value entry) q := by
  unfold putAndForward
  refine free_follows rfl fun res => ?_
  exact (keeps_forwardUpdate fun rtable => keeps_rtablePut rtable entry q).bind fun _ => rfl

theorem keeps_removeAndForward (key : CString) (q : Standing) :
    Keeps (removeAndForward key) q := by
  unfold removeAndForward
  refine free_follows rfl fun res => ?_
  exact (keeps_forwardUpdate fun rtable => keeps_rtableDel rtable key q).bind fun _ => rfl

/-! ## Sections -/

/-- A section in which a field that is not the number of clients is loaded and stored. The
    first one that a thread with the table goes through is about the number of operations. -/
theorem leads_change (hstats : q.stats = .outside) (field : StatField) (value : Int → Int)
    (hfield : field ≠ .nClientes)
    (hvalue : field = .nOperacoes →
      q.table ≠ .nothing ∧ q.counted = false ∧ ∀ current, value current = current + 1)
    (hfirst : q.table ≠ .nothing → q.counted = false → field = .nOperacoes) :
    Leads (do
      call (.enterWrite .stats)
      let current ← call (.loadStat field)
      call (.storeStat field (value current))
      call (.exitWrite .stats)) q { q with counted := true } := by
  obtain ⟨table, stats, nClientes, nOperacoes, changed, counted⟩ := q
  obtain rfl : stats = .outside := hstats
  refine ⟨⟨rfl, not_over_none _⟩, fun _ _ => ⟨⟨.inr rfl, not_over_none _⟩, fun current _ => ?_⟩⟩
  refine ⟨⟨⟨current, rfl, fun hop => ?_, fun hclients => absurd hclients hfield⟩,
    not_over_none _⟩, fun _ _ =>
      ⟨⟨⟨_, rfl, fun htable hcounted => ?_⟩, not_over_none _⟩, fun _ _ => ?_⟩⟩
  · obtain ⟨htable, hcounted, hsum⟩ := hvalue hop
    exact ⟨htable, hcounted, hsum current⟩
  · rw [hfirst htable hcounted]
  · simp [serverProtocol, Standing.next, Standing.load, hfield]

theorem increaseOperations_leads (hstats : q.stats = .outside) (htable : q.table ≠ .nothing)
    (hcounted : q.counted = false) : Leads increaseOperations q { q with counted := true } :=
  leads_change hstats .nOperacoes (· + 1) (by decide) (fun _ => ⟨htable, hcounted, fun _ => rfl⟩)
    fun _ _ => rfl

theorem increaseTime_leads (hstats : q.stats = .outside) (hcounted : q.counted = true)
    (time : Int) :
    Leads (increaseTime time) q { q with counted := true } := by
  refine leads_change hstats .totalTime (fun current => int32 (current + time)) (by decide) nofun ?_
  intro _ hfresh
  rw [hcounted] at hfresh
  cases hfresh

theorem keeps_returnTime (q : Standing) : Keeps returnTime q :=
  free_follows rfl fun _ => rfl

/-- A body in a section of the table is counted first. -/
theorem counted_leads {body : Prog Calls α} (hstats : q.stats = .outside)
    (htable : q.table ≠ .nothing)
    (hcounted : q.counted = false) (hbody : Keeps body { q with counted := true }) :
    Leads (counted body) q { q with counted := true } := by
  unfold counted
  refine (increaseOperations_leads hstats htable hcounted).bind fun _ => ?_
  refine (keeps_returnTime _).bind fun _ => ?_
  refine hbody.bind fun _ => (keeps_returnTime _).bind fun _ => ?_
  exact (increaseTime_leads (q := { q with counted := true }) hstats rfl _).bind fun _ => rfl

theorem Standing.Rests.counted (h : q.Rests) : ({ q with counted := true } : Standing).Rests :=
  ⟨h.table, h.stats⟩

/-- What a section of the table leaves. -/
theorem Standing.Rests.after_section (h : q.Rests) :
    ({ q with table := .nothing, counted := true } : Standing) = { q with counted := true } := by
  rw [← h.table]

theorem readSection_leads {body : Prog Calls α} (hrests : q.Rests)
    (hbody : Keeps body { q with table := .reading, counted := true }) :
    Leads (readSection body) q { q with counted := true } := by
  refine ⟨⟨⟨hrests.table, hrests.stats⟩, not_over_none _⟩, fun _ _ => ?_⟩
  have hcounted : Leads (ChainTable.counted body) { q with table := .reading, counted := false }
      { q with table := .reading, counted := true } :=
    counted_leads hrests.stats (by simp) rfl hbody
  exact hcounted.bind fun result => ⟨⟨⟨rfl, rfl⟩, not_over_none _⟩, fun _ _ => hrests.after_section⟩

theorem writeSection_leads {body : Prog Calls α} (hrests : q.Rests)
    (hbody : Keeps body { q with table := .writing, counted := true }) :
    Leads (writeSection body) q { q with counted := true } := by
  refine ⟨⟨⟨hrests.table, hrests.stats⟩, not_over_none _⟩, fun _ _ => ?_⟩
  have hcounted : Leads (ChainTable.counted body) { q with table := .writing, counted := false }
      { q with table := .writing, counted := true } :=
    counted_leads hrests.stats (by simp) rfl hbody
  exact hcounted.bind fun result => ⟨⟨⟨rfl, rfl⟩, not_over_none _⟩, fun _ _ => hrests.after_section⟩

end Leads

/-! ## invoke -/

section Invoke

variable {q : Standing} (hrests : q.Rests) {msg : MessageT}

/-- A result that is not one of OP_STATS. -/
theorem answers_other (hrests : q.Rests) {result : MessageT × Int}
    (h : result.1.opcode ≠ opStats) : q.Answers result :=
  ⟨hrests, fun _ hop => absurd hop h⟩

theorem answers_refused (hrests : q.Rests) (res : MessageT) : q.Answers (res, -1) :=
  ⟨hrests, fun hret => absurd hret (show ¬ (0 : Int) ≤ -1 by decide)⟩

include hrests

theorem invokePut_answers (hop : msg.opcode = opPut) :
    (invokePut msg).Follows (serverProtocol none) Standing.Answers q := by
  have hother : msg.opcode ≠ opStats := by
    rw [hop]
    decide
  unfold invokePut
  refine (keeps_memory _ q).bind fun entry => (keeps_memory _ q).bind fun v => ?_
  refine (keeps_memory _ q).bind fun dupKey => ?_
  dsimp only
  split
  · refine (writeSection_leads hrests (keeps_putAndForward _ _ _ _)).bind fun res => ?_
    split_ifs
    · exact answers_other hrests.counted hother
    · exact answers_other hrests.counted (by decide : opError ≠ opStats)
  · exact answers_refused hrests _

theorem invokeGet_answers (hop : msg.opcode = opGet) :
    (invokeGet msg).Follows (serverProtocol none) Standing.Answers q := by
  have hother : msg.opcode ≠ opStats := by
    rw [hop]
    decide
  unfold invokeGet
  split
  · exact answers_refused hrests _
  · refine (readSection_leads hrests (keeps_call rfl _)).bind fun gotten => ?_
    cases gotten with
    | none => exact answers_other hrests.counted hother
    | some gottenValue =>
      exact (keeps_memory _ _).bind fun value => answers_other hrests.counted hother

theorem invokeDel_answers (hop : msg.opcode = opDel) :
    (invokeDel msg).Follows (serverProtocol none) Standing.Answers q := by
  have hother : msg.opcode ≠ opStats := by
    rw [hop]
    decide
  unfold invokeDel
  split
  · exact answers_refused hrests _
  · refine (writeSection_leads hrests (keeps_removeAndForward _ _)).bind fun res => ?_
    split_ifs
    · exact answers_other hrests.counted hother
    · exact answers_other hrests.counted hother
    · exact answers_other hrests.counted (by decide : opError ≠ opStats)

theorem invokeSize_answers (hop : msg.opcode = opSize) :
    (invokeSize msg).Follows (serverProtocol none) Standing.Answers q := by
  unfold invokeSize
  refine (readSection_leads hrests (keeps_call rfl _)).bind fun res => ?_
  split_ifs
  · refine answers_other hrests.counted ?_
    simp only [hop]
    decide
  · exact answers_other hrests.counted (by decide : opError ≠ opStats)

theorem invokeGetkeys_answers (hop : msg.opcode = opGetkeys) :
    (invokeGetkeys msg).Follows (serverProtocol none) Standing.Answers q := by
  unfold invokeGetkeys getkeysReply
  refine (readSection_leads hrests (keeps_call rfl _)).bind fun keys => ?_
  refine free_follows rfl fun size => answers_other hrests.counted ?_
  simp only [hop]
  decide

theorem invokeGettable_answers (hop : msg.opcode = opGettable) :
    (invokeGettable msg).Follows (serverProtocol none) Standing.Answers q := by
  unfold invokeGettable gettableReply
  refine (readSection_leads hrests (keeps_call rfl _)).bind fun tabSize => ?_
  refine free_follows rfl fun oldEntries => (keeps_memory _ _).bind fun entries => ?_
  refine answers_other hrests.counted ?_
  simp only [hop]
  decide

/-- The reply of OP_STATS is made of what its section has loaded. -/
theorem invokeStats_answers (msg : MessageT) :
    (invokeStats msg).Follows (serverProtocol none) Standing.Answers q := by
  obtain ⟨table, stats, nClientes, nOperacoes, changed, counted⟩ := q
  obtain rfl : stats = .outside := hrests.stats
  have htable : table = .nothing := hrests.table
  unfold invokeStats
  refine ⟨⟨rfl, not_over_none _⟩, fun _ _ => free_follows rfl fun hasStats => ?_⟩
  cases hasStats with
  | false =>
    refine ⟨⟨rfl, not_over_none _⟩, fun _ _ => answers_refused ⟨htable, rfl⟩ _⟩
  | true =>
    refine ⟨⟨.inl rfl, not_over_none _⟩, fun clientes _ => ?_⟩
    refine ⟨⟨.inl rfl, not_over_none _⟩, fun operacoes _ => ?_⟩
    refine ⟨⟨.inl rfl, not_over_none _⟩, fun time _ => ?_⟩
    refine ⟨⟨rfl, not_over_none _⟩, fun _ _ => ⟨⟨htable, rfl⟩, fun _ _ => ?_⟩⟩
    exact ⟨⟨clientes, operacoes, time⟩, rfl, rfl, rfl⟩

theorem dispatch_answers (msg : MessageT) :
    (dispatch msg).Follows (serverProtocol none) Standing.Answers q := by
  have hcase := dispatched msg
  generalize dispatch msg = handler at hcase ⊢
  cases hcase with
  | put hop => exact invokePut_answers hrests hop
  | get hop => exact invokeGet_answers hrests hop
  | del hop => exact invokeDel_answers hrests hop
  | size hop => exact invokeSize_answers hrests hop
  | getkeys hop => exact invokeGetkeys_answers hrests hop
  | gettable hop => exact invokeGettable_answers hrests hop
  | stats => exact invokeStats_answers hrests msg
  | unknown => exact answers_refused hrests msg

/-- What `invoke` leaves to be sent. -/
theorem invoke_answers (msg : MessageT) :
    (invoke msg).Follows (serverProtocol none)
      (fun q' result => q'.Rests ∧
        (0 ≤ result.2 → result.1.opcode = opStats + 1 → q'.Reports result.1.stats)) q := by
  refine (dispatch_answers hrests msg).bind fun q' result hresult => ⟨hresult.rests, ?_⟩
  intro hret hop
  by_cases hpos : result.2 ≥ 0
  · rw [conclude, if_pos hpos] at hop ⊢
    exact hresult.reports hpos (add_right_cancel hop)
  · rw [conclude, if_neg hpos] at hret
    exact absurd hret hpos

end Invoke

/-! ## serve_conn -/

/-- By how much a part changes the number of clients. -/
def Part.change : Part → Option Int
  | opening => some 1
  | closing => some (-1)
  | _ => none

def connProtocol (part : Part) : Prog.Protocol Conn Standing where
  allowed q op := part ≠ .finished ∧ ¬ q.Over part.change ∧
    match op with
    | .server op => q.Allows part.change op
    | .networkSend msg => msg.opcode = opStats + 1 → q.Reports msg.stats
    | _ => True
  expected _ _ _ := True
  next q op r :=
    match op, r with
    | .server op, r => q.next op r
    | _, _ => q

/-- The standing in which a part ends. -/
structure Part.Ended (part : Part) (q : Standing) : Prop where
  rests : q.Rests
  changed : part.change ≠ none → q.changed = true

section ServeConn

variable {part : Part} {q : Standing}

theorem onServer_follows {α : Type} {p : Prog Calls α} {final : Standing → α → Prop}
    (hpart : part ≠ .finished) (h : p.Follows (serverProtocol part.change) final q) :
    (onServer p).Follows (connProtocol part) final q := by
  induction p generalizing q with
  | ret a => exact h
  | call op k ih => exact ⟨⟨hpart, h.1.2, h.1.1⟩, fun r hr => ih r (h.2 r hr)⟩

/-- The one call that changes the number of clients. -/
theorem changeClientNum_follows {value : Int} (hchange : part.change = some value)
    (hrests : q.Rests) (hchanged : q.changed = false) :
    (changeClientNum value).Follows (serverProtocol part.change)
      (fun q' _ => q' = { q with changed := true, counted := true }) q := by
  obtain ⟨table, stats, nClientes, nOperacoes, changed, counted⟩ := q
  obtain rfl : stats = .outside := hrests.stats
  obtain rfl : changed = false := hchanged
  rw [hchange]
  refine ⟨⟨rfl, fun h => Bool.false_ne_true h.2.1⟩, fun _ _ => ?_⟩
  refine ⟨⟨.inr rfl, fun h => Bool.false_ne_true h.2.1⟩, fun current _ => ?_⟩
  refine ⟨⟨⟨current, rfl, nofun, fun _ => ⟨rfl, ?_⟩⟩, fun h => Bool.false_ne_true h.2.1⟩,
    fun _ _ => ?_⟩
  · rw [add_sub_cancel_left]
  · exact ⟨⟨⟨_, rfl, fun htable => absurd hrests.table htable⟩, fun h => h.2.2 rfl⟩, fun _ _ => rfl⟩

theorem start_follows (hrests : q.Rests) (hchanged : q.changed = false) :
    ServeConn.start.prog.Follows (connProtocol .opening)
      (fun q' _ => Part.Ended .opening q') q := by
  refine (onServer_follows (by decide : Part.opening ≠ .finished)
    (changeClientNum_follows rfl hrests hchanged)).bind ?_
  rintro _ _ rfl
  exact ⟨⟨hrests.table, hrests.stats⟩, fun _ => rfl⟩

theorem failRound_follows (hrests : q.Rests) :
    failRound.Follows (connProtocol .serving) (fun q' _ => Part.Ended .serving q') q := by
  refine ⟨⟨nofun, not_over_none q, trivial⟩, fun _ _ =>
    ⟨⟨nofun, not_over_none q, trivial⟩, fun _ _ => ?_⟩⟩
  exact ⟨hrests, fun h => absurd rfl h⟩

theorem round_follows (hrests : q.Rests) :
    serveRound.Follows (connProtocol .serving) (fun q' _ => Part.Ended .serving q') q := by
  refine ⟨⟨nofun, not_over_none q, trivial⟩, fun received _ => ?_⟩
  cases received with
  | none => exact failRound_follows hrests
  | some msg =>
    have hinvoke : (invoke msg).Follows (serverProtocol Part.serving.change) _ q :=
      invoke_answers hrests msg
    refine (onServer_follows (by decide : Part.serving ≠ .finished) hinvoke).bind ?_
    rintro q' ⟨res, ret⟩ ⟨hrests', hreports⟩
    dsimp only
    split_ifs with hret
    · exact failRound_follows hrests'
    · refine ⟨⟨nofun, not_over_none q', hreports (not_lt.1 hret)⟩, fun (sent : Int) _ => ?_⟩
      change Prog.Follows _ _ q' (if sent ≤ 0 then failRound else .ret false)
      split_ifs
      · exact failRound_follows hrests'
      · exact ⟨hrests', fun h => absurd rfl h⟩

theorem leave_follows (hrests : q.Rests) (hchanged : q.changed = false) :
    ServeConn.leave.prog.Follows (connProtocol .closing)
      (fun q' _ => Part.Ended .closing q') q := by
  refine ⟨⟨nofun, fun h => ?_, trivial⟩, fun _ _ => ?_⟩
  · exact Bool.false_ne_true (hchanged.symm.trans h.2.1)
  · refine (onServer_follows (by decide : Part.closing ≠ .finished)
      (changeClientNum_follows rfl hrests hchanged)).bind ?_
    rintro _ _ rfl
    exact ⟨⟨hrests.table, hrests.stats⟩, fun _ => rfl⟩

end ServeConn

end ChainTable
