-- SUMMARY: The sections of invoke under a table lock, and what one section or table call of each request does.
import ChainTable.Server.Forward

open Base

/-!
# Sections

A server that serves many clients interleaves their requests by steps: a whole
section between the two calls on a table lock, or one call on the table outside
such a section. Here the program of each request is cut into its steps.
-/

namespace ChainTable

open Calls

/-! ## Cutting a program into steps -/

/-- Which calls end a step, and whether the next one is inside a section. -/
def sectionMode : Bool → ServerCall → Bool × Bool
  | _, .enterRead .table => (true, false)
  | _, .enterWrite .table => (true, false)
  | _, .exitRead .table => (false, true)
  | _, .exitWrite .table => (false, true)
  | inside, .tablePut _ _ => (inside, !inside)
  | inside, .tableGet _ => (inside, !inside)
  | inside, .tableRemove _ => (inside, !inside)
  | inside, .tableSize => (inside, !inside)
  | inside, .tableGetKeys => (inside, !inside)
  | inside, .tableGetEntries => (inside, !inside)
  | inside, _ => (inside, false)

/-! ## What stays inside a section -/

theorem call_stays {α : Type} {inside : Bool} {op : ServerCall} {k : op.Res → Prog Calls α}
    (hop : sectionMode inside op = (inside, false)) (hk : ∀ r, (k r).Stays sectionMode inside) :
    (call op >>= k).Stays sectionMode inside :=
  ⟨hop, hk⟩

theorem memory_stays {α : Type} (inside : Bool) (x : C α) :
    (memory x).Stays sectionMode inside := by
  cases x with
  | ok a => trivial
  | error f => exact ⟨rfl, nofun⟩

theorem increaseOperations_stays (inside : Bool) : increaseOperations.Stays sectionMode inside :=
  ⟨rfl, fun _ => ⟨rfl, fun _ => ⟨rfl, fun _ => ⟨rfl, fun _ => trivial⟩⟩⟩⟩

theorem returnTime_stays (inside : Bool) : returnTime.Stays sectionMode inside :=
  ⟨rfl, fun _ => trivial⟩

theorem increaseTime_stays (inside : Bool) (time : Int) :
    (increaseTime time).Stays sectionMode inside :=
  ⟨rfl, fun _ => ⟨rfl, fun _ => ⟨rfl, fun _ => ⟨rfl, fun _ => trivial⟩⟩⟩⟩

theorem counted_stays {α : Type} {body : Prog Calls α} {inside : Bool}
    (hbody : body.Stays sectionMode inside) : (counted body).Stays sectionMode inside := by
  unfold counted
  refine (increaseOperations_stays inside).bind fun _ => (returnTime_stays inside).bind fun _ => ?_
  refine hbody.bind fun _ => (returnTime_stays inside).bind fun _ => ?_
  exact (increaseTime_stays inside _).bind fun _ => trivial

theorem networkSendReceive_stays (inside : Bool) (rtable : Option Rtable) (msg : MessageT) :
    (networkSendReceive rtable msg).Stays sectionMode inside := by
  unfold networkSendReceive
  refine (memory_stays inside _).bind fun rtable => (memory_stays inside _).bind fun rtable => ?_
  refine call_stays rfl fun sent => ?_
  split_ifs
  · exact call_stays rfl fun _ => trivial
  · exact call_stays rfl fun _ => trivial
  · refine call_stays rfl fun ⟨receivedMsg, disconnected⟩ => ?_
    dsimp only
    split_ifs
    · exact call_stays rfl fun _ => trivial
    · exact call_stays rfl fun _ => trivial
    · trivial

theorem rtablePut_stays (inside : Bool) (rtable : Option Rtable) (entry : Entry) :
    (rtablePut rtable entry).Stays sectionMode inside := by
  unfold rtablePut
  split_ifs
  · trivial
  · refine (memory_stays inside _).bind fun key => (memory_stays inside _).bind fun value => ?_
    refine (memory_stays inside _).bind fun value => ?_
    exact (networkSendReceive_stays inside rtable _).bind fun _ => trivial

theorem rtableDel_stays (inside : Bool) (rtable : Option Rtable) (key : CString) :
    (rtableDel rtable key).Stays sectionMode inside := by
  unfold rtableDel
  exact (networkSendReceive_stays inside rtable _).bind fun _ => trivial

theorem forwardUpdate_stays {inside : Bool} {stub : Option Rtable → Prog Calls Int}
    (hstub : ∀ rtable, (stub rtable).Stays sectionMode inside) :
    (forwardUpdate stub).Stays sectionMode inside := by
  unfold forwardUpdate
  refine call_stays rfl fun path => ?_
  split_ifs
  · exact call_stays rfl fun rtable => (hstub rtable).bind fun _ => trivial
  · trivial

/-! ## Steps -/

section Steps

variable {τ : Type} (clock : ℕ → Timeval) (link : Link τ)

/-- The next step of a thread. -/
def stepOf {α : Type} (p : Prog Calls α) (s : ServerState × τ) :
    C (Prog Calls α × (ServerState × τ)) :=
  p.runBlock (alone clock link) sectionMode false s

section Section

variable {α β : Type} {body : Prog Calls α} (hbody : body.Stays sectionMode true)
  (k : α → Prog Calls β) (s : ServerState × τ)

include hbody

/-- A section is one step. -/
theorem stepOf_readSection :
    stepOf clock link (readSection body >>= k) s =
      (readSection body).run (alone clock link) s >>= fun rs => .ok (k rs.1, rs.2) := by
  have hcut : readSection body >>= k = .call (S := Calls) (.enterRead .table) fun _ =>
      counted body >>= fun a => .call (S := Calls) (.exitRead .table) fun _ => k a := by
    simp only [readSection, locked, Prog.bind_assoc]
    rfl
  rw [stepOf, hcut, Prog.runBlock_section rfl rfl fun _ => counted_stays hbody,
    readSection_run_counted]
  rfl

theorem stepOf_writeSection :
    stepOf clock link (writeSection body >>= k) s =
      (writeSection body).run (alone clock link) s >>= fun rs => .ok (k rs.1, rs.2) := by
  have hcut : writeSection body >>= k = .call (S := Calls) (.enterWrite .table) fun _ =>
      counted body >>= fun a => .call (S := Calls) (.exitWrite .table) fun _ => k a := by
    simp only [writeSection, locked, Prog.bind_assoc]
    rfl
  rw [stepOf, hcut, Prog.runBlock_section rfl rfl fun _ => counted_stays hbody,
    writeSection_run_counted]
  rfl

end Section

/-- A call on the table outside a section is one step. -/
theorem stepOf_tableCall {α : Type} {op : ServerCall} (hop : (sectionMode false op).2 = true)
    (k : op.Res → Prog Calls α) (s : ServerState × τ) :
    stepOf clock link (call op >>= k) s =
      alone clock link op s >>= fun rs => .ok (k rs.1, rs.2) := by
  rw [stepOf, call_bind, Prog.runBlock_call]
  simp only [hop, if_true]

/-- When the rest after a section only returns, the section is the whole run. -/
theorem stepOf_last {α β : Type} {p : Prog Calls α} {k : α → Prog Calls β}
    {s s' : ServerState × τ} {b : β}
    (hstep : stepOf clock link (p >>= k) s =
      p.run (alone clock link) s >>= fun rs => .ok (k rs.1, rs.2))
    (hrun : (p >>= k).run (alone clock link) s = .ok (b, s'))
    (hreturn : ∀ a s₁, (k a).run (alone clock link) s₁ = .ok (b, s') →
      k a = .ret b ∧ s₁ = s') :
    stepOf clock link (p >>= k) s = .ok (.ret b, s') := by
  rw [Prog.run_bind] at hrun
  cases hp : p.run (alone clock link) s with
  | error f =>
    rw [hp] at hrun
    cases hrun
  | ok as =>
    rw [hp] at hrun
    obtain ⟨hk, hs⟩ := hreturn as.1 as.2 hrun
    rw [hstep, hp, C.ok_bind, hk, hs]

end Steps

/-! ## Requests -/

inductive Request where
  | update (u : Update)
  | get (key : CString)
  | size
  | getKeys
  | getTable

namespace Request

/-- The messages that ask for it. -/
def AskedBy : Request → MessageT → Prop
  | update u, msg => u.AskedBy msg
  | get key, msg => msg.opcode = opGet ∧ msg.key = some key
  | size, msg => msg.opcode = opSize
  | getKeys, msg => msg.opcode = opGetkeys
  | getTable, msg => msg.opcode = opGettable

/-- The response says what this store holds: after a put, before a removal. The arrays
    of keys and of entries are those of the store, and are counted right. -/
def AnsweredFrom (st : Store) (msg res : MessageT) : Request → Prop
  | update (.put key b) =>
    if b = [] then res.opcode = opBad
    else res.opcode = msg.opcode + 1 ∧ res.cType = ctNone ∧ st.map.lookup key = some b
  | update (.del key) =>
    res.opcode = msg.opcode + 1 ∧ res.cType = if key ∈ st.map then ctNone else ctBad
  | get key =>
    res.opcode = msg.opcode + 1 ∧
      match st.map.lookup key with
      | some b => res.cType = ctValue ∧ res.value = .ofBytes b
      | none => res.value.data = none
  | size =>
    res.opcode = msg.opcode + 1 ∧ res.cType = ctResult ∧ res.result = st.map.keys.card
  | getKeys =>
    res.opcode = msg.opcode + 1 ∧ res.cType = ctKeys ∧
      res.keys = st.keys.map some ++ [none] ∧ res.nKeys = st.keys.length
  | getTable =>
    res.opcode = msg.opcode + 1 ∧ res.cType = ctTable ∧
      res.entries = (st.entries.map EntryT.ofPair).map some ++ [none] ∧
      res.nEntries = st.entries.length

end Request

/-- A server that holds `st`, as it is between two steps of its threads: its
    connection can be used whenever it has a successor. -/
structure ServerState.Holds (st : Store) (s : ServerState) : Prop where
  table : s.table = st.table
  stats : s.globalStats ≠ none
  connected : s.nextServerNodePath = .empty ∨
    ∃ rtable, s.nextServerRtable = some rtable ∧ rtable.released = false

namespace ServerState.Holds

variable {st : Store} {s : ServerState} (h : s.Holds st)

include h

theorem served (clock : ℕ → Timeval) (st' : Store) : (s.served clock st'.table).Holds st' where
  table := rfl
  stats := by simp [h.stats]
  connected := h.connected

/-- Forwarding never stops the server. -/
theorem forwards {τ : Type} (link : Link τ) (nullSafe : Bool) (msg : MessageT) (t : τ) :
    ∃ t', forwardTo link s.nextServerNodePath s.nextServerRtable nullSafe msg t = .ok t' := by
  by_cases hpath : s.nextServerNodePath = .empty
  · exact ⟨t, by rw [hpath, forwardTo_empty]⟩
  · obtain ⟨rtable, hrtable, hlive⟩ := h.connected.resolve_left hpath
    exact ⟨_, by rw [hrtable, forwardTo_live link _ _ _ hpath hlive]⟩

end ServerState.Holds

theorem ServerState.holds_init (st : Store) : (ServerState.init st.table).Holds st where
  table := rfl
  stats := by simp [ServerState.init]
  connected := .inl rfl

/-! ## The steps of each request -/

section Invoke

variable {τ : Type} (clock : ℕ → Timeval) (link : Link τ)

theorem ret_of_run {α : Type} {a b : α} {s s' : ServerState × τ}
    (h : (Prog.ret a : Prog Calls α).run (alone clock link) s = .ok (b, s')) :
    (Prog.ret a : Prog Calls α) = .ret b ∧ s = s' := by
  obtain ⟨rfl, rfl⟩ : a = b ∧ s = s' := by simpa using h
  exact ⟨rfl, rfl⟩

variable {msg : MessageT} {st : Store} {s : ServerState × τ} (hs : s.1.Holds st)

include hs

theorem stepOf_put {key : CString} {b : Bytes} (hasked : (Update.put key b).AskedBy msg)
    (hb : b ≠ []) :
    ∃ t', stepOf clock link (invoke msg) s =
      .ok (.ret ({ msg with opcode := msg.opcode + 1, cType := ctNone }, 0),
        (s.1.served clock (st.put key b hb).table, t')) := by
  obtain ⟨hopcode, value, hentry, hvalue⟩ := hasked
  have hdispatch : dispatch msg = invokePut msg := dispatch_put hopcode
  have hstays : (putAndForward key (.ofBytes b) ⟨some key, some (.ofBytes b)⟩).Stays
      sectionMode true :=
    call_stays rfl fun _ =>
      (forwardUpdate_stays fun rtable => rtablePut_stays true rtable _).bind fun _ => trivial
  obtain ⟨t', ht'⟩ := hs.forwards link true (putRequest key (.ofBytes b)) s.2
  have hrun := invokePut_run clock link hs.table hs.stats hentry hvalue hb
  rw [ht', C.ok_bind] at hrun
  have hinvoke : (invoke msg).run (alone clock link) s = _ :=
    invoke_run clock link (hdispatch ▸ hrun)
  refine ⟨t', ?_⟩
  rw [invoke, hdispatch, invokePut_eq hentry hvalue hb, Prog.bind_assoc] at hinvoke ⊢
  refine stepOf_last clock link (stepOf_writeSection clock link hstays _ s) hinvoke ?_
  intro res s₁ hres
  by_cases hzero : res = 0
  · rw [if_pos hzero] at hres ⊢
    exact ret_of_run clock link hres
  · rw [if_neg hzero] at hres ⊢
    exact ret_of_run clock link hres

theorem stepOf_del {key : CString} (hasked : (Update.del key).AskedBy msg) :
    ∃ t', stepOf clock link (invoke msg) s =
      .ok (.ret (conclude (if key ∈ st.map then ({ msg with cType := ctNone }, 0)
          else ({ msg with cType := ctBad }, 1))),
        (s.1.served clock (st.remove key).table, t')) := by
  obtain ⟨hopcode, hkey⟩ := hasked
  have hdispatch : dispatch msg = invokeDel msg := dispatch_del hopcode
  have hstays : (removeAndForward key).Stays sectionMode true :=
    call_stays rfl fun _ =>
      (forwardUpdate_stays fun rtable => rtableDel_stays true rtable key).bind fun _ => trivial
  obtain ⟨t', ht'⟩ := hs.forwards link false (delRequest key) s.2
  have hrun := invokeDel_run clock link hs.table hs.stats hkey
  rw [ht', C.ok_bind] at hrun
  have hinvoke : (invoke msg).run (alone clock link) s = _ :=
    invoke_run clock link (hdispatch ▸ hrun)
  refine ⟨t', ?_⟩
  rw [invoke, hdispatch, invokeDel, hkey] at hinvoke ⊢
  simp only [Prog.bind_assoc] at hinvoke ⊢
  refine stepOf_last clock link (stepOf_writeSection clock link hstays _ s) hinvoke ?_
  intro res s₁ hres
  by_cases hzero : res = 0
  · rw [if_pos hzero] at hres ⊢
    exact ret_of_run clock link hres
  · rw [if_neg hzero] at hres ⊢
    by_cases hone : res = 1
    · rw [if_pos hone] at hres ⊢
      exact ret_of_run clock link hres
    · rw [if_neg hone] at hres ⊢
      exact ret_of_run clock link hres

theorem stepOf_get {key : CString} (hopcode : msg.opcode = opGet) (hkey : msg.key = some key) :
    stepOf clock link (invoke msg) s =
      .ok (.ret (conclude (match st.map.lookup key with
          | some b => { msg with value := .ofBytes b, cType := ctValue }
          | none => { msg with value := msg.value.dropData }, 0)),
        (s.1.served clock st.table, s.2)) := by
  have hdispatch : dispatch msg = invokeGet msg := dispatch_get hopcode
  have hstays : (call (.tableGet key)).Stays sectionMode true := ⟨rfl, fun _ => trivial⟩
  have hrun := invokeGet_run clock link hs.table hs.stats hkey
  have hinvoke : (invoke msg).run (alone clock link) s = _ :=
    invoke_run clock link (hdispatch ▸ hrun)
  rw [invoke, hdispatch, invokeGet, hkey] at hinvoke ⊢
  simp only [Prog.bind_assoc] at hinvoke ⊢
  refine stepOf_last clock link (stepOf_readSection clock link hstays _ s) hinvoke ?_
  intro gottenValue s₁ hres
  cases gottenValue with
  | none => exact ret_of_run clock link hres
  | some gottenValue =>
    cases hvalue : gottenValue.toBinary with
    | error f =>
      simp only [hvalue] at hres
      cases hres
    | ok value =>
      simp only [hvalue] at hres ⊢
      exact ret_of_run clock link hres

theorem stepOf_size (hopcode : msg.opcode = opSize) :
    stepOf clock link (invoke msg) s =
      .ok (.ret (conclude
          ({ msg with result := st.entries.length, cType := ctResult }, st.entries.length)),
        (s.1.served clock st.table, s.2)) := by
  have hdispatch : dispatch msg = invokeSize msg := dispatch_size hopcode
  have hstays : (call .tableSize).Stays sectionMode true := ⟨rfl, fun _ => trivial⟩
  have hrun := invokeSize_run clock link hs.table hs.stats msg
  have hinvoke : (invoke msg).run (alone clock link) s = _ :=
    invoke_run clock link (hdispatch ▸ hrun)
  rw [invoke, hdispatch, invokeSize, Prog.bind_assoc] at hinvoke ⊢
  refine stepOf_last clock link (stepOf_readSection clock link hstays _ s) hinvoke ?_
  intro res s₁ hres
  by_cases hsize : res ≥ 0
  · rw [if_pos hsize] at hres ⊢
    exact ret_of_run clock link hres
  · rw [if_neg hsize] at hres ⊢
    exact ret_of_run clock link hres

/-- The first step of OP_GETKEYS collects the keys. -/
theorem stepOf_getKeys (hopcode : msg.opcode = opGetkeys) :
    stepOf clock link (invoke msg) s =
      .ok (getkeysReply msg (st.keys.map some ++ [none]) >>= fun result => .ret (conclude result),
        (s.1.served clock st.table, s.2)) := by
  have hdispatch : dispatch msg = invokeGetkeys msg := dispatch_getkeys hopcode
  have hstays : (call .tableGetKeys).Stays sectionMode true := ⟨rfl, fun _ => trivial⟩
  have hop : alone clock link .tableGetKeys (s.1.counts, s.2) =
      .ok (st.keys.map some ++ [none], (s.1.counts, s.2)) := by
    simp only [alone, ServerState.table_counts, hs.table, st.tableGetKeys_table]
    rfl
  rw [invoke, hdispatch, invokeGetkeys, Prog.bind_assoc, stepOf_readSection clock link hstays _ s,
    readSection_call_run clock link hs.table hs.stats hop, C.ok_bind]
  rfl

/-- The second step counts them. -/
theorem stepOf_getkeysReply (keys : List (Option CString)) :
    stepOf clock link (getkeysReply msg keys >>= fun result => .ret (conclude result)) s =
      .ok (.ret (conclude ({ msg with nKeys := st.entries.length, keys := keys, cType := ctKeys }, 0)),
        s) := by
  have hop : alone clock link .tableSize s = .ok ((st.entries.length : Int), s) := by
    simp only [alone, hs.table, st.tableSize_table]
  rw [getkeysReply, Prog.bind_assoc, stepOf_tableCall clock link rfl, hop]
  rfl

/-- The first step of OP_GETTABLE counts the entries. -/
theorem stepOf_getTable (hopcode : msg.opcode = opGettable) :
    stepOf clock link (invoke msg) s =
      .ok (gettableReply msg st.entries.length >>= fun result => .ret (conclude result),
        (s.1.served clock st.table, s.2)) := by
  have hdispatch : dispatch msg = invokeGettable msg := dispatch_gettable hopcode
  have hstays : (call .tableSize).Stays sectionMode true := ⟨rfl, fun _ => trivial⟩
  have hop : alone clock link .tableSize (s.1.counts, s.2) =
      .ok ((st.entries.length : Int), (s.1.counts, s.2)) := by
    simp only [alone, ServerState.table_counts, hs.table, st.tableSize_table]
  rw [invoke, hdispatch, invokeGettable, Prog.bind_assoc, stepOf_readSection clock link hstays _ s,
    readSection_call_run clock link hs.table hs.stats hop, C.ok_bind]
  rfl

/-- The second step collects them, when there are still as many. -/
theorem stepOf_gettableReply {n : ℕ} (hcount : st.entries.length = n) :
    stepOf clock link (gettableReply msg n >>= fun result => .ret (conclude result)) s =
      .ok (.ret (conclude ({ msg with
          nEntries := st.entries.length
          entries := (st.entries.map EntryT.ofPair).map some ++ [none]
          cType := ctTable }, 0)),
        s) := by
  have hop : alone clock link .tableGetEntries s =
      .ok ((st.entries.map Entry.ofPair).map some ++ [none], s) := by
    simp only [alone, hs.table, st.tableGetEntries_table]
    rfl
  have hsucc : ((n : Int) + 1).toNat = n + 1 := by omega
  have hcopy := copyLoop_packEntry st.entries
  rw [hcount] at hcopy
  rw [gettableReply, Prog.bind_assoc, stepOf_tableCall clock link rfl, hop, C.ok_bind]
  simp only [Int.toNat_natCast, hsucc, hcopy, memory_ok, Prog.ret_bind, hcount]
  rfl

end Invoke

end ChainTable
