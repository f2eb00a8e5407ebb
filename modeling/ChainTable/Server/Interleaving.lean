-- SUMMARY: Requests that are served side by side, and whether each response says what the table held at one moment.
import ChainTable.Base.Transition
import ChainTable.Server.Sections

open Base

/-!
# Interleaved requests

Any number of requests are served by one server, and any of them may make the next
step. While a request is processed, every table that the server holds is recorded, so
that a response can be compared with all moments at which it might be right.
-/

namespace ChainTable

open Calls

/-! ## The system -/

/-- A request and the tables that the server has held since it was received. The
    last part of a request in process is the table with which its first step ended. -/
inductive Serving where
  | waiting
  | processing (prog : Prog Calls (MessageT × Int)) (seen : List Table) (first : Option Table)
  | answered (result : MessageT × Int) (seen : List Table)

namespace Serving

/-- The server holds a new table, because of a step of another request. -/
def observe (table : Table) : Serving → Serving
  | processing prog seen first => processing prog (table :: seen) first
  | r => r

/-- A request after a step of its own. -/
def advance (table : Table) (seen : List Table) : Prog Calls (MessageT × Int) → Serving
  | .ret result => answered result (table :: seen)
  | prog => processing prog (table :: seen) (some table)

end Serving

structure System (ι τ : Type) where
  server : ServerState × τ
  requests : ι → Serving
  crashed : Bool

inductive ServeStep (ι : Type) where
  | receive (i : ι)
  | next (i : ι)

section System

variable {ι τ : Type} [DecidableEq ι] (clock : ℕ → Timeval) (link : Link τ)

namespace System

/-- The server and the requests after a step of the request `i`. -/
def moved (s : System ι τ) (i : ι) (seen : List Table) (prog : Prog Calls (MessageT × Int))
    (server : ServerState × τ) : System ι τ where
  server := server
  requests := Function.update (fun j => (s.requests j).observe server.1.table) i
    (.advance server.1.table seen prog)
  crashed := s.crashed

/-- One step. A fault ends the process. -/
def step (msg : ι → MessageT) (l : ServeStep ι) (s : System ι τ) : Option (System ι τ) :=
  if s.crashed then none
  else
    match l with
    | .receive i =>
      match s.requests i with
      | .waiting => some { s with
          requests := Function.update s.requests i
            (.processing (invoke (msg i)) [s.server.1.table] none) }
      | _ => none
    | .next i =>
      match s.requests i with
      | .processing prog seen _ =>
        match stepOf clock link prog s.server with
        | .ok (prog, server) => some (s.moved i seen prog server)
        | .error _ => some { s with crashed := true }
      | _ => none

/-- A server that holds a well-formed table and has received nothing yet. -/
def Start (s : System ι τ) : Prop :=
  (∃ st, s.server.1.Holds st) ∧ (∀ i, s.requests i = .waiting) ∧ s.crashed = false

end System

def servingSystem (msg : ι → MessageT) : LTS (System ι τ) (ServeStep ι) where
  init := System.Start
  step := System.step clock link msg

/-- Nothing has crashed, and each response is right about a table that the server held
    while the request was processed. -/
structure AtomicResponses (request : ι → Request) (msg : ι → MessageT) (s : System ι τ) :
    Prop where
  running : s.crashed = false
  answered : ∀ i result seen, s.requests i = .answered result seen →
    ∃ st : Store, st.table ∈ seen ∧ (request i).AnsweredFrom st (msg i) result.1

/-- A request that goes back to the table after its section finds as many keys in it
    as there were. -/
def SameCount (l : ServeStep ι) (s : System ι τ) : Prop :=
  ∀ i prog seen table, l = .next i → s.requests i = .processing prog seen (some table) →
    tableSize s.server.1.table = tableSize table

section SameCount

variable {s : System ι τ} {i : ι} {prog : Prog Calls (MessageT × Int)} {seen : List Table}

omit [DecidableEq ι]

theorem sameCount_receive (s : System ι τ) (i : ι) : SameCount (.receive i) s := by
  intro j prog seen table hl
  cases hl

theorem sameCount_next_none (hi : s.requests i = .processing prog seen none) :
    SameCount (.next i) s := by
  intro j prog seen table hl hj
  obtain rfl : i = j := by simpa using hl
  simp [hi] at hj

theorem sameCount_next_some {table : Table}
    (hi : s.requests i = .processing prog seen (some table))
    (hsize : tableSize s.server.1.table = tableSize table) : SameCount (.next i) s := by
  intro j prog seen table' hl hj
  obtain rfl : i = j := by simpa using hl
  obtain ⟨-, -, rfl⟩ : _ ∧ _ ∧ table = table' := by simpa [hi] using hj
  exact hsize

end SameCount

/-! ## The invariant -/

/-- How far a request is, on a server that holds `table`. -/
def Serving.Sound (r : Request) (msg : MessageT) (table : Table) : Serving → Prop
  | waiting => True
  | processing prog seen none => table ∈ seen ∧ prog = invoke msg
  | processing prog seen (some first) => table ∈ seen ∧ first ∈ seen ∧
    ∃ st : Store, st.table = first ∧
      (r = .getKeys ∧ prog = (getkeysReply msg (st.keys.map some ++ [none]) >>= fun result =>
          .ret (conclude result)) ∨
        r = .getTable ∧ prog = (gettableReply msg st.entries.length >>= fun result =>
          .ret (conclude result)))
  | answered result seen => ∃ st : Store, st.table ∈ seen ∧ r.AnsweredFrom st msg result.1

theorem Serving.Sound.observe {r : Request} {msg : MessageT} {table : Table} {q : Serving}
    (h : q.Sound r msg table) (table' : Table) : (q.observe table').Sound r msg table' := by
  cases q with
  | waiting => trivial
  | processing prog seen first =>
    cases first with
    | none => exact ⟨List.mem_cons_self, h.2⟩
    | some first => exact ⟨List.mem_cons_self, List.mem_cons_of_mem _ h.2.1, h.2.2⟩
  | answered result seen => exact h

/-! ## Steps keep the invariant -/

section Step

variable {clock link}
variable {r : Request} {msg : MessageT} {st : Store} {s : ServerState × τ} {seen : List Table}

/-- A step of one request: what it leaves on the server, and how far the request is. -/
def Steps (r : Request) (msg : MessageT) (seen : List Table) (prog : Prog Calls (MessageT × Int))
    (s : ServerState × τ) (clock : ℕ → Timeval) (link : Link τ) : Prop :=
  ∃ (prog' : Prog Calls (MessageT × Int)) (s' : ServerState × τ) (st' : Store),
    stepOf clock link prog s = .ok (prog', s') ∧ s'.1.Holds st' ∧
      (Serving.advance s'.1.table seen prog').Sound r msg s'.1.table

/-- A put without bytes is refused without a section. -/
theorem steps_put {key : CString} {b : Bytes} (hasked : (Update.put key b).AskedBy msg)
    (hs : s.1.Holds st) (hseen : s.1.table ∈ seen) :
    Steps (.update (.put key b)) msg seen (invoke msg) s clock link := by
  have hbefore : st.table ∈ seen := hs.table ▸ hseen
  by_cases hb : b = []
  · obtain ⟨hopcode, value, hentry, hvalue⟩ := hasked
    rw [hb] at hvalue
    have hinvoke : invoke msg = .ret (conclude (respondBadOp msg, -1)) := by
      rw [invoke, dispatch_put hopcode, invokePut_empty hentry hvalue]
      rfl
    rw [hinvoke]
    refine ⟨_, s, st, rfl, hs, st, List.mem_cons_of_mem _ hbefore, ?_⟩
    rw [Request.AnsweredFrom, if_pos hb]
    rfl
  · obtain ⟨t', hstep⟩ := stepOf_put clock link hs hasked hb
    refine ⟨_, _, st.put key b hb, hstep, hs.served clock _, st.put key b hb,
      List.mem_cons_self, ?_⟩
    rw [Request.AnsweredFrom, if_neg hb, Store.map_put, Finmap.lookup_insert]
    exact ⟨rfl, rfl, rfl⟩

variable (hasked : r.AskedBy msg) (hs : s.1.Holds st) (hseen : s.1.table ∈ seen)

include hasked hs hseen

/-- The step from which a response is known. -/
theorem steps_invoke : Steps r msg seen (invoke msg) s clock link := by
  have hbefore : st.table ∈ seen := hs.table ▸ hseen
  cases r with
  | update u =>
    cases u with
    | put key b => exact steps_put hasked hs hseen
    | del key =>
      obtain ⟨t', hstep⟩ := stepOf_del clock link hs hasked
      refine ⟨_, _, st.remove key, hstep, hs.served clock _, st,
        List.mem_cons_of_mem _ hbefore, ?_⟩
      by_cases hbound : key ∈ st.map
      · simp only [Request.AnsweredFrom, hbound, if_true]
        exact ⟨rfl, rfl⟩
      · simp only [Request.AnsweredFrom, hbound, if_false]
        exact ⟨rfl, rfl⟩
  | get key =>
    obtain ⟨hopcode, hkey⟩ := hasked
    refine ⟨_, _, st, stepOf_get clock link hs hopcode hkey, hs.served clock st, st,
      List.mem_cons_self, ?_⟩
    cases hlookup : st.map.lookup key with
    | none =>
      simp only [Request.AnsweredFrom, hlookup]
      exact ⟨rfl, rfl⟩
    | some b =>
      simp only [Request.AnsweredFrom, hlookup]
      exact ⟨rfl, rfl, rfl⟩
  | size =>
    refine ⟨_, _, st, stepOf_size clock link hs hasked, hs.served clock st, st,
      List.mem_cons_self, ?_⟩
    have hret : (st.entries.length : Int) ≥ 0 := by omega
    rw [conclude, if_pos hret, Request.AnsweredFrom, st.card_keys_map]
    exact ⟨rfl, rfl, rfl⟩
  | getKeys =>
    refine ⟨_, _, st, stepOf_getKeys clock link hs hasked, hs.served clock st, ?_⟩
    exact ⟨List.mem_cons_self, List.mem_cons_self, st, rfl, .inl ⟨rfl, rfl⟩⟩
  | getTable =>
    refine ⟨_, _, st, stepOf_getTable clock link hs hasked, hs.served clock st, ?_⟩
    exact ⟨List.mem_cons_self, List.mem_cons_self, st, rfl, .inr ⟨rfl, rfl⟩⟩

omit hasked hseen in
/-- The keys are those of the section, and their number is still right. -/
theorem steps_getkeysReply {st₀ : Store} (hfirst : st₀.table ∈ seen)
    (hcount : st.entries.length = st₀.entries.length) :
    Steps .getKeys msg seen (getkeysReply msg (st₀.keys.map some ++ [none]) >>= fun result =>
      .ret (conclude result)) s clock link := by
  refine ⟨_, s, st, stepOf_getkeysReply clock link hs _, hs, st₀,
    List.mem_cons_of_mem _ hfirst, rfl, rfl, rfl, ?_⟩
  rw [st₀.length_keys]
  exact hcount

omit hasked in
/-- The entries are those of the second step, of which there are as many as were
    counted. -/
theorem steps_gettableReply {n : ℕ} (hcount : st.entries.length = n) :
    Steps .getTable msg seen (gettableReply msg n >>= fun result => .ret (conclude result)) s
      clock link := by
  have hbefore : st.table ∈ seen := hs.table ▸ hseen
  exact ⟨_, s, st, stepOf_gettableReply clock link hs hcount, hs, st,
    List.mem_cons_of_mem _ hbefore, rfl, rfl, rfl, rfl⟩

end Step

/-! ## Runs -/

variable {request : ι → Request} {msg : ι → MessageT}

/-- What holds as long as the counts agree. -/
structure System.Invariant (request : ι → Request) (msg : ι → MessageT) (s : System ι τ) :
    Prop where
  running : s.crashed = false
  holds : ∃ st, s.server.1.Holds st
  sound : ∀ i, (s.requests i).Sound (request i) (msg i) s.server.1.table

variable {clock link}

omit [DecidableEq ι] in
theorem System.Invariant.start {s : System ι τ} (h : s.Start) : s.Invariant request msg where
  running := h.2.2
  holds := h.1
  sound i := by
    rw [h.2.1 i]
    trivial

/-- A step of one request leaves the others where they are. -/
theorem System.Invariant.moved {s : System ι τ} (h : s.Invariant request msg) {i : ι}
    {seen : List Table} {prog : Prog Calls (MessageT × Int)} {server : ServerState × τ} {st : Store}
    (hs : server.1.Holds st)
    (hi : (Serving.advance server.1.table seen prog).Sound (request i) (msg i) server.1.table) :
    (s.moved i seen prog server).Invariant request msg where
  running := h.running
  holds := ⟨st, hs⟩
  sound j := by
    by_cases hj : j = i
    · subst hj
      simpa [System.moved] using hi
    · have hobserve := (h.sound j).observe server.1.table
      simpa [System.moved, hj] using hobserve

theorem System.Invariant.step (hasked : ∀ i, (request i).AskedBy (msg i)) {s s' : System ι τ}
    {l : ServeStep ι} (h : s.Invariant request msg) (hok : SameCount l s)
    (hstep : s.step clock link msg l = some s') : s'.Invariant request msg := by
  obtain ⟨st, hs⟩ := h.holds
  unfold System.step at hstep
  rw [if_neg (by simp [h.running])] at hstep
  cases l with
  | receive i =>
    cases hi : s.requests i with
    | waiting =>
      simp only [hi] at hstep
      obtain rfl := Option.some.inj hstep
      refine ⟨h.running, ⟨st, hs⟩, fun j => ?_⟩
      by_cases hj : j = i
      · subst hj
        simpa using show (Serving.processing (invoke (msg j)) [s.server.1.table] none).Sound
          (request j) (msg j) s.server.1.table from ⟨List.mem_cons_self, rfl⟩
      · simpa [hj] using h.sound j
    | processing prog seen first =>
      simp [hi] at hstep
    | answered result seen =>
      simp [hi] at hstep
  | next i =>
    cases hi : s.requests i with
    | waiting => simp [hi] at hstep
    | answered result seen => simp [hi] at hstep
    | processing prog seen first =>
      have hsound := h.sound i
      rw [hi] at hsound
      have hcount : ∀ st₀ : Store, s.requests i = .processing prog seen (some st₀.table) →
          st.entries.length = st₀.entries.length := by
        intro st₀ hi
        have hsize := hok i prog seen st₀.table rfl hi
        rw [hs.table, st.tableSize_table, st₀.tableSize_table] at hsize
        exact_mod_cast hsize
      have hsteps : Steps (request i) (msg i) seen prog s.server clock link := by
        cases first with
        | none =>
          obtain ⟨hseen, rfl⟩ := hsound
          exact steps_invoke (hasked i) hs hseen
        | some first =>
          obtain ⟨hseen, hfirst, st₀, rfl, ⟨hrequest, rfl⟩ | ⟨hrequest, rfl⟩⟩ := hsound
          · rw [hrequest]
            exact steps_getkeysReply hs hfirst (hcount st₀ hi)
          · rw [hrequest]
            exact steps_gettableReply hs hseen (hcount st₀ hi)
      -- the other requests are as sound after the step as before it
      obtain ⟨prog', server', st', hstepOf, hs', hsound'⟩ := hsteps
      simp only [hi, hstepOf] at hstep
      obtain rfl := Option.some.inj hstep
      exact h.moved hs' hsound'

omit [DecidableEq ι] in
theorem System.Invariant.atomic {s : System ι τ} (h : s.Invariant request msg) :
    AtomicResponses request msg s where
  running := h.running
  answered i result seen hi := by
    have hsound := h.sound i
    rw [hi] at hsound
    exact hsound

/-- In every run in which a request that goes back to the table finds as many keys in
    it as before, each response is right about one moment. -/
theorem atomicResponses_of_reachable (hasked : ∀ i, (request i).AskedBy (msg i))
    {s : System ι τ} (h : (servingSystem clock link msg).ReachableUnder SameCount s) :
    AtomicResponses request msg s := by
  have hinv : s.Invariant request msg := by
    refine LTS.ReachableUnder.invariant (I := System.Invariant request msg) ?_ ?_ h
    · exact fun _ => System.Invariant.start
    · exact fun _ _ _ hinv hok hstep => hinv.step hasked hok hstep
  exact hinv.atomic

variable (clock link msg)

theorem servingSystem_receive {s : System ι τ} (i : ι) (hrunning : s.crashed = false)
    (hi : s.requests i = .waiting) :
    (servingSystem clock link msg).step (.receive i) s = some { s with
      requests := Function.update s.requests i
        (.processing (invoke (msg i)) [s.server.1.table] none) } := by
  change s.step clock link msg (.receive i) = _
  unfold System.step
  rw [if_neg (by simp [hrunning])]
  simp only [hi]

theorem servingSystem_next {s : System ι τ} (i : ι) {prog prog' : Prog Calls (MessageT × Int)}
    {seen : List Table} {first : Option Table} {server : ServerState × τ}
    (hrunning : s.crashed = false) (hi : s.requests i = .processing prog seen first)
    (hprog : stepOf clock link prog s.server = .ok (prog', server)) :
    (servingSystem clock link msg).step (.next i) s = some (s.moved i seen prog' server) := by
  change s.step clock link msg (.next i) = _
  unfold System.step
  rw [if_neg (by simp [hrunning])]
  simp only [hi, hprog]

end System

/-! ## A count that is too late -/

/-- A request for the keys, and one that puts the first key. -/
def keysAndPut : Bool → Request
  | false => .getKeys
  | true => .update (.put .empty [1])

def keysAndPutMsg : Bool → MessageT
  | false => getKeysRequest
  | true => putRequest .empty (.ofBytes [1])

theorem keysAndPut_askedBy (i : Bool) : (keysAndPut i).AskedBy (keysAndPutMsg i) := by
  cases i with
  | false => rfl
  | true => exact ⟨rfl, .ofBytes [1], rfl, rfl⟩

def emptyStore : Store := .create 1 Store.one_pos

def emptySystem : System Bool Unit where
  server := (.init emptyStore.table, ())
  requests _ := .waiting
  crashed := false

theorem emptySystem_start : emptySystem.Start :=
  ⟨⟨emptyStore, ServerState.holds_init emptyStore⟩, fun _ => rfl, rfl⟩

/-- The keys are collected from an empty table, and counted after a put: the response
    announces one key and has none. -/
theorem not_atomicResponses_keysAndPut :
    ∃ s : System Bool Unit,
      (servingSystem (fun _ => ⟨0, 0⟩) .broken keysAndPutMsg).Reachable s ∧
        ¬ AtomicResponses keysAndPut keysAndPutMsg s := by
  have hasked := keysAndPut_askedBy true
  have hb : ([1] : Bytes) ≠ [] := by decide
  have hs := ServerState.holds_init emptyStore
  have hs₂ := hs.served (fun _ => ⟨0, 0⟩) emptyStore
  have hs₄ := hs₂.served (fun _ => ⟨0, 0⟩) (emptyStore.put .empty [1] hb)
  obtain ⟨⟨⟩, hput⟩ := stepOf_put (fun _ => ⟨0, 0⟩) .broken
    (s := ((ServerState.init emptyStore.table).served (fun _ => ⟨0, 0⟩) emptyStore.table, ()))
    hs₂ hasked hb
  have h₀ : (servingSystem (fun _ => ⟨0, 0⟩) .broken keysAndPutMsg).Reachable emptySystem :=
    .init emptySystem_start
  have h₁ := LTS.ReachableUnder.step h₀ trivial (servingSystem_receive _ _ _ false rfl rfl)
  have h₂ := LTS.ReachableUnder.step h₁ trivial
    (servingSystem_next _ _ _ false rfl rfl (stepOf_getKeys _ _ hs rfl))
  have h₃ := LTS.ReachableUnder.step h₂ trivial (servingSystem_receive _ _ _ true rfl rfl)
  have h₄ := LTS.ReachableUnder.step h₃ trivial (servingSystem_next _ _ _ true rfl rfl hput)
  have h₅ := LTS.ReachableUnder.step h₄ trivial
    (servingSystem_next _ _ _ false rfl rfl (stepOf_getkeysReply _ _ hs₄ _))
  refine ⟨_, h₅, fun hatomic => ?_⟩
  obtain ⟨st, -, -, -, hkeys, hcount⟩ := hatomic.answered false _ _ rfl
  have hnone : (emptyStore.keys.map some ++ [none]).length = (st.keys.map some ++ [none]).length :=
    congrArg List.length hkeys
  have hone : (emptyStore.put .empty [1] hb).entries.length = st.keys.length := hcount
  have hempty : emptyStore.keys.length = 0 := rfl
  have hput : (emptyStore.put .empty [1] hb).entries.length = 1 := rfl
  simp only [List.length_append, List.length_map, List.length_singleton] at hnone
  omega

/-- A table that has the key already. -/
def boundStore : Store := emptyStore.put .empty [2] (by decide)

def boundSystem : System Bool Unit := { emptySystem with server := (.init boundStore.table, ()) }

theorem boundSystem_start : boundSystem.Start :=
  ⟨⟨boundStore, ServerState.holds_init boundStore⟩, fun _ => rfl, rfl⟩

/-- A put in between that only replaces a value. -/
theorem atomicResponses_keysAndPut :
    ∃ s : System Bool Unit,
      (servingSystem (fun _ => ⟨0, 0⟩) .broken keysAndPutMsg).ReachableUnder SameCount s ∧
        (∃ seen, s.requests false = .answered ({ getKeysRequest with
          opcode := opGetkeys + 1, nKeys := 1, keys := [some .empty, none],
          cType := ctKeys }, 0) seen) ∧
        (∃ result seen, s.requests true = .answered result seen) ∧
        AtomicResponses keysAndPut keysAndPutMsg s := by
  have hasked := keysAndPut_askedBy true
  have hb : ([1] : Bytes) ≠ [] := by decide
  have hs := ServerState.holds_init boundStore
  have hs₂ := hs.served (fun _ => ⟨0, 0⟩) boundStore
  have hs₄ := hs₂.served (fun _ => ⟨0, 0⟩) (boundStore.put .empty [1] hb)
  obtain ⟨⟨⟩, hput⟩ := stepOf_put (fun _ => ⟨0, 0⟩) .broken
    (s := ((ServerState.init boundStore.table).served (fun _ => ⟨0, 0⟩) boundStore.table, ()))
    hs₂ hasked hb
  have h₀ : (servingSystem (fun _ => ⟨0, 0⟩) .broken keysAndPutMsg).ReachableUnder SameCount
      boundSystem := .init boundSystem_start
  have h₁ := LTS.ReachableUnder.step h₀ (sameCount_receive _ _)
    (servingSystem_receive _ _ _ false rfl rfl)
  have h₂ := LTS.ReachableUnder.step h₁ (sameCount_next_none rfl)
    (servingSystem_next _ _ _ false rfl rfl (stepOf_getKeys _ _ hs rfl))
  have h₃ := LTS.ReachableUnder.step h₂ (sameCount_receive _ _)
    (servingSystem_receive _ _ _ true rfl rfl)
  have h₄ := LTS.ReachableUnder.step h₃ (sameCount_next_none (i := true) rfl)
    (servingSystem_next _ _ _ true rfl rfl hput)
  have h₅ := LTS.ReachableUnder.step h₄ (sameCount_next_some (i := false) rfl rfl)
    (servingSystem_next _ _ _ false rfl rfl (stepOf_getkeysReply _ _ hs₄ _))
  exact ⟨_, h₅, ⟨_, rfl⟩, ⟨_, _, rfl⟩, atomicResponses_of_reachable keysAndPut_askedBy h₅⟩

end ChainTable
