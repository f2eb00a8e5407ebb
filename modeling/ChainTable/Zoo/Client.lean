-- SUMMARY: The client of table_client.c with its callback: which connections its commands use while head and tail change.
import ChainTable.Base.Transition
import ChainTable.Server.Sockets
import ChainTable.Zoo.Topology

open Base

/-!
# The client

`main` connects to the head and to the tail of the chain and sends commands over these
connections. Its callback runs on another thread and replaces the connections in the
global variables `rtable_head` and `rtable_tail`; `main` has two variables of its own with
these names.
-/

namespace ChainTable

/-! ## Head and tail -/

inductive Role where
  | head
  | tail
  deriving DecidableEq

theorem Role.forall_iff {p : Role → Prop} : (∀ role, p role) ↔ p .head ∧ p .tail := by
  constructor
  · intro h
    exact ⟨h .head, h .tail⟩
  · rintro ⟨hhead, htail⟩ (_ | _)
    · exact hhead
    · exact htail

instance (p : Role → Prop) [DecidablePred p] : Decidable (∀ role, p role) :=
  decidable_of_iff _ Role.forall_iff.symm

/-- The server that an operation is for. -/
def StubOp.role : StubOp → Role
  | .put _ => .head
  | .del _ => .head
  | _ => .tail

/-- The loop that looks for the path of a role. -/
def Role.scan : Role → CString → List CString → CString
  | .head => scanHead
  | .tail => scanTail

/-- The smallest or the largest path of a list. -/
def Role.best : Role → List CString → Option CString
  | .head, paths => paths.min?
  | .tail, paths => paths.max?

theorem Role.best_children (role : Role) {children : List CString} (h : children ≠ []) :
    role.best (childrenAbsZpaths children) =
      some (role.scan .empty (childrenAbsZpaths children)) := by
  cases role with
  | head =>
    obtain ⟨hmem, hle⟩ := scanHead_children h
    exact List.min?_eq_some_iff.2 ⟨hmem, fun path hpath => hle hpath⟩
  | tail =>
    obtain ⟨hmem, hle⟩ := scanTail_children h
    exact List.max?_eq_some_iff.2 ⟨hmem, fun path hpath => hle hpath⟩

/-! ## Addresses -/

/-- `ZDATALEN` -/
def zdatalen : ℕ := 1024 * 1024

/-- `zoo_get`, when it succeeds: what is in the buffer afterwards, and the length that it leaves.
    It copies no more of the data than the length it is given; the buffer starts out with zeros. -/
def zooGet (data : CString) (bufferLen : ℕ) : CString × ℕ :=
  (data.take bufferLen, min data.bytes.length bufferLen)

/-- The addresses that `main` reads of those that head and tail have registered. Both calls of
    `zoo_get` are given the same variable. -/
def readAddresses (registered : Role → CString) : Role → CString :=
  let zooDataLen := zdatalen
  let (headServerAddr, zooDataLen) := zooGet (registered .head) zooDataLen
  let (tailServerAddr, _) := zooGet (registered .tail) zooDataLen
  fun
    | .head => headServerAddr
    | .tail => tailServerAddr

/-- The address of the head fits its buffer, and that of the tail the length which this leaves. -/
def ReadsWhole (registered : Role → CString) : Prop :=
  (registered .head).bytes.length ≤ zdatalen ∧
    (registered .tail).bytes.length ≤ (registered .head).bytes.length

theorem readAddresses_eq_self_iff {registered : Role → CString} :
    readAddresses registered = registered ↔ ReadsWhole registered := by
  have htail : ∀ n, n ≤ min (registered .head).bytes.length zdatalen ↔
      n ≤ (registered .head).bytes.length ∧ n ≤ zdatalen := fun n => le_min_iff
  rw [funext_iff, Role.forall_iff, ReadsWhole, readAddresses]
  simp only [zooGet, CString.take_eq_self_iff, htail]
  omega

/-! ## The client -/

/-- An `rtable` of the client. It is remembered what it was opened for, with the address that is
    registered there. -/
structure ClientRtable extends Rtable where
  role : Role
  node : CString
  registered : CString

/-- The globals of the client and the variables of `main`. An `rtable` is known by the
    number of its connection, counted in the order in which they are opened. `processed` is
    the children list that was processed last. -/
structure Client where
  rtables : ℕ → Option ClientRtable
  opened : ℕ
  path : Role → CString
  rtable : Role → Option ℕ
  mainRtable : Role → Option ℕ
  connected : Role → Bool
  exited : Bool
  processed : List CString

inductive ClientStep where
  /-- A child event, with the addresses that the two servers have registered. -/
  | event (children : List CString) (registered : Role → CString)
  /-- A command, whose exchange may fail. -/
  | command (op : StubOp) (fails : Bool)
  | leave

namespace Client

/-- `rtable_connect`, which succeeds. -/
def connect (c : Client) (role : Role) (node registered address : CString) : Client × ℕ :=
  ({ c with
    rtables := Function.update c.rtables c.opened (some ⟨⟨address, false⟩, role, node, registered⟩)
    opened := c.opened + 1
    connected := Function.update c.connected role true }, c.opened)

/-- `rtable_disconnect` -/
def disconnect (c : Client) (role : Role) : Option ℕ → C Client
  | none => .ok c
  | some i => do
    let rtable ← deref (c.rtables i)
    let _ ← rtable.live
    return { c with
      rtables := Function.update c.rtables i (some { rtable with released := true })
      connected := Function.update c.connected role false }

/-- The end of the callback for one of the two servers. -/
def switchServer (c : Client) (role : Role) (newPath registered : CString) : C Client :=
  if CString.strcmp (c.path role) newPath ≠ 0 then do
    let (address, _) := zooGet registered zdatalen
    let c ← c.disconnect role (c.rtable role)
    let (c, i) := c.connect role newPath registered address
    return { c with
      rtable := Function.update c.rtable role (some i)
      path := Function.update c.path role newPath }
  else return c

/-- `client_watch_children` -/
def watchChildren (c : Client) (children : List CString)
    (registered : Role → CString) : C Client := do
  let childrenPaths := childrenAbsZpaths children
  let newHead := scanHead .empty childrenPaths
  let newTail := scanTail .empty childrenPaths
  let c ← c.switchServer .head newHead (registered .head)
  let c ← c.switchServer .tail newTail (registered .tail)
  return { c with processed := children }

/-- `main` up to its loop, when both servers can be reached. -/
def startUp (children : List CString) (registered : Role → CString) : Client :=
  let childrenPaths := childrenAbsZpaths children
  let c : Client := {
    rtables _ := none
    opened := 0
    path role := role.scan .empty childrenPaths
    rtable _ := none
    mainRtable _ := none
    connected _ := false
    exited := false
    processed := children }
  let address := readAddresses registered
  let (c, rtableHead) := c.connect .head (c.path .head) (registered .head) (address .head)
  let (c, rtableTail) := c.connect .tail (c.path .tail) (registered .tail) (address .tail)
  { c with mainRtable := fun
    | .head => some rtableHead
    | .tail => some rtableTail }

/-- The `rtable` that the loop of `main` gives to a stub. -/
def commandRtable (c : Client) : StubOp → Option ℕ
  | .put _ => c.mainRtable .head
  | .get _ => c.mainRtable .tail
  | .del _ => c.mainRtable .head
  | .size => c.mainRtable .tail
  | .getKeys => c.mainRtable .tail
  | .getTable => c.mainRtable .tail
  | .stats => c.mainRtable .tail

/-- The loop of `main` goes on. -/
def Running (c : Client) : Prop :=
  c.exited = false ∧ c.connected .head = true ∧ c.connected .tail = true

instance (c : Client) : Decidable c.Running := inferInstanceAs (Decidable (_ ∧ _ ∧ _))

def step : ClientStep → Client → Option Client
  | .event children registered, c =>
    if children ≠ [] ∧
      c.exited = false then (c.watchChildren children registered).toOption else none
  | .command op fails, c =>
    if c.Running then
      some (if fails then { c with connected := Function.update c.connected op.role false } else c)
    else none
  | .leave, c => if c.exited = false then some { c with exited := true } else none

/-! ## Current connections -/

/-- The connection most recently opened to some server. -/
structure Newest (c : Client) (role : Role) (i : ℕ) (rtable : ClientRtable) : Prop where
  entry : c.rtables i = some rtable
  serves : rtable.role = role
  live : rtable.released = false
  last : ∀ j other, c.rtables j = some other → other.role = role → other.node = rtable.node → j ≤ i

/-- The connection most recently opened to the server that has the role in the children
    list processed last. It goes to the address that this server has registered. -/
structure Latest (c : Client) (role : Role) (i : ℕ) (rtable : ClientRtable) : Prop
    extends c.Newest role i rtable where
  node : role.best (childrenAbsZpaths c.processed) = some rtable.node
  reaches : rtable.address = rtable.registered

/-- Every command goes over the latest connection of its role, and every other connection
    is closed. -/
structure Current (c : Client) : Prop where
  commands : c.Running → ∀ op, ∃ i rtable, c.commandRtable op = some i ∧ c.Latest op.role i rtable
  replaced : ∀ i rtable, c.rtables i = some rtable →
    rtable.released = true ∨ c.Latest rtable.role i rtable

/-- The event changes neither head nor tail. -/
def Steady : ClientStep → Client → Prop
  | .event children _, c => ∀ role : Role, role.best (childrenAbsZpaths children) =
      some (c.path role)
  | _, _ => True

instance : (l : ClientStep) → (c : Client) → Decidable (Steady l c)
  | .event children _, c =>
    inferInstanceAs (Decidable
      (∀ role : Role, role.best (childrenAbsZpaths children) = some (c.path role)))
  | .command _ _, _ => .isTrue trivial
  | .leave, _ => .isTrue trivial

end Client

/-- A client after its start-up. -/
def clientSystem : LTS Client ClientStep where
  init c := ∃ children registered, children ≠ [] ∧ c = Client.startUp children registered
  step := Client.step

namespace Client

variable {c c' : Client} {role : Role} {newPath registered : CString}

/-! ## The callback -/

/-- What the globals say about the connections. -/
structure Known (c : Client) : Prop where
  bound : ∀ i rtable, c.rtables i = some rtable → i < c.opened
  newest : ∀ role i, c.rtable role = some i →
    ∃ rtable, c.Newest role i rtable ∧ rtable.node = c.path role

theorem Newest.of_rtables {i : ℕ} {rtable : ClientRtable} (h : c.Newest role i rtable)
    (hrtables : c'.rtables = c.rtables) : c'.Newest role i rtable := by
  obtain ⟨hentry, hserves, hlive, hlast⟩ := h
  rw [← hrtables] at hentry hlast
  exact ⟨hentry, hserves, hlive, hlast⟩

/-- A change of anything else. -/
theorem Known.of_same (h : c.Known) (hrtables : c'.rtables = c.rtables)
    (hopened : c'.opened = c.opened) (hrtable : c'.rtable = c.rtable) (hpath : c'.path = c.path) :
    c'.Known where
  bound i rtable hentry := by
    rw [hrtables] at hentry
    rw [hopened]
    exact h.bound i rtable hentry
  newest role i hsome := by
    rw [hrtable] at hsome
    obtain ⟨rtable, hnewest, hnode⟩ := h.newest role i hsome
    exact ⟨rtable, hnewest.of_rtables hrtables, hnode.trans (congrFun hpath role).symm⟩

/-- The callback has replaced the connection of one role. -/
structure Switched (c : Client) (role : Role) (newPath registered : CString)
    (c' : Client) : Prop where
  opened : c'.opened = c.opened + 1
  new : c'.rtables c.opened =
    some ⟨⟨(zooGet registered zdatalen).1, false⟩, role, newPath, registered⟩
  old : ∀ i rtable, c.rtable role = some i → c.rtables i = some rtable →
    c'.rtables i = some { rtable with released := true }
  others : ∀ i, i ≠ c.opened → c.rtable role ≠ some i → c'.rtables i = c.rtables i
  path : c'.path = Function.update c.path role newPath
  rtable : c'.rtable = Function.update c.rtable role (some c.opened)
  mainRtable : c'.mainRtable = c.mainRtable
  exited : c'.exited = c.exited

theorem switchServer_same (h : c.path role = newPath) :
    c.switchServer role newPath registered = .ok c := by
  rw [switchServer, if_neg (not_not.2 (CString.strcmp_eq_zero_iff.2 h))]
  rfl

theorem switchServer_new (h : c.Known) (hne : c.path role ≠ newPath) (registered : CString) :
    ∃ c', c.switchServer role newPath registered = .ok c' ∧
      Switched c role newPath registered c' := by
  have hcmp : CString.strcmp (c.path role) newPath ≠ 0 := by
    intro hzero
    exact hne (CString.strcmp_eq_zero_iff.1 hzero)
  rw [switchServer, if_pos hcmp]
  cases hrtable : c.rtable role with
  | none =>
    refine ⟨_, rfl, rfl, Function.update_self .., ?_, ?_, rfl, rfl, rfl, rfl⟩
    · intro i rtable hi
      rw [hrtable] at hi
      cases hi
    · intro i hi _
      exact Function.update_of_ne hi ..
  | some i =>
    obtain ⟨rtable, hnewest, -⟩ := h.newest role i hrtable
    have hlive : rtable.live = .ok rtable.toRtable := Rtable.live_ok hnewest.live
    have hi : i ≠ c.opened := Nat.ne_of_lt (h.bound i rtable hnewest.entry)
    rw [disconnect, hnewest.entry, deref_some, C.ok_bind, hlive]
    refine ⟨_, rfl, rfl, Function.update_self .., ?_, ?_, rfl, rfl, rfl, rfl⟩
    · intro j other hj hother
      rw [hrtable] at hj
      obtain rfl := Option.some.inj hj
      obtain rfl := Option.some.inj (hnewest.entry.symm.trans hother)
      exact (Function.update_of_ne hi ..).trans (Function.update_self ..)
    · intro j hj hne'
      have hji : j ≠ i := by
        rintro rfl
        exact hne' hrtable
      exact (Function.update_of_ne hj ..).trans (Function.update_of_ne hji ..)

/-- Every entry after the switch is the new one or was there before, and it may have been
    released. -/
theorem Switched.entry (h : Switched c role newPath registered c') (hknown : c.Known) {i : ℕ}
    {rtable : ClientRtable} (hentry : c'.rtables i = some rtable) :
    i = c.opened ∧ rtable.role = role ∨
      ∃ before, c.rtables i = some before ∧ before.role = rtable.role ∧
        before.node = rtable.node := by
  by_cases hi : i = c.opened
  · left
    rw [hi, h.new] at hentry
    obtain rfl := Option.some.inj hentry
    exact ⟨hi, rfl⟩
  · right
    by_cases hrole : c.rtable role = some i
    · obtain ⟨before, hnewest, -⟩ := hknown.newest role i hrole
      rw [h.old i before hrole hnewest.entry] at hentry
      obtain rfl := Option.some.inj hentry
      exact ⟨before, hnewest.entry, rfl, rfl⟩
    · rw [h.others i hi hrole] at hentry
      exact ⟨rtable, hentry, rfl, rfl⟩

/-- The connection of the other role stays what it was. -/
theorem Switched.kept (h : Switched c role newPath registered c') (hknown : c.Known) {role' : Role}
    {i : ℕ} {rtable : ClientRtable} (hrole : role' ≠ role) (hrtable : c.rtable role' = some i)
    (hentry : c.rtables i = some rtable) : c'.rtables i = some rtable := by
  rw [h.others i (Nat.ne_of_lt (hknown.bound i rtable hentry)), hentry]
  intro hsame
  obtain ⟨this, hthis, -⟩ := hknown.newest role' i hrtable
  obtain ⟨other, hother, -⟩ := hknown.newest role i hsame
  obtain rfl := Option.some.inj (hthis.entry.symm.trans hother.entry)
  exact hrole (hthis.serves.symm.trans hother.serves)

theorem Known.switched (h : c.Known) (hswitched : Switched c role newPath registered c') :
    c'.Known where
  bound i rtable hentry := by
    rw [hswitched.opened]
    rcases hswitched.entry h hentry with ⟨rfl, -⟩ | ⟨before, hbefore, -⟩
    · exact Nat.lt_succ_self _
    · exact (h.bound i before hbefore).trans (Nat.lt_succ_self _)
  newest role' i hrtable := by
    rw [hswitched.rtable] at hrtable
    by_cases hrole : role' = role
    · subst hrole
      rw [Function.update_self] at hrtable
      obtain rfl := Option.some.inj hrtable
      refine ⟨_, ⟨hswitched.new, rfl, rfl, ?_⟩, ?_⟩
      · intro j other hentry _ _
        rcases hswitched.entry h hentry with ⟨rfl, -⟩ | ⟨before, hbefore, -⟩
        · exact le_rfl
        · exact (h.bound j before hbefore).le
      · rw [hswitched.path, Function.update_self]
    · rw [Function.update_of_ne hrole] at hrtable
      obtain ⟨rtable, hnewest, hnode⟩ := h.newest role' i hrtable
      have hentry := hswitched.kept h hrole hrtable hnewest.entry
      refine ⟨rtable, ⟨hentry, hnewest.serves, hnewest.live, ?_⟩, ?_⟩
      · intro j other hother hserves hnode'
        rcases hswitched.entry h hother with ⟨-, hnew⟩ | ⟨before, hbefore, hrole', hnode''⟩
        · exact absurd (hserves.symm.trans hnew) hrole
        · exact hnewest.last j before hbefore (hrole'.trans hserves) (hnode''.trans hnode')
      · rw [hswitched.path, Function.update_of_ne hrole]
        exact hnode

/-- What one half of the callback leaves, whether or not the path is a new one. -/
structure Half (c : Client) (role : Role) (newPath : CString) (c' : Client) : Prop where
  known : c'.Known
  path : c'.path = Function.update c.path role newPath
  others : ∀ role', role' ≠ role → c'.rtable role' = c.rtable role'
  mainRtable : c'.mainRtable = c.mainRtable
  exited : c'.exited = c.exited
  /-- The half that has nothing to close. -/
  kept : c.rtable role = none → ∀ i rtable, c.rtables i = some rtable → c'.rtables i = some rtable

theorem Known.switchServer (h : c.Known) (role : Role) (newPath registered : CString) :
    ∃ c', c.switchServer role newPath registered = .ok c' ∧ Half c role newPath c' := by
  by_cases hsame : c.path role = newPath
  · refine ⟨c, switchServer_same hsame, h, ?_, fun _ _ => rfl, rfl, rfl, fun _ _ _ hentry => hentry⟩
    rw [← hsame, Function.update_eq_self]
  · obtain ⟨c', hswitch, hswitched⟩ := switchServer_new h hsame registered
    refine ⟨c', hswitch, h.switched hswitched, hswitched.path, ?_, hswitched.mainRtable,
      hswitched.exited, ?_⟩
    · intro role' hrole
      rw [hswitched.rtable, Function.update_of_ne hrole]
    · intro hunused i rtable hentry
      rw [hswitched.others i (Nat.ne_of_lt (h.bound i rtable hentry)), hentry]
      rw [hunused]
      nofun

/-- The callback finds head and tail and knows their connections. -/
theorem Known.watchChildren (h : c.Known) (children : List CString) (registered : Role → CString) :
    ∃ c', c.watchChildren children registered = .ok c' ∧ c'.Known ∧
      (∀ role, c'.path role = role.scan .empty (childrenAbsZpaths children)) ∧
      c'.processed = children ∧ c'.mainRtable = c.mainRtable ∧ c'.exited = c.exited ∧
      ((∀ role, c.rtable role = none) → ∀ i rtable, c.rtables i = some rtable →
        c'.rtables i = some rtable) := by
  obtain ⟨c₁, hhead, half₁⟩ :=
    h.switchServer .head (scanHead .empty (childrenAbsZpaths children)) (registered .head)
  obtain ⟨c₂, htail, half₂⟩ :=
    half₁.known.switchServer .tail (scanTail .empty (childrenAbsZpaths children)) (registered .tail)
  refine ⟨{ c₂ with processed := children }, ?_, half₂.known.of_same rfl rfl rfl rfl, ?_, rfl,
    half₂.mainRtable.trans half₁.mainRtable, half₂.exited.trans half₁.exited, ?_⟩
  · rw [Client.watchChildren]
    simp only [hhead, htail, C.ok_bind]
    rfl
  · intro role
    change c₂.path role = _
    rw [half₂.path, half₁.path]
    cases role with
    | head => rfl
    | tail => rfl
  · intro hunused i rtable hentry
    apply half₂.kept
    · rw [half₁.others .tail nofun]
      exact hunused .tail
    · exact half₁.kept (hunused .head) i rtable hentry

/-! ## The paths and connections alone -/

/-- The `rtable` in a variable of the callback. -/
def shared (c : Client) (role : Role) : Option Rtable :=
  (c.rtable role).bind fun i => (c.rtables i).map ClientRtable.toRtable

/-- What `clientWatchChildren` sees of a client. -/
def chain (c : Client) : ClientChain := ⟨c.path .head, c.path .tail, c.shared .head, c.shared .tail⟩

theorem shared_of_entry {i : ℕ} {rtable : ClientRtable} (hrtable : c.rtable role = some i)
    (hentry : c.rtables i = some rtable) : c.shared role = some rtable.toRtable := by
  rw [shared, hrtable, Option.bind_some, hentry]
  rfl

theorem Known.disconnect_shared (h : c.Known) (role : Role) :
    ∃ old, rtableDisconnect (c.shared role) = .ok old := by
  cases hrtable : c.rtable role with
  | none =>
    refine ⟨none, ?_⟩
    rw [shared, hrtable]
    rfl
  | some i =>
    obtain ⟨rtable, hnewest, -⟩ := h.newest role i hrtable
    refine ⟨some { rtable.toRtable with released := true }, ?_⟩
    rw [shared_of_entry hrtable hnewest.entry, rtableDisconnect_live hnewest.live]

/-- One half of the callback does to its path and connection what `switchServer` of the
    chain does, and nothing to the other ones. -/
theorem Known.switchServer_refines (h : c.Known)
    (hswitch : c.switchServer role newPath registered = .ok c') :
    ChainTable.switchServer (c.path role) (c.shared role) newPath
      (zooGet registered zdatalen).1 true =
        .ok (c'.path role, c'.shared role) ∧
      ∀ role', role' ≠ role → c'.path role' = c.path role' ∧ c'.shared role' = c.shared role' := by
  by_cases hsame : c.path role = newPath
  · rw [switchServer_same hsame] at hswitch
    obtain rfl := Except.ok.inj hswitch
    refine ⟨?_, fun _ _ => ⟨rfl, rfl⟩⟩
    rw [ChainTable.switchServer, if_neg (not_not.2 (CString.strcmp_eq_zero_iff.2 hsame))]
    rfl
  · obtain ⟨c₁, hswitch₁, hswitched⟩ := switchServer_new h hsame registered
    rw [hswitch₁] at hswitch
    obtain rfl := Except.ok.inj hswitch
    have hcmp : CString.strcmp (c.path role) newPath ≠ 0 := by
      intro hzero
      exact hsame (CString.strcmp_eq_zero_iff.1 hzero)
    have hnew : c₁.rtable role = some c.opened := by
      rw [hswitched.rtable, Function.update_self]
    obtain ⟨old, hold⟩ := h.disconnect_shared role
    refine ⟨?_, ?_⟩
    · rw [ChainTable.switchServer, if_pos hcmp, hold, shared_of_entry hnew hswitched.new,
        hswitched.path, Function.update_self]
      rfl
    -- the other connection is another entry, which the new one does not replace
    · intro role' hrole
      have hrtable : c₁.rtable role' = c.rtable role' := by
        rw [hswitched.rtable, Function.update_of_ne hrole]
      refine ⟨by rw [hswitched.path, Function.update_of_ne hrole], ?_⟩
      cases hi : c.rtable role' with
      | none => rw [shared, shared, hrtable, hi]; rfl
      | some i =>
        obtain ⟨rtable, hnewest, -⟩ := h.newest role' i hi
        rw [shared_of_entry hi hnewest.entry,
          shared_of_entry (hrtable.trans hi) (hswitched.kept h hrole hi hnewest.entry)]

/-- The callback on connections with their history is `clientWatchChildren`. -/
theorem Known.watchChildren_refines (h : c.Known) {children : List CString}
    {registered : Role → CString} (hwatch : c.watchChildren children registered = .ok c') :
    clientWatchChildren c.chain ⟨some children, (zooGet (registered .head) zdatalen).1, true,
      (zooGet (registered .tail) zdatalen).1, true⟩ = .ok c'.chain := by
  obtain ⟨c₁, hhead, half₁⟩ :=
    h.switchServer .head (scanHead .empty (childrenAbsZpaths children)) (registered .head)
  obtain ⟨c₂, htail, -⟩ :=
    half₁.known.switchServer .tail (scanTail .empty (childrenAbsZpaths children)) (registered .tail)
  have hc' : c' = { c₂ with processed := children } := by
    rw [Client.watchChildren] at hwatch
    simp only [hhead, htail, C.ok_bind] at hwatch
    exact (Except.ok.inj hwatch).symm
  obtain ⟨hhead', hothers₁⟩ := h.switchServer_refines hhead
  obtain ⟨htail', hothers₂⟩ := half₁.known.switchServer_refines htail
  obtain ⟨hpath₁, hshared₁⟩ := hothers₁ .tail nofun
  obtain ⟨hpath₂, hshared₂⟩ := hothers₂ .head nofun
  rw [hpath₁, hshared₁] at htail'
  rw [← hpath₂, ← hshared₂] at hhead'
  subst hc'
  simp only [clientWatchChildren, chain, hhead', htail', C.ok_bind]
  rfl

/-! ## The connections of the callback -/

/-- Between two steps. -/
structure Placed (c : Client) : Prop extends c.Known where
  best : ∀ role : Role, role.best (childrenAbsZpaths c.processed) = some (c.path role)

/-- `main` opens two connections, the one to the head first. -/
theorem startUp_entry {children : List CString} {registered : Role → CString} {i : ℕ}
    {rtable : ClientRtable} (h : (startUp children registered).rtables i = some rtable) :
    (startUp children registered).mainRtable rtable.role = some i ∧ i < 2 ∧
      rtable = ⟨⟨readAddresses registered rtable.role, false⟩, rtable.role,
        (startUp children registered).path rtable.role, registered rtable.role⟩ := by
  have hrtables : (startUp children registered).rtables =
      Function.update (Function.update (fun _ => none)
        0 (some ⟨⟨readAddresses registered .head, false⟩, .head,
          scanHead .empty (childrenAbsZpaths children), registered .head⟩))
        1 (some ⟨⟨readAddresses registered .tail, false⟩, .tail,
          scanTail .empty (childrenAbsZpaths children), registered .tail⟩) :=
    rfl
  rw [hrtables] at h
  by_cases htail : i = 1
  · subst htail
    rw [Function.update_self] at h
    obtain rfl := Option.some.inj h
    exact ⟨rfl, by omega, rfl⟩
  · rw [Function.update_of_ne htail] at h
    by_cases hhead : i = 0
    · subst hhead
      rw [Function.update_self] at h
      obtain rfl := Option.some.inj h
      exact ⟨rfl, by omega, rfl⟩
    · rw [Function.update_of_ne hhead] at h
      cases h

/-- Each role has a connection of `main`. -/
theorem startUp_main (children : List CString) (registered : Role → CString) (role : Role) :
    ∃ i rtable, (startUp children registered).mainRtable role = some i ∧
      (startUp children registered).rtables i = some rtable ∧ rtable.role = role := by
  cases role with
  | head => exact ⟨0, _, rfl, rfl, rfl⟩
  | tail => exact ⟨1, _, rfl, rfl, rfl⟩

theorem Placed.startUp {children : List CString} (h : children ≠ []) (registered : Role → CString) :
    (startUp children registered).Placed where
  bound i rtable hentry := (startUp_entry hentry).2.1
  newest role i hrtable := by cases hrtable
  best role := role.best_children h

theorem Placed.step {l : ClientStep} (h : c.Placed) (hstep : step l c = some c') : c'.Placed := by
  cases l with
  | event children registered =>
    obtain ⟨⟨hchildren, -⟩, hwatch⟩ := Option.ite_none_right_eq_some.1 hstep
    obtain ⟨c₁, hwatch₁, hknown, hpath, hprocessed, -⟩ := h.watchChildren children registered
    rw [hwatch₁] at hwatch
    obtain rfl := Option.some.inj hwatch
    refine ⟨hknown, fun role => ?_⟩
    rw [hprocessed, hpath]
    exact role.best_children hchildren
  | command op fails =>
    obtain ⟨-, hc'⟩ := Option.ite_none_right_eq_some.1 hstep
    obtain rfl := Option.some.inj hc'
    cases fails
    · exact h
    · exact ⟨h.toKnown.of_same rfl rfl rfl rfl, h.best⟩
  | leave =>
    obtain ⟨-, hc'⟩ := Option.ite_none_right_eq_some.1 hstep
    obtain rfl := Option.some.inj hc'
    exact ⟨h.toKnown.of_same rfl rfl rfl rfl, h.best⟩

theorem placed_of_reachable {c : Client} (h : clientSystem.Reachable c) : c.Placed := by
  refine LTS.Reachable.invariant (I := Placed) ?_ ?_ h
  · rintro c ⟨children, registered, hchildren, rfl⟩
    exact Placed.startUp hchildren registered
  · intro l c c' hplaced hstep
    exact hplaced.step hstep

/-- In every run the variables of the callback hold the connections opened last to head and
    tail, once it has opened any. -/
theorem rtable_newest_of_reachable {c : Client} (h : clientSystem.Reachable c) {role : Role} {i : ℕ}
    (hrtable : c.rtable role = some i) :
    ∃ rtable, c.Newest role i rtable ∧
      role.best (childrenAbsZpaths c.processed) = some rtable.node := by
  have hplaced := placed_of_reachable h
  obtain ⟨rtable, hnewest, hnode⟩ := hplaced.newest role i hrtable
  exact ⟨rtable, hnewest, (hplaced.best role).trans (congrArg some hnode.symm)⟩

/-! ## The connections of main -/

/-- The callback has opened nothing, and every connection is one of `main` and goes where it
    should. -/
structure Settled (c : Client) : Prop extends c.Placed where
  unused : ∀ role, c.rtable role = none
  main : ∀ role, ∃ i rtable, c.mainRtable role = some i ∧ c.rtables i = some rtable ∧
    rtable.role = role
  only : ∀ i rtable, c.rtables i = some rtable → c.mainRtable rtable.role = some i ∧
    rtable.released = false ∧ rtable.node = c.path rtable.role ∧ rtable.address = rtable.registered

theorem Settled.latest (h : c.Settled) {i : ℕ} {rtable : ClientRtable}
    (hentry : c.rtables i = some rtable) : c.Latest rtable.role i rtable := by
  obtain ⟨hmain, hlive, hnode, hreaches⟩ := h.only i rtable hentry
  refine ⟨⟨hentry, rfl, hlive, ?_⟩, ?_, hreaches⟩
  · intro j other hother hserves _
    have hmain' := (h.only j other hother).1
    rw [hserves, hmain] at hmain'
    exact (Option.some.inj hmain').ge
  · rw [h.best, hnode]

theorem Settled.current (h : c.Settled) : c.Current where
  commands _ op := by
    obtain ⟨i, rtable, hmain, hentry, hrole⟩ := h.main op.role
    refine ⟨i, rtable, ?_, hrole ▸ h.latest hentry⟩
    rw [← hmain]
    cases op <;> rfl
  replaced i rtable hentry := .inr (h.latest hentry)

theorem Settled.startUp {children : List CString} (h : children ≠ []) {registered : Role → CString}
    (hwhole : ReadsWhole registered) : (startUp children registered).Settled where
  toPlaced := Placed.startUp h registered
  unused _ := rfl
  main := startUp_main children registered
  only i rtable hentry := by
    obtain ⟨hmain, -, hrtable⟩ := startUp_entry hentry
    rw [readAddresses_eq_self_iff.2 hwhole] at hrtable
    refine ⟨hmain, ?_, ?_, ?_⟩
    · rw [hrtable]
    · rw [hrtable]
    · rw [hrtable]

/-- After the start-up each connection is the latest of its role when both addresses are read
    whole, and not otherwise. -/
theorem startUp_current_iff {children : List CString} (h : children ≠ [])
    {registered : Role → CString} :
    (startUp children registered).Current ↔ ReadsWhole registered := by
  refine ⟨fun hcurrent => ?_, fun hwhole => (Settled.startUp h hwhole).current⟩
  rw [← readAddresses_eq_self_iff]
  funext role
  obtain ⟨i, rtable, -, hentry, rfl⟩ := startUp_main children registered role
  obtain ⟨-, -, hrtable⟩ := startUp_entry hentry
  have hlive : rtable.released = false := by rw [hrtable]
  rcases hcurrent.replaced i rtable hentry with hreleased | hlatest
  · rw [hlive] at hreleased
    cases hreleased
  · have hreaches := hlatest.reaches
    rw [hrtable] at hreaches
    exact hreaches

theorem Settled.of_same (h : c.Settled) (hplaced : c'.Placed) (hrtables : c'.rtables = c.rtables)
    (hrtable : c'.rtable = c.rtable) (hmain : c'.mainRtable = c.mainRtable)
    (hpath : c'.path = c.path) : c'.Settled where
  toPlaced := hplaced
  unused := by
    rw [hrtable]
    exact h.unused
  main := by
    rw [hmain, hrtables]
    exact h.main
  only := by
    rw [hmain, hrtables, hpath]
    exact h.only

/-- An event that changes neither head nor tail changes no connection. -/
theorem watchChildren_steady {children : List CString} {registered : Role → CString}
    (hchildren : children ≠ []) (hok : Steady (.event children registered) c) :
    c.watchChildren children registered = .ok { c with processed := children } := by
  have hpath : ∀ role : Role, c.path role = role.scan .empty (childrenAbsZpaths children) := by
    intro role
    exact Option.some.inj ((hok role).symm.trans (role.best_children hchildren))
  have hhead : c.switchServer .head (scanHead .empty (childrenAbsZpaths children))
    (registered .head) =
      .ok c := switchServer_same (hpath .head)
  have htail : c.switchServer .tail (scanTail .empty (childrenAbsZpaths children))
    (registered .tail) =
      .ok c := switchServer_same (hpath .tail)
  rw [watchChildren]
  simp only [hhead, htail, C.ok_bind]
  rfl

theorem Settled.step {l : ClientStep} (h : c.Settled) (hok : Steady l c)
    (hstep : step l c = some c') : c'.Settled := by
  have hplaced := h.toPlaced.step hstep
  cases l with
  | event children registered =>
    obtain ⟨⟨hchildren, -⟩, hwatch⟩ := Option.ite_none_right_eq_some.1 hstep
    rw [watchChildren_steady hchildren hok] at hwatch
    obtain rfl := Option.some.inj hwatch
    exact h.of_same hplaced rfl rfl rfl rfl
  | command op fails =>
    obtain ⟨-, hc'⟩ := Option.ite_none_right_eq_some.1 hstep
    obtain rfl := Option.some.inj hc'
    cases fails
    · exact h
    · exact h.of_same hplaced rfl rfl rfl rfl
  | leave =>
    obtain ⟨-, hc'⟩ := Option.ite_none_right_eq_some.1 hstep
    obtain rfl := Option.some.inj hc'
    exact h.of_same hplaced rfl rfl rfl rfl

/-- As long as head and tail stay what they were at the start, a client that has read their
    addresses whole talks to them. -/
theorem current_of_run {children : List CString} (hchildren : children ≠ [])
    {registered : Role → CString} (hwhole : ReadsWhole registered) {steps : List ClientStep}
    (hmeets : clientSystem.RunMeets Steady steps (startUp children registered))
    (hrun : clientSystem.run steps (startUp children registered) = some c) : c.Current := by
  have hstep : ∀ l c c', Settled c → Steady l c → clientSystem.step l c = some c' → Settled c' :=
    fun _ _ _ hsettled hok hstep => hsettled.step hok hstep
  exact (hmeets.invariant hstep (Settled.startUp hchildren hwhole) hrun).current

/-- Any other event leaves a connection of `main` open that is no longer the latest one
    of its role. -/
theorem Settled.not_current {children : List CString} {registered : Role → CString} (h : c.Settled)
    (hstep : Client.step (.event children registered) c = some c')
    (hmoved : ¬ Steady (.event children registered) c) : ¬ c'.Current := by
  intro hcurrent
  obtain ⟨role, hrole⟩ := not_forall.1 hmoved
  obtain ⟨i, rtable, -, hentry, rfl⟩ := h.main role
  obtain ⟨-, hlive, hnode, -⟩ := h.only i rtable hentry
  obtain ⟨⟨hchildren, -⟩, hwatch⟩ := Option.ite_none_right_eq_some.1 hstep
  obtain ⟨c₁, hwatch₁, -, -, hprocessed, -, -, hkept⟩ := h.toKnown.watchChildren children registered
  rw [hwatch₁] at hwatch
  obtain rfl := Option.some.inj hwatch
  rcases hcurrent.replaced i rtable (hkept h.unused i rtable hentry) with hreleased | hlatest
  · rw [hlive] at hreleased
    cases hreleased
  · apply hrole
    rw [← hprocessed, ← hnode]
    exact hlatest.node

/-! ## Three servers -/

/-- Every server has its node as its address. -/
def addressOf (head tail : CString) : Role → CString
  | .head => head
  | .tail => tail

/-- A client of a chain of three servers. -/
def three : Client := startUp [node 0, node 1, node 2] (addressOf (node 0) (node 2))

theorem three_init : clientSystem.init three :=
  ⟨[node 0, node 1, node 2], addressOf (node 0) (node 2), nofun, rfl⟩

/-- The server in the middle goes away. -/
def middleGone : List ClientStep :=
  [.event [node 2, node 0] (addressOf (node 0) (node 2)), .command .size false]

theorem current_middleGone :
    ∃ c, clientSystem.run middleGone three = some c ∧ c.commandRtable .size = some 1 ∧
      c.Current := by
  have hwhole : ReadsWhole (addressOf (node 0) (node 2)) := ⟨by decide, le_rfl⟩
  have hmeets : clientSystem.RunMeets Steady middleGone three := by decide
  exact ⟨_, rfl, rfl, current_of_run (List.cons_ne_nil _ _) hwhole hmeets rfl⟩

/-- The head goes away. The callback connects to the new one with connection 2, and `main`
    sends on over connection 0. -/
theorem not_current_headGone :
    ∃ c, clientSystem.Reachable c ∧ c.Running ∧ c.rtable .head = some 2 ∧
      c.commandRtable (.del .empty) = some 0 ∧
      c.rtables 0 = some ⟨⟨node 0, false⟩, .head, concatZpath (node 0), node 0⟩ ∧ ¬ c.Current := by
  have hrun : ∃ c, clientSystem.run [.event [node 2, node 1] (addressOf (node 1) (node 2))] three =
      some c ∧ c.Running ∧ c.rtable .head = some 2 ∧ c.commandRtable (.del .empty) = some 0 ∧
      c.rtables 0 = some ⟨⟨node 0, false⟩, .head, concatZpath (node 0), node 0⟩ ∧
      c.processed = [node 2, node 1] :=
    ⟨_, rfl, ⟨rfl, rfl, rfl⟩, rfl, rfl, rfl, rfl⟩
  obtain ⟨c, hrun, hrunning, hshared, hmain, hentry, hprocessed⟩ := hrun
  refine ⟨c, LTS.reachable_of_run three_init hrun, hrunning, hshared, hmain, hentry, ?_⟩
  intro h
  obtain ⟨i, rtable, hsent, hlatest⟩ := h.commands hrunning (.del .empty)
  obtain rfl := Option.some.inj (hmain.symm.trans hsent)
  obtain rfl := Option.some.inj (hentry.symm.trans hlatest.entry)
  have hnode := hlatest.node
  rw [hprocessed] at hnode
  exact absurd hnode (by decide)

end Client

end ChainTable
