-- SUMMARY: Frames one after the other on a connection: in step as long as reads are whole, lost as soon as one is cut.
import ChainTable.Wire.Framing

open Base

/-!
# Streams of frames

Messages that are sent back to back leave their frames on the connection one after the
other. The receiver takes one frame a call and notices a stream that ends inside of one,
when every read delivers what it can. A read that delivers less, as TCP may, is taken for
the end of the connection.
-/

namespace ChainTable

/-! ## Sequences of calls -/

/-- The connection after a call. A `free` that faults comes after everything that the call
    does to the connection. -/
def Connection.after {α : Type} : Except (Fault × Connection) (α × Connection) → Connection
  | .ok (_, c) => c
  | .error (_, c) => c

def sendMessages (pb : Protobuf) (msgs : List MessageT) (c : Connection) : Connection :=
  msgs.foldl (fun c msg => .after ((messageSendAll pb msg).run (reliable pb) c)) c

/-- The connection after `n` calls of `message_receive_all`. -/
def receiveMessages (pb : Protobuf) : ℕ → Connection → Connection
  | 0, c => c
  | n + 1, c => receiveMessages pb n (.after (messageReceiveAll.run (reliable pb) c))

/-- How a call gets no further: it reaches `message_t__unpack`, with this left on the
    stream, or faults. -/
inductive Stop where
  | unpack (rest : Bytes)
  | fault (f : Fault)

/-- The calls of `reliable` up to `message_t__unpack`. -/
def untilUnpack : Prog.Handler Socket Bytes Stop
  | .write bytes, stream => .ok ((bytes.length : Int), stream ++ bytes)
  | .read none _, stream => .ok (⟨-1, [], false⟩, stream)
  | .read (some _) count, stream =>
    .ok (⟨(stream.take count).length, stream.take count, false⟩, stream.drop count)
  | .unpack _, stream => .error (.unpack stream)
  | .fault f, _ => .error (.fault f)

def frames (pb : Protobuf) (msgs : List MessageT) : Bytes :=
  (msgs.map fun msg => frame (pb.pack msg)).flatten

/-- Successive calls take the messages off the stream one by one, and find out when it ends
    inside of a frame. -/
structure InStep (pb : Protobuf) (msgs : List MessageT) : Prop where
  sent : (sendMessages pb msgs ⟨[], []⟩).stream = frames pb msgs
  received : ∀ k msg rest, msgs.drop k = msg :: rest →
    let c := receiveMessages pb k (sendMessages pb msgs ⟨[], []⟩)
    c.stream = frame (pb.pack msg) ++ frames pb rest ∧
      messageReceiveAll.run untilUnpack c.stream = .error (.unpack (frames pb rest))
  truncated : ∀ packed start : Bytes, packed.length < 2 ^ 15 → start <+: frame packed →
    start ≠ frame packed →
    let c := receiveMessages pb msgs.length ⟨frames pb msgs ++ start, []⟩
    messageReceiveAll.run (reliable pb) c = .ok ((none, true), ⟨[], c.unpacked⟩)

/-! ## Sending -/

theorem after_send {pb : Protobuf} {msg : MessageT} (hsize : (pb.pack msg).length < 2 ^ 15)
    (c : Connection) :
    Connection.after ((messageSendAll pb msg).run (reliable pb) c) =
      { c with stream := c.stream ++ frame (pb.pack msg) } := by
  rw [messageSendAll_run hsize]
  split_ifs <;> rfl

theorem sendMessages_eq {pb : Protobuf} {msgs : List MessageT}
    (hsize : ∀ msg ∈ msgs, (pb.pack msg).length < 2 ^ 15) (c : Connection) :
    sendMessages pb msgs c = { c with stream := c.stream ++ frames pb msgs } := by
  induction msgs generalizing c with
  | nil => simp [sendMessages, frames]
  | cons msg msgs ih =>
    have hrest : ∀ msg ∈ msgs, (pb.pack msg).length < 2 ^ 15 := fun m hm =>
      hsize m (List.mem_cons_of_mem _ hm)
    have hstep : sendMessages pb (msg :: msgs) c =
        sendMessages pb msgs (.after ((messageSendAll pb msg).run (reliable pb) c)) := rfl
    rw [hstep, after_send (hsize msg List.mem_cons_self), ih hrest]
    simp [frames, List.append_assoc]

/-! ## Receiving -/

theorem after_receive (pb : Protobuf) {packed : Bytes} (hsize : packed.length < 2 ^ 15)
    (rest : Bytes) (unpacked : List Bytes) :
    Connection.after (messageReceiveAll.run (reliable pb) ⟨frame packed ++ rest, unpacked⟩) =
      ⟨rest, unpacked ++ [lastPacket packed]⟩ := by
  rw [messageReceiveAll_run pb packed rest unpacked hsize]
  split_ifs <;> rfl

/-- After `k` calls the stream begins with the frame of the next message. -/
theorem receiveMessages_stream {pb : Protobuf} {msgs : List MessageT}
    (hsize : ∀ msg ∈ msgs, (pb.pack msg).length < 2 ^ 15) {k : ℕ} (hk : k ≤ msgs.length)
    (rest : Bytes) (unpacked : List Bytes) :
    (receiveMessages pb k ⟨frames pb msgs ++ rest, unpacked⟩).stream =
      frames pb (msgs.drop k) ++ rest := by
  induction k generalizing msgs unpacked with
  | zero => rfl
  | succ k ih =>
    cases msgs with
    | nil => exact absurd hk (Nat.not_succ_le_zero k)
    | cons msg msgs =>
      have hframes : frames pb (msg :: msgs) ++ rest =
          frame (pb.pack msg) ++ (frames pb msgs ++ rest) := by
        simp [frames, List.append_assoc]
      rw [receiveMessages, hframes, after_receive pb (hsize msg List.mem_cons_self)]
      exact ih (fun m hm => hsize m (List.mem_cons_of_mem _ hm)) (Nat.le_of_succ_le_succ hk) _

section UntilUnpack

variable {α : Type} (stream : Bytes)

@[simp] theorem untilUnpack_read (buf : Buf) (count : ℕ) (k : ReadResult → Prog Socket α) :
    (Socket.read (some buf) count >>= k).run untilUnpack stream =
      (k ⟨(stream.take count).length, stream.take count, false⟩).run untilUnpack
        (stream.drop count) := rfl

/-- The stream ends within what is asked for. -/
theorem untilUnpack_read_short {count : ℕ} (h : stream.length < count) (buf : Buf)
    (k : ReadResult → Prog Socket α) :
    (Socket.read (some buf) count >>= k).run untilUnpack stream =
      (k ⟨stream.length, stream, false⟩).run untilUnpack [] := by
  rw [untilUnpack_read, List.take_of_length_le h.le, List.drop_eq_nil_of_le h.le]

theorem untilUnpack_read_full {count : ℕ} (h : count ≤ stream.length) (buf : Buf)
    (k : ReadResult → Prog Socket α) :
    (Socket.read (some buf) count >>= k).run untilUnpack stream =
      (k ⟨count, stream.take count, false⟩).run untilUnpack (stream.drop count) := by
  rw [untilUnpack_read, List.length_take_of_le h]

@[simp] theorem untilUnpack_unpack (bytes : Bytes) (k : Option MessageT → Prog Socket α) :
    (Socket.unpack bytes >>= k).run untilUnpack stream = .error (.unpack stream) := rfl

/-- A stream that is long enough loses the payload up to the unpacking; another one is
    read to its end. -/
theorem receivePackets_until (buf : Buf) (size : ℕ) (hbuf : buf.offset + size = buf.block.length)
    (hsize : size < 2 ^ 15) :
    (receivePackets (some buf) size).run untilUnpack stream =
      if size ≤ stream.length then .error (.unpack (stream.drop size))
      else .ok ((none, true), []) := by
  induction hn : size using Nat.strong_induction_on generalizing buf size stream with
  | _ n ih =>
  subst hn
  rw [receivePackets]
  by_cases hpacket : maxMsg < size
  · rw [if_pos (by exact_mod_cast hpacket)]
    by_cases hshort : stream.length < maxMsg
    -- the stream ends within the packet
    · rw [untilUnpack_read_short stream hshort, if_pos (by simp only [maxMsg] at *; omega),
        if_neg (by omega)]
      rfl
    · have htake : (stream.take maxMsg).length = maxMsg := List.length_take_of_le (not_lt.1 hshort)
      have hfill : buf.fill (stream.take maxMsg) = .ok _ := Buf.fill_eq (by omega)
      have hsub : (size : Int) - maxMsg = ((size - maxMsg : ℕ) : Int) := by omega
      rw [untilUnpack_read_full stream (not_lt.1 hshort), if_neg (by simp), if_neg (by simp),
        ReadResult.into_some hfill, Socket.memory_ok, Prog.ret_bind, Option.map_some, hsub,
        ih (size - maxMsg)
          (by simp only [maxMsg] at *; omega) (stream.drop maxMsg) _ (size - maxMsg)
          (by simp only [Buf.advance, List.length_append, List.length_take, List.length_drop]; omega)
          (by omega) rfl]
      have hadd : maxMsg + (size - maxMsg) = size := by omega
      have hiff : size - maxMsg ≤ (stream.drop maxMsg).length ↔ size ≤ stream.length := by
        rw [List.length_drop]
        omega
      rw [List.drop_drop, hadd]
      simp only [hiff]
  -- the last packet, after which the message is unpacked
  · have hcount : ((size : Int) % 2 ^ 64).toNat = size := by omega
    rw [if_neg (by exact_mod_cast hpacket), hcount]
    by_cases hshort : stream.length < size
    · have hdisconnected : (0 : Int) ≤ stream.length ∧ (stream.length : Int) < size := by omega
      rw [untilUnpack_read_short stream hshort, if_pos (.inr hdisconnected), if_neg (by omega)]
      rfl
    · have htake : (stream.take size).length = size := List.length_take_of_le (not_lt.1 hshort)
      have hrest : buf.offset + (stream.take size).length = buf.block.length := by omega
      have hfill := Buf.fill_rest hrest
      have hslice := Buf.slice_rest hrest
      rw [htake] at hslice
      rw [untilUnpack_read_full stream (not_lt.1 hshort), if_neg (by simp), if_neg (by simp),
        ReadResult.into_some hfill, Socket.memory_ok, Prog.ret_bind, deref_some, Socket.memory_ok,
        Prog.ret_bind, hslice, Socket.memory_ok, Prog.ret_bind, untilUnpack_unpack,
        if_pos (by omega)]

/-- A stream that begins with the size of a payload. -/
theorem messageReceiveAll_until (size : ℕ) (hsize : size < 2 ^ 15) :
    messageReceiveAll.run untilUnpack (shortBytes (htons (.ofNat size)) ++ stream) =
      if size ≤ stream.length then .error (.unpack (stream.drop size))
      else .ok ((none, true), []) := by
  have htake : (shortBytes (htons (.ofNat size)) ++ stream).take 2 =
      shortBytes (htons (.ofNat size)) := rfl
  have hdrop : (shortBytes (htons (.ofNat size)) ++ stream).drop 2 = stream := rfl
  have hlength : (shortBytes (htons (.ofNat size))).length = 2 := rfl
  have hresponse : (UInt16.ofNat size).toInt16.toInt = (size : Int) := Int16.toInt_ofNat_of_lt hsize
  have hcalloc : Buf.calloc (size : Int) = some ⟨List.replicate size 0, 0⟩ := if_pos (by omega)
  have htwo : Buf.calloc 2 = some ⟨[0, 0], 0⟩ := rfl
  rw [messageReceiveAll, htwo, untilUnpack_read]
  simp only [htake, hdrop, hlength]
  rw [if_neg (by decide), if_neg (by decide)]
  simp only [ofShortBytes_shortBytes, ntohs_htons, hresponse, hcalloc]
  exact receivePackets_until stream _ size (by simp) hsize

/-- A stream that ends inside of the size. -/
theorem messageReceiveAll_short (h : stream.length < 2) :
    messageReceiveAll.run untilUnpack stream = .ok ((none, true), []) := by
  have htwo : Buf.calloc 2 = some ⟨[0, 0], 0⟩ := rfl
  have hdisconnected : (0 : Int) ≤ stream.length ∧ (stream.length : Int) < 2 := by omega
  rw [messageReceiveAll, htwo, untilUnpack_read_short stream h, if_pos (.inr hdisconnected)]
  rfl

/-- A proper prefix of a frame is read to its end, and nothing is unpacked. -/
theorem messageReceiveAll_truncated {packed start : Bytes} (hsize : packed.length < 2 ^ 15)
    (hbegins : start <+: frame packed) (hproper : start ≠ frame packed) :
    messageReceiveAll.run untilUnpack start = .ok ((none, true), []) := by
  by_cases hshort : start.length < 2
  · exact messageReceiveAll_short start hshort
  · obtain ⟨rest, hrest⟩ := hbegins
    have hhead : start.take 2 = shortBytes (htons (.ofNat packed.length)) := by
      have htake := congrArg (List.take 2) hrest
      rwa [List.take_append_of_le_length (by omega)] at htake
    have htail : start.drop 2 ++ rest = packed := by
      have hdrop := congrArg (List.drop 2) hrest
      rwa [List.drop_append_of_le_length (by omega)] at hdrop
    have hrest : rest ≠ [] := by
      rintro rfl
      exact hproper (by rw [← hrest, List.append_nil])
    have hlength : (start.drop 2).length < packed.length := by
      rw [← htail, List.length_append]
      have hpos := List.length_pos_iff.2 hrest
      omega
    rw [← List.take_append_drop 2 start, hhead, messageReceiveAll_until _ _ hsize,
      if_neg (not_le.2 hlength)]

end UntilUnpack

/-- Calls that do not reach `message_t__unpack` are those of `reliable`. -/
theorem run_of_untilUnpack (pb : Protobuf) {α : Type} {p : Prog Socket α} {stream stream' : Bytes}
    {a : α} (h : p.run untilUnpack stream = .ok (a, stream')) (unpacked : List Bytes) :
    p.run (reliable pb) ⟨stream, unpacked⟩ = .ok (a, ⟨stream', unpacked⟩) := by
  induction p generalizing stream with
  | ret b =>
    cases h
    rfl
  | call op k ih =>
    rw [Prog.run_call] at h ⊢
    cases op with
    | write bytes => exact ih _ h
    | read buf count =>
      cases buf with
      | none => exact ih _ h
      | some buf => exact ih _ h
    | unpack bytes => cases h
    | fault f => cases h

/-! ## In step -/

/-- Frames stay in step, whatever the sizes of the messages. -/
theorem inStep {pb : Protobuf} {msgs : List MessageT}
    (hsize : ∀ msg ∈ msgs, (pb.pack msg).length < 2 ^ 15) : InStep pb msgs where
  sent := by rw [sendMessages_eq hsize, List.nil_append]
  received k msg rest hdrop := by
    have hlt : k < msgs.length := by
      by_contra hle
      rw [List.drop_eq_nil_of_le (not_lt.1 hle)] at hdrop
      cases hdrop
    have hmem : msg ∈ msgs := List.mem_of_mem_drop (hdrop ▸ List.mem_cons_self)
    have hstream : (receiveMessages pb k (sendMessages pb msgs ⟨[], []⟩)).stream =
        frame (pb.pack msg) ++ frames pb rest := by
      have hafter := receiveMessages_stream hsize hlt.le [] []
      rw [sendMessages_eq hsize, List.nil_append]
      rw [List.append_nil, List.append_nil, hdrop] at hafter
      exact hafter
    refine ⟨hstream, ?_⟩
    rw [hstream, frame, List.append_assoc, messageReceiveAll_until _ _ (hsize msg hmem),
      if_pos (by simp), List.drop_left]
  truncated packed start hpacked hbegins hproper := by
    have hstream : (receiveMessages pb msgs.length ⟨frames pb msgs ++ start, []⟩).stream =
      start := by
      have hafter := receiveMessages_stream hsize le_rfl start []
      rw [List.drop_length] at hafter
      exact hafter
    have htruncated := messageReceiveAll_truncated hpacked hbegins hproper
    rw [← hstream] at htruncated
    exact run_of_untilUnpack pb htruncated _

/-- A request of more than one packet, a message of no bytes and a short request. -/
def threeMessages : Protobuf :=
  .ofList [(getRequest (longKey 3000), getRequestBytes (longKey 3000), getRequest (longKey 3000)),
    (MessageT.init, [], MessageT.init),
    (getRequest (longKey 21), getRequestBytes (longKey 21), getRequest (longKey 21))]

theorem length_getRequestBytes_shortKey : (getRequestBytes (longKey 21)).length = 27 := by
  rw [length_getRequestBytes, length_varint_one (by decide)]

theorem threeMessages_sizes :
    ∀ msg ∈ [getRequest (longKey 3000), MessageT.init, getRequest (longKey 21)],
    (threeMessages.pack msg).length ∈ [3007, 0, 27] := by
  have hlong : (getRequestBytes (longKey 3000)).length = 3007 :=
    length_getRequestBytes_two (by decide) (by decide)
  have hinit : getRequest (longKey 3000) ≠ MessageT.init := by
    simp [getRequest, MessageT.init, opGet, opBad]
  have hkeys : getRequest (longKey 3000) ≠ getRequest (longKey 21) := by
    intro heq
    have hkey : longKey 3000 = longKey 21 := Option.some.inj (congrArg MessageT.key heq)
    rw [hkey, length_getRequestBytes_shortKey] at hlong
    cases hlong
  have hinit' : MessageT.init ≠ getRequest (longKey 21) := by
    simp [getRequest, MessageT.init, opGet, opBad]
  intro msg hmsg
  simp only [List.mem_cons, List.not_mem_nil, or_false] at hmsg
  rcases hmsg with rfl | rfl | rfl
  · simp [threeMessages, Protobuf.ofList, hlong]
  · simp [threeMessages, Protobuf.ofList, hinit]
  · simp [threeMessages, Protobuf.ofList, hkeys, hinit', length_getRequestBytes_shortKey]

/-- They stay in step one after the other. -/
theorem inStep_three :
    InStep threeMessages [getRequest (longKey 3000), MessageT.init, getRequest (longKey 21)] := by
  refine inStep fun msg hmsg => ?_
  have hlength := threeMessages_sizes msg hmsg
  simp only [List.mem_cons, List.not_mem_nil, or_false] at hlength
  omega

/-! ## Reads that deliver less

A stream socket may hand out what has arrived so far. -/

/-- The read with number `i` delivers `cut i` bytes, but at least one and no more than it
    asked for. -/
def segmented (pb : Protobuf) (cut : ℕ → ℕ) : Prog.Handler Socket (Connection × ℕ) Fault
  | .write bytes, (c, i) => .ok ((bytes.length : Int), ({ c with stream := c.stream ++ bytes }, i))
  | .read none _, s => .ok (⟨-1, [], false⟩, s)
  | .read (some _) count, (c, i) =>
    let bytes := c.stream.take (min count (max 1 (cut i)))
    .ok (⟨bytes.length, bytes, false⟩, ({ c with stream := c.stream.drop bytes.length }, i + 1))
  | .unpack bytes, (c, i) =>
      .ok (pb.unpack bytes, ({ c with unpacked := c.unpacked ++ [bytes] }, i))
  | .fault f, _ => .error f

/-- What a call returns, unless it faults. -/
def returned {α σ ε : Type} : Except ε (α × σ) → Option α
  | .ok (a, _) => some a
  | .error _ => none

/-- The message that whole reads return is returned also when the reads are cut, and the
    peer is not taken for gone. -/
def CutsDoNotMatter (pb : Protobuf) (cut : ℕ → ℕ) (msg : MessageT) : Prop :=
  ∃ res, returned (messageReceiveAll.run (reliable pb) (sentOn pb msg)) = some (res, false) ∧
    returned (messageReceiveAll.run (segmented pb cut) (sentOn pb msg, 0)) = some (res, false)

section Segmented

variable {α : Type} (pb : Protobuf) (cut : ℕ → ℕ)

@[simp] theorem segmented_read (buf : Buf) (count : ℕ) (k : ReadResult → Prog Socket α)
    (c : Connection) (i : ℕ) :
    (Socket.read (some buf) count >>= k).run (segmented pb cut) (c, i) =
      let bytes := c.stream.take (min count (max 1 (cut i)))
      (k ⟨bytes.length, bytes, false⟩).run (segmented pb cut)
        ({ c with stream := c.stream.drop bytes.length }, i + 1) := rfl

@[simp] theorem segmented_unpack (bytes : Bytes) (k : Option MessageT → Prog Socket α)
    (c : Connection) (i : ℕ) :
    (Socket.unpack bytes >>= k).run (segmented pb cut) (c, i) =
      (k (pb.unpack bytes)).run (segmented pb cut)
        ({ c with unpacked := c.unpacked ++ [bytes] }, i) := rfl

/-- The one read of a payload that fits a packet. -/
theorem receivePackets_segmented (packed : Bytes) (hsize : packed.length ≤ maxMsg)
    (unpacked : List Bytes) (i : ℕ) :
    returned ((receivePackets (some ⟨List.replicate packed.length 0, 0⟩) packed.length).run
        (segmented pb cut) (⟨packed, unpacked⟩, i)) =
      if packed.length ≤ max 1 (cut i) then some (pb.unpack packed, false)
      else some (none, true) := by
  have hpacket : ¬ (maxMsg : Int) < packed.length := by exact_mod_cast not_lt.2 hsize
  have hcount : ((packed.length : Int) % 2 ^ 64).toNat = packed.length := by
    simp only [maxMsg] at hsize
    omega
  rw [receivePackets, if_neg hpacket, hcount, segmented_read]
  by_cases hwhole : packed.length ≤ max 1 (cut i)
  · have hfill : (Buf.mk (List.replicate packed.length 0) 0).fill packed = .ok ⟨packed, 0⟩ :=
      Buf.fill_rest (by simp)
    have hslice : (Buf.mk packed 0).slice packed.length = .ok packed := by
      rw [Buf.slice_eq (by simp), List.drop_zero, List.take_length]
    rw [if_pos hwhole, min_eq_left hwhole, List.take_length]
    simp only
    rw [if_neg (by simp), if_neg (by simp), ReadResult.into_some hfill, Socket.memory_ok,
      Prog.ret_bind, deref_some, Socket.memory_ok, Prog.ret_bind, hslice, Socket.memory_ok,
      Prog.ret_bind, segmented_unpack, Buf.free_zero, Socket.memory_ok, Prog.ret_bind]
    rfl
  · have hmin : min packed.length (max 1 (cut i)) = max 1 (cut i) := min_eq_right (by omega)
    have htake : (packed.take (max 1 (cut i))).length = max 1 (cut i) := by
      rw [List.length_take]
      omega
    rw [if_neg hwhole, hmin]
    simp only [htake]
    rw [if_pos (.inr ⟨by omega, by exact_mod_cast not_le.1 hwhole⟩)]
    rfl

/-- The two reads of a frame that fits a packet. -/
theorem messageReceiveAll_segmented (packed : Bytes) (hsize : packed.length ≤ maxMsg) :
    returned (messageReceiveAll.run (segmented pb cut) (⟨frame packed, []⟩, 0)) =
      if 2 ≤ cut 0 ∧ packed.length ≤ max 1 (cut 1) then some (pb.unpack packed, false)
      else some (none, true) := by
  have hlength : (shortBytes (htons (.ofNat packed.length))).length = 2 := rfl
  have htwo : Buf.calloc 2 = some ⟨[0, 0], 0⟩ := rfl
  rw [messageReceiveAll, htwo, segmented_read]
  by_cases hfirst : 2 ≤ cut 0
  · have hmin : min 2 (max 1 (cut 0)) = 2 := min_eq_left (by omega)
    have htake : (frame packed).take 2 = shortBytes (htons (.ofNat packed.length)) := rfl
    have hdrop : (frame packed).drop 2 = packed := rfl
    have hresponse : (UInt16.ofNat packed.length).toInt16.toInt = (packed.length : Int) :=
      Int16.toInt_ofNat_of_lt (by simp only [maxMsg] at hsize; omega)
    have hcalloc : Buf.calloc (packed.length : Int) =
        some ⟨List.replicate packed.length 0, 0⟩ := if_pos (by omega)
    simp only [hmin, htake, hlength, hdrop]
    rw [if_neg (by decide), if_neg (by decide)]
    simp only [ofShortBytes_shortBytes, ntohs_htons, hresponse, hcalloc, hfirst, true_and]
    exact receivePackets_segmented pb cut packed hsize [] 1
  · have hmin : min 2 (max 1 (cut 0)) = 1 := by omega
    have htake : ((frame packed).take 1).length = 1 := rfl
    simp only [hmin, htake]
    rw [if_pos (.inr (by decide)), if_neg fun h => hfirst h.1]
    rfl

/-- A message that fits a packet arrives exactly when both reads are whole. -/
theorem cutsDoNotMatter_iff {msg : MessageT} (hsize : (pb.pack msg).length ≤ maxMsg) :
    CutsDoNotMatter pb cut msg ↔ 2 ≤ cut 0 ∧ (pb.pack msg).length ≤ max 1 (cut 1) := by
  have hshort : (pb.pack msg).length < 2 ^ 15 := lt_of_le_of_lt hsize (by decide)
  have hwhole := messageReceiveAll_run pb (pb.pack msg) [] [] hshort
  rw [List.append_nil, if_pos hsize] at hwhole
  rw [CutsDoNotMatter, sentOn_short hshort, hwhole, messageReceiveAll_segmented pb cut _ hsize]
  split_ifs with hcuts
  · exact iff_of_true ⟨_, rfl, rfl⟩ hcuts
  · refine iff_of_false ?_ hcuts
    rintro ⟨res, -, hcut⟩
    cases hcut

theorem cutsDoNotMatter_whole :
    CutsDoNotMatter (.single (getRequest (longKey 21)) (getRequestBytes (longKey 21)))
      (fun _ => 100) (getRequest (longKey 21)) := by
  refine (cutsDoNotMatter_iff _ _ ?_).2 ⟨by decide, ?_⟩
  · rw [Protobuf.length_single, length_getRequestBytes_shortKey]
    decide
  · rw [Protobuf.length_single, length_getRequestBytes_shortKey]
    decide

/-- The second half of a request arrives later, and the client is taken for gone. -/
theorem not_cutsDoNotMatter_halves :
    ∃ (pb : Protobuf) (msg : MessageT), (pb.pack msg).length ≤ maxMsg ∧
      ¬ CutsDoNotMatter pb (fun _ => 14) msg := by
  refine ⟨.single (getRequest (longKey 21)) (getRequestBytes (longKey 21)),
    getRequest (longKey 21), ?_, ?_⟩
  all_goals
    have hlength : ((Protobuf.single (getRequest (longKey 21)) (getRequestBytes (longKey 21))).pack
        (getRequest (longKey 21))).length = 27 := length_getRequestBytes_shortKey
  · rw [hlength]
    decide
  · rintro ⟨res, -, hcut⟩
    rw [sentOn_short (by rw [hlength]; decide), messageReceiveAll_segmented _ _ _
      (by rw [hlength]; decide), hlength, if_neg (by decide)] at hcut
    cases hcut

end Segmented

end ChainTable
