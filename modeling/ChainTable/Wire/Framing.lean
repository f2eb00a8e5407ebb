-- SUMMARY: message_send_all and message_receive_all of message.c, and when a message survives its frame.
import ChainTable.Base.Prog
import ChainTable.Wire.Message

open Base

/-!
# Frames

A frame is a 16-bit size in network order followed by the packed message, in
packets of `MAX_MSG` bytes. Both functions are programs over the socket calls
that they make, so that what a call returns is up to the connection. They cut
the packed message and put it back together through a pointer into a block of
memory, which is a `Buf` here.
-/

namespace ChainTable

/-- `MAX_MSG` -/
abbrev maxMsg : ℕ := 2048

/-! ## Buffers -/

/-- A pointer into a block that `calloc` returned. -/
@[ext] structure Buf where
  block : Bytes
  offset : ℕ
  deriving DecidableEq

namespace Buf

/-- `calloc` of a size that a `short` holds. A negative one becomes a `size_t`
    that no allocation can satisfy. -/
def calloc (size : Int) : Option Buf :=
  if 0 ≤ size then some ⟨List.replicate size.toNat 0, 0⟩ else none

/-- The `count` bytes that the pointer points to. -/
def slice (buf : Buf) (count : ℕ) : C Bytes :=
  if buf.offset + count ≤ buf.block.length then .ok ((buf.block.drop buf.offset).take count)
  else .error .outOfBounds

/-- Write bytes where the pointer points to. -/
def fill (buf : Buf) (bytes : Bytes) : C Buf :=
  if buf.offset + bytes.length ≤ buf.block.length then
    .ok { buf with block := buf.block.take buf.offset ++ bytes ++
            buf.block.drop (buf.offset + bytes.length) }
  else .error .outOfBounds

/-- `buf += count` -/
def advance (buf : Buf) (count : ℕ) : Buf := { buf with offset := buf.offset + count }

/-- `free` takes back only what `calloc` returned. -/
def free (buf : Buf) : C Unit :=
  if buf.offset = 0 then .ok () else .error .invalidFree

end Buf

/-! ## Calls on a connection -/

/-- What `read` returns: its result, the bytes it has put at the pointer, and
    whether `errno` is `EINTR`. -/
structure ReadResult where
  len : Int
  bytes : Bytes
  eintr : Bool

/-- The calls that the two functions make. `unpack` stands for the call of
    `message_t__unpack` on a range of bytes, and `fault` ends the program. -/
inductive SocketCall where
  | write (bytes : Bytes)
  | read (buf : Option Buf) (count : ℕ)
  | unpack (bytes : Bytes)
  | fault (f : Fault)

/-- The signature of socket calls. -/
abbrev Socket : Sig where
  Op := SocketCall
  Res
    | .write _ => Int
    | .read _ _ => ReadResult
    | .unpack _ => Option MessageT
    | .fault _ => Empty

namespace Socket

def write (bytes : Bytes) : Prog Socket Int := .perform (S := Socket) (.write bytes)

def read (buf : Option Buf) (count : ℕ) : Prog Socket ReadResult :=
  .perform (S := Socket) (.read buf count)

def unpack (bytes : Bytes) : Prog Socket (Option MessageT) :=
  .perform (S := Socket) (.unpack bytes)

/-- A computation on memory inside a program. -/
def memory {α : Type} : C α → Prog Socket α
  | .ok a => .ret a
  | .error f => .call (S := Socket) (.fault f) Empty.elim

@[simp] theorem memory_ok {α : Type} (a : α) : memory (.ok a) = .ret a := rfl

end Socket

/-! ## Sizes -/

/-- `htons` and `ntohs` on a little-endian machine. -/
def htons (x : UInt16) : UInt16 := .ofNat (x.toNat % 256 * 256 + x.toNat / 256)

def ntohs (x : UInt16) : UInt16 := htons x

/-- The two bytes of a `short` in memory. -/
def shortBytes (x : UInt16) : Bytes := [.ofNat (x.toNat % 256), .ofNat (x.toNat / 256)]

/-- The `short` that two bytes in memory make. -/
def ofShortBytes : Bytes → UInt16
  | [lo, hi] => .ofNat (lo.toNat + 256 * hi.toNat)
  | _ => 0

/-! ## Sending -/

/-- The packets of `message_send_all`, from the packed content on. -/
def sendPackets (contentBuf : Buf) (contentSize totalWriteLen : Int) : Prog Socket Int :=
  if (maxMsg : Int) < contentSize then do
    let packet ← Socket.memory (contentBuf.slice maxMsg)
    let writeLen ← Socket.write packet
    if writeLen = -1 ∨ writeLen > maxMsg then return -1
    else if writeLen < maxMsg then return 0
    else
      sendPackets (contentBuf.advance maxMsg) (contentSize - maxMsg) (totalWriteLen + writeLen)
  else do
    let packet ← Socket.memory (contentBuf.slice contentSize.toNat)
    let writeLen ← Socket.write packet
    if writeLen = -1 ∨ writeLen > contentSize then return -1
    else if writeLen < contentSize then return 0
    else do
      -- the pointer is no longer the one that calloc returned once a packet is out
      Socket.memory contentBuf.free
      return totalWriteLen + writeLen
termination_by contentSize.toNat

/-- `message_send_all` -/
def messageSendAll (pb : Protobuf) (msg : MessageT) : Prog Socket Int := do
  let contentSize : Int16 := .ofNat (pb.pack msg).length
  let contentSizeNs := htons contentSize.toUInt16
  let contentBuf ← Socket.memory (deref (Buf.calloc contentSize.toInt))
  let contentBuf ← Socket.memory (contentBuf.fill (pb.pack msg))
  let writeLen ← Socket.write (shortBytes contentSizeNs)
  if writeLen = -1 ∨ writeLen > 2 then return -1
  else if writeLen < 2 then return 0
  else sendPackets contentBuf contentSize.toInt writeLen

/-! ## Receiving -/

/-- The bytes that `read` delivers go to the pointer that it was given. -/
def ReadResult.into (result : ReadResult) : Option Buf → C (Option Buf)
  | some buf => do return some (← buf.fill result.bytes)
  | none => if result.bytes = [] then .ok none else .error .nullDeref

theorem ReadResult.into_some {result : ReadResult} {buf buf' : Buf}
    (h : buf.fill result.bytes = .ok buf') : result.into (some buf) = .ok (some buf') := by
  rw [into, h]
  rfl

/-- The packets of `message_receive_all`: the message, and whether the peer is
    gone. -/
def receivePackets (responseBuf : Option Buf) (responseSize : Int) :
    Prog Socket (Option MessageT × Bool) :=
  if (maxMsg : Int) < responseSize then do
    let result ← Socket.read responseBuf maxMsg
    if (result.len = -1 ∧ result.eintr) ∨ (0 ≤ result.len ∧ result.len < maxMsg) then
      return (none, true)
    else if result.len = -1 ∨ result.len > maxMsg then return (none, false)
    else do
      let responseBuf ← Socket.memory (result.into responseBuf)
      receivePackets (responseBuf.map (·.advance maxMsg)) (responseSize - maxMsg)
  else do
    -- a negative size is converted to a size_t
    let result ← Socket.read responseBuf (responseSize % 2 ^ 64).toNat
    if (result.len = -1 ∧ result.eintr) ∨ (0 ≤ result.len ∧ result.len < responseSize) then
      return (none, true)
    else if result.len = -1 ∨ result.len > responseSize then return (none, false)
    else do
      let responseBuf ← Socket.memory (result.into responseBuf)
      -- only what is left behind the pointer is unpacked
      let responseBuf ← Socket.memory (deref responseBuf)
      let range ← Socket.memory (responseBuf.slice (responseSize % 2 ^ 64).toNat)
      let ret ← Socket.unpack range
      Socket.memory responseBuf.free
      return (ret, false)
termination_by responseSize.toNat

/-- `message_receive_all` -/
def messageReceiveAll : Prog Socket (Option MessageT × Bool) := do
  let result ← Socket.read (Buf.calloc 2) 2
  if (result.len = -1 ∧ result.eintr) ∨ (0 ≤ result.len ∧ result.len < 2) then
    return (none, true)
  else if result.len = -1 ∨ result.len > 2 then return (none, false)
  else
    let responseSizeNs := ofShortBytes result.bytes
    let responseSize := (ntohs responseSizeNs).toInt16
    receivePackets (Buf.calloc responseSize.toInt) responseSize.toInt

/-! ## Connections that transfer every request in full -/

/-- A connection in one direction: the bytes that were written and not read yet.
    The ranges that were handed to `message_t__unpack` are recorded with it. -/
@[ext] structure Connection where
  stream : Bytes
  unpacked : List Bytes
  deriving DecidableEq

/-- Every write takes all its bytes, and every read delivers what was asked for,
    or what is left at the end of the stream. A fault keeps the connection. -/
def reliable (pb : Protobuf) : Prog.Handler Socket Connection (Fault × Connection)
  | .write bytes, c => .ok ((bytes.length : Int), { c with stream := c.stream ++ bytes })
  | .read none _, c => .ok (⟨-1, [], false⟩, c)
  | .read (some _) count, c =>
    .ok (⟨(c.stream.take count).length, c.stream.take count, false⟩,
      { c with stream := c.stream.drop count })
  | .unpack bytes, c => .ok (pb.unpack bytes, { c with unpacked := c.unpacked ++ [bytes] })
  | .fault f, c => .error (f, c)

section Reliable

variable {α β : Type} (pb : Protobuf) (c : Connection)

@[simp] theorem run_write (bytes : Bytes) (k : Int → Prog Socket α) :
    (Socket.write bytes >>= k).run (reliable pb) c =
      (k bytes.length).run (reliable pb) { c with stream := c.stream ++ bytes } := rfl

@[simp] theorem run_read (buf : Buf) (count : ℕ) (k : ReadResult → Prog Socket α) :
    (Socket.read (some buf) count >>= k).run (reliable pb) c =
      (k ⟨(c.stream.take count).length, c.stream.take count, false⟩).run (reliable pb)
        { c with stream := c.stream.drop count } := rfl

@[simp] theorem run_unpack (bytes : Bytes) (k : Option MessageT → Prog Socket α) :
    (Socket.unpack bytes >>= k).run (reliable pb) c =
      (k (pb.unpack bytes)).run (reliable pb)
        { c with unpacked := c.unpacked ++ [bytes] } := rfl

@[simp] theorem run_memory_error (f : Fault) (k : α → Prog Socket β) :
    (Socket.memory (.error f) >>= k).run (reliable pb) c = .error (f, c) := rfl

end Reliable

namespace Buf

theorem slice_eq {buf : Buf} {count : ℕ} (h : buf.offset + count ≤ buf.block.length) :
    buf.slice count = .ok ((buf.block.drop buf.offset).take count) := if_pos h

theorem fill_eq {buf : Buf} {bytes : Bytes} (h : buf.offset + bytes.length ≤ buf.block.length) :
    buf.fill bytes = .ok ⟨buf.block.take buf.offset ++ bytes ++
      buf.block.drop (buf.offset + bytes.length), buf.offset⟩ := if_pos h

/-- Filling the rest of a block. -/
theorem fill_rest {buf : Buf} {bytes : Bytes} (h : buf.offset + bytes.length = buf.block.length) :
    buf.fill bytes = .ok ⟨buf.block.take buf.offset ++ bytes, buf.offset⟩ := by
  have hdrop : buf.block.drop (buf.offset + bytes.length) = [] :=
    List.drop_eq_nil_of_le (by omega)
  rw [fill_eq h.le, hdrop, List.append_nil]

/-- Reading the rest of a block back. -/
theorem slice_append {front bytes : Bytes} {offset : ℕ} (h : front.length = offset) :
    (Buf.mk (front ++ bytes) offset).slice bytes.length = .ok bytes := by
  rw [slice_eq (by simp [h]), List.drop_left' h, List.take_length]

theorem slice_rest {buf : Buf} {bytes : Bytes} (h : buf.offset + bytes.length = buf.block.length) :
    (Buf.mk (buf.block.take buf.offset ++ bytes) buf.offset).slice bytes.length = .ok bytes :=
  slice_append (List.length_take_of_le (by omega))

section Rest

variable {buf : Buf} {size : ℕ} (hsize : buf.offset + size = buf.block.length)

include hsize

theorem length_rest : (buf.block.drop buf.offset).length = size := by
  rw [List.length_drop]
  omega

/-- The last packet is what is left of the block. -/
theorem slice_last : buf.slice size = .ok (buf.block.drop buf.offset) := by
  rw [slice_eq hsize.le, List.take_of_length_le (length_rest hsize).le]

/-- Any other packet is the front of it. -/
theorem slice_packet (hpacket : maxMsg < size) :
    ∃ packet : Bytes, buf.slice maxMsg = .ok packet ∧ packet.length = maxMsg ∧
      packet ++ buf.block.drop (buf.offset + maxMsg) = buf.block.drop buf.offset := by
  refine ⟨(buf.block.drop buf.offset).take maxMsg, slice_eq (by omega), ?_, ?_⟩
  · rw [List.length_take, length_rest hsize]
    exact min_eq_left hpacket.le
  · rw [← List.drop_drop, List.take_append_drop]

end Rest

theorem free_zero (block : Bytes) : (Buf.mk block 0).free = .ok () := rfl

theorem free_advanced {buf : Buf} (h : buf.offset ≠ 0) : buf.free = .error .invalidFree :=
  if_neg h

end Buf

/-- The bytes of the frame of a message: the size in network order and the packed
    message. -/
def frame (packed : Bytes) : Bytes :=
  shortBytes (htons (.ofNat packed.length)) ++ packed

/-- What the last of the packets holds. -/
def lastPacket (packed : Bytes) : Bytes := packed.drop ((packed.length - 1) / maxMsg * maxMsg)

theorem lastPacket_of_le {packed : Bytes} (h : packed.length ≤ maxMsg) :
    lastPacket packed = packed := by
  have hzero : (packed.length - 1) / maxMsg = 0 :=
    Nat.div_eq_of_lt (by simp only [maxMsg] at *; omega)
  rw [lastPacket, hzero, Nat.zero_mul, List.drop_zero]

theorem lastPacket_drop {packed : Bytes} (h : maxMsg < packed.length) :
    lastPacket (packed.drop maxMsg) = lastPacket packed := by
  rw [lastPacket, lastPacket, List.drop_drop, List.length_drop]
  congr 1
  simp only [maxMsg] at *
  omega

/-! ### What the sender leaves on the connection -/

/-- All packets go out, whatever happens to the buffer afterwards: releasing it
    faults unless the pointer was never moved. -/
theorem sendPackets_run (pb : Protobuf) (buf : Buf) (size : ℕ) (total : Int) (c : Connection)
    (hsize : buf.offset + size = buf.block.length) :
    (sendPackets buf size total).run (reliable pb) c =
      let sent : Connection := { c with stream := c.stream ++ buf.block.drop buf.offset }
      if buf.offset = 0 ∧ size ≤ maxMsg then .ok (total + size, sent)
      else .error (.invalidFree, sent) := by
  induction size using Nat.strong_induction_on generalizing buf total c with
  | _ size ih =>
  rw [sendPackets]
  by_cases hpacket : maxMsg < size
  · obtain ⟨packet, hslice, hlength, hrest⟩ := Buf.slice_packet hsize hpacket
    have hsub : (size : Int) - maxMsg = ((size - maxMsg : ℕ) : Int) := by omega
    rw [if_pos (by exact_mod_cast hpacket), hslice, Socket.memory_ok,
      Prog.ret_bind, run_write, hlength, if_neg (by omega), if_neg (by omega), hsub,
      ih (size - maxMsg)
        (by simp only [maxMsg] at *; omega) _ _ _ (by simp only [Buf.advance]; omega)]
    simp only [Buf.advance, List.append_assoc, hrest]
    rw [if_neg (by omega), if_neg (by omega)]
  · rw [if_neg (by exact_mod_cast hpacket), Int.toNat_natCast, Buf.slice_last hsize,
      Socket.memory_ok, Prog.ret_bind, run_write, Buf.length_rest hsize, if_neg (by omega),
      if_neg (by omega)]
    by_cases hoff : buf.offset = 0
    · simp only [hoff, Buf.free, if_true, Socket.memory_ok, Prog.ret_bind]
      rw [if_pos ⟨trivial, by omega⟩]
      rfl
    -- `buf` no longer points at its block
    · rw [Buf.free_advanced hoff, run_memory_error, if_neg fun h => hoff h.1]

/-- A message whose size a `short` holds is sent as its frame. -/
theorem messageSendAll_run {pb : Protobuf} {msg : MessageT}
    (hsize : (pb.pack msg).length < 2 ^ 15) (c : Connection) :
    (messageSendAll pb msg).run (reliable pb) c =
      let sent : Connection := { c with stream := c.stream ++ frame (pb.pack msg) }
      if (pb.pack msg).length ≤ maxMsg then .ok (2 + ((pb.pack msg).length : Int), sent)
      else .error (.invalidFree, sent) := by
  have hint : (Int16.ofNat (pb.pack msg).length).toInt = ((pb.pack msg).length : Int) :=
    Int16.toInt_ofNat_of_lt hsize
  have hcalloc : Buf.calloc ((pb.pack msg).length : Int) =
      some ⟨List.replicate (pb.pack msg).length 0, 0⟩ := if_pos (by omega)
  have hfill : (Buf.mk (List.replicate (pb.pack msg).length 0) 0).fill (pb.pack msg) =
      .ok ⟨pb.pack msg, 0⟩ := Buf.fill_rest (by simp)
  rw [messageSendAll]
  simp only [hint, hcalloc, deref_some, Socket.memory_ok, Prog.ret_bind, hfill, run_write]
  have htwo : (shortBytes (htons (Int16.ofNat (pb.pack msg).length).toUInt16)).length = 2 := rfl
  rw [htwo, if_neg (by decide), if_neg (by decide), sendPackets_run _ _ _ _ _ (by simp)]
  simp [frame, List.append_assoc]

/-- The packets that arrive are put together in the buffer, but only the last of
    them is unpacked. -/
theorem receivePackets_run (pb : Protobuf) (rest : Bytes) (unpacked : List Bytes) (buf : Buf)
    (data : Bytes) (hsize : buf.offset + data.length = buf.block.length)
    (hshort : data.length < 2 ^ 15) :
    (receivePackets (some buf) data.length).run (reliable pb) ⟨data ++ rest, unpacked⟩ =
      let received : Connection := ⟨rest, unpacked ++ [lastPacket data]⟩
      if buf.offset = 0 ∧ data.length ≤ maxMsg then .ok ((pb.unpack data, false), received)
      else .error (.invalidFree, received) := by
  induction hn : data.length using Nat.strong_induction_on generalizing buf data with
  | _ n ih =>
  subst hn
  rw [receivePackets]
  by_cases hpacket : maxMsg < data.length
  · have htake : (data ++ rest).take maxMsg = data.take maxMsg :=
      List.take_append_of_le_length hpacket.le
    have hlength : (data.take maxMsg).length = maxMsg := by
      rw [List.length_take]
      omega
    have hdrop : (data ++ rest).drop maxMsg = data.drop maxMsg ++ rest :=
      List.drop_append_of_le_length hpacket.le
    have hleft : (data.drop maxMsg).length = data.length - maxMsg := List.length_drop
    have hsub : (data.length : Int) - maxMsg = ((data.drop maxMsg).length : Int) := by omega
    have hfill : buf.fill (data.take maxMsg) = .ok _ := Buf.fill_eq (by omega)
    rw [if_pos (by exact_mod_cast hpacket), run_read, htake, hlength, hdrop,
      if_neg (by simp), if_neg (by simp), ReadResult.into_some hfill, Socket.memory_ok,
      Prog.ret_bind, Option.map_some, hsub,
      ih _ (by simp only [maxMsg] at *; omega) _ _
        (by simp only [Buf.advance, List.length_append, List.length_take, List.length_drop]; omega)
        (by omega) rfl,
      lastPacket_drop hpacket]
    -- the pointer has moved, so that the run ends in the fault
    have hlong : ¬ (buf.offset = 0 ∧ data.length ≤ maxMsg) := by omega
    have hmoved : ¬ (buf.offset + maxMsg = 0 ∧ (data.drop maxMsg).length ≤ maxMsg) := by
      simp [maxMsg]
    rw [if_neg hlong]
    exact if_neg hmoved
  · have htake : (data ++ rest).take data.length = data := List.take_left
    have hdrop : (data ++ rest).drop data.length = rest := List.drop_left
    have hcount : ((data.length : Int) % 2 ^ 64).toNat = data.length := by omega
    have hfill := Buf.fill_rest hsize
    rw [if_neg (by exact_mod_cast hpacket), hcount, run_read, htake, hdrop,
      if_neg (by simp), if_neg (by simp), ReadResult.into_some hfill, Socket.memory_ok,
      Prog.ret_bind, deref_some, Socket.memory_ok, Prog.ret_bind, Buf.slice_rest hsize,
      Socket.memory_ok, Prog.ret_bind, run_unpack, lastPacket_of_le (by omega)]
    by_cases hoff : buf.offset = 0
    · rw [if_pos ⟨hoff, by omega⟩, hoff, Buf.free_zero]
      rfl
    · have hfree : (Buf.mk (buf.block.take buf.offset ++ data) buf.offset).free =
          .error .invalidFree := Buf.free_advanced hoff
      rw [if_neg fun h => hoff h.1, hfree, run_memory_error]

theorem ntohs_htons (x : UInt16) : ntohs (htons x) = x := by
  have hx := x.toNat_lt
  have hswap : (x.toNat % 256 * 256 + x.toNat / 256) % 2 ^ 16 =
      x.toNat % 256 * 256 + x.toNat / 256 := Nat.mod_eq_of_lt (by omega)
  have hhigh : (x.toNat % 256 * 256 + x.toNat / 256) / 256 = x.toNat % 256 := by omega
  have hlow : (x.toNat % 256 * 256 + x.toNat / 256) % 256 = x.toNat / 256 := by omega
  rw [← UInt16.toNat_inj]
  simp only [ntohs, htons, UInt16.toNat_ofNat', hswap, hhigh, hlow]
  rw [Nat.div_add_mod', Nat.mod_eq_of_lt hx]

theorem ofShortBytes_shortBytes (x : UInt16) : ofShortBytes (shortBytes x) = x := by
  have hx := x.toNat_lt
  rw [← UInt16.toNat_inj]
  simp only [ofShortBytes, shortBytes, UInt16.toNat_ofNat', UInt8.toNat_ofNat']
  omega

/-- What `message_receive_all` does with the frame of a message whose size a
    `short` holds. -/
theorem messageReceiveAll_run (pb : Protobuf) (packed rest : Bytes)
    (unpacked : List Bytes) (hsize : packed.length < 2 ^ 15) :
    messageReceiveAll.run (reliable pb) ⟨frame packed ++ rest, unpacked⟩ =
      let received : Connection := ⟨rest, unpacked ++ [lastPacket packed]⟩
      if packed.length ≤ maxMsg then .ok ((pb.unpack packed, false), received)
      else .error (.invalidFree, received) := by
  have htake : (frame packed ++ rest).take 2 = shortBytes (htons (.ofNat packed.length)) := rfl
  have hdrop : (frame packed ++ rest).drop 2 = packed ++ rest := rfl
  have hlength : (shortBytes (htons (.ofNat packed.length))).length = 2 := rfl
  have hresponse : (UInt16.ofNat packed.length).toInt16.toInt = (packed.length : Int) :=
    Int16.toInt_ofNat_of_lt hsize
  have hcalloc : Buf.calloc (packed.length : Int) =
      some ⟨List.replicate packed.length 0, 0⟩ := if_pos (by omega)
  rw [messageReceiveAll]
  have htwo : Buf.calloc 2 = some ⟨[0, 0], 0⟩ := rfl
  rw [htwo, run_read]
  simp only [htake, hdrop, hlength]
  rw [if_neg (by decide), if_neg (by decide)]
  simp only [ofShortBytes_shortBytes, ntohs_htons, hresponse, hcalloc]
  rw [receivePackets_run _ _ _ _ _ (by simp) hsize]
  simp

/-! ## The round trip -/

/-- What is on the connection when the sender is done, or has run into a fault. -/
def sentOn (pb : Protobuf) (msg : MessageT) : Connection :=
  match (messageSendAll pb msg).run (reliable pb) ⟨[], []⟩ with
  | .ok (_, c) => c
  | .error (_, c) => c

/-- The other end returns the message that was sent, and what it hands to
    `message_t__unpack` is the whole packed message. -/
def FramingRoundTrip (pb : Protobuf) (msg : MessageT) : Prop :=
  messageReceiveAll.run (reliable pb) (sentOn pb msg) =
    .ok ((some msg, false), ⟨[], [pb.pack msg]⟩)

theorem sentOn_short {pb : Protobuf} {msg : MessageT} (hsize : (pb.pack msg).length < 2 ^ 15) :
    sentOn pb msg = ⟨frame (pb.pack msg), []⟩ := by
  have hrun := messageSendAll_run hsize ⟨[], []⟩
  by_cases hlength : (pb.pack msg).length ≤ maxMsg
  · rw [if_pos hlength] at hrun
    rw [sentOn, hrun]
    rfl
  · rw [if_neg hlength] at hrun
    rw [sentOn, hrun]
    rfl

/-- A size that becomes a negative `short` lets no byte out: there is no buffer to
    pack into. -/
theorem sentOn_long {pb : Protobuf} {msg : MessageT} (hlow : 2 ^ 15 ≤ (pb.pack msg).length)
    (hhigh : (pb.pack msg).length < 2 ^ 16) : sentOn pb msg = ⟨[], []⟩ := by
  have hneg : ¬ 0 ≤ (Int16.ofNat (pb.pack msg).length).toInt := by
    rw [Int16.toInt_ofNat', Int.bmod_def]
    simp only [Int16.size]
    omega
  have hcalloc : Buf.calloc (Int16.ofNat (pb.pack msg).length).toInt = none := if_neg hneg
  have hrun : (messageSendAll pb msg).run (reliable pb) ⟨[], []⟩ =
      .error (.nullDeref, ⟨[], []⟩) := by
    rw [messageSendAll]
    simp only [hcalloc]
    rfl
  rw [sentOn, hrun]

theorem messageReceiveAll_nothing (pb : Protobuf) :
    messageReceiveAll.run (reliable pb) ⟨[], []⟩ = .ok ((none, true), ⟨[], []⟩) := by
  rfl

/-- The other end unpacks something else, or nothing, as soon as there is more than
    one packet. -/
theorem not_framingRoundTrip {pb : Protobuf} {msg : MessageT}
    (hlong : maxMsg < (pb.pack msg).length) (hfits : (pb.pack msg).length ≤ 65535) :
    ¬ FramingRoundTrip pb msg := by
  rw [FramingRoundTrip]
  by_cases hshort : (pb.pack msg).length < 2 ^ 15
  · have hreceive := messageReceiveAll_run pb (pb.pack msg) [] [] hshort
    rw [List.append_nil, if_neg (by omega)] at hreceive
    rw [sentOn_short hshort, hreceive]
    simp
  · rw [sentOn_long (by omega) (by omega), messageReceiveAll_nothing]
    simp

theorem framingRoundTrip_of_le {pb : Protobuf} {msg : MessageT}
    (hinverse : pb.unpack (pb.pack msg) = some msg) (hlength : (pb.pack msg).length ≤ maxMsg) :
    FramingRoundTrip pb msg := by
  have hshort : (pb.pack msg).length < 2 ^ 15 := lt_of_le_of_lt hlength (by decide)
  have hreceive := messageReceiveAll_run pb (pb.pack msg) [] [] hshort
  rw [List.append_nil, if_pos hlength, hinverse, lastPacket_of_le hlength] at hreceive
  rw [FramingRoundTrip, sentOn_short hshort, hreceive]
  rfl

/-- A message survives its frame exactly when it fits one packet. -/
theorem framingRoundTrip_iff {pb : Protobuf} {msg : MessageT}
    (hinverse : pb.unpack (pb.pack msg) = some msg) (hfits : (pb.pack msg).length ≤ 65535) :
    FramingRoundTrip pb msg ↔ (pb.pack msg).length ≤ maxMsg := by
  constructor
  · intro hround
    by_contra hlong
    exact not_framingRoundTrip (by omega) hfits hround
  · exact framingRoundTrip_of_le hinverse

/-- A library that packs one message as given. -/
def Protobuf.single (msg : MessageT) (packed : Bytes) : Protobuf where
  pack _ := packed
  unpack bytes := if bytes = packed then some msg else none

theorem Protobuf.single_inverse (msg : MessageT) (packed : Bytes) :
    (single msg packed).unpack ((single msg packed).pack msg) = some msg := if_pos rfl

theorem Protobuf.length_single (msg : MessageT) (packed : Bytes) :
    ((single msg packed).pack msg).length = packed.length := rfl

/-- A library that packs some messages as given, each with what it is unpacked as. -/
def Protobuf.ofList (messages : List (MessageT × Bytes × MessageT)) : Protobuf where
  pack msg := ((messages.find? fun m => m.1 = msg).map fun m => m.2.1).getD []
  unpack bytes := (messages.find? fun m => m.2.1 = bytes).map fun m => m.2.2

/-- A length as protobuf writes it: groups of seven bits, the lowest first, with the high bit
    in all but the last. -/
def varint (n : ℕ) : Bytes :=
  if n < 128 then [.ofNat n] else .ofNat (n % 128 + 128) :: varint (n / 128)

theorem length_varint_one {n : ℕ} (h : n < 128) : (varint n).length = 1 := by
  rw [varint, if_pos h, List.length_singleton]

theorem length_varint_two {n : ℕ} (h : 128 ≤ n) (h' : n < 128 ^ 2) : (varint n).length = 2 := by
  rw [varint, if_neg (not_lt.2 h), List.length_cons, length_varint_one (by omega)]

/-- The bytes of a request of `rtable_get`: its two enumerations, and its key behind a length. -/
def getRequestBytes (key : CString) : Bytes :=
  [0x08, 20, 0x10, 20, 0x22] ++ varint key.bytes.length ++ key.bytes

/-- A key of `n` letters. -/
def longKey (n : ℕ) : CString := ⟨List.replicate n 97, by simp [List.mem_replicate]⟩

theorem length_getRequestBytes (n : ℕ) :
    (getRequestBytes (longKey n)).length = 5 + (varint n).length + n := by
  have hkey : (longKey n).bytes.length = n := List.length_replicate
  rw [getRequestBytes, List.length_append, List.length_append, hkey]
  rfl

theorem length_getRequestBytes_two {n : ℕ} (h : 128 ≤ n) (h' : n < 128 ^ 2) :
    (getRequestBytes (longKey n)).length = n + 7 := by
  rw [length_getRequestBytes, length_varint_two h h']
  omega

/-- A request of two hundred letters arrives. -/
theorem framingRoundTrip_shortKey :
    FramingRoundTrip (.single (getRequest (longKey 200)) (getRequestBytes (longKey 200)))
      (getRequest (longKey 200)) := by
  have hlength : (getRequestBytes (longKey 200)).length = 207 :=
    length_getRequestBytes_two (by decide) (by decide)
  refine (framingRoundTrip_iff (Protobuf.single_inverse _ _) ?_).2 ?_
  · rw [Protobuf.length_single, hlength]
    decide
  · rw [Protobuf.length_single, hlength]
    decide

/-- A request of three thousand letters does not. -/
theorem framingRoundTrip_longKey :
    ∃ (pb : Protobuf) (msg : MessageT), pb.unpack (pb.pack msg) = some msg ∧
      (pb.pack msg).length ≤ 65535 ∧ ¬ FramingRoundTrip pb msg := by
  have hlength : (getRequestBytes (longKey 3000)).length = 3007 :=
    length_getRequestBytes_two (by decide) (by decide)
  refine ⟨.single (getRequest (longKey 3000)) (getRequestBytes (longKey 3000)),
    getRequest (longKey 3000), Protobuf.single_inverse _ _, ?_, not_framingRoundTrip ?_ ?_⟩
  · rw [Protobuf.length_single, hlength]
    decide
  · rw [Protobuf.length_single, hlength]
    decide
  · rw [Protobuf.length_single, hlength]
    decide

end ChainTable
