-- SUMMARY: message_send_all over a connection that takes as much of each write as it likes: what is written, and what is returned.
import ChainTable.Wire.Framing

open Base

/-!
# Sending on any connection

A `write` may fail, and it may take less than it is given. The sender gives up at the first
write that does not take everything. What it does before it releases its buffers is
separated from the release here, which goes wrong when there is more than one packet.
-/

namespace ChainTable

/-! ## Up to the release -/

/-- `sendPackets` up to the release, with the buffer that is to be released. -/
def writePackets (contentBuf : Buf) (contentSize totalWriteLen : Int) :
    Prog Socket (Int × Option Buf) :=
  if (maxMsg : Int) < contentSize then do
    let packet ← Socket.memory (contentBuf.slice maxMsg)
    let writeLen ← Socket.write packet
    if writeLen = -1 ∨ writeLen > maxMsg then return (-1, none)
    else if writeLen < maxMsg then return (0, none)
    else
      writePackets (contentBuf.advance maxMsg) (contentSize - maxMsg) (totalWriteLen + writeLen)
  else do
    let packet ← Socket.memory (contentBuf.slice contentSize.toNat)
    let writeLen ← Socket.write packet
    if writeLen = -1 ∨ writeLen > contentSize then return (-1, none)
    else if writeLen < contentSize then return (0, none)
    else return (totalWriteLen + writeLen, some contentBuf)
termination_by contentSize.toNat

/-- `message_send_all` up to the release. -/
def writeMessage (pb : Protobuf) (msg : MessageT) : Prog Socket (Int × Option Buf) := do
  let contentSize : Int16 := .ofNat (pb.pack msg).length
  let contentSizeNs := htons contentSize.toUInt16
  let contentBuf ← Socket.memory (deref (Buf.calloc contentSize.toInt))
  let contentBuf ← Socket.memory (contentBuf.fill (pb.pack msg))
  let writeLen ← Socket.write (shortBytes contentSizeNs)
  if writeLen = -1 ∨ writeLen > 2 then return (-1, none)
  else if writeLen < 2 then return (0, none)
  else writePackets contentBuf contentSize.toInt writeLen

/-- The release, and the return. -/
def releaseBuffers : Int × Option Buf → Prog Socket Int
  | (ret, none) => return ret
  | (ret, some contentBuf) => do
    Socket.memory contentBuf.free
    return ret

/-- What a write returns decides in the same way before the release and with it. -/
private theorem afterWrite_release {full : Int} {p : Int → Prog Socket (Int × Option Buf)}
    {q : Int → Prog Socket Int}
    (hq : ∀ r, ¬ (r = -1 ∨ r > full) → ¬ r < full → q r = p r >>= releaseBuffers) (r : Int) :
    (if r = -1 ∨ r > full then .ret (-1) else if r < full then .ret 0 else q r) =
      (if r = -1 ∨ r > full then .ret (-1, none) else if r < full then .ret (0, none) else p r) >>=
        releaseBuffers := by
  split
  next => rfl
  next hfailed =>
    split
    next => rfl
    next hshort => exact hq r hfailed hshort

theorem sendPackets_eq (contentBuf : Buf) (contentSize totalWriteLen : Int) :
    sendPackets contentBuf contentSize totalWriteLen =
      writePackets contentBuf contentSize totalWriteLen >>= releaseBuffers := by
  fun_induction writePackets contentBuf contentSize totalWriteLen with
  | case1 buf size total hpacket ih =>
    rw [sendPackets, if_pos hpacket, Prog.bind_assoc]
    congr 1
    funext packet
    rw [Prog.bind_assoc]
    congr 1
    funext writeLen
    exact afterWrite_release ih writeLen
  | case2 buf size total hpacket =>
    rw [sendPackets, if_neg hpacket, Prog.bind_assoc]
    congr 1
    funext packet
    rw [Prog.bind_assoc]
    congr 1
    funext writeLen
    exact afterWrite_release (p := fun r => .ret (total + r, some buf)) (fun _ _ _ => rfl) writeLen

/-- The whole function is its writes, and the release of what they leave. -/
theorem messageSendAll_eq (pb : Protobuf) (msg : MessageT) :
    messageSendAll pb msg = writeMessage pb msg >>= releaseBuffers := by
  rw [messageSendAll, writeMessage]
  simp only [Prog.bind_assoc]
  congr 1
  funext buf
  congr 1
  funext buf
  congr 1
  funext writeLen
  exact afterWrite_release (fun r _ _ => sendPackets_eq _ _ r) writeLen

/-! ## What the writes return -/

/-- The writes that were made: what each was given, and what it returned. -/
abbrev Writes := List (Bytes × Int)

namespace Writes

/-- The bytes that the connection has taken. -/
def accepted (w : Writes) : Bytes := w.flatMap fun call => call.1.take call.2.toNat

/-- Every write took all that it was given. -/
def Full (w : Writes) : Prop := ∀ call ∈ w, call.2 = call.1.length

@[simp] theorem accepted_concat (w : Writes) (bytes : Bytes) (r : Int) :
    accepted (w ++ [(bytes, r)]) = w.accepted ++ bytes.take r.toNat := by
  simp [accepted]

theorem Full.concat {w : Writes} (h : w.Full) (bytes : Bytes) :
    Full (w ++ [(bytes, (bytes.length : Int))]) := by
  intro call hcall
  rcases List.mem_append.1 hcall with hcall | hcall
  · exact h call hcall
  · obtain rfl := List.mem_singleton.1 hcall
    rfl

end Writes

/-- What each write returns, which may depend on the writes before it. -/
structure Outcomes where
  result : Writes → Bytes → Int
  range : ∀ w bytes, result w bytes = -1 ∨ 0 ≤ result w bytes ∧ result w bytes ≤ bytes.length

/-- A connection with these outcomes. -/
def Outcomes.connection (o : Outcomes) : Prog.Handler Socket Writes (Fault × Writes)
  | .write bytes, w => .ok (o.result w bytes, w ++ [(bytes, o.result w bytes)])
  | .read _ _, w => .ok (⟨-1, [], false⟩, w)
  | .unpack _, w => .ok (none, w)
  | .fault f, w => .error (f, w)

/-- How a message is sent: completely, with the number of its bytes, or up to the first write
    that does not take everything. -/
structure SendOutcome (packed : Bytes) (ret : Int) (w : Writes) : Prop where
  complete_iff : 0 < ret ↔ w.accepted = frame packed
  complete : 0 < ret → ret = packed.length + 2 ∧
    w.accepted = .ofNat (packed.length / 256) :: .ofNat (packed.length % 256) :: packed
  failed : ¬ 0 < ret → (ret = 0 ∨ ret = -1) ∧ w.accepted <+: frame packed ∧
    w.accepted ≠ frame packed
  stops : ∃ (front : Writes) (last : Bytes × Int), w = front ++ [last] ∧ front.Full ∧
    (0 < ret ↔ last.2 = last.1.length)

/-- Nothing but writes, and none after one that did not take everything. -/
def sendProtocol : Prog.Protocol Socket Writes where
  allowed w
    | .write _ => w.Full
    | _ => False
  expected _
    | .write bytes => fun r => r = -1 ∨ 0 ≤ r ∧ r ≤ bytes.length
    | _ => fun _ => True
  next w
    | .write bytes => fun r => w ++ [(bytes, r)]
    | _ => fun _ => w

section Outcome

variable {packed bytes rest : Bytes} {w : Writes} {ret : Int}

/-- A write that is cut short ends the sending. -/
theorem SendOutcome.of_short {r : Int} (hw : w.Full)
    (hframe : w.accepted ++ (bytes ++ rest) = frame packed) (hr : r.toNat < bytes.length)
    (hret : ret = 0 ∨ ret = -1) : SendOutcome packed ret (w ++ [(bytes, r)]) := by
  have hlength : (Writes.accepted (w ++ [(bytes, r)])).length < (frame packed).length := by
    rw [Writes.accepted_concat, ← hframe]
    simp only [List.length_append, List.length_take]
    omega
  have hne : Writes.accepted (w ++ [(bytes, r)]) ≠ frame packed := fun h =>
    hlength.ne (congrArg _ h)
  have hprefix : Writes.accepted (w ++ [(bytes, r)]) <+: frame packed := by
    rw [Writes.accepted_concat, ← hframe]
    exact (List.prefix_append_right_inj _).2 ((List.take_prefix _ _).trans (List.prefix_append _ _))
  have hnot : ¬ 0 < ret := by omega
  exact {
    complete_iff := iff_of_false hnot hne
    complete := fun hpos => absurd hpos hnot
    failed := fun _ => ⟨hret, hprefix, hne⟩
    stops := ⟨w, (bytes, r), rfl, hw, iff_of_false hnot (by dsimp only; omega)⟩ }

/-- The size is in network order. -/
theorem frame_bigEndian (h : packed.length < 2 ^ 16) :
    frame packed = .ofNat (packed.length / 256) :: .ofNat (packed.length % 256) :: packed := by
  have hhigh : (packed.length % 256 * 256 + packed.length / 256) % 256 =
    packed.length / 256 := by omega
  have hlow : (packed.length % 256 * 256 + packed.length / 256) / 256 =
    packed.length % 256 := by omega
  have hswap : (packed.length % 256 * 256 + packed.length / 256) % 2 ^ 16 =
      packed.length % 256 * 256 + packed.length / 256 := Nat.mod_eq_of_lt (by omega)
  simp only [frame, shortBytes, htons, UInt16.toNat_ofNat', Nat.mod_eq_of_lt h, hswap, hhigh, hlow]
  rfl

/-- The last write is complete, too. -/
theorem SendOutcome.of_full (hsize : packed.length < 2 ^ 16) (hw : w.Full)
    (hframe : w.accepted ++ bytes = frame packed) (hret : ret = packed.length + 2) :
    SendOutcome packed ret (w ++ [(bytes, (bytes.length : Int))]) := by
  have haccepted : Writes.accepted (w ++ [(bytes, (bytes.length : Int))]) = frame packed := by
    rw [Writes.accepted_concat, Int.toNat_natCast, List.take_length, hframe]
  have hpos : 0 < ret := by omega
  exact {
    complete_iff := iff_of_true hpos haccepted
    complete := fun _ => ⟨hret, haccepted.trans (frame_bigEndian hsize)⟩
    failed := fun hnot => absurd hpos hnot
    stops := ⟨w, _, rfl, hw, iff_of_true hpos rfl⟩ }

/-- One write, and what the sender makes of its result. -/
theorem follows_write {full : Int} (hfull : full = bytes.length) (hne : bytes ≠ []) (hw : w.Full)
    (hframe : w.accepted ++ (bytes ++ rest) = frame packed)
      {p : Int → Prog Socket (Int × Option Buf)}
    (hp : (p full).Follows sendProtocol (fun w result => SendOutcome packed result.1 w)
      (w ++ [(bytes, full)])) :
    (Socket.write bytes >>= fun r =>
        if r = -1 ∨ r > full then .ret (-1, none) else if r < full then .ret (0, none)
        else p r).Follows
      sendProtocol (fun w result => SendOutcome packed result.1 w) w := by
  have hpos : 0 < bytes.length := List.length_pos_iff.2 hne
  refine ⟨hw, fun (r : Int) (hr : r = -1 ∨ 0 ≤ r ∧ r ≤ bytes.length) => ?_⟩
  change Prog.Follows _ _ (w ++ [(bytes, r)]) (if r = -1 ∨ r > full then _ else _)
  split
  next hfailed => exact .of_short hw hframe (by omega) (.inr rfl)
  next hfailed =>
    split
    next hshort => exact .of_short hw hframe (by omega) (.inl rfl)
    next hshort =>
      obtain rfl : r = full := by omega
      exact hp

end Outcome

/-- The packets, when everything in front of them has been taken. -/
theorem writePackets_follows {packed : Bytes} (hsize : packed.length < 2 ^ 15) (size offset : ℕ)
    (hoffset : offset + size = packed.length) (hpos : 0 < size) {w : Writes} (hw : w.Full)
    (haccepted : w.accepted ++ packed.drop offset = frame packed) :
    (writePackets ⟨packed, offset⟩ size (2 + offset)).Follows sendProtocol
      (fun w result => SendOutcome packed result.1 w) w := by
  induction size using Nat.strong_induction_on generalizing offset w with
  | _ size ih =>
  rw [writePackets]
  by_cases hpacket : maxMsg < size
  · obtain ⟨packet, hslice, hlength, hrest⟩ :=
      @Buf.slice_packet ⟨packed, offset⟩ size hoffset hpacket
    have hmax : 0 < maxMsg := by decide
    have hne : packet ≠ [] := List.ne_nil_of_length_pos (by omega)
    have hsub : (size : Int) - maxMsg = ((size - maxMsg : ℕ) : Int) := by omega
    have htotal : 2 + (offset : Int) + maxMsg = 2 + ((offset + maxMsg : ℕ) : Int) := by omega
    have hw' : Writes.Full (w ++ [(packet, (maxMsg : Int))]) := hlength ▸ hw.concat packet
    have haccepted' : Writes.accepted (w ++ [(packet, (maxMsg : Int))]) ++
      packed.drop (offset + maxMsg) =
        frame packed := by
      rw [Writes.accepted_concat, Int.toNat_natCast, List.take_of_length_le hlength.le,
        List.append_assoc,
        hrest, haccepted]
    rw [if_pos (by exact_mod_cast hpacket), hslice, Socket.memory_ok, Prog.ret_bind]
    apply follows_write (by rw [hlength]) hne hw (hrest ▸ haccepted)
    rw [hsub, htotal]
    exact ih (size - maxMsg) (by omega) (offset + maxMsg) (by omega) (by omega) hw' haccepted'
  · have hlength : (packed.drop offset).length = size :=
      @Buf.length_rest ⟨packed, offset⟩ size hoffset
    have hframe : w.accepted ++ (packed.drop offset ++ []) = frame packed := by
      rw [List.append_nil, haccepted]
    rw [if_neg (by exact_mod_cast hpacket), Int.toNat_natCast, Buf.slice_last hoffset,
      Socket.memory_ok, Prog.ret_bind]
    apply follows_write (by rw [hlength]) (List.ne_nil_of_length_pos (by omega)) hw hframe
    rw [← hlength]
    exact SendOutcome.of_full (by omega) hw haccepted (by omega)

/-- All of `message_send_all`, from the size on. -/
theorem writeMessage_follows {pb : Protobuf} {msg : MessageT} (hpos : 1 ≤ (pb.pack msg).length)
    (hsize : (pb.pack msg).length ≤ 32767) :
    (writeMessage pb msg).Follows sendProtocol
      (fun w result => SendOutcome (pb.pack msg) result.1 w) [] := by
  have hint : (Int16.ofNat (pb.pack msg).length).toInt = ((pb.pack msg).length : Int) :=
    Int16.toInt_ofNat_of_lt (by omega)
  have hcalloc : Buf.calloc ((pb.pack msg).length : Int) =
      some ⟨List.replicate (pb.pack msg).length 0, 0⟩ := if_pos (by omega)
  have hfill : (Buf.mk (List.replicate (pb.pack msg).length 0) 0).fill (pb.pack msg) =
      .ok ⟨pb.pack msg, 0⟩ := Buf.fill_rest (by simp)
  rw [writeMessage]
  simp only [hint, hcalloc, deref_some, Socket.memory_ok, Prog.ret_bind, hfill]
  have hframe : Writes.accepted [] ++
      (shortBytes (htons (Int16.ofNat (pb.pack msg).length).toUInt16) ++ pb.pack msg) =
        frame (pb.pack msg) := rfl
  have hnone : Writes.Full [] := fun _ hmem => absurd hmem List.not_mem_nil
  apply follows_write rfl (List.cons_ne_nil _ _) hnone hframe
  exact writePackets_follows (by omega) (pb.pack msg).length 0 (by omega) (by omega)
    (hnone.concat _) hframe

/-- Whatever the writes return, sending ends, and its result says how. -/
theorem writeMessage_outcome {pb : Protobuf} {msg : MessageT} (hpos : 1 ≤ (pb.pack msg).length)
    (hsize : (pb.pack msg).length ≤ 32767) (o : Outcomes) :
    ∃ ret released w, (writeMessage pb msg).run o.connection [] = .ok ((ret, released), w) ∧
      SendOutcome (pb.pack msg) ret w := by
  have hserves : ∀ w op w', w' = w → sendProtocol.allowed w op →
      ∃ r w'', o.connection op w' = .ok (r, w'') ∧ sendProtocol.expected w op r ∧
        w'' = sendProtocol.next w op r := by
    rintro w op _ rfl hallowed
    cases op with
    | write bytes => exact ⟨_, _, rfl, o.range _ bytes, rfl⟩
    | read | unpack | fault => exact hallowed.elim
  obtain ⟨⟨ret, released⟩, w, _, hrun, houtcome, rfl⟩ :=
    (writeMessage_follows hpos hsize).run_ok (R := fun q w => w = q) hserves rfl
  exact ⟨ret, released, _, hrun, houtcome⟩

/-- A connection that takes at most `n` bytes of each write. -/
def Outcomes.atMost (n : ℕ) : Outcomes where
  result _ bytes := (min n bytes.length : ℕ)
  range _ bytes := .inr ⟨by omega, by omega⟩

/-- The first packet of a long request is cut. -/
theorem writeMessage_outcome_cut :
    ∃ ret released w,
      (writeMessage (.single (getRequest (longKey 3000)) (getRequestBytes (longKey 3000)))
          (getRequest (longKey 3000))).run (Outcomes.atMost 2047).connection [] =
        .ok ((ret, released), w) ∧
      SendOutcome (getRequestBytes (longKey 3000)) ret w := by
  apply writeMessage_outcome
  · rw [Protobuf.length_single, length_getRequestBytes_two (by decide) (by decide)]
    omega
  · rw [Protobuf.length_single, length_getRequestBytes_two (by decide) (by decide)]
    omega

end ChainTable
