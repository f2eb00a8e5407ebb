-- SUMMARY: The address of a server: interpret_addr of address.c, what rtable_connect makes of the same string, and the port that network_server_init binds.
import ChainTable.Base.Number
import ChainTable.Base.Tokens
import ChainTable.Wire.Framing

open Base

/-!
# Addresses

A server is given its address as a string `ip:port`. It binds the port, and publishes the
string in ZooKeeper, where its peers find it and take it apart on their own.
-/

namespace ChainTable

/-! ## Taking an address apart -/

/-- `server_address` -/
structure ServerAddress where
  addrStr : Option CString
  ip : Option CString
  port : Int32

/-- `strndup(s, colon - s)`, where the difference has been put into an `int`. -/
def copyHost (s : CString) (colon : ℕ) : CString := s.strndup (Int32.ofNat colon).toInt64.toUInt64

/-- `interpret_addr` -/
def interpretAddr (addrStr : Option CString) (addr : ServerAddress) : C (Int × ServerAddress) :=
  match addrStr with
  | none => return (-1, addr)
  | some s => do
    let colon ← deref (s.strchr 58)
    let addr := { addr with ip := some (copyHost s colon) }
    let text ← defined (s.suffix (colon + 1))
    let (n, stop) := text.strtol
    let port := n.toInt32
    let endptr ← defined (text.suffix stop)
    if CString.strcmp endptr .empty ≠ 0 then return (-1, addr)
    else return (0, { addr with port := port, addrStr := some s })

/-- The fields of a connection that say where it leads. -/
structure RtableAddress where
  serverAddress : CString
  serverPort : Int32

/-- `rtable_connect`, up to the call of `network_connect`. -/
def rtableAddress (addressPort : Option CString) : C (Option RtableAddress) :=
  match addressPort with
  | none => return none
  | some s => do
    let colon ← deref (s.strchr 58)
    let hostname := copyHost s colon
    let text ← defined (s.suffix (colon + 1))
    return some ⟨hostname, text.atoi⟩

/-! ## Ports -/

/-- What the calls of `network_server_init` return. -/
structure InitOutcome where
  socket : Int
  setsockopt : Int
  bind : Int
  listen : Int

/-- `network_server_init`, with the port that it asks `bind` for, in network order. -/
def networkServerInit (port : Int16) (outcome : InitOutcome) : Int × Option UInt16 :=
  if outcome.socket < 0 then (-1, none)
  else if outcome.setsockopt = -1 then (-1, none)
  else
    let sinPort := htons port.toUInt16
    if outcome.bind < 0 then (-1, some sinPort)
    else if outcome.listen < 0 then (-1, some sinPort)
    else (outcome.socket, some sinPort)

/-- The port that `network_connect` dials, in network order. -/
def RtableAddress.sinPort (rtable : RtableAddress) : UInt16 :=
  htons rtable.serverPort.toUInt32.toUInt16

/-! ## Good addresses -/

/-- A decimal number that is the number of a port. -/
structure IsPort (text : Bytes) : Prop where
  nonempty : text ≠ []
  isDigit : ∀ b ∈ text, CString.IsDigit b
  pos : 1 ≤ CString.decimal text
  le : CString.decimal text ≤ 65535

/-- A text without colon, a colon, and a port. -/
def IsAddress (s : CString) : Prop :=
  ∃ host port, s.bytes = host ++ 58 :: port ∧ 58 ∉ host ∧ IsPort port

/-- Only addresses are accepted, nothing is read outside of the string, and the peers of the
    server look for it where it is. -/
structure Published (s : CString) : Prop where
  accepted : IsAddress s → ∀ addr, ∃ addr', interpretAddr (some s) addr = .ok (0, addr')
  refused : ¬ IsAddress s → ∀ addr, ∃ addr', interpretAddr (some s) addr = .ok (-1, addr')
  found : ∀ addr addr', interpretAddr (some s) addr = .ok (0, addr') →
    ∃ rtable, rtableAddress (some s) = .ok (some rtable) ∧ addr'.ip = some rtable.serverAddress ∧
      addr'.port = rtable.serverPort ∧
      ∀ outcome sinPort, (networkServerInit addr'.port.toInt16 outcome).2 = some sinPort →
        ((ntohs sinPort).toNat : Int) = rtable.serverPort.toInt

/-! ## What both make of a string -/

section Split

variable {s text : CString} {host : Bytes} (hs : s.bytes = host ++ 58 :: text.bytes)
    (hhost : 58 ∉ host)

include hs hhost

theorem interpretAddr_split (addr : ServerAddress) :
    interpretAddr (some s) addr =
      .ok (if text.strtol.2 = text.bytes.length then
        (0, ⟨some s, some (copyHost s host.length), text.strtol.1.toInt32⟩)
      else (-1, { addr with ip := some (copyHost s host.length) })) := by
  let endptr : CString :=
    ⟨text.bytes.drop text.strtol.2, fun hmem => text.nulFree (List.mem_of_mem_drop hmem)⟩
  have hendptr : text.suffix text.strtol.2 = some endptr := if_pos text.strtol_le_length
  have hend : CString.strcmp endptr .empty ≠ 0 ↔ text.strtol.2 ≠ text.bytes.length := by
    have hle := text.strtol_le_length
    rw [ne_eq, CString.strcmp_eq_zero_iff, CString.ext_iff, CString.bytes_empty,
      List.drop_eq_nil_iff]
    omega
  simp only [interpretAddr, CString.strchr_eq_some hs hhost, CString.suffix_eq_some hs text rfl,
    hendptr, deref_some, defined_some, C.ok_bind, C.pure_eq, hend]
  rw [ite_not]
  split <;> rfl

theorem rtableAddress_split :
    rtableAddress (some s) = .ok (some ⟨copyHost s host.length, text.atoi⟩) := by
  simp only [rtableAddress, CString.strchr_eq_some hs hhost, CString.suffix_eq_some hs text rfl,
    deref_some, defined_some, C.ok_bind, C.pure_eq]

/-- An accepted string is copied, and taken apart as the peers do it. -/
theorem interpretAddr_accepts {addr addr' : ServerAddress}
    (h : interpretAddr (some s) addr = .ok (0, addr')) :
    text.strtol.2 = text.bytes.length ∧
      addr' = ⟨some s, some (copyHost s host.length), text.atoi⟩ := by
  rw [interpretAddr_split hs hhost] at h
  injection h with h
  split at h
  next hend => exact ⟨hend, (congrArg Prod.snd h).symm⟩
  next => cases congrArg Prod.fst h

/-- The port stands behind the first colon. -/
theorem isAddress_iff : IsAddress s ↔ IsPort text.bytes := by
  constructor
  · rintro ⟨host', port, hs', hhost', hport⟩
    have hlength : host'.length = host.length := by
      have hstrchr := CString.strchr_eq_some hs' hhost'
      rw [CString.strchr_eq_some hs hhost] at hstrchr
      exact (Option.some.inj hstrchr).symm
    have heq := List.append_inj (hs'.symm.trans hs) hlength
    rw [← (List.cons.inj heq.2).2]
    exact hport
  · intro hport
    exact ⟨host, text.bytes, hs, hhost, hport⟩

end Split

/-! ## Ports and widths -/

namespace IsPort

variable {text : CString} (h : IsPort text.bytes)

include h

theorem strtol_eq : text.strtol = (.ofNat (CString.decimal text.bytes), text.bytes.length) := by
  have hclamp : max (-2 ^ 63) (min (CString.decimal text.bytes : Int) (2 ^ 63 - 1)) =
      CString.decimal text.bytes := by
    have hle := h.le
    omega
  rw [CString.strtol_numeral (.ofDigits text.bytes h.isDigit h.nonempty) rfl,
    CString.Numeral.ofDigits, if_neg (by simp), hclamp, Int64.ofInt_eq_ofNat]

/-- The number passes through an `int` and a `short` as it is. -/
theorem atoi_eq : text.atoi = .ofNat (CString.decimal text.bytes) := by
  rw [CString.atoi, h.strtol_eq, Int64.toInt32_ofNat']

theorem toNat_toUInt16 :
    ((text.atoi.toInt16.toUInt16).toNat : Int) = text.atoi.toInt := by
  have hle := h.le
  rw [h.atoi_eq, Int32.toInt16_ofNat', Int16.toUInt16_ofNat',
    UInt16.toNat_ofNat_of_lt' (Nat.lt_succ_of_le hle), Int32.toInt_ofNat_of_lt (by omega)]

end IsPort

/-- What `bind` is asked for. -/
theorem networkServerInit_sinPort {port : Int16} {outcome : InitOutcome} {sinPort : UInt16}
    (h : (networkServerInit port outcome).2 = some sinPort) : sinPort = htons port.toUInt16 := by
  rw [networkServerInit] at h
  split at h
  · cases h
  · split at h
    · cases h
    · -- whatever becomes of the socket, it is the one port
      have hasked : some (htons port.toUInt16) = some sinPort := by
        rw [← h]
        split
        · rfl
        · split <;> rfl
      exact (Option.some.inj hasked).symm

/-- A string without colon makes the server follow `NULL`. -/
theorem interpretAddr_noColon {s : CString} (h : 58 ∉ s.bytes) (addr : ServerAddress) :
    interpretAddr (some s) addr = .error .nullDeref := by
  rw [interpretAddr, CString.strchr_eq_none h]
  rfl

theorem exists_split {s : CString} (h : 58 ∈ s.bytes) :
    ∃ (host : Bytes) (text : CString), s.bytes = host ++ 58 :: text.bytes ∧ 58 ∉ host := by
  obtain ⟨host, rest, hs, hhost⟩ := List.eq_append_cons_of_mem h
  have hfree : (0 : UInt8) ∉ rest := by
    intro hmem
    apply s.nulFree
    simp [hs, hmem]
  exact ⟨host, ⟨rest, hfree⟩, hs, hhost⟩

/-- Of an accepted string the server asks for the port that its peers dial, whatever stands
    behind the colon. -/
theorem bound_eq_dialled {s : CString} {addr addr' : ServerAddress}
    (haddr : interpretAddr (some s) addr = .ok (0, addr')) {outcome : InitOutcome}
      {sinPort : UInt16}
    (hbound : (networkServerInit addr'.port.toInt16 outcome).2 = some sinPort) :
    ∃ rtable, rtableAddress (some s) = .ok (some rtable) ∧ addr'.ip = some rtable.serverAddress ∧
      addr'.port = rtable.serverPort ∧ sinPort = rtable.sinPort := by
  by_cases hcolon : 58 ∈ s.bytes
  · obtain ⟨host, text, hs, hhost⟩ := exists_split hcolon
    obtain ⟨-, rfl⟩ := interpretAddr_accepts hs hhost haddr
    refine ⟨_, rtableAddress_split hs hhost, rfl, rfl, ?_⟩
    rw [networkServerInit_sinPort hbound, RtableAddress.sinPort]
    congr 1
    rw [← UInt16.toBitVec_inj]
    exact BitVec.signExtend_eq_setWidth_of_le _ (by decide)
  · rw [interpretAddr_noColon hcolon] at haddr
    cases haddr

/-! ## Which strings are published -/

section Split

variable {s text : CString} {host : Bytes} (hs : s.bytes = host ++ 58 :: text.bytes)
    (hhost : 58 ∉ host)

include hs hhost

theorem Published.of_isPort (hport : IsPort text.bytes) : Published s where
  accepted _ addr :=
    ⟨_, by rw [interpretAddr_split hs hhost, if_pos (congrArg Prod.snd hport.strtol_eq)]⟩
  refused hnot := absurd ((isAddress_iff hs hhost).2 hport) hnot
  found addr addr' haddr := by
    obtain ⟨-, rfl⟩ := interpretAddr_accepts hs hhost haddr
    refine ⟨_, rtableAddress_split hs hhost, rfl, rfl, fun outcome sinPort hbound => ?_⟩
    rw [networkServerInit_sinPort hbound, ntohs_htons]
    exact hport.toNat_toUInt16

theorem Published.of_unread (hnot : ¬ IsPort text.bytes)
    (hend : text.strtol.2 ≠ text.bytes.length) :
    Published s where
  accepted haddress := absurd ((isAddress_iff hs hhost).1 haddress) hnot
  refused _ addr := ⟨_, by rw [interpretAddr_split hs hhost, if_neg hend]⟩
  found _ _ haddr := absurd (interpretAddr_accepts hs hhost haddr).1 hend

theorem Published.isPort_of_end (h : Published s) (hend : text.strtol.2 = text.bytes.length) :
    IsPort text.bytes := by
  by_contra hnot
  obtain ⟨addr', haddr'⟩ := h.refused (fun haddress => hnot ((isAddress_iff hs hhost).1 haddress))
    ⟨none, none, 0⟩
  rw [interpretAddr_split hs hhost, if_pos hend] at haddr'
  injection haddr' with haddr'
  cases congrArg Prod.fst haddr'

end Split

/-- What stands behind the first colon is a port, or something that `strtol` does not read to
    its end. -/
theorem published_iff (s : CString) :
    Published s ↔ ∃ host rest, s.bytes = host ++ 58 :: rest ∧ 58 ∉ host ∧
      (IsPort rest ∨ rest ≠ [] ∧ ¬ ∃ n : CString.Numeral, n.bytes = rest) := by
  constructor
  · intro hpublished
    by_cases hcolon : 58 ∈ s.bytes
    · obtain ⟨host, text, hs, hhost⟩ := exists_split hcolon
      refine ⟨host, text.bytes, hs, hhost, ?_⟩
      by_cases hend : text.strtol.2 = text.bytes.length
      · exact .inl (hpublished.isPort_of_end hs hhost hend)
      · rw [text.strtol_end_iff, not_or] at hend
        exact .inr hend
    · have hnot : ¬ IsAddress s := by
        rintro ⟨host, port, hs, -⟩
        exact hcolon (by simp [hs])
      obtain ⟨addr', haddr'⟩ := hpublished.refused hnot ⟨none, none, 0⟩
      rw [interpretAddr_noColon hcolon] at haddr'
      cases haddr'
  · rintro ⟨host, rest, hs, hhost, hrest⟩
    have hfree : (0 : UInt8) ∉ rest := fun hmem => s.nulFree (by simp [hs, hmem])
    let text : CString := ⟨rest, hfree⟩
    change s.bytes = host ++ 58 :: text.bytes at hs
    rcases hrest with hport | ⟨hne, hnumeral⟩
    · exact .of_isPort hs hhost hport
    · have hend : text.strtol.2 ≠ text.bytes.length := by
        rw [ne_eq, CString.strtol_end_iff, not_or]
        exact ⟨hne, hnumeral⟩
      refine .of_unread hs hhost (fun hport => hnumeral ?_) hend
      exact ⟨.ofDigits rest hport.isDigit hport.nonempty, rfl⟩

/-- `1:70000` is accepted, with a port that does not fit into 16 bits. -/
theorem not_published_large : ¬ Published ⟨chars "1:70000", by decide⟩ := by
  intro hpublished
  have hport : IsPort (chars "70000") := by
    apply @Published.isPort_of_end
      ⟨chars "1:70000", by decide⟩ ⟨chars "70000", by decide⟩ (chars "1")
    · decide
    · decide
    · exact hpublished
    · decide +kernel
  exact absurd hport.le (by decide)

end ChainTable
