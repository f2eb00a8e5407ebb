-- SUMMARY: keyArray_to_buffer and buffer_to_keyArray of serialization.c, and that the second reads back what the first has written.
import ChainTable.Wire.Framing

open Base

/-!
# Serialized keys

A buffer holds the number of keys in network order and then the keys, each one with its
terminator. Both functions are programs over their accesses to memory, so that a run can
record which bytes it has written and which it has read.
-/

namespace ChainTable

/-! ## Accesses to memory -/

/-- The calls that the two functions make. Offsets count from the start of the block that
    `keys_buf` points into; `strcpy` copies from there into a new block of some size. -/
inductive MemoryCall where
  | malloc (size : Int)
  | mallocArray (length : Int)
  | store (offset : ℕ) (bytes : Bytes)
  | load (offset count : ℕ)
  | strlen (offset : ℕ)
  | strcpy (offset : ℕ) (size : Int)
  | fault (f : Fault)

/-- The signature of accesses to memory. -/
abbrev Memory : Sig where
  Op := MemoryCall
  Res
    | .malloc _ => Unit
    | .mallocArray _ => List (Option CString)
    | .store _ _ => Unit
    | .load _ _ => Bytes
    | .strlen _ => ℕ
    | .strcpy _ _ => CString
    | .fault _ => Empty

namespace Memory

def malloc (size : Int) : Prog Memory Unit := .perform (S := Memory) (.malloc size)

def mallocArray (length : Int) : Prog Memory (List (Option CString)) :=
  .perform (S := Memory) (.mallocArray length)

def store (offset : ℕ) (bytes : Bytes) : Prog Memory Unit :=
  .perform (S := Memory) (.store offset bytes)

def load (offset count : ℕ) : Prog Memory Bytes := .perform (S := Memory) (.load offset count)

def strlen (offset : ℕ) : Prog Memory ℕ := .perform (S := Memory) (.strlen offset)

def strcpy (offset : ℕ) (size : Int) : Prog Memory CString :=
  .perform (S := Memory) (.strcpy offset size)

/-- An access to an array of keys. -/
def array {α : Type} : C α → Prog Memory α
  | .ok a => .ret a
  | .error f => .call (S := Memory) (.fault f) Empty.elim

@[simp] theorem array_ok {α : Type} (a : α) : array (.ok a) = .ret a := rfl

end Memory

/-! ## Counts -/

/-- `htonl` and `ntohl` on a little-endian machine. -/
def htonl (x : UInt32) : UInt32 :=
  .ofNat (x.toNat % 256 * 16777216 + x.toNat / 256 % 256 * 65536 +
    x.toNat / 65536 % 256 * 256 + x.toNat / 16777216)

def ntohl (x : UInt32) : UInt32 := htonl x

/-- The four bytes of an `int` in memory. -/
def intBytes (x : UInt32) : Bytes :=
  [.ofNat (x.toNat % 256), .ofNat (x.toNat / 256 % 256), .ofNat (x.toNat / 65536 % 256),
    .ofNat (x.toNat / 16777216)]

/-- The `int` that four bytes in memory make. -/
def ofIntBytes : Bytes → UInt32
  | [a, b, c, d] => .ofNat (a.toNat + 256 * b.toNat + 65536 * c.toNat + 16777216 * d.toNat)
  | _ => 0

theorem ofIntBytes_intBytes (x : UInt32) : ofIntBytes (intBytes x) = x := by
  have hlt := x.toNat_lt
  apply UInt32.toNat_inj.1
  simp only [intBytes, ofIntBytes, UInt8.toNat_ofNat', UInt32.toNat_ofNat']
  omega

/-- The order of the bytes is reversed. -/
theorem toNat_htonl {x : UInt32} {a b c d : ℕ} (ha : a < 256) (hb : b < 256) (hc : c < 256)
    (hd : d < 256) (h : x.toNat = a + 256 * b + 65536 * c + 16777216 * d) :
    (htonl x).toNat = d + 256 * c + 65536 * b + 16777216 * a := by
  have ha' : x.toNat % 256 = a := by omega
  have hb' : x.toNat / 256 % 256 = b := by omega
  have hc' : x.toNat / 65536 % 256 = c := by omega
  have hd' : x.toNat / 16777216 = d := by omega
  rw [htonl, UInt32.toNat_ofNat', ha', hb', hc', hd']
  omega

theorem ntohl_htonl (x : UInt32) : ntohl (htonl x) = x := by
  have hlt := x.toNat_lt
  have hx : x.toNat = x.toNat % 256 + 256 * (x.toNat / 256 % 256) +
      65536 * (x.toNat / 65536 % 256) + 16777216 * (x.toNat / 16777216) := by omega
  have ha : x.toNat % 256 < 256 := by omega
  have hb : x.toNat / 256 % 256 < 256 := by omega
  have hc : x.toNat / 65536 % 256 < 256 := by omega
  have hd : x.toNat / 16777216 < 256 := by omega
  apply UInt32.toNat_inj.1
  rw [ntohl, toNat_htonl hd hc hb ha (toNat_htonl ha hb hc hd hx), ← hx]

/-! ## keyArray_to_buffer -/

/-- The first loop: how many keys there are, and how large their buffer has to be. -/
def measureKeys : List (Option CString) → ℕ → Int32 → C (ℕ × Int32)
  | [], _, _ => .error .outOfBounds
  | none :: _, nkeys, sizeToAlloc => .ok (nkeys, sizeToAlloc)
  | some key :: rest, nkeys, sizeToAlloc =>
    measureKeys rest (nkeys + 1) (sizeToAlloc + .ofNat (key.bytes.length + 1))

/-- The second loop: `strcpy` of each key to where the previous one has ended. -/
def copyKeysLoop (keys : List (Option CString)) : ℕ → ℕ → ℕ → Prog Memory Unit
  | 0, _, _ => return ()
  | n + 1, i, bufferWritePtr => do
    let key ← Memory.array (load keys i)
    let key ← Memory.array (deref key)
    Memory.store bufferWritePtr (key.bytes ++ [0])
    copyKeysLoop keys n (i + 1) (bufferWritePtr + (key.bytes.length + 1))

/-- `keyArray_to_buffer`, which leaves in `keys_buf` the start of the block. -/
def keyArrayToBuffer (keys : Option (List (Option CString))) : Prog Memory Int :=
  match keys with
  | none => return -1
  | some keys => do
    let (nkeys, sizeToAlloc) ← Memory.array (measureKeys keys 0 4)
    Memory.malloc sizeToAlloc.toInt
    copyKeysLoop keys nkeys 0 4
    Memory.store 0 (intBytes (htonl (.ofNat nkeys)))
    return sizeToAlloc.toInt

/-! ## buffer_to_keyArray -/

/-- The loop over the keys of a buffer. -/
def readKeysLoop : ℕ → ℕ → ℕ → List (Option CString) → Prog Memory (List (Option CString))
  | 0, _, _, keysArray => return keysArray
  | n + 1, i, readBufferPtr, keysArray => do
    let length ← Memory.strlen readBufferPtr
    let keySize : Int32 := .ofNat (length + 1)
    let key ← Memory.strcpy readBufferPtr keySize.toInt
    let keysArray ← Memory.array (store keysArray i (some key))
    readKeysLoop n (i + 1) (readBufferPtr + keySize.toInt.toNat) keysArray

/-- `buffer_to_keyArray` -/
def bufferToKeyArray (keysBuf : Option ℕ) : Prog Memory (Option (List (Option CString))) :=
  match keysBuf with
  | none => return none
  | some keysBuf => do
    let count ← Memory.load keysBuf 4
    let nkeys := (ntohl (ofIntBytes count)).toInt32
    let keysArray ← Memory.mallocArray (nkeys + 1).toInt
    let keysArray ← Memory.array
      (if nkeys < 0 then .error .outOfBounds else store keysArray nkeys.toInt.toNat none)
    let keysArray ← readKeysLoop nkeys.toInt.toNat 0 (keysBuf + 4) keysArray
    return some keysArray

/-! ## A block of memory -/

/-- A block, with the offsets at which it was written and at which it was read. -/
structure Heap where
  block : Bytes
  written : List ℕ
  read : List ℕ

def Heap.reads (m : Heap) (offset count : ℕ) : Heap :=
  { m with read := m.read ++ List.range' offset count }

/-- What `malloc` finds in memory. -/
structure Garbage where
  bytes : ℕ → UInt8
  pointers : ℕ → Option CString

/-- The string up to the first terminator. -/
def stringAt : Bytes → C CString
  | [] => .error .outOfBounds
  | b :: bs =>
    if h : b = 0 then .ok .empty
    else do
      let s ← stringAt bs
      return CString.append ⟨[b], by simpa using Ne.symm h⟩ s

/-- The accesses to a block. A negative size is one that no allocation can satisfy, and the
    pointer is followed in any case. -/
def heap (garbage : Garbage) : Prog.Handler Memory Heap Fault
  | .malloc size, m =>
    if 0 ≤ size then .ok ((), { m with block := (List.range size.toNat).map garbage.bytes })
    else .error .nullDeref
  | .mallocArray length, m =>
    if 0 ≤ length then .ok ((List.range length.toNat).map garbage.pointers, m)
    else .error .nullDeref
  | .store offset bytes, m => do
    let buf ← (Buf.mk m.block offset).fill bytes
    return ((), ⟨buf.block, m.written ++ List.range' offset bytes.length, m.read⟩)
  | .load offset count, m => do
    let bytes ← (Buf.mk m.block offset).slice count
    return (bytes, m.reads offset count)
  | .strlen offset, m => do
    let s ← stringAt (m.block.drop offset)
    return (s.bytes.length, m.reads offset (s.bytes.length + 1))
  | .strcpy offset size, m => do
    let s ← stringAt (m.block.drop offset)
    if (s.bytes.length + 1 : Int) ≤ size then return (s, m.reads offset (s.bytes.length + 1))
    else .error .outOfBounds
  | .fault f, _ => .error f

/-! ## What is written -/

/-- The bytes of the keys in a buffer. -/
def keysBytes (keys : List CString) : Bytes := keys.flatMap fun key => key.bytes ++ [0]

/-- How many bytes the keys take up. -/
def keysSize (keys : List CString) : ℕ := (keys.map fun key => key.bytes.length + 1).sum

/-- A buffer with these keys. -/
def keysBuffer (keys : List CString) : Bytes :=
  intBytes (htonl (.ofNat keys.length)) ++ keysBytes keys

@[simp] theorem keysBytes_cons (key : CString) (keys : List CString) :
    keysBytes (key :: keys) = key.bytes ++ [0] ++ keysBytes keys := rfl

@[simp] theorem keysSize_cons (key : CString) (keys : List CString) :
    keysSize (key :: keys) = key.bytes.length + 1 + keysSize keys := rfl

theorem length_keysBytes (keys : List CString) : (keysBytes keys).length = keysSize keys := by
  induction keys with
  | nil => rfl
  | cons key keys ih =>
    rw [keysBytes_cons, keysSize_cons, List.length_append, ih, List.length_append,
      List.length_singleton]

theorem length_keysBuffer (keys : List CString) : (keysBuffer keys).length = 4 + keysSize keys := by
  rw [keysBuffer, List.length_append, length_keysBytes]
  rfl

theorem length_le_keysSize (keys : List CString) : keys.length ≤ keysSize keys := by
  induction keys with
  | nil => exact le_rfl
  | cons key keys ih =>
    rw [List.length_cons, keysSize_cons]
    omega

theorem measureKeys_eq (keys : List CString) (more : List (Option CString)) (nkeys size : ℕ) :
    measureKeys (keys.map some ++ none :: more) nkeys (.ofNat size) =
      .ok (nkeys + keys.length, .ofNat (size + keysSize keys)) := by
  induction keys generalizing nkeys size with
  | nil => rfl
  | cons key keys ih =>
    rw [List.map_cons, List.cons_append, measureKeys, ← Int32.ofNat_add, ih, keysSize_cons,
      List.length_cons, Nat.add_assoc size, Nat.add_assoc nkeys, Nat.add_comm 1]

section Writing

variable (garbage : Garbage) (written read : List ℕ)

/-- A store replaces as many bytes as it is given. -/
theorem run_store {α : Type} (k : Unit → Prog Memory α) (front : Bytes) {old bytes : Bytes}
    (hold : old.length = bytes.length) (rest : Bytes) :
    (Memory.store front.length bytes >>= k).run (heap garbage)
      ⟨front ++ (old ++ rest), written, read⟩ =
      (k ()).run (heap garbage)
        ⟨front ++ (bytes ++ rest), written ++ List.range' front.length bytes.length, read⟩ := by
  have hfill : (Buf.mk (front ++ (old ++ rest)) front.length).fill bytes =
      .ok ⟨front ++ (bytes ++ rest), front.length⟩ := by
    rw [Buf.fill_eq (by simp [hold])]
    simp [← hold]
  have hstore : heap garbage (.store front.length bytes) ⟨front ++ (old ++ rest), written, read⟩ =
      .ok ((), ⟨front ++ (bytes ++ rest), written ++ List.range' front.length bytes.length, read⟩) := by
    simp only [heap, hfill, C.ok_bind, C.pure_eq]
  exact Prog.run_call_ok hstore

/-- The keys fill what is left of the block. -/
theorem copyKeysLoop_run (done keys : List CString) (more : List (Option CString)) (front : Bytes)
    {old : Bytes} (hold : old.length = keysSize keys) :
    (copyKeysLoop ((done ++ keys).map some ++ none :: more) keys.length done.length
      front.length).run
        (heap garbage) ⟨front ++ old, written, read⟩ =
      .ok ((), ⟨front ++ keysBytes keys, written ++ List.range' front.length (keysSize keys), read⟩) := by
  induction keys generalizing done front old written with
  | nil =>
    obtain rfl := List.eq_nil_of_length_eq_zero hold
    simp [copyKeysLoop, keysBytes, keysSize]
  | cons key keys ih =>
    rw [keysSize_cons] at hold
    have hload : load ((done ++ key :: keys).map some ++ none :: more) done.length =
      .ok (some key) :=
      load_eq_ok (by simp)
    have hlength : (key.bytes ++ [0]).length = key.bytes.length + 1 := List.length_append
    obtain ⟨cells, rest, rfl, hcells⟩ : ∃ cells rest, old = cells ++ rest ∧
        cells.length = (key.bytes ++ [0]).length := by
      refine ⟨old.take (key.bytes.length + 1), old.drop (key.bytes.length + 1),
        (List.take_append_drop _ _).symm, ?_⟩
      rw [List.length_take, hlength]
      omega
    -- the store takes the first cells, and the loop goes on with the others
    have hrest : rest.length = keysSize keys := by
      rw [List.length_append, hcells, hlength] at hold
      omega
    have hdone : done ++ key :: keys = done ++ [key] ++ keys := by simp
    have ih := ih (written ++ List.range' front.length (key.bytes.length + 1)) (done ++ [key])
      (front ++ (key.bytes ++ [0])) hrest
    rw [List.length_append, List.length_append, hlength, List.length_singleton] at ih
    rw [List.length_cons, copyKeysLoop, hload, Memory.array_ok, Prog.ret_bind, deref_some,
      Memory.array_ok, Prog.ret_bind, run_store garbage written read _ front hcells, hdone, hlength,
      ← List.append_assoc front]
    refine ih.trans ?_
    rw [keysBytes_cons, keysSize_cons, List.append_assoc front, List.append_assoc written,
      List.range'_append_1]

/-- The run of `keyArray_to_buffer`: all bytes of its block are written, the count last. -/
theorem keyArrayToBuffer_run (garbage : Garbage) (keys : List CString)
    (more : List (Option CString))
    (hsize : 4 + keysSize keys < 2 ^ 31) :
    (keyArrayToBuffer (some (keys.map some ++ none :: more))).run (heap garbage) ⟨[], [], []⟩ =
      .ok (((4 + keysSize keys : ℕ) : Int),
        ⟨keysBuffer keys, List.range' 4 (keysSize keys) ++ List.range' 0 4, []⟩) := by
  have hmeasure : measureKeys (keys.map some ++ none :: more) 0 4 =
      .ok (keys.length, .ofNat (4 + keysSize keys)) := by
    have hfour := measureKeys_eq keys more 0 4
    rwa [Nat.zero_add] at hfour
  have hint : (Int32.ofNat (4 + keysSize keys)).toInt = ((4 + keysSize keys : ℕ) : Int) :=
    Int32.toInt_ofNat_of_lt hsize
  -- the fresh block has room for the count and for the keys
  obtain ⟨count, old, hblock, hcount, hold⟩ : ∃ count old : Bytes,
      (List.range (4 + keysSize keys)).map garbage.bytes = count ++ old ∧ count.length = 4 ∧
        old.length = keysSize keys := by
    refine ⟨_, _, (List.take_append_drop 4 _).symm, ?_, ?_⟩
    · simp
    · simp
  have hmalloc : heap garbage (.malloc ((4 + keysSize keys : ℕ) : Int)) ⟨[], [], []⟩ =
      .ok ((), ⟨count ++ old, [], []⟩) := by
    rw [heap, if_pos (by omega), Int.toNat_natCast, hblock]
  have hcopy := copyKeysLoop_run garbage [] [] [] keys more count hold
  rw [hcount] at hcopy
  have hfront : count.length = (intBytes (htonl (.ofNat keys.length))).length := hcount
  have hstore := run_store garbage (List.range' 4 (keysSize keys)) []
    (fun _ => Prog.ret ((4 + keysSize keys : ℕ) : Int)) [] hfront (keysBytes keys)
  rw [keyArrayToBuffer, hmeasure, Memory.array_ok, Prog.ret_bind]
  simp only [hint]
  refine (Prog.run_call_ok hmalloc).trans ((Prog.run_bind_ok hcopy).trans ?_)
  exact hstore

end Writing

/-! ## What is read -/

theorem stringAt_append (key : CString) (rest : Bytes) :
    stringAt (key.bytes ++ 0 :: rest) = .ok key := by
  obtain ⟨bytes, hbytes⟩ := key
  induction bytes with
  | nil => rfl
  | cons b bs ih =>
    obtain ⟨hb, hbs⟩ := not_or.1 (List.mem_cons.not.1 hbytes)
    rw [List.cons_append, stringAt, dif_neg (Ne.symm hb), ih hbs]
    rfl

theorem store_middle {α : Type} (front : List α) (a b : α) (back : List α) :
    store (front ++ a :: back) front.length b = .ok (front ++ b :: back) := by
  rw [store, if_pos (by simp)]
  simp

section Reading

variable (garbage : Garbage) (written read : List ℕ)

theorem run_strlen {α : Type} (k : ℕ → Prog Memory α) (front : Bytes) (key : CString)
    (rest : Bytes) :
    (Memory.strlen front.length >>= k).run (heap garbage)
        ⟨front ++ (key.bytes ++ 0 :: rest), written, read⟩ =
      (k key.bytes.length).run (heap garbage) ⟨front ++ (key.bytes ++ 0 :: rest), written,
        read ++ List.range' front.length (key.bytes.length + 1)⟩ := by
  have hstrlen : heap garbage (.strlen front.length)
      ⟨front ++ (key.bytes ++ 0 :: rest), written, read⟩ =
        .ok (key.bytes.length, Heap.reads ⟨front ++ (key.bytes ++ 0 :: rest), written, read⟩
          front.length (key.bytes.length + 1)) := by
    simp only [heap, List.drop_left, stringAt_append, C.ok_bind, C.pure_eq]
  exact Prog.run_call_ok hstrlen

theorem run_strcpy {α : Type} (k : CString → Prog Memory α) (front : Bytes) (key : CString)
    (rest : Bytes) :
    (Memory.strcpy front.length ((key.bytes.length + 1 : ℕ) : Int) >>= k).run (heap garbage)
        ⟨front ++ (key.bytes ++ 0 :: rest), written, read⟩ =
      (k key).run (heap garbage) ⟨front ++ (key.bytes ++ 0 :: rest), written,
        read ++ List.range' front.length (key.bytes.length + 1)⟩ := by
  have hstrcpy : heap garbage (.strcpy front.length ((key.bytes.length + 1 : ℕ) : Int))
      ⟨front ++ (key.bytes ++ 0 :: rest), written, read⟩ =
        .ok (key, Heap.reads ⟨front ++ (key.bytes ++ 0 :: rest), written, read⟩
          front.length (key.bytes.length + 1)) := by
    simp only [heap, List.drop_left, stringAt_append, C.ok_bind, C.pure_eq]
    exact if_pos (by omega)
  exact Prog.run_call_ok hstrcpy

/-- The loop reads the keys, and nothing behind them. -/
theorem readKeysLoop_run (done keys : List CString) {slots : List (Option CString)}
    (hslots : slots.length = keys.length) (front rest : Bytes) (hsize : keysSize keys < 2 ^ 31) :
    ∃ reads, (∀ i ∈ reads, i < front.length + keysSize keys) ∧
      (readKeysLoop keys.length done.length front.length (done.map some ++ slots ++ [none])).run
          (heap garbage) ⟨front ++ (keysBytes keys ++ rest), written, read⟩ =
        .ok ((done ++ keys).map some ++ [none],
          ⟨front ++ (keysBytes keys ++ rest), written, read ++ reads⟩) := by
  induction keys generalizing done slots front read with
  | nil =>
    obtain rfl := List.eq_nil_of_length_eq_zero hslots
    exact ⟨[], nofun, by simp [readKeysLoop]⟩
  | cons key keys ih =>
    rw [keysSize_cons] at hsize
    obtain ⟨slot, slots, rfl⟩ : ∃ slot slots', slots = slot :: slots' := by
      cases slots with
      | nil => simp at hslots
      | cons slot slots => exact ⟨slot, slots, rfl⟩
    have hint : (Int32.ofNat (key.bytes.length + 1)).toInt = ((key.bytes.length + 1 : ℕ) : Int) :=
      Int32.toInt_ofNat_of_lt (by omega)
    have hstore := store_middle (done.map some) slot (some key) (slots ++ [none])
    rw [List.length_map] at hstore
    have harray : done.map some ++ slot :: slots ++ [none] =
      done.map some ++ slot :: (slots ++ [none]) := by
      simp
    have hblock : front ++ (keysBytes (key :: keys) ++ rest) =
        front ++ (key.bytes ++ 0 :: (keysBytes keys ++ rest)) := by simp
    -- the key is read twice, by strlen and by strcpy
    obtain ⟨reads, hreads, hrun⟩ := ih (read ++ List.range' front.length (key.bytes.length + 1) ++
      List.range' front.length (key.bytes.length + 1)) (done ++ [key]) (Nat.succ.inj hslots)
      (front ++ (key.bytes ++ [0])) (by omega)
    have hlength : (front ++ (key.bytes ++ [0])).length =
      front.length + (key.bytes.length + 1) := by
      simp
    rw [hlength] at hreads hrun
    refine ⟨List.range' front.length (key.bytes.length + 1) ++
      List.range' front.length (key.bytes.length + 1) ++ reads, ?_, ?_⟩
    · intro i hi
      rw [keysSize_cons]
      rcases List.mem_append.1 hi with hi | hi
      · have hrange : i ∈ List.range' front.length (key.bytes.length + 1) := by simpa using hi
        have hlast := (List.mem_range'_1.1 hrange).2
        omega
      · have hlast := hreads i hi
        omega
    · have hdone : (done ++ key :: keys).map some = (done ++ [key] ++ keys).map some := by simp
      rw [List.length_cons, readKeysLoop, harray, hblock, run_strlen]
      simp only [hint]
      rw [run_strcpy, hstore, Memory.array_ok, Prog.ret_bind, Int.toNat_natCast, hdone]
      simpa using hrun

theorem run_load {α : Type} (k : Bytes → Prog Memory α) (bytes rest : Bytes) :
    (Memory.load 0 bytes.length >>= k).run (heap garbage) ⟨bytes ++ rest, written, read⟩ =
      (k bytes).run (heap garbage)
        ⟨bytes ++ rest, written, read ++ List.range' 0 bytes.length⟩ := by
  have hslice : (Buf.mk (bytes ++ rest) 0).slice bytes.length = .ok bytes := by
    rw [Buf.slice_eq (by simp), List.drop_zero, List.take_left]
  have hload : heap garbage (.load 0 bytes.length) ⟨bytes ++ rest, written, read⟩ =
      .ok (bytes, Heap.reads ⟨bytes ++ rest, written, read⟩ 0 bytes.length) := by
    simp only [heap, hslice, C.ok_bind, C.pure_eq]
  exact Prog.run_call_ok hload

/-- A new array has something in all of its slots. -/
theorem run_mallocArray {α : Type} (k : List (Option CString) → Prog Memory α) (n : ℕ) (m : Heap) :
    (Memory.mallocArray ((n + 1 : ℕ) : Int) >>= k).run (heap garbage) m =
      (k ((List.range n).map garbage.pointers ++ [garbage.pointers n])).run (heap garbage) m := by
  have hmalloc : heap garbage (.mallocArray ((n + 1 : ℕ) : Int)) m =
      .ok ((List.range n).map garbage.pointers ++ [garbage.pointers n], m) := by
    rw [heap, if_pos (by omega), Int.toNat_natCast, List.range_succ, List.map_append]
    rfl
  exact Prog.run_call_ok hmalloc

/-- The run of `buffer_to_keyArray` on a buffer with anything behind it. -/
theorem bufferToKeyArray_run (keys : List CString) (hsize : 4 + keysSize keys < 2 ^ 31)
    (rest : Bytes) :
    ∃ reads, (∀ i ∈ reads, i < 4 + keysSize keys) ∧
      (bufferToKeyArray (some 0)).run (heap garbage) ⟨keysBuffer keys ++ rest, written, read⟩ =
        .ok (some (keys.map some ++ [none]),
          ⟨keysBuffer keys ++ rest, written, read ++ List.range' 0 4 ++ reads⟩) := by
  have hkeys := length_le_keysSize keys
  have hcount : (ntohl (ofIntBytes (intBytes (htonl (.ofNat keys.length))))).toInt32 =
      .ofNat keys.length := by
    rw [ofIntBytes_intBytes, ntohl_htonl]
    rfl
  have hnkeys : (Int32.ofNat keys.length).toInt = (keys.length : Int) :=
    Int32.toInt_ofNat_of_lt (by omega)
  have hslots : (Int32.ofNat keys.length + 1).toInt = ((keys.length + 1 : ℕ) : Int) := by
    rw [← Int32.toInt_ofNat_of_lt (by omega : keys.length + 1 < 2 ^ 31), Int32.ofNat_add]
    rfl
  -- the count is small enough to come back from its four bytes as it was
  have hpos : ¬ Int32.ofNat keys.length < 0 := by
    rw [Int32.lt_iff_toInt_lt, hnkeys, Int32.toInt_zero]
    omega
  have hstore : store
    ((List.range keys.length).map garbage.pointers ++ [garbage.pointers keys.length])
      keys.length none = .ok ((List.range keys.length).map garbage.pointers ++ [none]) := by
    have hmiddle := store_middle ((List.range keys.length).map garbage.pointers)
      (garbage.pointers keys.length) none []
    rwa [List.length_map, List.length_range] at hmiddle
  obtain ⟨reads, hreads, hloop⟩ := readKeysLoop_run garbage written (read ++ List.range' 0 4) []
    keys (by simp : ((List.range keys.length).map garbage.pointers).length = keys.length)
    (intBytes (htonl (.ofNat keys.length))) rest (by omega)
  refine ⟨reads, hreads, ?_⟩
  rw [keysBuffer, List.append_assoc, bufferToKeyArray]
  refine (run_load garbage written read _ (intBytes (htonl (.ofNat keys.length))) _).trans ?_
  simp only [hcount, hslots, if_neg hpos, hnkeys, Int.toNat_natCast]
  rw [run_mallocArray, hstore, Memory.array_ok, Prog.ret_bind]
  exact Prog.run_bind_ok hloop

end Reading

/-! ## The round trip -/

/-- A buffer has the size that is returned and is written byte by byte. Whatever follows it in
    memory, the keys are read back from these bytes alone. -/
theorem keyArray_roundTrip (garbage : Garbage) (keys : List CString) (more : List (Option CString))
    (hsize : 4 + keysSize keys < 2 ^ 31) :
    ∃ m, (keyArrayToBuffer (some (keys.map some ++ none :: more))).run (heap garbage) ⟨[], [], []⟩ =
        .ok (((4 + keysSize keys : ℕ) : Int), m) ∧
      m.block.length = 4 + keysSize keys ∧ m.written.Perm (List.range (4 + keysSize keys)) ∧
      ∀ (garbage' : Garbage) (rest : Bytes), ∃ m',
        (bufferToKeyArray (some 0)).run (heap garbage') ⟨m.block ++ rest, [], []⟩ =
          .ok (some (keys.map some ++ [none]), m') ∧
        ∀ i ∈ m'.read, i ∈ m.written := by
  have hperm : (List.range' 4 (keysSize keys) ++ List.range' 0 4).Perm
      (List.range (4 + keysSize keys)) := by
    refine List.perm_append_comm.trans (.of_eq ?_)
    rw [List.range_eq_range', ← List.range'_append_1, Nat.zero_add]
  refine ⟨_, keyArrayToBuffer_run garbage keys more hsize, length_keysBuffer keys, hperm, ?_⟩
  intro garbage' rest
  obtain ⟨reads, hreads, hrun⟩ := bufferToKeyArray_run garbage' [] [] keys hsize rest
  refine ⟨_, hrun, fun i hi => hperm.mem_iff.2 (List.mem_range.2 ?_)⟩
  rcases List.mem_append.1 hi with hi | hi
  · have hlast := (List.mem_range'_1.1 hi).2
    omega
  · exact hreads i hi

/-- Two keys, one of them empty, are seven bytes. -/
theorem keyArray_roundTrip_two :
    ∃ m, (keyArrayToBuffer (some [some .empty, some (.padded 1 7), none])).run
        (heap ⟨fun _ => 1, fun _ => none⟩) ⟨[], [], []⟩ = .ok (7, m) ∧
      ∀ rest : Bytes, ∃ m', (bufferToKeyArray (some 0)).run
        (heap ⟨fun _ => 1, fun _ => none⟩) ⟨m.block ++ rest, [], []⟩ =
          .ok (some [some .empty, some (.padded 1 7), none], m') := by
  obtain ⟨m, hwrite, -, -, hread⟩ :=
    keyArray_roundTrip ⟨fun _ => 1, fun _ => none⟩ [.empty, .padded 1 7] [] (by decide)
  refine ⟨m, hwrite, fun rest => ?_⟩
  obtain ⟨m', hrun, -⟩ := hread ⟨fun _ => 1, fun _ => none⟩ rest
  exact ⟨m', hrun⟩

end ChainTable
