-- SUMMARY: Faults of a C program, blocks of data and entries: the modules data.c and entry.c.
import ChainTable.Base.CString

open Base

/-!
# Data blocks and entries

A pointer is an `Option`, with `none` for `NULL`. What the program would do with
undefined behaviour is a `Fault`; a function that can fault returns in `C`.
Allocation succeeds throughout, and releasing memory is left out where no later
step depends on it: a value here is its own copy.
-/

namespace ChainTable

/-- The undefined behaviour that the program can run into. -/
inductive Fault where
  | nullDeref
  | outOfBounds
  | invalidFree
  | useAfterFree
  deriving DecidableEq, Repr

/-- A C computation: it returns or it faults. -/
abbrev C (α : Type) := Except Fault α

@[simp] theorem C.ok_bind {α β : Type} (a : α) (f : α → C β) :
    ((.ok a : C α) >>= f) = f a := rfl

@[simp] theorem C.error_bind {α β : Type} (e : Fault) (f : α → C β) :
    ((.error e : C α) >>= f) = .error e := rfl

@[simp] theorem C.pure_eq {α : Type} (a : α) : (pure a : C α) = .ok a := rfl

theorem C.bind_eq_ok {α β : Type} {x : C α} {f : α → C β} {b : β} (h : (x >>= f) = .ok b) :
    ∃ a, x = .ok a ∧ f a = .ok b := by
  cases x with
  | ok a => exact ⟨a, rfl, h⟩
  | error e => cases h

/-- Following a pointer. -/
def deref {α : Type} : Option α → C α
  | some a => .ok a
  | none => .error .nullDeref

@[simp] theorem deref_some {α : Type} (a : α) : deref (some a) = .ok a := rfl

/-- A call of the library, which leaves undefined what happens outside a string or a buffer. -/
def defined {α : Type} : Option α → C α
  | some a => .ok a
  | none => .error .outOfBounds

@[simp] theorem defined_some {α : Type} (a : α) : defined (some a) = .ok a := rfl

theorem defined_eq_ok {α : Type} {result : Option α} {a : α} (h : defined result = .ok a) :
    result = some a := by
  cases result with
  | none => cases h
  | some a' =>
    injection h with h
    rw [h]

/-- Reading `arr[i]`. -/
def load {α : Type} (arr : List α) (i : ℕ) : C α :=
  match arr[i]? with
  | some a => .ok a
  | none => .error .outOfBounds

/-- Writing `arr[i] = a`. -/
def store {α : Type} (arr : List α) (i : ℕ) (a : α) : C (List α) :=
  if i < arr.length then .ok (arr.set i a) else .error .outOfBounds

theorem load_eq_ok {α : Type} {arr : List α} {i : ℕ} {a : α} (h : arr[i]? = some a) :
    load arr i = .ok a := by
  rw [load, h]

/-! ## Arrays of pointers

`calloc` gives an array of `NULL` pointers, which the program fills from the
front. `filled xs n` is such an array of `n` slots after storing `xs`. -/

def calloc (α : Type) (n : ℕ) : List (Option α) := List.replicate n none

def filled {α : Type} (xs : List α) (n : ℕ) : List (Option α) :=
  xs.map some ++ List.replicate (n - xs.length) none

@[simp] theorem filled_nil {α : Type} (n : ℕ) : filled ([] : List α) n = calloc α n := by
  simp [filled, calloc]

/-- An array with one slot more than its elements is `NULL`-terminated. -/
theorem filled_length_succ {α : Type} (xs : List α) :
    filled xs (xs.length + 1) = xs.map some ++ [none] := by
  simp [filled]

theorem store_filled {α : Type} {xs : List α} {n : ℕ} (h : xs.length < n) (a : α) :
    store (filled xs n) xs.length (some a) = .ok (filled (xs ++ [a]) n) := by
  obtain ⟨m, rfl⟩ : ∃ m, n = xs.length + (m + 1) := ⟨n - xs.length - 1, by omega⟩
  have hset : (filled xs (xs.length + (m + 1))).set xs.length (some a) =
      filled (xs ++ [a]) (xs.length + (m + 1)) := by
    have hsub : xs.length + (m + 1) - (xs.length + 1) = m := by omega
    simp [filled, List.replicate_succ, hsub]
  rw [store, if_pos (by simp [filled]), hset]

/-- The loop that fills an array of pointers from the first `n` elements of another
    array, from `i` on. -/
def copyLoop {α β : Type} (f : α → C β) (arr : List α) :
    ℕ → ℕ → List (Option β) → C (List (Option β))
  | 0, _, out => .ok out
  | n + 1, i, out => do
    let a ← load arr i
    let b ← f a
    let out ← store out i (some b)
    copyLoop f arr n (i + 1) out

theorem copyLoop_filled {α β : Type} {f : α → C β} {xs : List α} {ys : List β}
    (hf : List.Forall₂ (fun a b => f a = .ok b) xs ys) (front rest : List α) (done : List β)
    {n : ℕ} (hfront : front.length = done.length) (hn : done.length + ys.length ≤ n) :
    copyLoop f (front ++ xs ++ rest) xs.length done.length (filled done n) =
      .ok (filled (done ++ ys) n) := by
  induction hf generalizing front done with
  | nil => simp [copyLoop]
  | @cons a b xs ys hab _ ih =>
    rw [List.length_cons] at hn
    have hload : load (front ++ a :: xs ++ rest) done.length = .ok a :=
      load_eq_ok (by simp [← hfront])
    have hstore : store (filled done n) done.length (some b) = .ok (filled (done ++ [b]) n) :=
      store_filled (by omega) b
    have ih := ih (front ++ [a]) (done ++ [b])
      (by rw [List.length_append, List.length_append, hfront]; rfl)
      (by rw [List.length_append, List.length_singleton]; omega)
    rw [List.length_append, List.length_singleton, List.append_assoc front [a],
      List.append_assoc done [b], List.singleton_append, List.singleton_append] at ih
    rw [List.length_cons, copyLoop, hload, C.ok_bind, hab, C.ok_bind, hstore, C.ok_bind, ih]

/-- Copying a whole array gives a `NULL`-terminated one. -/
theorem copyLoop_calloc {α β : Type} {f : α → C β} {xs : List α} {ys : List β}
    (hf : List.Forall₂ (fun a b => f a = .ok b) xs ys) (rest : List α) :
    copyLoop f (xs ++ rest) xs.length 0 (calloc β (xs.length + 1)) =
      .ok (ys.map some ++ [none]) := by
  have hlength : xs.length = ys.length := hf.length_eq
  have h := copyLoop_filled hf [] rest [] (n := xs.length + 1) rfl (by simp [hlength])
  rw [List.nil_append, List.nil_append, filled_nil, List.length_nil] at h
  rw [h, hlength, filled_length_succ]

/-! ## data.c -/

/-- `struct data_t`. The block that `data` points to has at least `datasize`
    bytes. -/
@[ext] structure Data where
  datasize : Int
  data : Option Bytes
  fits : ∀ b ∈ data, datasize ≤ b.length
  deriving DecidableEq

namespace Data

/-- A fresh block of `n` bytes with the first `n` bytes of `b` copied into it. -/
def copied (n : Int) (b : Bytes) (h : n ≤ b.length) : Data where
  datasize := n
  data := some (b.take n.toNat)
  fits := by
    rintro _ ⟨rfl⟩
    rw [List.length_take]
    omega

theorem length_le_some (b : Bytes) : ∀ b' ∈ some b, (b.length : Int) ≤ b'.length := by simp

/-- The block that holds exactly the bytes `b`. -/
def ofBytes (b : Bytes) : Data := ⟨b.length, some b, length_le_some b⟩

/-- The bytes a usable block consists of: its size is positive and it is there. -/
def bytes (d : Data) : Option Bytes :=
  if 0 < d.datasize then d.data.map (·.take d.datasize.toNat) else none

theorem copied_eq_ofBytes {n : Int} {b : Bytes} (h : n ≤ b.length) (hpos : 0 ≤ n) :
    copied n b h = ofBytes (b.take n.toNat) := by
  ext1
  · simp only [copied, ofBytes, List.length_take]
    omega
  · rfl

@[simp] theorem bytes_ofBytes {b : Bytes} (h : b ≠ []) : (ofBytes b).bytes = some b := by
  have hpos : 0 < b.length := List.length_pos_iff.2 h
  simp [bytes, ofBytes, hpos]

theorem bytes_ne_nil {d : Data} {b : Bytes} (h : d.bytes = some b) : b ≠ [] := by
  obtain ⟨n, data, hfits⟩ := d
  simp only [bytes, Option.ite_none_right_eq_some, Option.map_eq_some_iff] at h
  obtain ⟨hpos, block, rfl, rfl⟩ := h
  have := hfits block rfl
  apply List.ne_nil_of_length_pos
  rw [List.length_take]
  omega

end Data

/-- `data_create`: the caller passes a block of at least `size` bytes. -/
def dataCreate (size : Int) (data : Option Bytes) (fits : ∀ b ∈ data, size ≤ b.length) :
    Option Data :=
  if size ≤ 0 ∨ data = none then none else some ⟨size, data, fits⟩

/-- `memcpy` of the `datasize` bytes of a block into a fresh one. -/
def dataCopy (d : Data) : C Data :=
  match h : d.data with
  | some b =>
    if d.datasize < 0 then .error .outOfBounds
    else .ok (.copied d.datasize b (d.fits b h))
  | none => if d.datasize = 0 then .ok (.copied 0 [] (by simp)) else .error .nullDeref

/-- `data_dup`. -/
def dataDup : Option Data → Option Data
  | none => none
  | some d =>
    match h : d.data with
    | none => none
    | some b => if d.datasize ≤ 0 then none else some (.copied d.datasize b (d.fits b h))

/-- A usable block is duplicated byte by byte, and nothing else is. -/
theorem dataDup_some (d : Data) : dataDup (some d) = d.bytes.map Data.ofBytes := by
  obtain ⟨n, data, hfits⟩ := d
  cases data with
  | none => simp [dataDup, Data.bytes]
  | some b =>
    by_cases hn : n ≤ 0
    · simp [dataDup, Data.bytes, hn, not_lt.2 hn]
    · simp [dataDup, Data.bytes, hn, not_le.1 hn, Data.copied_eq_ofBytes _ (not_le.1 hn).le]

@[simp] theorem dataDup_ofBytes {b : Bytes} (h : b ≠ []) :
    dataDup (some (.ofBytes b)) = some (.ofBytes b) := by
  rw [dataDup_some, Data.bytes_ofBytes h]
  rfl

@[simp] theorem dataCopy_ofBytes (b : Bytes) : dataCopy (.ofBytes b) = .ok (.ofBytes b) := by
  have hneg : ¬ (b.length : Int) < 0 := by omega
  simp [dataCopy, Data.ofBytes, hneg, Data.copied]

/-! ## entry.c -/

/-- `struct entry_t`. -/
@[ext] structure Entry where
  key : Option CString
  value : Option Data
  deriving DecidableEq

/-- The entry that binds `k` to the bytes `b`. -/
def Entry.ofPair (e : Σ _ : CString, Bytes) : Entry := ⟨some e.1, some (.ofBytes e.2)⟩

@[simp] theorem Entry.key_ofPair (e : Σ _ : CString, Bytes) : (ofPair e).key = some e.1 := rfl

@[simp] theorem Entry.value_ofPair (e : Σ _ : CString, Bytes) :
    (ofPair e).value = some (.ofBytes e.2) := rfl

def entryCreate (key : Option CString) (data : Option Data) : Option Entry :=
  if key = none ∨ data = none then none else some ⟨key, data⟩

def entryDestroy : Option Entry → Int
  | none => -1
  | some entry => if entry.key = none ∨ entry.value = none then -1 else 0

def entryEqual : Int := 0
def entryLesser : Int := -1
def entryGreater : Int := 1
def entryCmpError : Int := -2

def entryCompare : Option Entry → Option Entry → Int
  | some ⟨some key1, _⟩, some ⟨some key2, _⟩ =>
    let result := CString.strcmp key1 key2
    if result > 0 then entryGreater else if result < 0 then entryLesser else entryEqual
  | _, _ => entryCmpError

@[simp] theorem entryDestroy_ofPair (e : Σ _ : CString, Bytes) :
    entryDestroy (some (.ofPair e)) = 0 := by
  simp [entryDestroy]

/-- Entries with keys compare as their keys do. -/
theorem entryCompare_ofPair (e e' : Σ _ : CString, Bytes) :
    entryCompare (some (.ofPair e)) (some (.ofPair e')) =
      if e'.1 < e.1 then entryGreater else if e.1 < e'.1 then entryLesser else entryEqual := by
  simp only [entryCompare, Entry.ofPair, gt_iff_lt, CString.strcmp_pos_iff, CString.strcmp_neg_iff]

end ChainTable
