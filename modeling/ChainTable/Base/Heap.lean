-- SUMMARY: Programs that allocate, read, write and release typed blocks of memory, and loops that take some number of rounds.
import Mathlib

/-!
# Heaps

A heap gives a block for each address in use. What a program stores at an address is of one
of several types, and reading it as something else is a fault, as is the use of an address
that is not in use. The addresses of new blocks come from an allocator, which may choose any
that are free. The number of rounds that loops may take is a parameter of a run.
-/

namespace Base

/-- Blocks of memory by their addresses. -/
abbrev Heap (V : Type) := Finmap fun _ : ℕ => V

/-- What is stored as a `T`. -/
class Layout (V T : Type) where
  block : T → V
  view : V → Option T
  view_block : ∀ t, view (block t) = some t

/-- The use of memory that is not there, and a loop that does not end in time. -/
inductive MemFault where
  | access
  | timeout
  deriving DecidableEq

/-- The address of the `k`-th new block. The null pointer is 0. -/
structure Allocator (V : Type) where
  pick : ℕ → Heap V → ℕ
  pick_ne_zero : ∀ k h, pick k h ≠ 0
  pick_notMem : ∀ k h, pick k h ∉ h

theorem afterAll_notMem {V : Type} (h : Heap V) : h.keys.sup id + 1 ∉ h := by
  intro hmem
  have hle : h.keys.sup id + 1 ≤ h.keys.sup id := Finset.le_sup (f := id) (Finmap.mem_keys.2 hmem)
  omega

/-- The first address after all that are in use. -/
def Allocator.afterAll (V : Type) : Allocator V where
  pick _ h := h.keys.sup id + 1
  pick_ne_zero _ _ := Nat.succ_ne_zero _
  pick_notMem _ h := afterAll_notMem h

/-- The heap, and how many blocks have been allocated so far. -/
@[ext] structure MemState (V : Type) where
  heap : Heap V
  allocations : ℕ

/-- How a program runs: the addresses that it gets, and the rounds that its loops may take. -/
structure MemContext (V : Type) where
  allocator : Allocator V
  fuel : ℕ

/-- A program that works on memory. -/
def Mem (V α : Type) := ReaderT (MemContext V) (StateT (MemState V) (Except MemFault)) α

namespace Mem

variable {V T α β σ : Type}

instance instMonad : Monad (Mem V) :=
  inferInstanceAs (Monad (ReaderT (MemContext V) (StateT (MemState V) (Except MemFault))))

instance instLawfulMonad : LawfulMonad (Mem V) :=
  inferInstanceAs (LawfulMonad (ReaderT (MemContext V) (StateT (MemState V) (Except MemFault))))

/-- A run of a program. -/
def run (p : Mem V α) (context : MemContext V) (m : MemState V) :
    Except MemFault (α × MemState V) :=
  p context m

theorem run_bind {p : Mem V α} (f : α → Mem V β) {context : MemContext V} {m m' : MemState V}
    {a : α} (h : p.run context m = .ok (a, m')) :
    (p >>= f).run context m = (f a).run context m' := by
  change (p context >>= fun a => f a context) m = _
  rw [run] at h
  change (p context m >>= fun r => f r.1 context r.2) = _
  rw [h]
  rfl

/-- A fault of the program. -/
def fault : Mem V α := fun _ _ => .error .access

section Blocks

variable [Layout V T]

/-- What is stored at an address. -/
def stored (T : Type) [Layout V T] (p : ℕ) (h : Heap V) : Option T :=
  if p = 0 then none else (h.lookup p).bind Layout.view

def malloc (t : T) : Mem V ℕ := fun context m =>
  let p := context.allocator.pick m.allocations m.heap
  .ok (p, ⟨m.heap.insert p (Layout.block t), m.allocations + 1⟩)

def peek (p : ℕ) : Mem V T := fun _ m =>
  match stored T p m.heap with
  | some t => .ok (t, m)
  | none => .error .access

def poke (p : ℕ) (t : T) : Mem V Unit := fun _ m =>
  match stored T p m.heap with
  | some _ => .ok ((), ⟨m.heap.insert p (Layout.block t), m.allocations⟩)
  | none => .error .access

/-- Writing to a field. -/
def update (p : ℕ) (f : T → T) : Mem V Unit := do
  let t ← peek p
  poke p (f t)

end Blocks

/-- Releasing the null pointer does nothing. -/
def free (p : ℕ) : Mem V Unit := fun _ m =>
  if p = 0 then .ok ((), m)
  else if p ∈ m.heap then .ok ((), ⟨m.heap.erase p, m.allocations⟩)
  else .error .access

/-- Reading an array. -/
def index (xs : List α) (i : ℕ) : Mem V α :=
  match xs[i]? with
  | some x => pure x
  | none => fault

/-- Writing to an array. -/
def setIndex (xs : List α) (i : ℕ) (x : α) : Mem V (List α) :=
  if i < xs.length then pure (xs.set i x) else fault

/-! ## Loops -/

/-- What a round of a loop ends with. -/
inductive Round (σ α : Type) where
  | next (s : σ)
  | done (a : α)

/-- At most `fuel` rounds. What is called in a round has one round less. -/
def rounds (body : σ → Mem V (Round σ α)) (allocator : Allocator V) :
    ℕ → σ → MemState V → Except MemFault (α × MemState V)
  | 0, _, _ => .error .timeout
  | fuel + 1, s, m =>
    match (body s).run ⟨allocator, fuel⟩ m with
    | .ok (.next s, m) => rounds body allocator fuel s m
    | .ok (.done a, m) => .ok (a, m)
    | .error e => .error e

def loop (body : σ → Mem V (Round σ α)) (s : σ) : Mem V α := fun context m =>
  rounds body context.allocator context.fuel s m

/-- What follows a round. -/
def continueWith (body : σ → Mem V (Round σ α)) : Round σ α → Mem V α
  | .next s => loop body s
  | .done a => pure a

/-- A loop is a round and what follows it. -/
theorem run_loop (body : σ → Mem V (Round σ α)) (s : σ) (allocator : Allocator V) (fuel : ℕ)
    (m : MemState V) :
    (loop body s).run ⟨allocator, fuel + 1⟩ m =
      (body s >>= continueWith body).run ⟨allocator, fuel⟩ m := by
  change rounds body allocator (fuel + 1) s m =
    ((body s).run ⟨allocator, fuel⟩ m >>= fun r =>
      (continueWith body r.1).run ⟨allocator, fuel⟩ r.2)
  rw [rounds]
  cases (body s).run ⟨allocator, fuel⟩ m with
  | error e => rfl
  | ok r =>
    obtain ⟨_ | _, m'⟩ := r
    · rfl
    · rfl

end Mem

end Base
