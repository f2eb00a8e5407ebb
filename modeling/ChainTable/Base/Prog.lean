-- SUMMARY: Programs as interaction trees over a signature of calls: sequential runs, atomic blocks, and protocols that programs follow.
import Mathlib

/-!
# Programs over a signature of calls

A program is a tree whose nodes perform one call of a signature and branch on
its result. The same tree is given several meanings: `run` executes it alone
under a handler, `runBlock` executes its next atomic block, and `Follows` says
that every path through it obeys a protocol, whatever the calls return. A
scheduler that interleaves programs call by call keeps `Follows` for each of
them, so that invariants of the interleaving can be stated about protocol
states instead of program text.
-/

namespace Base

/-- A signature of calls, each with the type of its result. -/
structure Sig where
  Op : Type
  Res : Op → Type

/-- A program that performs calls of `S` and ends with an `α`. -/
inductive Prog (S : Sig) (α : Type) where
  | ret (a : α) : Prog S α
  | call (op : S.Op) (k : S.Res op → Prog S α) : Prog S α

namespace Prog

variable {S : Sig} {α β γ : Type}

/-! ## Sequencing -/

def bind : Prog S α → (α → Prog S β) → Prog S β
  | .ret a, f => f a
  | .call op k, f => .call op fun r => (k r).bind f

instance : Monad (Prog S) where
  pure := .ret
  bind := bind

/-- The program that performs one call and returns its result. -/
def perform (op : S.Op) : Prog S (S.Res op) := .call op .ret

@[simp] theorem pure_eq (a : α) : (pure a : Prog S α) = .ret a := rfl

@[simp] theorem ret_bind (a : α) (f : α → Prog S β) : (Prog.ret a >>= f) = f a := rfl

@[simp] theorem call_bind (op : S.Op) (k : S.Res op → Prog S α) (f : α → Prog S β) :
    (Prog.call op k >>= f) = .call op fun r => k r >>= f := rfl

@[simp] theorem bind_ret (p : Prog S α) : (p >>= Prog.ret) = p := by
  induction p with
  | ret a => rfl
  | call op k ih =>
    rw [call_bind]
    congr 1
    funext r
    exact ih r

theorem bind_assoc (p : Prog S α) (f : α → Prog S β) (g : β → Prog S γ) :
    ((p >>= f) >>= g) = p >>= fun a => f a >>= g := by
  induction p with
  | ret a => rfl
  | call op k ih =>
    simp only [call_bind]
    congr 1
    funext r
    exact ih r

/-! ## Running alone -/

/-- How each call acts on a state; a call may also fail and end the run. -/
abbrev Handler (S : Sig) (σ ε : Type) := (op : S.Op) → σ → Except ε (S.Res op × σ)

variable {σ ε : Type}

/-- The run of a program that nothing interferes with. -/
def run (h : Handler S σ ε) : Prog S α → σ → Except ε (α × σ)
  | .ret a, s => .ok (a, s)
  | .call op k, s => h op s >>= fun rs => (k rs.1).run h rs.2

@[simp] theorem run_ret (h : Handler S σ ε) (a : α) (s : σ) :
    (Prog.ret a : Prog S α).run h s = .ok (a, s) := rfl

theorem run_call (h : Handler S σ ε) (op : S.Op) (k : S.Res op → Prog S α) (s : σ) :
    (Prog.call op k).run h s = h op s >>= fun rs => (k rs.1).run h rs.2 := rfl

theorem run_call_ok {h : Handler S σ ε} {op : S.Op} {k : S.Res op → Prog S α} {s s' : σ}
    {r : S.Res op} (hop : h op s = .ok (r, s')) : (Prog.call op k).run h s = (k r).run h s' := by
  rw [run_call, hop]
  rfl

theorem run_call_error {h : Handler S σ ε} {op : S.Op} {k : S.Res op → Prog S α} {s : σ} {e : ε}
    (hop : h op s = .error e) : (Prog.call op k).run h s = .error e := by
  rw [run_call, hop]
  rfl

/-- A sequence runs its first part and then the rest from where that ended. -/
theorem run_bind_ok {h : Handler S σ ε} {p : Prog S α} {f : α → Prog S β} {s s' : σ} {a : α}
    (hp : p.run h s = .ok (a, s')) : (p >>= f).run h s = (f a).run h s' := by
  induction p generalizing s with
  | ret b =>
    obtain ⟨rfl, rfl⟩ : b = a ∧ s = s' := by simpa using hp
    rfl
  | call op k ih =>
    rw [call_bind]
    cases hop : h op s with
    | ok rs =>
      rw [run_call_ok hop] at hp ⊢
      exact ih rs.1 hp
    | error e =>
      rw [run_call_error hop] at hp
      cases hp

theorem run_bind_error {h : Handler S σ ε} {p : Prog S α} {f : α → Prog S β} {s : σ} {e : ε}
    (hp : p.run h s = .error e) : (p >>= f).run h s = .error e := by
  induction p generalizing s with
  | ret b => simp at hp
  | call op k ih =>
    rw [call_bind]
    cases hop : h op s with
    | ok rs =>
      rw [run_call_ok hop] at hp ⊢
      exact ih rs.1 hp
    | error e' =>
      obtain rfl : e' = e := by simpa [run_call_error hop] using hp
      exact run_call_error hop

theorem run_bind (h : Handler S σ ε) (p : Prog S α) (f : α → Prog S β) (s : σ) :
    (p >>= f).run h s = p.run h s >>= fun rs => (f rs.1).run h rs.2 := by
  cases hp : p.run h s with
  | ok rs => exact run_bind_ok hp
  | error e => exact run_bind_error hp

/-! ## The calls of a run -/

/-- The calls that a run completes, in order. -/
def calls (h : Handler S σ ε) : Prog S α → σ → List S.Op
  | .ret _, _ => []
  | .call op k, s =>
    match h op s with
    | .ok rs => op :: (k rs.1).calls h rs.2
    | .error _ => []

theorem calls_call_ok {h : Handler S σ ε} {op : S.Op} {k : S.Res op → Prog S α} {s s' : σ}
    {r : S.Res op} (hop : h op s = .ok (r, s')) :
    (Prog.call op k).calls h s = op :: (k r).calls h s' := by
  rw [calls, hop]

theorem calls_call_error {h : Handler S σ ε} {op : S.Op} {k : S.Res op → Prog S α} {s : σ} {e : ε}
    (hop : h op s = .error e) : (Prog.call op k).calls h s = [] := by
  rw [calls, hop]

/-- A sequence makes the calls of its first part, however that ends. -/
theorem calls_prefix_bind (h : Handler S σ ε) (p : Prog S α) (f : α → Prog S β) (s : σ) :
    p.calls h s <+: (p >>= f).calls h s := by
  induction p generalizing s with
  | ret a => exact List.nil_prefix
  | call op k ih =>
    rw [call_bind]
    cases hop : h op s with
    | ok rs =>
      rw [calls_call_ok hop, calls_call_ok hop]
      exact List.cons_prefix_cons.2 ⟨rfl, ih rs.1 rs.2⟩
    | error e =>
      rw [calls_call_error hop, calls_call_error hop]

/-- When the first part ends, the calls of the second follow. -/
theorem calls_bind_ok {h : Handler S σ ε} {p : Prog S α} {f : α → Prog S β} {s s' : σ} {a : α}
    (hp : p.run h s = .ok (a, s')) :
    (p >>= f).calls h s = p.calls h s ++ (f a).calls h s' := by
  induction p generalizing s with
  | ret b =>
    obtain ⟨rfl, rfl⟩ : b = a ∧ s = s' := by simpa using hp
    rfl
  | call op k ih =>
    rw [call_bind]
    cases hop : h op s with
    | ok rs =>
      rw [run_call_ok hop] at hp
      rw [calls_call_ok hop, calls_call_ok hop, ih rs.1 hp]
      rfl
    | error e =>
      rw [run_call_error hop] at hp
      cases hp

/-! ## Handlers that refine each other -/

/-- Whatever a call does under the first handler it does under the second, on related states,
    as far as it leaves a good state. What is good after a call has been good before it. -/
def Refines {τ δ : Type} (h : Handler S σ ε) (g : Handler S τ δ) (Good : σ → Prop)
    (R : σ → τ → Prop) :
    Prop :=
  ∀ op s r s', h op s = .ok (r, s') → Good s' →
    Good s ∧ ∀ t, R s t → ∃ t', g op t = .ok (r, t') ∧ R s' t'

/-- What holds of the calls holds of every program that makes them. -/
theorem Refines.run {τ δ : Type} {h : Handler S σ ε} {g : Handler S τ δ} {Good : σ → Prop}
    {R : σ → τ → Prop} (href : Refines h g Good R) {p : Prog S α} {s s' : σ} {a : α}
    (hrun : p.run h s = .ok (a, s')) (hgood : Good s') :
    Good s ∧ ∀ t, R s t → ∃ t', p.run g t = .ok (a, t') ∧ R s' t' := by
  induction p generalizing s with
  | ret b =>
    obtain ⟨rfl, rfl⟩ : b = a ∧ s = s' := by simpa using hrun
    exact ⟨hgood, fun t hR => ⟨t, rfl, hR⟩⟩
  | call op k ih =>
    cases hop : h op s with
    | error e =>
      rw [run_call_error hop] at hrun
      cases hrun
    | ok rs =>
      rw [run_call_ok hop] at hrun
      obtain ⟨hgood₁, hrest⟩ := ih rs.1 hrun
      obtain ⟨hgood₀, hcall⟩ := href op s rs.1 rs.2 hop hgood₁
      refine ⟨hgood₀, fun t hR => ?_⟩
      obtain ⟨t₁, hop', hR₁⟩ := hcall t hR
      obtain ⟨t', hrun', hR'⟩ := hrest t₁ hR₁
      exact ⟨t', (run_call_ok hop').trans hrun', hR'⟩

/-! ## Atomic blocks -/

/-- Run up to and including the call that ends the current block. `mode` follows
    the calls made so far in the block and says which call is its last. -/
def runBlock {μ : Type} (h : Handler S σ ε) (mode : μ → S.Op → μ × Bool) :
    μ → Prog S α → σ → Except ε (Prog S α × σ)
  | _, .ret a, s => .ok (.ret a, s)
  | m, .call op k, s => h op s >>= fun rs =>
    if (mode m op).2 then .ok (k rs.1, rs.2) else (k rs.1).runBlock h mode (mode m op).1 rs.2

theorem runBlock_call {μ : Type} (h : Handler S σ ε) (mode : μ → S.Op → μ × Bool) (m : μ)
    (op : S.Op) (k : S.Res op → Prog S α) (s : σ) :
    (Prog.call op k).runBlock h mode m s = h op s >>= fun rs =>
      if (mode m op).2 then .ok (k rs.1, rs.2)
      else (k rs.1).runBlock h mode (mode m op).1 rs.2 := rfl

theorem runBlock_call_next {μ : Type} {h : Handler S σ ε} {mode : μ → S.Op → μ × Bool} {m : μ}
    {op : S.Op} {k : S.Res op → Prog S α} {s s' : σ} {r : S.Res op}
    (hop : h op s = .ok (r, s')) (hstop : (mode m op).2 = false) :
    (Prog.call op k).runBlock h mode m s = (k r).runBlock h mode (mode m op).1 s' := by
  rw [runBlock_call, hop]
  exact if_neg (by simp [hstop])

/-- Every call of the program, on every path, keeps the mode and ends no block. -/
def Stays {μ : Type} (mode : μ → S.Op → μ × Bool) (m : μ) : Prog S α → Prop
  | .ret _ => True
  | .call op k => mode m op = (m, false) ∧ ∀ r, (k r).Stays mode m

theorem Stays.bind {μ : Type} {mode : μ → S.Op → μ × Bool} {m : μ} {p : Prog S α}
    {f : α → Prog S β} (hp : p.Stays mode m) (hf : ∀ a, (f a).Stays mode m) :
    (p >>= f).Stays mode m := by
  induction p with
  | ret a => exact hf a
  | call op k ih => exact ⟨hp.1, fun r => ih r (hp.2 r)⟩

/-- A block runs through a part that ends none. -/
theorem Stays.runBlock_bind {μ : Type} {mode : μ → S.Op → μ × Bool} {m : μ} {p : Prog S α}
    (hp : p.Stays mode m) (h : Handler S σ ε) (f : α → Prog S β) (s : σ) :
    (p >>= f).runBlock h mode m s = p.run h s >>= fun rs => (f rs.1).runBlock h mode m rs.2 := by
  induction p generalizing s with
  | ret a => rfl
  | call op k ih =>
    rw [call_bind, run_call, runBlock_call]
    cases h op s with
    | error e => rfl
    | ok rs =>
      have hstop : (mode m op).2 = false := by rw [hp.1]
      have hmode : (mode m op).1 = m := by rw [hp.1]
      change (if (mode m op).2 then _ else (k rs.1 >>= f).runBlock h mode (mode m op).1 rs.2) = _
      rw [hstop, hmode]
      exact ih rs.1 (hp.2 rs.1) rs.2

/-- A block that enters a part in another mode and ends with the call that leaves it. -/
theorem runBlock_section {μ : Type} {mode : μ → S.Op → μ × Bool} {m m' : μ} {enter leave : S.Op}
    (henter : mode m enter = (m', false)) (hleave : (mode m' leave).2 = true)
    {body : S.Res enter → Prog S α} (hbody : ∀ r, (body r).Stays mode m') (h : Handler S σ ε)
    (k : α → S.Res leave → Prog S β) (s : σ) :
    (Prog.call enter fun r => body r >>= fun a => .call leave (k a)).runBlock h mode m s =
      h enter s >>= fun rs => (body rs.1).run h rs.2 >>= fun as =>
        h leave as.2 >>= fun rs => .ok (k as.1 rs.1, rs.2) := by
  cases hs : h enter s with
  | error e =>
    rw [runBlock_call, hs]
    rfl
  | ok rs =>
    rw [runBlock_call_next hs (by rw [henter]), henter, (hbody rs.1).runBlock_bind]
    simp only [runBlock_call, hleave, if_true]
    rfl

/-! ## Protocols -/

/-- A protocol over the calls of `S`: which calls a protocol state allows, which
    results of a call are to be expected, and where call and result lead. -/
structure Protocol (S : Sig) (Q : Type) where
  allowed : Q → S.Op → Prop
  expected : Q → (op : S.Op) → S.Res op → Prop
  next : Q → (op : S.Op) → S.Res op → Q

variable {Q : Type}

/-- From the protocol state `q` on, every path of the program that meets only
    expected results makes allowed calls and ends in a state that fits its
    result. -/
def Follows (P : Protocol S Q) (final : Q → α → Prop) : Q → Prog S α → Prop
  | q, .ret a => final q a
  | q, .call op k =>
    P.allowed q op ∧ ∀ r, P.expected q op r → (k r).Follows P final (P.next q op r)

@[simp] theorem follows_ret (P : Protocol S Q) (final : Q → α → Prop) (q : Q) (a : α) :
    (Prog.ret a).Follows P final q ↔ final q a := Iff.rfl

/-- What one call of a program that follows a protocol leaves. -/
theorem Follows.step {P : Protocol S Q} {final : Q → α → Prop} {q : Q} {op : S.Op}
    {k : S.Res op → Prog S α} (h : (Prog.call op k).Follows P final q) {r : S.Res op}
    (hr : P.expected q op r) : (k r).Follows P final (P.next q op r) :=
  h.2 r hr

/-- A run under a handler that keeps the protocol state in step with its own state ends
    where the program says. -/
theorem Follows.run {P : Protocol S Q} {final : Q → α → Prop} {h : Handler S σ ε}
    {R : Q → σ → Prop}
    (hcall : ∀ q op s r s', R q s → P.allowed q op → h op s = .ok (r, s') →
      P.expected q op r ∧ R (P.next q op r) s')
    {p : Prog S α} {q : Q} {s s' : σ} {a : α} (hp : p.Follows P final q) (hR : R q s)
    (hrun : p.run h s = .ok (a, s')) : ∃ q', final q' a ∧ R q' s' := by
  induction p generalizing q s with
  | ret b =>
    obtain ⟨rfl, rfl⟩ : b = a ∧ s = s' := by simpa using hrun
    exact ⟨q, hp, hR⟩
  | call op k ih =>
    cases hop : h op s with
    | error e =>
      rw [run_call_error hop] at hrun
      cases hrun
    | ok rs =>
      rw [run_call_ok hop] at hrun
      obtain ⟨hexpected, hR'⟩ := hcall q op s rs.1 rs.2 hR hp.1 hop
      exact ih rs.1 (hp.2 rs.1 hexpected) hR' hrun

/-- When the handler serves what is allowed, and as is expected, the run ends, and ends where
    the program says. -/
theorem Follows.run_ok {P : Protocol S Q} {final : Q → α → Prop} {h : Handler S σ ε}
    {R : Q → σ → Prop}
    (hcall : ∀ q op s, R q s → P.allowed q op →
      ∃ r s', h op s = .ok (r, s') ∧ P.expected q op r ∧ R (P.next q op r) s')
    {p : Prog S α} {q : Q} {s : σ} (hp : p.Follows P final q) (hR : R q s) :
    ∃ a s' q', p.run h s = .ok (a, s') ∧ final q' a ∧ R q' s' := by
  induction p generalizing q s with
  | ret a => exact ⟨a, s, q, rfl, hp, hR⟩
  | call op k ih =>
    obtain ⟨r, s', hop, hexpected, hR'⟩ := hcall q op s hR hp.1
    obtain ⟨a, s'', q', hrun, hfinal, hR''⟩ := ih r (hp.2 r hexpected) hR'
    exact ⟨a, s'', q', (run_call_ok hop).trans hrun, hfinal, hR''⟩

/-- Sequencing: the second part follows from wherever the first part may end. -/
theorem Follows.bind {P : Protocol S Q} {final : Q → α → Prop} {final' : Q → β → Prop} {q : Q}
    {p : Prog S α} {f : α → Prog S β} (hp : p.Follows P final q)
    (hf : ∀ q a, final q a → (f a).Follows P final' q) : (p >>= f).Follows P final' q := by
  induction p generalizing q with
  | ret a => exact hf q a hp
  | call op k ih => exact ⟨hp.1, fun r hr => ih r (hp.2 r hr)⟩

end Prog

end Base
