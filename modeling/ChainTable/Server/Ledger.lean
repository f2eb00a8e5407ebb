-- SUMMARY: The statistics of a server as a ledger that threads change by the discipline, one section at a time.
import ChainTable.Server.Discipline

open Base

/-!
# Ledger

The programs of the threads and the counters of the locks are left out here: a thread is
the part and the standing that it has, and the lock of the statistics is what the other
threads hold when a section begins. What is left is enough to say that the statistics
count what they should.
-/

namespace ChainTable

/-! ## Threads -/

/-- The parts that may come after a part. -/
def Part.Next : Part → Part → Prop
  | .opening, part => part = .serving ∨ part = .closing
  | .serving, part => part = .serving ∨ part = .closing
  | .closing, part => part = .finished
  | .finished, _ => False

/-- The number of clients has a one for the thread. -/
def Contributes : Part × Standing → Prop
  | (.opening, q) => q.changed = true
  | (.serving, _) => True
  | (.closing, q) => q.changed = false
  | (.finished, _) => False

instance : DecidablePred Contributes := fun ⟨part, q⟩ => by
  cases part <;> unfold Contributes <;> infer_instance

/-- The thread is in a section of the table, and the number of operations has a one for it. -/
def Operates (x : Part × Standing) : Prop :=
  x.2.table ≠ .nothing ∧ (x.2.counted = true ∨ x.2.stats = .writing (.stored .nOperacoes))

instance : DecidablePred Operates := fun x => by
  unfold Operates
  infer_instance

structure Ledger (ι : Type) where
  stats : Statistics
  sections : ℕ
  moments : List Statistics
  thread : ι → Part × Standing

namespace Ledger

variable {ι : Type} [DecidableEq ι]

/-! ## Steps -/

def held (s : Ledger ι) (t : ι) : Held := (s.thread t).2.stats.held

/-- What the lock and the statistics grant to a call. -/
def Grants (s : Ledger ι) : (op : ServerCall) → op.Res → Prop
  | .enterRead .stats, _ => ∀ u, s.held u ≠ .writing
  | .enterWrite .stats, _ => ∀ u, s.held u = .nothing
  | .loadStat field, value => value = s.stats.load field
  | _, _ => True

/-- What a call does to the statistics and their history. -/
def record (s : Ledger ι) : ServerCall → Ledger ι
  | .exitRead .table => { s with sections := s.sections + 1 }
  | .exitWrite .table => { s with sections := s.sections + 1 }
  | .exitWrite .stats => { s with moments := s.moments ++ [s.stats] }
  | .storeStat field value => { s with stats := s.stats.store value field }
  | _ => s

def setThread (s : Ledger ι) (t : ι) (x : Part × Standing) : Ledger ι :=
  { s with thread := Function.update s.thread t x }

def call (s : Ledger ι) (t : ι) (op : ServerCall) (r : op.Res) : Ledger ι :=
  (s.record op).setThread t ((s.thread t).1, (s.thread t).2.next op r)

inductive Step (s : Ledger ι) : Ledger ι → Prop where
  | call (t : ι) (op : ServerCall) (r : op.Res) :
      (s.thread t).2.Allows (s.thread t).1.change op → s.Grants op r → Step s (s.call t op r)
  | part (t : ι) (part : Part) :
      (s.thread t).1.Ended (s.thread t).2 → (s.thread t).1.Next part →
      Step s (s.setThread t (part, { (s.thread t).2 with changed := false }))

/-! ## Counting -/

/-- The counters that a thread has loaded held together, in the statistics while it reads
    them and at some moment from then on. -/
def Informed (s : Ledger ι) (q : Standing) : Prop :=
  if q.stats = .reading then
    (∀ value ∈ q.nClientes, value = s.stats.nClientes) ∧
      ∀ value ∈ q.nOperacoes, value = s.stats.nOperacoes
  else
    ∀ clientes ∈ q.nClientes, ∀ operacoes ∈ q.nOperacoes,
      ∃ stats ∈ s.moments, stats.nClientes = clientes ∧ stats.nOperacoes = operacoes

structure Counted [Fintype ι] (s : Ledger ι) : Prop where
  clients : s.stats.nClientes = countThreads Contributes s.thread
  operations : s.stats.nOperacoes = s.sections + countThreads Operates s.thread
  loaded : ∀ t field value, (s.thread t).2.stats = .writing (.loaded field value) →
    value = s.stats.load field
  alone : ∀ t u, s.held t = .writing → s.held u ≠ .nothing → u = t
  settled : (∀ t, s.held t ≠ .writing) → s.stats ∈ s.moments
  informed : ∀ t, s.Informed (s.thread t).2

variable [Fintype ι] {s : Ledger ι} {t : ι}

/-- A thread moves, and nothing is stored. It may leave a section of the table. -/
theorem Counted.move (h : s.Counted) {y : Part × Standing} {sections : ℕ}
    (hcontributes : Contributes (s.thread t) ↔ Contributes y)
    (hoperations : sections + countThreads Operates (Function.update s.thread t y) =
      s.sections + countThreads Operates s.thread)
    (hloaded : ∀ field value, y.2.stats = .writing (.loaded field value) →
      value = s.stats.load field)
    (hwriting : y.2.stats.held = .writing → ∀ u ≠ t, s.held u = .nothing)
    (hreading : y.2.stats.held ≠ .nothing → ∀ u ≠ t, s.held u ≠ .writing)
    (hsettled : s.held t = .writing → y.2.stats.held = .writing)
    (hinformed : s.Informed y.2) :
    ({ s.setThread t y with sections := sections } : Ledger ι).Counted where
  clients := by
    rw [Ledger.setThread, countThreads_update_same hcontributes]
    exact h.clients
  operations := by
    rw [Ledger.setThread, ← Nat.cast_add, hoperations, Nat.cast_add]
    exact h.operations
  loaded u field value hu := by
    by_cases hut : u = t
    · subst hut
      exact hloaded field value (by simpa [Ledger.setThread] using hu)
    · exact h.loaded u field value (by simpa [Ledger.setThread, hut] using hu)
  alone u v hu hv := by
    by_cases hut : u = t
    · subst hut
      by_contra hvu
      refine hv ?_
      have hnothing := hwriting (by simpa [held, Ledger.setThread] using hu) v hvu
      simpa [held, Ledger.setThread, hvu] using hnothing
    · have hu' : s.held u = .writing := by simpa [held, Ledger.setThread, hut] using hu
      by_cases hvt : v = t
      · subst hvt
        exact absurd hu' (hreading (by simpa [held, Ledger.setThread] using hv) u hut)
      · exact h.alone u v hu' (by simpa [held, Ledger.setThread, hvt] using hv)
  settled hnone := by
    refine h.settled fun u hu => hnone u ?_
    by_cases hut : u = t
    · subst hut
      simpa [held, Ledger.setThread] using hsettled hu
    · simpa [held, Ledger.setThread, hut] using hu
  informed u := by
    by_cases hut : u = t
    · subst hut
      simpa [Informed, Ledger.setThread] using hinformed
    · simpa [Informed, Ledger.setThread, hut] using h.informed u

/-- A thread moves and stays in the section of the table that it is in. -/
theorem Counted.setThread (h : s.Counted) {y : Part × Standing}
    (hcontributes : Contributes (s.thread t) ↔ Contributes y)
    (hoperates : Operates (s.thread t) ↔ Operates y)
    (hloaded : ∀ field value, y.2.stats = .writing (.loaded field value) →
      value = s.stats.load field)
    (hwriting : y.2.stats.held = .writing → ∀ u ≠ t, s.held u = .nothing)
    (hreading : y.2.stats.held ≠ .nothing → ∀ u ≠ t, s.held u ≠ .writing)
    (hsettled : s.held t = .writing → y.2.stats.held = .writing)
    (hinformed : s.Informed y.2) : (s.setThread t y).Counted :=
  h.move hcontributes
    (by rw [countThreads_update_same hoperates]) hloaded hwriting hreading hsettled
    hinformed

omit [DecidableEq ι] [Fintype ι] in
theorem contributes_congr {part : Part} {q q' : Standing} (h : q.changed = q'.changed) :
    Contributes (part, q) ↔ Contributes (part, q') := by
  cases part <;> simp [Contributes, h]

omit [DecidableEq ι] [Fintype ι] in
theorem operates_congr {part part' : Part} {q q' : Standing} (htable : q.table = q'.table)
    (hcounted : q.counted = q'.counted) (hstats : q.stats ≠ .writing (.stored .nOperacoes))
    (hstats' : q'.stats ≠ .writing (.stored .nOperacoes)) :
    Operates (part, q) ↔ Operates (part', q') := by
  simp [Operates, htable, hcounted, hstats, hstats']

omit [DecidableEq ι] [Fintype ι] in
/-- Outside of the table nobody operates. -/
theorem not_operates_of_nothing {part : Part} {q : Standing} (htable : q.table = .nothing) :
    ¬ Operates (part, q) := fun h => h.1 htable

omit [DecidableEq ι] [Fintype ι] in
theorem informed_of_ne {q : Standing} (hstats : q.stats ≠ .reading) :
    s.Informed q ↔ ∀ clientes ∈ q.nClientes, ∀ operacoes ∈ q.nOperacoes,
      ∃ stats ∈ s.moments, stats.nClientes = clientes ∧ stats.nOperacoes = operacoes := by
  rw [Informed, if_neg hstats]

omit [DecidableEq ι] [Fintype ι] in
/-- What a thread has loaded before does not depend on where it stands now, nor on what
    comes later. -/
theorem Informed.move {s' : Ledger ι} {q q' : Standing} (h : s.Informed q)
    (hmoments : s.moments ⊆ s'.moments) (hstats : q.stats ≠ .reading)
      (hstats' : q'.stats ≠ .reading)
    (hclientes : q'.nClientes = q.nClientes) (hoperacoes : q'.nOperacoes = q.nOperacoes) :
    s'.Informed q' := by
  rw [informed_of_ne hstats] at h
  rw [informed_of_ne hstats', hclientes, hoperacoes]
  intro clientes hclientes operacoes hoperacoes
  obtain ⟨stats, hmem, heq⟩ := h clientes hclientes operacoes hoperacoes
  exact ⟨stats, hmoments hmem, heq⟩

omit [DecidableEq ι] in
/-- Only the thread that writes has the lock. -/
theorem Counted.nothing_of_writing (h : s.Counted) (ht : s.held t = .writing) :
    ∀ u ≠ t, s.held u = .nothing := by
  intro u hut
  by_contra hu
  exact hut (h.alone t u ht hu)

omit [DecidableEq ι] in
theorem Counted.not_writing (h : s.Counted) (ht : s.held t ≠ .nothing) :
    ∀ u ≠ t, s.held u ≠ .writing := by
  intro u hut hu
  exact hut (h.alone u t hu ht).symm

/-- A move that the lock of the statistics has nothing to do with. -/
theorem Counted.quiet (h : s.Counted) {y : Part × Standing} {sections : ℕ}
    (hcontributes : Contributes (s.thread t) ↔ Contributes y)
    (hoperations : sections + countThreads Operates (Function.update s.thread t y) =
      s.sections + countThreads Operates s.thread)
    (hstats : y.2.stats = (s.thread t).2.stats)
    (hclientes : y.2.nClientes = (s.thread t).2.nClientes)
    (hoperacoes : y.2.nOperacoes = (s.thread t).2.nOperacoes) :
    ({ s.setThread t y with sections := sections } : Ledger ι).Counted := by
  refine h.move hcontributes hoperations (fun field value hy => ?_) (fun hy => ?_)
    (fun hy => ?_) (fun ht => by rw [hstats, ← ht]; rfl) ?_
  · exact h.loaded t field value (hstats ▸ hy)
  · exact h.nothing_of_writing (by rw [← hy, hstats]; rfl)
  · exact h.not_writing (by rw [hstats] at hy; exact hy)
  · have hinformed := h.informed t
    rw [Informed] at hinformed ⊢
    rw [hstats, hclientes, hoperacoes]
    exact hinformed

theorem contributes_part {old part : Part} {q : Standing} (hended : old.Ended q)
    (hnext : old.Next part) :
    Contributes (old, q) ↔ Contributes (part, { q with changed := false }) := by
  cases old with
  | opening =>
    have hchanged : q.changed = true := hended.changed nofun
    rcases hnext with rfl | rfl <;> simp [Contributes, hchanged]
  | serving =>
    rcases hnext with rfl | rfl <;> simp [Contributes]
  | closing =>
    have hchanged : q.changed = true := hended.changed nofun
    obtain rfl : part = .finished := hnext
    simp [Contributes, hchanged]
  | finished => exact hnext.elim

/-! ## Sections -/

/-- A section of the table begins, with nothing counted in it. -/
theorem Counted.enterTable (h : s.Counted) {table : Held} (htable : (s.thread t).2.table = .nothing)
    (hstats : (s.thread t).2.stats = .outside) :
    (s.setThread t ((s.thread t).1,
      { (s.thread t).2 with table := table, counted := false })).Counted := by
  have hidle : ¬ Operates (s.thread t) := not_operates_of_nothing htable
  have hidle' : ¬ Operates ((s.thread t).1,
      { (s.thread t).2 with table := table, counted := false }) := by
    simp [Operates, hstats]
  exact h.quiet (contributes_congr rfl)
    (congrArg (s.sections + ·) (countThreads_update_same (iff_of_false hidle hidle'))) rfl rfl rfl

/-- A section of the table is left, in which one operation was counted. -/
theorem Counted.exitTable (h : s.Counted) (htable : (s.thread t).2.table ≠ .nothing)
    (hcounted : (s.thread t).2.counted = true) :
    ({ s.setThread t ((s.thread t).1, { (s.thread t).2 with table := .nothing }) with
      sections := s.sections + 1 } : Ledger ι).Counted := by
  have hoperates : Operates (s.thread t) := ⟨htable, .inl hcounted⟩
  have hleft : ¬ Operates ((s.thread t).1, { (s.thread t).2 with table := .nothing }) :=
    not_operates_of_nothing rfl
  have hcount := countThreads_update_leave (f := s.thread) hoperates hleft
  refine h.quiet (contributes_congr rfl) ?_ rfl rfl rfl
  rw [← hcount]
  omega

theorem Counted.enterRead (h : s.Counted) (hstats : (s.thread t).2.stats = .outside)
    (hgrant : ∀ u, s.held u ≠ .writing) : (s.call t (.enterRead .stats) ()).Counted := by
  refine h.setThread (contributes_congr rfl) (operates_congr rfl rfl (by rw [hstats]; nofun) nofun)
    nofun nofun (fun _ u _ => hgrant u) (fun ht => absurd ht (hgrant t)) ?_
  exact ⟨nofun, nofun⟩

theorem Counted.enterWrite (h : s.Counted) (hstats : (s.thread t).2.stats = .outside)
    (hgrant : ∀ u, s.held u = .nothing) : (s.call t (.enterWrite .stats) ()).Counted := by
  refine h.setThread (contributes_congr rfl) (operates_congr rfl rfl (by rw [hstats]; nofun) nofun)
    nofun (fun _ u _ => hgrant u) (fun _ u _ => by rw [hgrant u]; nofun) (fun _ => rfl) ?_
  exact (h.informed t).move (List.Subset.refl _) (by rw [hstats]; nofun) nofun rfl rfl

omit [DecidableEq ι] in
/-- Counters that a thread has loaded held together at some moment. -/
theorem Counted.moment_of_loaded (h : s.Counted) {clientes operacoes : Int}
    (hclientes : clientes ∈ (s.thread t).2.nClientes)
    (hoperacoes : operacoes ∈ (s.thread t).2.nOperacoes) :
    ∃ stats ∈ s.moments, stats.nClientes = clientes ∧ stats.nOperacoes = operacoes := by
  have hinformed := h.informed t
  by_cases hstats : (s.thread t).2.stats = .reading
  · have hheld : s.held t = .reading := by rw [held, hstats]; rfl
    have hsettled : s.stats ∈ s.moments := by
      refine h.settled fun u => ?_
      by_cases hut : u = t
      · rw [hut, hheld]
        nofun
      · exact h.not_writing (t := t) (by rw [hheld]; nofun) u hut
    rw [Informed, if_pos hstats] at hinformed
    exact ⟨s.stats, hsettled, (hinformed.1 clientes hclientes).symm,
      (hinformed.2 operacoes hoperacoes).symm⟩
  · exact (informed_of_ne hstats).1 hinformed clientes hclientes operacoes hoperacoes

/-- A reader leaves with counters that held in the statistics it leaves. -/
theorem Counted.exitRead (h : s.Counted) (hstats : (s.thread t).2.stats = .reading) :
    (s.call t (.exitRead .stats) ()).Counted := by
  have hheld : s.held t = .reading := by rw [held, hstats]; rfl
  refine h.setThread (contributes_congr rfl) (operates_congr rfl rfl (by rw [hstats]; nofun) nofun)
    nofun nofun (absurd rfl) (fun ht => absurd (hheld.symm.trans ht) nofun) ?_
  refine (informed_of_ne (q := { (s.thread t).2 with stats := .outside }) nofun).2 ?_
  intro clientes hclientes operacoes hoperacoes
  exact h.moment_of_loaded hclientes hoperacoes

omit [DecidableEq ι] [Fintype ι] in
/-- A reader loads what is in the statistics. -/
theorem Informed.load {q : Standing} (h : s.Informed q) (hstats : q.stats = .reading)
    {field : StatField} {value : Int} (hvalue : value = s.stats.load field) :
    s.Informed (q.load field value) := by
  obtain ⟨table, stats, nClientes, nOperacoes, changed, counted⟩ := q
  obtain rfl : stats = .reading := hstats
  cases field with
  | nClientes =>
    refine ⟨fun loaded hloaded => ?_, h.2⟩
    rw [← Option.some.inj hloaded, hvalue]
    rfl
  | nOperacoes =>
    refine ⟨h.1, fun loaded hloaded => ?_⟩
    rw [← Option.some.inj hloaded, hvalue]
    rfl
  | totalTime => exact h

theorem load_of_reading {q : Standing} (hstats : q.stats = .reading) (field : StatField)
    (value : Int) :
    (q.load field value).stats = .reading ∧ (q.load field value).changed = q.changed ∧
      (q.load field value).table = q.table ∧ (q.load field value).counted = q.counted := by
  obtain ⟨table, stats, nClientes, nOperacoes, changed, counted⟩ := q
  obtain rfl : stats = .reading := hstats
  cases field <;> exact ⟨rfl, rfl, rfl, rfl⟩

theorem load_of_writing {q : Standing} {pending : Pending} (hstats : q.stats = .writing pending)
    (field : StatField) (value : Int) :
    q.load field value = { q with stats := .writing (.loaded field value) } := by
  obtain ⟨table, stats, nClientes, nOperacoes, changed, counted⟩ := q
  obtain rfl : stats = .writing pending := hstats
  cases field <;> rfl

theorem Counted.loadStat (h : s.Counted) {field : StatField} {value : Int}
    (hstats : (s.thread t).2.stats = .reading ∨ (s.thread t).2.stats = .writing .fresh)
    (hvalue : value = s.stats.load field) : (s.call t (.loadStat field) value).Counted := by
  rcases hstats with hstats | hstats
  · obtain ⟨hload, hchanged, htable, hcounted⟩ := load_of_reading hstats field value
    have hheld : s.held t = .reading := by rw [held, hstats]; rfl
    refine h.setThread (contributes_congr hchanged.symm)
      (operates_congr htable.symm hcounted.symm (by rw [hstats]; nofun)
        (fun hy => absurd (hload.symm.trans hy) nofun))
      (fun _ _ hy => absurd (hload.symm.trans hy) nofun)
      (fun hy => absurd ((congrArg StatsPoint.held hload).symm.trans hy) nofun)
      (fun _ => h.not_writing (by rw [hheld]; nofun))
      (fun ht => absurd (hheld.symm.trans ht) nofun) ((h.informed t).load hstats hvalue)
  · have hload := load_of_writing hstats field value
    have hheld : s.held t = .writing := by rw [held, hstats]; rfl
    have hcall : s.call t (.loadStat field) value = s.setThread t ((s.thread t).1,
        { (s.thread t).2 with stats := .writing (.loaded field value) }) := by
      rw [← hload]
      rfl
    rw [hcall]
    refine h.setThread (contributes_congr rfl)
      (operates_congr rfl rfl (by rw [hstats]; nofun) (by simp)) ?_
      (fun _ => h.nothing_of_writing hheld)
      (fun _ => h.not_writing (by rw [hheld]; nofun)) (fun _ => rfl) ?_
    · rintro _ _ ⟨⟩
      exact hvalue
    · exact (h.informed t).move (List.Subset.refl _) (by rw [hstats]; nofun) nofun rfl rfl

/-- The one thread that writes moves. -/
theorem Counted.write (h : s.Counted) (ht : s.held t = .writing) {s' : Ledger ι}
    {y : Part × Standing} (hthread : s'.thread = Function.update s.thread t y)
    (hmoments : s.moments ⊆ s'.moments)
    (hclients : s'.stats.nClientes = countThreads Contributes s'.thread)
    (hoperations : s'.stats.nOperacoes = s'.sections + countThreads Operates s'.thread)
    (hloaded : ∀ field value, y.2.stats ≠ .writing (.loaded field value))
    (hreads : y.2.stats ≠ .reading)
    (hsettled : y.2.stats.held ≠ .writing → s'.stats ∈ s'.moments)
    (hinformed : (s.thread t).2.nClientes = y.2.nClientes ∧
      (s.thread t).2.nOperacoes = y.2.nOperacoes) : s'.Counted := by
  have hself : s'.thread t = y := by rw [hthread, Function.update_self]
  have hsame : ∀ u ≠ t, s'.thread u = s.thread u := by
    intro u hut
    rw [hthread, Function.update_of_ne hut]
  -- while one thread writes the others have nothing of the lock
  have hnothing : ∀ u ≠ t, s'.held u = .nothing := by
    intro u hut
    rw [held, hsame u hut]
    exact h.nothing_of_writing ht u hut
  refine ⟨hclients, hoperations, fun u field value hu => ?_, fun u v hu hv => ?_,
    fun hnone => ?_, fun u => ?_⟩
  · by_cases hut : u = t
    · subst hut
      rw [hself] at hu
      exact absurd hu (hloaded field value)
    · have hnone := hnothing u hut
      rw [held, hu] at hnone
      cases hnone
  · have hut : u = t := by
      by_contra hut
      exact absurd ((hnothing u hut).symm.trans hu) nofun
    by_contra hvu
    exact hv (hnothing v (hut ▸ hvu))
  · exact hsettled (by simpa only [held, hself] using hnone t)
  · by_cases hut : u = t
    · subst hut
      rw [hself]
      refine (h.informed u).move hmoments (fun hu => ?_) hreads hinformed.1.symm hinformed.2.symm
      rw [held, hu] at ht
      cases ht
    · have hreads : (s.thread u).2.stats ≠ .reading := by
        intro hu
        have hnone := h.nothing_of_writing ht u hut
        rw [held, hu] at hnone
        cases hnone
      rw [hsame u hut]
      exact (h.informed u).move hmoments hreads hreads rfl rfl

/-- The number of clients changes by what the thread newly contributes. -/
theorem countThreads_change {x : ι → Part × Standing} {q : Standing} {change : Int}
    (hchange : (x t).1.change = some change) (hold : (x t).2.changed = false)
    (hnew : q.changed = true) :
    (countThreads Contributes (Function.update x t ((x t).1, q)) : Int) =
      countThreads Contributes x + change := by
  rcases hx : x t with ⟨part, old⟩
  rw [hx] at hchange hold
  cases part with
  | opening =>
    obtain rfl : 1 = change := Option.some.inj hchange
    have hcount := countThreads_update_enter (p := Contributes) (f := x) (t := t)
      (a := (.opening, q)) (by rw [hx]; simpa [Contributes] using hold) hnew
    rw [hcount]
    push_cast
    rfl
  | closing =>
    obtain rfl : -1 = change := Option.some.inj hchange
    have hcount := countThreads_update_leave (p := Contributes) (f := x) (t := t)
      (a := (.closing, q)) (by rw [hx]; exact hold) (by simpa [Contributes] using hnew)
    rw [← hcount]
    push_cast
    omega
  | serving => cases hchange
  | finished => cases hchange

omit [DecidableEq ι] [Fintype ι] in
theorem store_of_ne (stats : Statistics) (value : Int) {field field' : StatField}
    (h : field ≠ field') : (stats.store value field).load field' = stats.load field' := by
  cases field <;> cases field' <;> first | rfl | exact absurd rfl h

theorem Counted.storeStat (h : s.Counted) {field : StatField} {value : Int}
    (hallow : (s.thread t).2.Allows (s.thread t).1.change (.storeStat field value)) :
    (s.call t (.storeStat field value) ()).Counted := by
  obtain ⟨current, hstats, hoperacoes, hclientes⟩ := hallow
  have hheld : s.held t = .writing := by rw [held, hstats]; rfl
  have hcurrent : current = s.stats.load field := h.loaded t field current hstats
  refine h.write hheld rfl (fun _ hm => hm) ?_ ?_ nofun nofun (absurd rfl) ⟨rfl, rfl⟩
  · change (s.stats.store value field).load .nClientes =
      countThreads Contributes (Function.update s.thread t ((s.thread t).1, _))
    by_cases hfield : field = .nClientes
    · subst hfield
      obtain ⟨hchanged, hchange⟩ := hclientes rfl
      rw [countThreads_change hchange hchanged (by simp [Standing.next]), ← h.clients, hcurrent]
      simp [Statistics.load, Statistics.store]
    · have hsame : Contributes ((s.thread t).1, (s.thread t).2) ↔
          Contributes ((s.thread t).1, (s.thread t).2.next (.storeStat field value) ()) :=
        contributes_congr (by simp [Standing.next, hfield])
      rw [countThreads_update_same (f := s.thread) hsame, store_of_ne _ _ hfield]
      exact h.clients
  · change (s.stats.store value field).load .nOperacoes = s.sections +
      countThreads Operates (Function.update s.thread t ((s.thread t).1, _))
    by_cases hfield : field = .nOperacoes
    · subst hfield
      obtain ⟨htable, hfresh, hsum⟩ := hoperacoes rfl
      -- the thread stores one more than it loaded, and the loaded value is still there
      have hvalue : value = s.stats.nOperacoes + 1 := by rw [hsum, hcurrent]; rfl
      have hidle : ¬ Operates (s.thread t) := by simp [Operates, hfresh, hstats]
      have hnew : Operates ((s.thread t).1,
          (s.thread t).2.next (.storeStat .nOperacoes value) ()) := ⟨htable, .inr rfl⟩
      rw [countThreads_update_enter (f := s.thread) hidle hnew]
      change value = _
      rw [hvalue, h.operations]
      push_cast
      ring
    · have hsame : Operates ((s.thread t).1, (s.thread t).2) ↔
          Operates ((s.thread t).1, (s.thread t).2.next (.storeStat field value) ()) :=
        operates_congr rfl rfl (by rw [hstats]; simp) (by simpa [Standing.next] using hfield)
      rw [countThreads_update_same (f := s.thread) hsame, store_of_ne _ _ hfield]
      exact h.operations

/-- A section of the statistics is left. With the table it has counted the operation, or
    that was done before. -/
theorem Counted.exitWrite (h : s.Counted) {pending : Pending}
    (hstats : (s.thread t).2.stats = .writing pending)
    (hfirst : (s.thread t).2.table ≠ .nothing → (s.thread t).2.counted = false →
      pending = .stored .nOperacoes) :
    (s.call t (.exitWrite .stats) ()).Counted := by
  have hheld : s.held t = .writing := by rw [held, hstats]; rfl
  refine h.write hheld rfl (List.subset_append_left _ _) ?_ ?_ nofun nofun ?_ ⟨rfl, rfl⟩
  · change s.stats.nClientes =
      countThreads Contributes (Function.update s.thread t ((s.thread t).1, _))
    have hsame : Contributes ((s.thread t).1, (s.thread t).2) ↔
        Contributes ((s.thread t).1, (s.thread t).2.next (.exitWrite .stats) ()) :=
      contributes_congr rfl
    rw [countThreads_update_same (f := s.thread) hsame]
    exact h.clients
  · change s.stats.nOperacoes = s.sections +
      countThreads Operates (Function.update s.thread t ((s.thread t).1, _))
    have hsame : Operates (s.thread t) ↔
        Operates ((s.thread t).1, (s.thread t).2.next (.exitWrite .stats) ()) := by
      refine ⟨fun hop => ⟨hop.1, .inl rfl⟩, fun hop => ⟨hop.1, ?_⟩⟩
      cases hcounted : (s.thread t).2.counted with
      | true => exact .inl rfl
      | false => exact .inr (hstats.trans (congrArg _ (hfirst hop.1 hcounted)))
    rw [countThreads_update_same hsame]
    exact h.operations
  · intro _
    exact List.mem_append_right _ (List.mem_singleton.2 rfl)

/-! ## Runs -/

/-- Every call of the discipline keeps the count. -/
theorem Counted.call (h : s.Counted) {op : ServerCall} {r : op.Res}
    (hallow : (s.thread t).2.Allows (s.thread t).1.change op) (hgrant : s.Grants op r) :
    (s.call t op r).Counted := by
  have hfree : s.record op = s → (s.thread t).2.next op r = (s.thread t).2 →
      (s.call t op r).Counted := by
    intro hrecord hnext
    rw [Ledger.call, hrecord, hnext]
    exact h.quiet Iff.rfl (congrArg (s.sections + ·) (countThreads_update_same Iff.rfl)) rfl rfl rfl
  cases op with
  | enterRead lock =>
    cases lock with
    | table => exact h.enterTable hallow.1 hallow.2
    | stats => exact h.enterRead hallow hgrant
  | exitRead lock =>
    cases lock with
    | table => exact h.exitTable (by rw [hallow.1]; nofun) hallow.2
    | stats => exact h.exitRead hallow
  | enterWrite lock =>
    cases lock with
    | table => exact h.enterTable hallow.1 hallow.2
    | stats => exact h.enterWrite hallow hgrant
  | exitWrite lock =>
    cases lock with
    | table => exact h.exitTable (by rw [hallow.1]; nofun) hallow.2
    | stats =>
      obtain ⟨pending, hstats, hfirst⟩ := hallow
      exact h.exitWrite hstats hfirst
  | loadStat field => exact h.loadStat hallow hgrant
  | storeStat field value => exact h.storeStat hallow
  | _ => exact hfree rfl rfl

theorem Counted.step {s' : Ledger ι} (h : s.Counted) (hstep : s.Step s') : s'.Counted := by
  cases hstep with
  | call t op r hallow hgrant => exact h.call hallow hgrant
  | part t part hended hnext =>
    have htable := hended.rests.table
    exact h.quiet (contributes_part hended hnext)
      (congrArg (s.sections + ·) (countThreads_update_same
      (iff_of_false (not_operates_of_nothing htable) (not_operates_of_nothing htable)))) rfl rfl rfl

end Ledger

end ChainTable
