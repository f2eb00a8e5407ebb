-- SUMMARY: Sorted association lists and arrays of them indexed by a hash, as representations of finite maps.
import Mathlib

/-!
# Hashed sorted association lists

A bucket is an association list in strictly increasing order of its keys. An
array of buckets together with a function that places every key in one of them
represents a finite map, Mathlib's `Finmap`. Insertion and removal touch only
the bucket of their key; the lemmas below give the map they leave, the number of
bindings, and that a map has one representation only.
-/

namespace Base

variable {κ β : Type} [LinearOrder κ]

/-- An association list with keys `κ` and values `β`. -/
abbrev Bucket (κ β : Type) := List (Σ _ : κ, β)

namespace Bucket

/-- Strictly increasing keys. In particular no key occurs twice. -/
def Sorted (b : Bucket κ β) : Prop := b.Pairwise fun e e' => e.1 < e'.1

/-- Insert in key order, replacing the binding of an equal key. -/
def insert (k : κ) (v : β) : Bucket κ β → Bucket κ β
  | [] => [⟨k, v⟩]
  | e :: b =>
    if k = e.1 then ⟨k, v⟩ :: b
    else if k < e.1 then ⟨k, v⟩ :: e :: b
    else e :: insert k v b

theorem Sorted.nodupKeys {b : Bucket κ β} (h : b.Sorted) : b.NodupKeys :=
  List.nodupKeys_iff_pairwise.2 (h.imp ne_of_lt)

theorem sorted_nil : Sorted ([] : Bucket κ β) := List.Pairwise.nil

theorem mem_insert {k : κ} {v : β} {e : Σ _ : κ, β} {b : Bucket κ β}
    (h : e ∈ insert k v b) : e = ⟨k, v⟩ ∨ e ∈ b := by
  induction b with
  | nil => simpa [insert] using h
  | cons e' b ih =>
    rw [insert] at h
    split_ifs at h <;> grind

theorem Sorted.insert {b : Bucket κ β} (h : b.Sorted) (k : κ) (v : β) :
    (insert k v b).Sorted := by
  induction b with
  | nil => simp [Bucket.insert, Sorted]
  | cons e b ih =>
    obtain ⟨hhead, htail⟩ := List.pairwise_cons.1 h
    rw [Bucket.insert]
    split_ifs with heq hlt
    · subst heq
      exact List.pairwise_cons.2 ⟨hhead, htail⟩
    · refine List.pairwise_cons.2 ⟨fun e' he' => ?_, h⟩
      rcases List.mem_cons.1 he' with rfl | he'
      · exact hlt
      · exact hlt.trans (hhead e' he')
    · refine List.pairwise_cons.2 ⟨fun e' he' => ?_, ih htail⟩
      rcases mem_insert he' with rfl | he'
      · exact lt_of_le_of_ne (not_lt.1 hlt) (Ne.symm heq)
      · exact hhead e' he'

theorem Sorted.kerase {b : Bucket κ β} (h : b.Sorted) (k : κ) : Sorted (List.kerase k b) :=
  h.sublist (List.kerase_sublist k b)

@[simp] theorem dlookup_insert_self (k : κ) (v : β) (b : Bucket κ β) :
    (insert k v b).dlookup k = some v := by
  induction b with
  | nil => simp [insert]
  | cons e b ih =>
    rw [insert]
    split_ifs with heq hlt
    · simp
    · simp
    · rw [List.dlookup_cons_ne _ _ heq, ih]

theorem dlookup_insert_ne {k k' : κ} (hne : k' ≠ k) (v : β) (b : Bucket κ β) :
    (insert k v b).dlookup k' = b.dlookup k' := by
  induction b with
  | nil => rw [insert, List.dlookup_cons_ne _ _ hne]
  | cons e b ih =>
    rw [insert]
    split_ifs with heq hlt
    · rw [List.dlookup_cons_ne _ _ hne, List.dlookup_cons_ne _ _ (heq ▸ hne)]
    · rw [List.dlookup_cons_ne _ _ hne]
    · obtain ⟨k₀, v₀⟩ := e
      by_cases hk : k' = k₀
      · subst hk
        simp
      · rw [List.dlookup_cons_ne _ _ hk, List.dlookup_cons_ne _ _ hk, ih]

/-- A sorted list is determined by its lookups. -/
theorem Sorted.ext {b b' : Bucket κ β} (h : b.Sorted) (h' : b'.Sorted)
    (hlookup : ∀ k, b.dlookup k = b'.dlookup k) : b = b' := by
  have hperm : b.Perm b' :=
    List.lookup_ext h.nodupKeys h'.nodupKeys fun k v => by rw [hlookup k]
  exact hperm.eq_of_pairwise (fun e e' _ _ hlt hlt' => absurd hlt (lt_asymm hlt')) h h'

end Bucket

namespace Bucket

/-- Bind the keys of an association list one after the other. -/
def insertAll (b : Bucket κ β) (m : Finmap fun _ : κ => β) : Finmap fun _ : κ => β :=
  b.foldl (fun m e => m.insert e.1 e.2) m

theorem insertAll_cons (e : Σ _ : κ, β) (b : Bucket κ β) (m : Finmap fun _ : κ => β) :
    insertAll (e :: b) m = insertAll b (m.insert e.1 e.2) := rfl

/-- With distinct keys no binding of the list is lost. -/
theorem lookup_insertAll {b : Bucket κ β} (hb : b.NodupKeys) (m : Finmap fun _ : κ => β) (k : κ) :
    (b.insertAll m).lookup k = (b.dlookup k).or (m.lookup k) := by
  induction b generalizing m with
  | nil => rfl
  | cons e b ih =>
    obtain ⟨hfresh, hrest⟩ := List.nodupKeys_cons.1 hb
    rw [insertAll_cons, ih hrest]
    by_cases hk : k = e.1
    · subst hk
      rw [List.dlookup_eq_none.2 hfresh, Finmap.lookup_insert, List.dlookup_cons_eq]
      rfl
    · rw [Finmap.lookup_insert_of_ne m hk, List.dlookup_cons_ne _ _ hk]

/-- In whatever order they are bound, the entries of a map make the map again. -/
theorem insertAll_perm {b b' : Bucket κ β} (hb : b.NodupKeys) (h : b'.Perm b) :
    insertAll b' ∅ = b.toFinmap := by
  have hb' : b'.NodupKeys := (List.perm_nodupKeys h).2 hb
  refine Finmap.ext_lookup fun k => ?_
  rw [lookup_insertAll hb', Finmap.lookup_empty, Option.or_none, Finmap.dlookup_list_toFinmap,
    List.perm_dlookup k hb' h]

end Bucket

/-! ## Arrays of buckets -/

/-- An array of buckets. -/
abbrev Buckets (κ β : Type) := List (Bucket κ β)

namespace Buckets

/-- `bs` represents a map under the placement `place`: every bucket is sorted,
    every key belongs to an existing bucket, and an entry is only in the bucket
    of its key. -/
structure Placed (place : κ → ℕ) (bs : Buckets κ β) : Prop where
  sorted : ∀ b ∈ bs, b.Sorted
  inRange : ∀ k, place k < bs.length
  placed : ∀ {i : ℕ} {b : Bucket κ β}, bs[i]? = some b → ∀ e ∈ b, place e.1 = i

/-- The map that the entries of all buckets make up. -/
def toMap (bs : Buckets κ β) : Finmap fun _ : κ => β := bs.flatten.toFinmap

variable {place : κ → ℕ} {bs : Buckets κ β}

theorem Placed.nodupKeys (h : Placed place bs) : bs.flatten.NodupKeys := by
  refine List.nodupKeys_flatten.2 ⟨fun b hb => (h.sorted b hb).nodupKeys, ?_⟩
  rw [List.pairwise_map, List.pairwise_iff_getElem]
  intro i j hi hj hij k hki hkj
  obtain ⟨v, hv⟩ := List.exists_of_mem_keys hki
  obtain ⟨w, hw⟩ := List.exists_of_mem_keys hkj
  have h1 : place k = i := h.placed (List.getElem?_eq_getElem hi) _ hv
  have h2 : place k = j := h.placed (List.getElem?_eq_getElem hj) _ hw
  omega

/-- Looking a key up in the map is looking it up in its bucket. -/
theorem Placed.lookup_toMap (h : Placed place bs) {k : κ} {b : Bucket κ β}
    (hb : bs[place k]? = some b) : bs.toMap.lookup k = b.dlookup k := by
  have hbmem : b ∈ bs := List.mem_of_getElem? hb
  rw [toMap, Finmap.dlookup_list_toFinmap]
  ext v
  simp only [← Option.mem_def]
  rw [List.mem_dlookup_iff h.nodupKeys, List.mem_dlookup_iff (h.sorted b hbmem).nodupKeys]
  constructor
  · intro hmem
    obtain ⟨b', hb', he⟩ := List.mem_flatten.1 hmem
    obtain ⟨i, hi⟩ := List.mem_iff_getElem?.1 hb'
    obtain rfl : place k = i := h.placed hi _ he
    obtain rfl : b = b' := Option.some.inj (hb.symm.trans hi)
    exact he
  · exact fun he => List.mem_flatten.2 ⟨b, hbmem, he⟩

theorem Placed.getElem? (h : Placed place bs) (k : κ) : ∃ b, bs[place k]? = some b :=
  ⟨_, List.getElem?_eq_getElem (h.inRange k)⟩

/-- Replacing the bucket of `k` by a sorted one with keys placed there keeps the
    representation. -/
theorem Placed.set (h : Placed place bs) {k : κ} {b : Bucket κ β} (hsorted : b.Sorted)
    (hplaced : ∀ e ∈ b, place e.1 = place k) : Placed place (bs.set (place k) b) where
  sorted b' hb' := by
    rcases List.mem_or_eq_of_mem_set hb' with hb' | rfl
    · exact h.sorted b' hb'
    · exact hsorted
  inRange k' := by simpa using h.inRange k'
  placed {i b'} hi e he := by
    by_cases hik : place k = i
    · subst hik
      rw [List.getElem?_set_self (h.inRange k)] at hi
      obtain rfl := Option.some.inj hi
      exact hplaced e he
    · rw [List.getElem?_set_ne hik] at hi
      exact h.placed hi e he

/-- After replacing the bucket of `k`, a key is looked up in the new bucket when
    it is placed there, and as before otherwise. -/
theorem Placed.lookup_set (h : Placed place bs) {k : κ} {b : Bucket κ β} (hsorted : b.Sorted)
    (hplaced : ∀ e ∈ b, place e.1 = place k) (k' : κ) :
    (toMap (bs.set (place k) b)).lookup k' =
      if place k' = place k then b.dlookup k' else bs.toMap.lookup k' := by
  have hset := h.set hsorted hplaced
  split_ifs with hk
  · refine hset.lookup_toMap ?_
    rw [hk, List.getElem?_set_self (h.inRange k)]
  · obtain ⟨b', hb'⟩ := h.getElem? k'
    rw [h.lookup_toMap hb']
    refine hset.lookup_toMap ?_
    rwa [List.getElem?_set_ne (Ne.symm hk)]

section Operations

variable (h : Placed place bs) {k : κ} {b : Bucket κ β} (hb : bs[place k]? = some b)
include h hb

theorem Placed.insert (v : β) : Placed place (bs.set (place k) (b.insert k v)) := by
  refine h.set ((h.sorted b (List.mem_of_getElem? hb)).insert k v) fun e he => ?_
  rcases Bucket.mem_insert he with rfl | he
  · rfl
  · exact h.placed hb e he

theorem Placed.erase : Placed place (bs.set (place k) (b.kerase k)) :=
  h.set ((h.sorted b (List.mem_of_getElem? hb)).kerase k) fun e he =>
    h.placed hb e ((List.kerase_sublist k b).subset he)

/-- Inserting into the bucket of `k` binds `k` in the map. -/
theorem Placed.toMap_insert (v : β) :
    toMap (bs.set (place k) (b.insert k v)) = bs.toMap.insert k v := by
  refine Finmap.ext_lookup fun k' => ?_
  have hbucket : ∀ e ∈ b.insert k v, place e.1 = place k := fun e he => by
    rcases Bucket.mem_insert he with rfl | he
    · rfl
    · exact h.placed hb e he
  rw [h.lookup_set ((h.sorted b (List.mem_of_getElem? hb)).insert k v) hbucket]
  by_cases hk : k' = k
  · subst hk
    simp [Finmap.lookup_insert]
  · rw [Finmap.lookup_insert_of_ne _ hk, Bucket.dlookup_insert_ne hk]
    split_ifs with hplace
    · exact (h.lookup_toMap (hplace ▸ hb)).symm
    · rfl

/-- Erasing from the bucket of `k` unbinds `k` in the map. -/
theorem Placed.toMap_erase : toMap (bs.set (place k) (b.kerase k)) = bs.toMap.erase k := by
  refine Finmap.ext_lookup fun k' => ?_
  have hbsorted := h.sorted b (List.mem_of_getElem? hb)
  rw [h.lookup_set (hbsorted.kerase k) fun e he =>
    h.placed hb e ((List.kerase_sublist k b).subset he)]
  by_cases hk : k' = k
  · subst hk
    simp [Finmap.lookup_erase, List.dlookup_kerase _ hbsorted.nodupKeys]
  · rw [Finmap.lookup_erase_ne hk, List.dlookup_kerase_ne hk]
    split_ifs with hplace
    · exact (h.lookup_toMap (hplace ▸ hb)).symm
    · rfl

end Operations

/-- The number of entries is the number of bound keys. -/
theorem Placed.card_keys (h : Placed place bs) : bs.toMap.keys.card = bs.flatten.length := by
  have hkeys : bs.toMap.keys = bs.flatten.keys.toFinset := by
    ext k
    rw [Finmap.mem_keys, toMap, Finmap.mem_list_toFinmap, List.mem_toFinset, List.mem_keys]
  rw [hkeys, List.toFinset_card_of_nodup h.nodupKeys, List.keys, List.length_map]

/-- Empty buckets represent the empty map. -/
theorem placed_replicate {n : ℕ} (hrange : ∀ k, place k < n) :
    Placed place (List.replicate n ([] : Bucket κ β)) where
  sorted b hb := by
    obtain rfl := List.eq_of_mem_replicate hb
    exact Bucket.sorted_nil
  inRange k := by simpa using hrange k
  placed {i b} hi e he := by
    obtain rfl := List.eq_of_mem_replicate (List.mem_of_getElem? hi)
    cases he

theorem toMap_replicate (n : ℕ) : toMap (List.replicate n ([] : Bucket κ β)) = ∅ := by
  have hflat : (List.replicate n ([] : Bucket κ β)).flatten = [] := by simp
  rw [toMap, hflat, Finmap.toFinmap_nil]

/-- A map has one representation for a given number of buckets and placement. -/
theorem Placed.ext {bs' : Buckets κ β} (h : Placed place bs) (h' : Placed place bs')
    (hlength : bs.length = bs'.length) (hmap : bs.toMap = bs'.toMap) : bs = bs' := by
  refine List.ext_getElem hlength fun i hi hi' => ?_
  have hb := List.getElem?_eq_getElem hi
  have hb' := List.getElem?_eq_getElem hi'
  refine (h.sorted _ (List.getElem_mem hi)).ext (h'.sorted _ (List.getElem_mem hi')) fun k => ?_
  by_cases hk : place k = i
  · subst hk
    rw [← h.lookup_toMap hb, ← h'.lookup_toMap hb', hmap]
  · -- a key placed elsewhere is in neither bucket
    have hnone : ∀ {cs : Buckets κ β} {c : Bucket κ β}, Placed place cs → cs[i]? = some c →
        c.dlookup k = none := by
      intro cs c hcs hc
      refine List.dlookup_eq_none.2 fun hmem => ?_
      obtain ⟨v, hv⟩ := List.exists_of_mem_keys hmem
      exact hk (hcs.placed hc _ hv)
    rw [hnone h hb, hnone h' hb']

end Buckets

end Base
