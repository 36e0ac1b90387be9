import Mathlib

/-! @scheme ordered-map | family:key-value

    A finite map kept as a list of pairs with strictly increasing keys — the shape of one bucket of
    an embedded key-value database: point reads, overwriting writes, idempotent deletes, and a
    cursor that walks the keys in order. The sortedness proof is a field, so a bucket with a
    duplicated or misplaced key cannot be built and two buckets with the same reads are equal. -/

namespace Momo

structure OMap (K V : Type) [LinearOrder K] where
  entries : List (K × V)
  sorted : entries.Pairwise (fun a b => a.1 < b.1)

namespace OMap

variable {K V : Type} [LinearOrder K]

/-- First value stored under `k`. -/
def lookup (k : K) : List (K × V) → Option V
  | [] => none
  | e :: es => if e.1 = k then some e.2 else lookup k es

/-- Write `(k, v)` at its place, replacing an entry of the same key. -/
def place (k : K) (v : V) : List (K × V) → List (K × V)
  | [] => [(k, v)]
  | e :: es =>
    if k < e.1 then (k, v) :: e :: es
    else if k = e.1 then (k, v) :: es
    else e :: place k v es

variable {k : K} {v : V}

theorem mem_place : ∀ {l : List (K × V)} {e : K × V},
    e ∈ place k v l → e = (k, v) ∨ e ∈ l
  | [], e, h => by simpa [place] using h
  | a :: l, e, h => by
      unfold place at h
      split_ifs at h with h1 h2
      · simpa using h
      · rcases List.mem_cons.mp h with h | h
        · exact Or.inl h
        · exact Or.inr (List.mem_cons_of_mem _ h)
      · rcases List.mem_cons.mp h with h | h
        · exact Or.inr (h ▸ List.mem_cons_self ..)
        · exact (mem_place h).imp_right (List.mem_cons_of_mem _)

theorem sorted_place (k : K) (v : V) : ∀ {l : List (K × V)},
    l.Pairwise (fun a b => a.1 < b.1) → (place k v l).Pairwise (fun a b => a.1 < b.1)
  | [], _ => by simp [place]
  | a :: l, h => by
      obtain ⟨ha, hl⟩ := List.pairwise_cons.mp h
      unfold place
      split_ifs with h1 h2
      · refine List.pairwise_cons.mpr ⟨fun e he => ?_, h⟩
        rcases List.mem_cons.mp he with rfl | he
        · exact h1
        · exact lt_trans h1 (ha e he)
      · exact List.pairwise_cons.mpr ⟨fun e he => h2 ▸ ha e he, hl⟩
      · refine List.pairwise_cons.mpr ⟨fun e he => ?_, sorted_place k v hl⟩
        rcases mem_place he with rfl | he
        · exact lt_of_le_of_ne (not_lt.mp h1) (Ne.symm h2)
        · exact ha e he

theorem lookup_place (k k' : K) (v : V) : ∀ l : List (K × V),
    lookup k' (place k v l) = if k' = k then some v else lookup k' l
  | [] => by simp [place, lookup, eq_comm]
  | a :: l => by
      have ih := lookup_place k k' v l
      unfold place
      by_cases h1 : k < a.1
      · rw [if_pos h1, lookup]; simp only [eq_comm]
      rw [if_neg h1]
      by_cases h2 : k = a.1
      · rw [if_pos h2, lookup, lookup, h2]
        by_cases h3 : a.1 = k'
        · rw [if_pos h3, if_pos h3.symm]
        · rw [if_neg h3, if_neg (Ne.symm h3), if_neg h3]
      · rw [if_neg h2, lookup, lookup, ih]
        by_cases h3 : a.1 = k'
        · rw [if_pos h3, if_neg (fun h => h2 (h3.trans h).symm), if_pos h3]
        · rw [if_neg h3, if_neg h3]

theorem lookup_filter (k k' : K) : ∀ l : List (K × V),
    lookup k' (l.filter (fun e => e.1 ≠ k)) = if k' = k then none else lookup k' l
  | [] => by simp [lookup]
  | a :: l => by
      have ih := lookup_filter k k' l
      by_cases ha : a.1 = k
      · rw [List.filter_cons_of_neg (by simp [ha]), ih]
        split_ifs with hk
        · rfl
        · rw [lookup, if_neg (fun h => hk (h.symm.trans ha))]
      · rw [List.filter_cons_of_pos (by simp [ha]), lookup, lookup, ih]
        split_ifs with h1 h2 h2
        · exact absurd (h1.trans h2) ha
        · rfl
        · rfl
        · rfl

theorem mem_iff_lookup : ∀ {l : List (K × V)},
    l.Pairwise (fun a b => a.1 < b.1) → ((k, v) ∈ l ↔ lookup k l = some v)
  | [], _ => by simp [lookup]
  | a :: l, h => by
      obtain ⟨ha, hl⟩ := List.pairwise_cons.mp h
      rw [List.mem_cons, mem_iff_lookup hl, lookup]
      split_ifs with hk
      · have hno : lookup k l ≠ some v := fun hc =>
          absurd (ha _ ((mem_iff_lookup hl).mpr hc)) (by simp [hk])
        simp only [hno, or_false, Option.some.injEq]
        constructor
        · rintro rfl; rfl
        · rintro rfl; rw [← hk]
      · have : (k, v) ≠ a := by rintro rfl; exact hk rfl
        simp [this]

/-! ### The map operations -/

def empty : OMap K V := ⟨[], List.Pairwise.nil⟩

def get (m : OMap K V) (k : K) : Option V := lookup k m.entries

def put (m : OMap K V) (k : K) (v : V) : OMap K V := ⟨place k v m.entries, sorted_place k v m.sorted⟩

def del (m : OMap K V) (k : K) : OMap K V :=
  ⟨m.entries.filter (fun e => e.1 ≠ k), m.sorted.filter _⟩

/-- Keep the entries that satisfy `p` (one cursor pass with deletes). -/
def prune (m : OMap K V) (p : K → V → Bool) : OMap K V :=
  ⟨m.entries.filter (fun e => p e.1 e.2), m.sorted.filter _⟩

/-- How many entries satisfy `p`. -/
def count (m : OMap K V) (p : K → V → Bool) : ℕ := m.entries.countP (fun e => p e.1 e.2)

@[simp] theorem get_empty (k : K) : (empty : OMap K V).get k = none := rfl

theorem get_put (m : OMap K V) (k k' : K) (v : V) :
    (m.put k v).get k' = if k' = k then some v else m.get k' := lookup_place k k' v m.entries

@[simp] theorem get_put_self (m : OMap K V) (k : K) (v : V) : (m.put k v).get k = some v := by
  rw [get_put, if_pos rfl]

variable {k' : K}

theorem get_put_ne (m : OMap K V) (v : V) (h : k' ≠ k) : (m.put k v).get k' = m.get k' := by
  rw [get_put, if_neg h]

theorem get_del (m : OMap K V) (k k' : K) :
    (m.del k).get k' = if k' = k then none else m.get k' := lookup_filter k k' m.entries

@[simp] theorem get_del_self (m : OMap K V) (k : K) : (m.del k).get k = none := by
  rw [get_del, if_pos rfl]

theorem get_del_ne (m : OMap K V) (h : k' ≠ k) : (m.del k).get k' = m.get k' := by
  rw [get_del, if_neg h]

variable {m : OMap K V}

theorem get_of_get_del (h : (m.del k).get k' = some v) : m.get k' = some v := by
  rw [get_del] at h
  split_ifs at h
  exact h

theorem place_of_lt : ∀ {l : List (K × V)}, (∀ e ∈ l, e.1 < k) →
    place k v l = l ++ [(k, v)]
  | [], _ => rfl
  | a :: l, h => by
      have ha : a.1 < k := h a (List.mem_cons_self ..)
      rw [place, if_neg (not_lt.mpr ha.le), if_neg ha.ne', List.cons_append,
        place_of_lt (fun e he => h e (List.mem_cons_of_mem _ he))]

theorem entries_put_last (m : OMap K V) (v : V) (h : ∀ e ∈ m.entries, e.1 < k) :
    (m.put k v).entries = m.entries ++ [(k, v)] := place_of_lt h

theorem mem_entries (m : OMap K V) : (k, v) ∈ m.entries ↔ m.get k = some v :=
  mem_iff_lookup m.sorted

theorem get_prune (m : OMap K V) (p : K → V → Bool) (k : K) :
    (m.prune p).get k = (m.get k).filter (fun v => p k v) := by
  have key : ∀ v, (m.prune p).get k = some v ↔ (m.get k).filter (fun v => p k v) = some v := by
    intro v
    rw [← mem_entries, Option.filter_eq_some_iff, ← mem_entries]
    exact List.mem_filter
  exact Option.ext key

@[ext] theorem ext {m m' : OMap K V} (h : ∀ k, m.get k = m'.get k) : m = m' := by
  have hmem : ∀ e : K × V, e ∈ m.entries ↔ e ∈ m'.entries := by
    rintro ⟨k, v⟩
    rw [mem_entries, mem_entries, h k]
  have hnd : ∀ m : OMap K V, m.entries.Nodup := fun m =>
    m.sorted.imp (fun hab he => absurd hab (by simp [he]))
  have hperm : m.entries.Perm m'.entries := (List.perm_ext_iff_of_nodup (hnd m) (hnd m')).mpr hmem
  have heq : m.entries = m'.entries :=
    hperm.eq_of_pairwise (fun a b _ _ hab hba => absurd (lt_trans hab hba) (lt_irrefl _))
      m.sorted m'.sorted
  cases m; cases m'; simp only at heq; subst heq; rfl

/-! ### Counting entries -/

def hit (m : OMap K V) (p : K → V → Bool) (k : K) : ℕ :=
  match m.get k with
  | some v => if p k v then 1 else 0
  | none => 0

theorem countP_filter_add (k : K) (p : K → V → Bool) : ∀ {l : List (K × V)},
    l.Pairwise (fun a b => a.1 < b.1) →
    (l.filter (fun e => e.1 ≠ k)).countP (fun e => p e.1 e.2) +
      (match lookup k l with | some v => if p k v then 1 else 0 | none => 0)
      = l.countP (fun e => p e.1 e.2)
  | [], _ => by simp [lookup]
  | a :: l, h => by
      obtain ⟨ha, hl⟩ := List.pairwise_cons.mp h
      have ih := countP_filter_add k p hl
      by_cases hk : a.1 = k
      · -- the head is the key: sortedness keeps it out of the tail
        have hno : lookup k l = none := by
          by_contra hc
          obtain ⟨v, hv⟩ := Option.ne_none_iff_exists'.mp hc
          exact absurd (ha _ ((mem_iff_lookup hl).mpr hv)) (by simp [hk])
        rw [hno] at ih
        rw [List.filter_cons_of_neg (by simp [hk]), lookup, if_pos hk, List.countP_cons, ← ih, ← hk]
        simp
      · rw [List.filter_cons_of_pos (by simp [hk]), lookup, if_neg hk, List.countP_cons,
          List.countP_cons, ← ih]
        omega

theorem count_del (m : OMap K V) (p : K → V → Bool) (k : K) :
    (m.del k).count p + m.hit p k = m.count p :=
  countP_filter_add k p m.sorted

theorem del_put (m : OMap K V) (k : K) (v : V) : (m.put k v).del k = m.del k := by
  apply OMap.ext
  intro k'
  rw [get_del, get_del]
  split_ifs with h
  · rfl
  · exact get_put_ne m v h

theorem count_put (m : OMap K V) (p : K → V → Bool) (k : K) (v : V) :
    (m.put k v).count p + m.hit p k = m.count p + if p k v then 1 else 0 := by
  have h1 := count_del (m.put k v) p k
  have h2 := count_del m p k
  have h3 : (m.put k v).hit p k = if p k v then 1 else 0 := by simp [hit]
  rw [del_put, h3] at h1
  omega

theorem hit_le_count (m : OMap K V) (p : K → V → Bool) (k : K) : m.hit p k ≤ m.count p := by
  have := count_del m p k
  omega

variable {p : K → V → Bool}

theorem hit_of_get (h : m.get k = some v) (hp : p k v = true) : m.hit p k = 1 := by
  simp [hit, h, hp]

theorem count_eq_zero (h : ∀ k v, m.get k = some v → p k v = false) : m.count p = 0 := by
  rw [count, List.countP_eq_zero]
  rintro ⟨k, v⟩ hkv
  simp [h k v ((mem_entries m).mp hkv)]

theorem count_pos_of_get (h : m.get k = some v) (hp : p k v = true) : 0 < m.count p := by
  have := hit_le_count m p k
  rw [hit_of_get h hp] at this
  omega

/-! ### The largest value over a cursor pass -/

/-- The largest `f` over all entries, 0 when there are none: a running maximum. -/
def maxOver (m : OMap K V) (f : K → V → ℕ) : ℕ := m.entries.foldl (fun acc e => max acc (f e.1 e.2)) 0

omit [LinearOrder K] in
theorem foldl_max_le (f : K → V → ℕ) {n : ℕ} : ∀ (l : List (K × V)) (acc : ℕ), acc ≤ n →
    (∀ e ∈ l, f e.1 e.2 ≤ n) → l.foldl (fun acc e => max acc (f e.1 e.2)) acc ≤ n
  | [], _, hacc, _ => hacc
  | e :: l, acc, hacc, h =>
    foldl_max_le f l (max acc (f e.1 e.2)) (max_le hacc (h e (List.mem_cons_self ..)))
      (fun e' he' => h e' (List.mem_cons_of_mem _ he'))

omit [LinearOrder K] in
theorem le_foldl_max (f : K → V → ℕ) : ∀ (l : List (K × V)) (acc : ℕ),
    acc ≤ l.foldl (fun acc e => max acc (f e.1 e.2)) acc ∧
      ∀ e ∈ l, f e.1 e.2 ≤ l.foldl (fun acc e => max acc (f e.1 e.2)) acc
  | [], acc => ⟨le_rfl, by simp⟩
  | e :: l, acc => by
      obtain ⟨h1, h2⟩ := le_foldl_max f l (max acc (f e.1 e.2))
      refine ⟨(le_max_left ..).trans h1, fun e' he' => ?_⟩
      rcases List.mem_cons.mp he' with rfl | he'
      · exact (le_max_right ..).trans h1
      · exact h2 e' he'

theorem le_maxOver (f : K → V → ℕ) (h : m.get k = some v) : f k v ≤ m.maxOver f :=
  (le_foldl_max f m.entries 0).2 (k, v) ((mem_entries m).mpr h)

theorem maxOver_le {f : K → V → ℕ} {n : ℕ} (h : ∀ k v, m.get k = some v → f k v ≤ n) :
    m.maxOver f ≤ n :=
  foldl_max_le f m.entries 0 (Nat.zero_le n) (fun e he => h e.1 e.2 ((mem_entries m).mp he))

end OMap

end Momo
