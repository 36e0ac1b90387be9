import Mathlib

/-! @scheme prefix-scan | family:key-value

    Range scans by prefix. In the order of a database that compares keys byte by byte, the keys that
    begin with `p` are an interval that starts at `p`. So a cursor that seeks `p` and stops at the
    first key without the prefix finds all of them and no other. -/

namespace Momo.PrefixScan

variable {α V : Type} [LinearOrder α]

theorem not_lt_of_prefix : ∀ {p k : List α}, p <+: k → ¬ k < p
  | [], k, _ => List.not_lt_nil k
  | a :: p, k, h => by
      obtain ⟨t, rfl⟩ := h
      rw [List.cons_append, List.cons_lt_cons_iff]
      rintro (hlt | ⟨-, hlt⟩)
      · exact lt_irrefl a hlt
      · exact not_lt_of_prefix (List.prefix_append p t) hlt

theorem prefix_of_between : ∀ {p k k' : List α}, ¬ k < p → k < k' → p <+: k' → p <+: k
  | [], k, _, _, _, _ => List.nil_prefix
  | a :: p, [], _, hge, _, _ => absurd (List.nil_lt_cons a p) hge
  | a :: p, c :: k, k', hge, hlt, hpre => by
      obtain ⟨t, rfl⟩ := hpre
      rw [List.cons_append, List.cons_lt_cons_iff] at hlt
      rw [List.cons_lt_cons_iff] at hge
      rcases hlt with hca | ⟨rfl, hlt⟩
      · exact absurd (Or.inl hca) hge
      · have hge' : ¬ k < p := fun h => hge (Or.inr ⟨rfl, h⟩)
        exact (List.prefix_cons_inj _).mpr (prefix_of_between hge' hlt (List.prefix_append p t))

theorem takeWhile_prefix {p : List α} : ∀ {l : List (List α × V)},
    l.Pairwise (fun a b => a.1 < b.1) → (∀ e ∈ l, ¬ e.1 < p) →
    l.takeWhile (fun e => p <+: e.1) = l.filter (fun e => p <+: e.1)
  | [], _, _ => rfl
  | e :: l, hs, hl => by
      obtain ⟨he, hs⟩ := List.pairwise_cons.mp hs
      have ih := takeWhile_prefix hs (fun e' he' => hl e' (List.mem_cons_of_mem _ he'))
      by_cases hp : p <+: e.1
      · rw [List.takeWhile_cons_of_pos (by simpa using hp), List.filter_cons_of_pos (by simpa using hp),
          ih]
      · rw [List.takeWhile_cons_of_neg (by simpa using hp), List.filter_cons_of_neg (by simpa using hp),
          eq_comm, List.filter_eq_nil_iff]
        intro e' he' hp'
        exact hp (prefix_of_between (hl e (List.mem_cons_self ..)) (he e' he') (by simpa using hp'))

theorem not_lt_of_mem_seek {p : List α} : ∀ {l : List (List α × V)},
    l.Pairwise (fun a b => a.1 < b.1) → ∀ e ∈ l.dropWhile (fun e => e.1 < p), ¬ e.1 < p
  | [], _, e, he => by cases he
  | a :: l, hs, e, he => by
      obtain ⟨ha, hs⟩ := List.pairwise_cons.mp hs
      by_cases hlt : a.1 < p
      · rw [List.dropWhile_cons_of_pos (by simpa using hlt)] at he
        exact not_lt_of_mem_seek hs e he
      · rw [List.dropWhile_cons_of_neg (by simpa using hlt)] at he
        rcases List.mem_cons.mp he with rfl | hmem
        · exact hlt
        · exact fun h => hlt (lt_trans (ha e hmem) h)

theorem takeWhile_seek {p : List α} : ∀ {l : List (List α × V)},
    l.Pairwise (fun a b => a.1 < b.1) →
    (l.dropWhile (fun e => e.1 < p)).takeWhile (fun e => p <+: e.1) =
      l.filter (fun e => p <+: e.1)
  | [], _ => rfl
  | e :: l, hs => by
      by_cases hlt : e.1 < p
      · have hp : ¬ p <+: e.1 := fun h => not_lt_of_prefix h hlt
        rw [List.dropWhile_cons_of_pos (by simpa using hlt),
          List.filter_cons_of_neg (by simpa using hp)]
        exact takeWhile_seek (List.pairwise_cons.mp hs).2
      · have hseek := not_lt_of_mem_seek (p := p) hs
        rw [List.dropWhile_cons_of_neg (by simpa using hlt)] at hseek ⊢
        exact takeWhile_prefix hs hseek

end Momo.PrefixScan
