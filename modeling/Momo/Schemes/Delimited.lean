import Mathlib

/-! @scheme delimited | family:unambiguous text

    Text cut by a delimiter. A concatenation determines its parts when the delimiter between two of
    them cannot stand inside the first, or cannot stand inside the second:

        first ++ d :: rest      d not in first:  cut at the first d
        front ++ d :: last      d not in last:   cut at the last d -/

namespace Momo.Delimited

variable {α : Type} {d : α}

theorem cut_first : ∀ {first first' rest rest' : List α}, d ∉ first → d ∉ first' →
    first ++ d :: rest = first' ++ d :: rest' → first = first' ∧ rest = rest'
  | [], [], _, _, _, _, h => ⟨rfl, (List.cons.inj h).2⟩
  | [], b :: _, _, _, _, hb, h => absurd ((List.cons.inj h).1 ▸ List.mem_cons_self) hb
  | b :: _, [], _, _, hb, _, h => absurd ((List.cons.inj h).1 ▸ List.mem_cons_self) hb
  | b :: first, b' :: first', _, _, hb, hb', h => by
    obtain ⟨rfl, htail⟩ := List.cons.inj h
    obtain ⟨rfl, hrest⟩ := cut_first (fun hm => hb (List.mem_cons_of_mem _ hm))
      (fun hm => hb' (List.mem_cons_of_mem _ hm)) htail
    exact ⟨rfl, hrest⟩

theorem cut_last {front front' last last' : List α} (h : d ∉ last) (h' : d ∉ last')
    (heq : front ++ d :: last = front' ++ d :: last') : front = front' ∧ last = last' := by
  have hrev := congrArg List.reverse heq
  simp only [List.reverse_append, List.reverse_cons, List.append_assoc, List.singleton_append] at hrev
  obtain ⟨hlast, hfront⟩ := cut_first (by simpa using h) (by simpa using h') hrev
  exact ⟨List.reverse_injective hfront, List.reverse_injective hlast⟩

theorem exists_mem_splitOn [DecidableEq α] {c : α} {s : List α} (hne : c ≠ d) (h : c ∈ s) :
    ∃ part ∈ s.splitOn d, c ∈ part := by
  induction s with
  | nil => cases h
  | cons b s ih =>
    rw [List.splitOn_cons_eq_if_modifyHead]
    split_ifs with hb
    · have hs : c ∈ s := (List.mem_cons.mp h).resolve_left fun hcb => hne (by simpa [hcb] using hb)
      obtain ⟨part, hpart, hc⟩ := ih hs
      exact ⟨part, List.mem_cons_of_mem _ hpart, hc⟩
    · rcases hsplit : s.splitOn d with _ | ⟨q, qs⟩
      · exact absurd hsplit (List.splitOn_ne_nil _ _)
      · rw [List.modifyHead_cons]
        rcases List.mem_cons.mp h with rfl | hs
        · exact ⟨_, List.mem_cons_self, List.mem_cons_self⟩
        · obtain ⟨part, hpart, hc⟩ := ih hs
          rw [hsplit] at hpart
          rcases List.mem_cons.mp hpart with rfl | hpart
          · exact ⟨_, List.mem_cons_self, List.mem_cons_of_mem _ hc⟩
          · exact ⟨part, List.mem_cons_of_mem _ hpart, hc⟩

end Momo.Delimited
