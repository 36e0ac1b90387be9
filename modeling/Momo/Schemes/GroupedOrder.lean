import Mathlib.Data.Finset.Card
import Mathlib.Data.List.Forall2
import Mathlib.Data.List.Infix
import Mathlib.Data.List.Nodup
import Mathlib.Data.List.Sort
import Mathlib.Data.Finset.Union

/-! @scheme grouped order | family:greedy choice

    A ranking of items that fall into groups, reordered: the first item of each group, in the order
    of the ranking, then all the others, in that order again. A prefix of `spreadOrder` is the greedy
    choice of items that spreads over as many groups as it can. -/

namespace Momo

variable {α γ : Type} [DecidableEq γ] (g : α → γ)

/-! ### The order -/

def firsts (used : List γ) : List α → List α × List α
  | [] => ([], [])
  | x :: xs =>
    if g x ∈ used then ((firsts used xs).1, x :: (firsts used xs).2)
    else (x :: (firsts (g x :: used) xs).1, (firsts (g x :: used) xs).2)

def spreadOrder (xs : List α) : List α := (firsts g [] xs).1 ++ (firsts g [] xs).2

variable {g}

theorem firsts_congr {used used' : List γ} (h : ∀ c, c ∈ used ↔ c ∈ used') (xs : List α) :
    firsts g used xs = firsts g used' xs := by
  induction xs generalizing used used' with
  | nil => rfl
  | cons x xs ih =>
    have hcons : ∀ c, c ∈ g x :: used ↔ c ∈ g x :: used' := fun c => by simp [h c]
    simp only [firsts, h, ih h, ih hcons]

variable {c : γ} {xs : List α}

theorem firsts_unused (hc : c ∉ xs.map g) (used : List γ) :
    firsts g (c :: used) xs = firsts g used xs := by
  induction xs generalizing used with
  | nil => rfl
  | cons x xs ih =>
    rw [List.map_cons, List.mem_cons, not_or] at hc
    have hx : g x ∈ c :: used ↔ g x ∈ used := by simp [Ne.symm hc.1]
    have hswap : firsts g (g x :: c :: used) xs = firsts g (c :: g x :: used) xs :=
      firsts_congr (fun d => by simp [or_left_comm]) xs
    simp only [firsts, hx, ih hc.2, hswap]

theorem firsts_append (used : List γ) (xs ys : List α) :
    firsts g used (xs ++ ys) =
      ((firsts g used xs).1 ++ (firsts g (xs.map g ++ used) ys).1,
        (firsts g used xs).2 ++ (firsts g (xs.map g ++ used) ys).2) := by
  induction xs generalizing used with
  | nil => rfl
  | cons x xs ih =>
    by_cases hx : g x ∈ used
    · have hused : firsts g ((x :: xs).map g ++ used) ys = firsts g (xs.map g ++ used) ys :=
        firsts_congr (fun c => by
          simp only [List.map_cons, List.cons_append, List.mem_cons, or_iff_right_iff_imp]
          rintro rfl
          exact List.mem_append_right _ hx) ys
      simp only [List.cons_append, firsts, if_pos hx, ih used, hused]
    · have hused : firsts g ((x :: xs).map g ++ used) ys = firsts g (xs.map g ++ g x :: used) ys :=
        firsts_congr (fun c => by simp [or_left_comm]) ys
      simp only [List.cons_append, firsts, if_neg hx, ih (g x :: used), hused]

theorem firsts_perm (used : List γ) (xs : List α) :
    ((firsts g used xs).1 ++ (firsts g used xs).2).Perm xs := by
  induction xs generalizing used with
  | nil => exact List.Perm.refl _
  | cons x xs ih =>
    rw [firsts]
    split_ifs
    · exact List.perm_middle.trans ((ih used).cons x)
    · exact (ih (g x :: used)).cons x

theorem spreadOrder_perm (xs : List α) : (spreadOrder g xs).Perm xs := firsts_perm [] xs

theorem firsts_groups (used : List γ) (xs : List α) :
    ((firsts g used xs).1.map g).Nodup ∧
      ∀ c, c ∈ (firsts g used xs).1.map g ↔ c ∈ xs.map g ∧ c ∉ used := by
  induction xs generalizing used with
  | nil => simp [firsts]
  | cons x xs ih =>
    by_cases hx : g x ∈ used
    · obtain ⟨hnodup, hmem⟩ := ih used
      rw [firsts, if_pos hx]
      refine ⟨hnodup, fun c => (hmem c).trans ?_⟩
      constructor
      · rintro ⟨hc, hused⟩
        exact ⟨List.mem_cons_of_mem _ hc, hused⟩
      · rintro ⟨hc, hused⟩
        rcases List.mem_cons.mp hc with rfl | hc
        · exact absurd hx hused
        · exact ⟨hc, hused⟩
    · obtain ⟨hnodup, hmem⟩ := ih (g x :: used)
      rw [firsts, if_neg hx]
      refine ⟨List.nodup_cons.mpr ⟨fun h => ?_, hnodup⟩, fun c => ?_⟩
      · exact ((hmem _).mp h).2 List.mem_cons_self
      · by_cases hc : c = g x
        · subst hc
          simp [hx]
        · rw [List.map_cons, List.mem_cons, hmem c]
          simp [hc]

def kinds (g : α → γ) (xs : List α) : ℕ := (xs.map g).toFinset.card

theorem length_firsts (xs : List α) : (firsts g [] xs).1.length = kinds g xs := by
  obtain ⟨hnodup, hmem⟩ := firsts_groups (g := g) [] xs
  have hsame : ((firsts g [] xs).1.map g).toFinset = (xs.map g).toFinset := by
    ext c
    simpa using hmem c
  rw [kinds, ← hsame, List.toFinset_card_of_nodup hnodup, List.length_map]

theorem length_others (xs : List α) : (firsts g [] xs).2.length = xs.length - kinds g xs := by
  have := (firsts_perm (g := g) [] xs).length_eq
  rw [List.length_append, length_firsts] at this
  omega

theorem kinds_le_length (xs : List α) : kinds g xs ≤ xs.length := by
  have := List.toFinset_card_le (xs.map g)
  rwa [List.length_map] at this

variable {ys : List α}

theorem kinds_mono (h : ∀ x ∈ xs, x ∈ ys) : kinds g xs ≤ kinds g ys := by
  refine Finset.card_le_card fun c hc => ?_
  rw [List.mem_toFinset, List.mem_map] at hc ⊢
  obtain ⟨x, hx, rfl⟩ := hc
  exact ⟨x, h x hx, rfl⟩

theorem kinds_append_le (xs ys : List α) : kinds g (xs ++ ys) ≤ kinds g xs + kinds g ys := by
  rw [kinds, List.map_append, List.toFinset_append]
  exact Finset.card_union_le _ _

theorem kinds_perm (h : xs.Perm ys) : kinds g xs = kinds g ys :=
  le_antisymm (kinds_mono fun _ => h.mem_iff.mp) (kinds_mono fun _ => h.mem_iff.mpr)

/-! ### An item is taken out -/

variable {x : α} {k : ℕ}

theorem mem_take_append : x ∈ (xs ++ ys).take k ↔ x ∈ xs.take k ∨ x ∈ ys.take (k - xs.length) := by
  rw [List.take_append, List.mem_append]

theorem mem_take_cons {y : α} : x ∈ (y :: xs).take k ↔ 0 < k ∧ (x = y ∨ x ∈ xs.take (k - 1)) := by
  cases k with
  | zero => simp
  | succ k => simp

theorem mem_take_mono {j : ℕ} (h : x ∈ xs.take j) (hjk : j ≤ k) : x ∈ xs.take k :=
  (List.take_prefix_take_left hjk).subset h

theorem exists_first (hc : c ∈ xs.map g) :
    ∃ before x after, xs = before ++ x :: after ∧ g x = c ∧ c ∉ before.map g := by
  induction xs with
  | nil => cases hc
  | cons z zs ih =>
    by_cases hz : g z = c
    · exact ⟨[], z, zs, rfl, hz, by simp⟩
    · rw [List.map_cons, List.mem_cons] at hc
      obtain ⟨before, x, after, rfl, hx, hbefore⟩ := ih (hc.resolve_left (Ne.symm hz))
      exact ⟨z :: before, x, after, rfl, hx, by simpa [Ne.symm hz] using hbefore⟩

theorem spreadOrder_remove {n : α} (hx : x ≠ n) (h : x ∈ (spreadOrder g (xs ++ n :: ys)).take k) :
    x ∈ (spreadOrder g (xs ++ ys)).take k := by
  simp only [spreadOrder, firsts_append, List.append_nil] at h ⊢
  by_cases hn : g n ∈ xs.map g
  · -- the item was none of the first ones
    simp only [firsts, if_pos hn] at h
    simp only [mem_take_append, mem_take_cons, hx, false_or, List.length_append] at h ⊢
    rcases h with (h | h) | h | ⟨-, h⟩
    · exact .inl (.inl h)
    · exact .inl (.inr h)
    · exact .inr (.inl h)
    · exact .inr (.inr (mem_take_mono h (by omega)))
  simp only [firsts, if_neg hn] at h
  by_cases hmore : g n ∈ ys.map g
  · -- the item was the first of its group, and the next one of the group takes its place
    obtain ⟨before, y, after, rfl, hy, hbefore⟩ := exists_first hmore
    have hout : g y ∉ before.map g ++ xs.map g := by
      rw [hy, List.mem_append, not_or]
      exact ⟨hbefore, hn⟩
    have hin : g y ∈ before.map g ++ g n :: xs.map g := by simp [hy]
    have hrest : firsts g (g y :: (before.map g ++ xs.map g)) after =
        firsts g (before.map g ++ g n :: xs.map g) after :=
      firsts_congr (fun c => by simp [hy, or_left_comm]) after
    simp only [firsts_append, firsts_unused hbefore, firsts, if_pos hin, if_neg hout, hrest] at h ⊢
    simp only [mem_take_append, mem_take_cons, hx, false_or, List.length_append, List.length_cons]
      at h ⊢
    rcases h with (h | ⟨-, h | h⟩) | h | h | ⟨hk, h | h⟩
    · exact .inl (.inl h)
    · exact .inl (.inr (.inl (mem_take_mono h (by omega))))
    · exact .inl (.inr (.inr ⟨by have := List.length_pos_of_mem h; rw [List.length_take] at this; omega,
        .inr (mem_take_mono h (by omega))⟩))
    · exact .inr (.inl (mem_take_mono h (by omega)))
    · exact .inr (.inr (.inl (mem_take_mono h (by omega))))
    · exact .inl (.inr (.inr ⟨by omega, .inl h⟩))
    · exact .inr (.inr (.inr (mem_take_mono h (by omega))))
  · -- the item was the only one of its group
    simp only [firsts_unused hmore, mem_take_append, mem_take_cons, hx, false_or, List.length_append,
      List.length_cons] at h ⊢
    rcases h with (h | ⟨-, h⟩) | h | h
    · exact .inl (.inl h)
    · exact .inl (.inr (mem_take_mono h (by omega)))
    · exact .inr (.inl (mem_take_mono h (by omega)))
    · exact .inr (.inr (mem_take_mono h (by omega)))

theorem spreadOrder_of_one (h : ∀ x ∈ xs, g x = c) : spreadOrder g xs = xs := by
  have hused : ∀ ys : List α, (∀ x ∈ ys, g x = c) → firsts g [c] ys = ([], ys) := by
    intro ys hys
    induction ys with
    | nil => rfl
    | cons y ys ih =>
      rw [firsts, hys y List.mem_cons_self, if_pos List.mem_cons_self,
        ih fun x hx => hys x (List.mem_cons_of_mem _ hx)]
  cases xs with
  | nil => rfl
  | cons x xs =>
    have hx : firsts g [g x] xs = ([], xs) := by
      rw [h x List.mem_cons_self]
      exact hused xs fun y hy => h y (List.mem_cons_of_mem _ hy)
    rw [spreadOrder, firsts, if_neg List.not_mem_nil, hx]
    rfl

/-! ### Rankings by insertion -/

section Ranking

variable {r : α → α → Prop} [DecidableRel r]

theorem orderedInsert_remove [IsTrans α r] (x : α) {n : α} {xs ys : List α}
    (hsorted : (xs ++ n :: ys).Pairwise r) :
    ∃ xs' ys', (xs ++ n :: ys).orderedInsert r x = xs' ++ n :: ys' ∧
      (xs ++ ys).orderedInsert r x = xs' ++ ys' := by
  induction xs with
  | nil =>
    simp only [List.nil_append] at hsorted ⊢
    by_cases hxn : r x n
    · -- before the item removed, hence before all that follow it
      refine ⟨[x], ys, by simp [hxn], ?_⟩
      cases ys with
      | nil => rfl
      | cons y ys =>
        have hny : r n y := (List.pairwise_cons.mp hsorted).1 y List.mem_cons_self
        rw [List.orderedInsert_cons_of_le _ _ (IsTrans.trans _ _ _ hxn hny)]
        rfl
    · exact ⟨[], ys.orderedInsert r x, by simp [hxn], rfl⟩
  | cons y xs ih =>
    by_cases hxy : r x y
    · exact ⟨x :: y :: xs, ys, by simp [hxy], by simp [hxy]⟩
    · obtain ⟨xs', ys', h₁, h₂⟩ := ih (List.pairwise_cons.mp hsorted).2
      exact ⟨y :: xs', ys', by simp [hxy, h₁], by simp [hxy, h₂]⟩

theorem insertionSort_remove [Std.Total r] [IsTrans α r] (n : α) (xs ys : List α) :
    ∃ xs' ys', (xs ++ n :: ys).insertionSort r = xs' ++ n :: ys' ∧
      (xs ++ ys).insertionSort r = xs' ++ ys' := by
  induction xs with
  | nil =>
    refine ⟨_, _, List.orderedInsert_eq_take_drop r n (ys.insertionSort r), ?_⟩
    exact List.takeWhile_append_dropWhile.symm
  | cons x xs ih =>
    obtain ⟨xs', ys', h₁, h₂⟩ := ih
    have hsorted : (xs' ++ n :: ys').Pairwise r := h₁ ▸ List.pairwise_insertionSort r _
    obtain ⟨xs'', ys'', h₃, h₄⟩ := orderedInsert_remove x hsorted
    exact ⟨xs'', ys'', by simp only [List.cons_append, List.insertionSort_cons, h₁, h₃],
      by simp only [List.cons_append, List.insertionSort_cons, h₂, h₄]⟩

end Ranking

/-! ### The greedy choice against all others -/

theorem kinds_take (xs : List α) (k : ℕ) :
    kinds g ((spreadOrder g xs).take k) = min k (kinds g xs) := by
  refine le_antisymm (le_min ?_ ?_) ?_
  · exact (kinds_le_length _).trans (List.length_take_le _ _)
  · refine kinds_mono fun x hx => ?_
    exact (spreadOrder_perm xs).mem_iff.mp (List.mem_of_mem_take hx)
  · -- the first items alone are of that many groups
    have hfirsts : kinds g ((firsts g [] xs).1.take k) = min k (kinds g xs) := by
      have hnodup : (((firsts g [] xs).1.take k).map g).Nodup :=
        ((List.take_sublist _ _).map g).nodup (firsts_groups [] xs).1
      rw [kinds, List.toFinset_card_of_nodup hnodup, List.length_map, List.length_take, length_firsts]
    rw [← hfirsts]
    exact kinds_mono fun x hx => mem_take_append.mpr (Or.inl hx)

variable {p : α → Bool}

theorem countP_take_of_forall (h : ∀ x ∈ xs, p x = true) (k : ℕ) :
    (xs.take k).countP p = min k xs.length := by
  rw [List.countP_eq_length.mpr fun x hx => h x (List.mem_of_mem_take hx), List.length_take]

theorem countP_take_of_none (h : ∀ x ∈ xs, p x = false) (k : ℕ) : (xs.take k).countP p = 0 :=
  List.countP_eq_zero.mpr fun x hx => by simp [h x (List.mem_of_mem_take hx)]

theorem count_take {top rest : List α} (htop : ∀ x ∈ top, p x = true)
    (hrest : ∀ x ∈ rest, p x = false) (k : ℕ) :
    ((spreadOrder g (top ++ rest)).take k).countP p =
      min (min top.length k) (kinds g top + (k - min k (kinds g (top ++ rest)))) := by
  have hmem : ∀ {used : List γ} {xs : List α} {x : α}, x ∈ (firsts g used xs).1 ∨ x ∈ (firsts g used xs).2 →
      x ∈ xs := fun h => (firsts_perm _ _).mem_iff.mp (List.mem_append.mpr h)
  have hlen := length_firsts (g := g) (top ++ rest)
  have hfirst := length_firsts (g := g) top
  have hother := length_others (g := g) top
  have hle := kinds_le_length (g := g) top
  rw [firsts_append, List.length_append] at hlen
  simp only [spreadOrder, firsts_append, List.take_append, List.countP_append,
    countP_take_of_forall fun x hx => htop x (hmem (Or.inl hx)),
    countP_take_of_forall fun x hx => htop x (hmem (Or.inr hx)),
    countP_take_of_none fun x hx => hrest x (hmem (Or.inl hx)),
    countP_take_of_none fun x hx => hrest x (hmem (Or.inr hx)), List.length_append, hfirst, hother]
  omega

theorem countP_le {top rest : List α} (hrest : ∀ x ∈ rest, p x = false) (hnodup : xs.Nodup)
    (hsub : ∀ x ∈ xs, x ∈ top ++ rest) :
    xs.countP p ≤ min (min top.length xs.length) (kinds g top + (xs.length - kinds g xs)) := by
  have htop : ∀ x ∈ xs.filter p, x ∈ top := by
    intro x hx
    obtain ⟨hx, hp⟩ := List.mem_filter.mp hx
    rcases List.mem_append.mp (hsub x hx) with h | h
    · exact h
    · rw [hrest x h] at hp
      cases hp
  have hcount : (xs.filter p).length = xs.countP p := List.countP_eq_length_filter.symm
  have hsplit : (xs.filter p).length + (xs.filter fun x => !p x).length = xs.length := by
    have := (List.filter_append_perm p xs).length_eq
    rwa [List.length_append] at this
  have hkinds : kinds g xs ≤ kinds g top + (xs.filter fun x => !p x).length := by
    calc kinds g xs = kinds g (xs.filter p ++ xs.filter fun x => !p x) :=
          (kinds_perm (List.filter_append_perm p xs)).symm
      _ ≤ kinds g (xs.filter p) + kinds g (xs.filter fun x => !p x) := kinds_append_le _ _
      _ ≤ kinds g top + (xs.filter fun x => !p x).length :=
          Nat.add_le_add (kinds_mono htop) (kinds_le_length _)
  have hsmall : (xs.filter p).length ≤ top.length :=
    (List.subperm_of_subset (hnodup.filter p) htop).length_le
  omega

/-! ### Scores -/

section Scores

variable {β : Type} [LinearOrder β]

def descending (vs : List β) : List β := vs.insertionSort (· ≥ ·)

theorem descending_perm (vs : List β) : (descending vs).Perm vs := List.perm_insertionSort _ _

theorem descending_pairwise (vs : List β) : (descending vs).Pairwise (· ≥ ·) :=
  List.pairwise_insertionSort _ _

theorem exists_threshold {score : α → β} {xs : List α}
    (hsorted : xs.Pairwise fun x y => score y ≤ score x) (v : β) :
    ∃ top rest, xs = top ++ rest ∧ (∀ x ∈ top, v ≤ score x) ∧ ∀ x ∈ rest, ¬ v ≤ score x := by
  induction xs with
  | nil => exact ⟨[], [], rfl, by simp, by simp⟩
  | cons x xs ih =>
    obtain ⟨hx, hxs⟩ := List.pairwise_cons.mp hsorted
    by_cases hv : v ≤ score x
    · obtain ⟨top, rest, rfl, htop, hrest⟩ := ih hxs
      refine ⟨x :: top, rest, rfl, fun y hy => ?_, hrest⟩
      rcases List.mem_cons.mp hy with rfl | hy
      · exact hv
      · exact htop y hy
    · refine ⟨[], x :: xs, rfl, by simp, fun y hy => ?_⟩
      rcases List.mem_cons.mp hy with rfl | hy
      · exact hv
      · exact fun h => hv (h.trans (hx y hy))

theorem forall₂_of_countP_le {vs ws : List β} (hvs : vs.Pairwise (· ≥ ·)) (hws : ws.Pairwise (· ≥ ·))
    (hlen : vs.length = ws.length)
    (h : ∀ v, vs.countP (fun x => decide (v ≤ x)) ≤ ws.countP fun x => decide (v ≤ x)) :
    List.Forall₂ (· ≤ ·) vs ws := by
  refine List.forall₂_iff_get.mpr ⟨hlen, fun i hi hi' => ?_⟩
  by_contra hlt
  rw [not_le] at hlt
  -- at the threshold of the first list's value the second one has too few
  have hfew : ws.countP (fun x => decide (vs.get ⟨i, hi⟩ ≤ x)) ≤ i := by
    have hdrop : (ws.drop i).countP (fun x => decide (vs.get ⟨i, hi⟩ ≤ x)) = 0 := by
      refine List.countP_eq_zero.mpr fun x hx => ?_
      obtain ⟨j, hj, rfl⟩ := List.mem_iff_getElem.mp hx
      rw [List.getElem_drop]
      simp only [decide_eq_true_eq, not_le]
      refine lt_of_le_of_lt ?_ hlt
      by_cases hj0 : j = 0
      · subst hj0
        exact le_refl _
      · exact List.pairwise_iff_getElem.mp hws i (i + j) hi' (by rw [List.length_drop] at hj; omega)
          (by omega)
    have hsplit : ws.countP (fun x => decide (vs.get ⟨i, hi⟩ ≤ x)) =
        (ws.take i).countP (fun x => decide (vs.get ⟨i, hi⟩ ≤ x)) +
          (ws.drop i).countP (fun x => decide (vs.get ⟨i, hi⟩ ≤ x)) := by
      rw [← List.countP_append, List.take_append_drop]
    rw [hsplit, hdrop, Nat.add_zero]
    exact List.countP_le_length.trans (List.length_take_le _ _)
  have hmany : i + 1 ≤ vs.countP (fun x => decide (vs.get ⟨i, hi⟩ ≤ x)) := by
    have htake : (vs.take (i + 1)).countP (fun x => decide (vs.get ⟨i, hi⟩ ≤ x)) = i + 1 := by
      rw [List.countP_eq_length.mpr fun x hx => ?_, List.length_take, min_eq_left hi]
      obtain ⟨j, hj, rfl⟩ := List.mem_iff_getElem.mp hx
      rw [List.length_take] at hj
      rw [List.getElem_take]
      simp only [decide_eq_true_eq]
      by_cases hji : j = i
      · subst hji
        exact le_refl _
      · exact List.pairwise_iff_getElem.mp hvs j i (by omega) hi (by omega)
    calc i + 1 = (vs.take (i + 1)).countP (fun x => decide (vs.get ⟨i, hi⟩ ≤ x)) := htake.symm
      _ ≤ _ := (List.take_sublist _ _).countP_le
  have := h (vs.get ⟨i, hi⟩)
  omega

/-- CORRECT: among the duplicate-free choices of `k` items of a ranking, the first `k` of the order
    have the most groups, and the best scores of those with as many. -/
theorem take_spreadOrder_best {score : α → β} {xs ys : List α} {k : ℕ}
    (hsorted : xs.Pairwise fun x y => score y ≤ score x) (hk : k ≤ xs.length) (hnodup : ys.Nodup)
    (hsub : ∀ y ∈ ys, y ∈ xs) (hlen : ys.length = k) :
    kinds g ys ≤ kinds g ((spreadOrder g xs).take k) ∧
      (kinds g ys = kinds g ((spreadOrder g xs).take k) →
        List.Forall₂ (· ≤ ·) (descending (ys.map score))
          (descending (((spreadOrder g xs).take k).map score))) := by
  have hall : kinds g ys ≤ min k (kinds g xs) := le_min (hlen ▸ kinds_le_length ys) (kinds_mono hsub)
  refine ⟨by rw [kinds_take]; exact hall, fun hkinds => ?_⟩
  rw [kinds_take] at hkinds
  refine forall₂_of_countP_le (descending_pairwise _) (descending_pairwise _) ?_ fun v => ?_
  · simp only [(descending_perm _).length_eq, List.length_map, List.length_take,
      (spreadOrder_perm xs).length_eq]
    omega
  · obtain ⟨top, rest, rfl, htop, hrest⟩ := exists_threshold hsorted v
    rw [(descending_perm _).countP_eq, (descending_perm _).countP_eq, List.countP_map, List.countP_map]
    have htop' : ∀ x ∈ top, decide (v ≤ score x) = true := fun x hx => decide_eq_true (htop x hx)
    have hrest' : ∀ x ∈ rest, decide (v ≤ score x) = false := fun x hx => decide_eq_false (hrest x hx)
    have hmine := count_take (g := g) htop' hrest' k
    have hother := countP_le (g := g) hrest' hnodup hsub
    rw [hlen, hkinds] at hother
    exact hother.trans_eq hmine.symm

end Scores

end Momo
