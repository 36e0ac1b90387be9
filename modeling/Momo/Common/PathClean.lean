import Momo.Common.Path

/-! @momo src/common/string.go | scheme:texts as lists of segments

    What `path.Clean` does to a text without `..`: the segments that are not empty and not `.` are
    kept in their order, joined by single slashes.

        /a//./b/   segments  "" a "" . b ""   kept  a b   cleaned  /a/b -/

namespace Momo

/-! ### Splitting and joining -/

theorem joinSegments_segments (p : Bytes) : joinSegments (segments p) = p :=
  List.intercalate_splitOn slash

variable {segs : List Bytes}

theorem segments_joinSegments (hne : segs ≠ []) (hslash : ∀ s ∈ segs, slash ∉ s) :
    segments (joinSegments segs) = segs :=
  List.splitOn_intercalate slash hslash hne

@[simp] theorem joinSegments_nil : joinSegments [] = [] := rfl

@[simp] theorem joinSegments_singleton (s : Bytes) : joinSegments [s] = s := by
  simp [joinSegments]

theorem joinSegments_cons_cons (s t : Bytes) (segs : List Bytes) :
    joinSegments (s :: t :: segs) = s ++ slash :: joinSegments (t :: segs) := by
  simp only [joinSegments, List.intercalate_cons_cons, List.append_assoc, List.singleton_append]

theorem joinSegments_concat (hp : segs ≠ []) (k : Bytes) :
    joinSegments (segs ++ [k]) = joinSegments segs ++ slash :: k := by
  induction segs with
  | nil => exact absurd rfl hp
  | cons c p ih =>
    cases p with
    | nil => simp [joinSegments_cons_cons]
    | cons d p =>
      have hrest := ih (by simp)
      rw [List.cons_append] at hrest
      rw [List.cons_append, List.cons_append, joinSegments_cons_cons, hrest, joinSegments_cons_cons,
        List.append_assoc, List.cons_append]

theorem mem_joinSegments {x : UInt8} (hx : x ≠ slash) : x ∈ joinSegments segs ↔ ∃ c ∈ segs, x ∈ c := by
  induction segs with
  | nil => simp
  | cons c p ih =>
    cases p with
    | nil => simp
    | cons d p =>
      rw [joinSegments_cons_cons, List.mem_append, List.mem_cons, ih]
      simp [hx]

theorem segments_cons_slash (p : Bytes) : segments (slash :: p) = [] :: segments p := by
  simp [segments, List.splitOn_cons_eq_if_modifyHead]

variable {p : Bytes}

theorem slash_notMem_of_mem_segments : ∀ {s : Bytes}, s ∈ segments p → slash ∉ s := by
  induction p with
  | nil =>
    intro s hs
    simp only [segments, List.splitOn_nil, List.mem_singleton] at hs
    simp [hs]
  | cons c p ih =>
    intro s hs
    unfold segments at hs ih
    rw [List.splitOn_cons_eq_if_modifyHead] at hs
    split_ifs at hs with hc
    · rcases List.mem_cons.mp hs with rfl | hs
      · simp
      · exact ih hs
    · cases hsplit : p.splitOn slash with
      | nil => exact absurd hsplit (List.splitOn_ne_nil _ _)
      | cons t rest =>
        rw [hsplit, List.modifyHead_cons] at hs
        rcases List.mem_cons.mp hs with rfl | hs
        · have hne : slash ≠ c := fun h => hc (by simp [h])
          have ht : slash ∉ t := ih (by rw [hsplit]; exact List.mem_cons_self)
          simp [hne, ht]
        · exact ih (by rw [hsplit]; exact List.mem_cons_of_mem t hs)

variable {s : Bytes}

theorem infix_joinSegments (hs : s ∈ segs) : s <:+: joinSegments segs := by
  induction segs with
  | nil => cases hs
  | cons t segs ih =>
    cases segs with
    | nil =>
      rw [List.mem_singleton.mp hs, joinSegments_singleton]
    | cons u segs =>
      rw [joinSegments_cons_cons]
      rcases List.mem_cons.mp hs with rfl | hs
      · exact (List.prefix_append _ _).isInfix
      · exact (ih hs).trans
          ((List.suffix_cons slash _).trans (List.suffix_append t _)).isInfix

theorem infix_of_mem_segments (hs : s ∈ segments p) : s <:+: p := by
  have hinfix := infix_joinSegments hs
  rwa [joinSegments_segments] at hinfix

theorem length_joinSegments_le {kept : List Bytes} (h : kept.Sublist segs) :
    (joinSegments kept).length ≤ (joinSegments segs).length := by
  induction h with
  | slnil => exact le_refl _
  | @cons kept segs s _ ih =>
    cases segs with
    | nil => exact ih.trans (Nat.zero_le _)
    | cons t segs =>
      rw [joinSegments_cons_cons, List.length_append, List.length_cons]
      omega
  | @cons_cons kept segs s h ih =>
    cases segs with
    | nil => rw [List.sublist_nil.mp h]
    | cons t segs =>
      cases kept with
      | nil => simp [joinSegments_cons_cons]
      | cons u kept =>
        simp only [joinSegments_cons_cons, List.length_append, List.length_cons]
        omega

/-! ### `path.Clean` -/

/-- The segments `path.Clean` keeps. -/
def keptSegments (p : Bytes) : List Bytes := (segments p).filter (fun s => s ≠ [] ∧ s ≠ dot)

theorem mem_keptSegments : s ∈ keptSegments p ↔ s ∈ segments p ∧ s ≠ [] ∧ s ≠ dot := by
  simp [keptSegments, List.mem_filter]

theorem foldl_cleanStep (rooted : Bool) (hdots : dotDot ∉ segs) :
    ∀ stack, segs.foldl (cleanStep rooted) stack =
      (segs.filter (fun s => s ≠ [] ∧ s ≠ dot)).reverse ++ stack := by
  induction segs with
  | nil => exact fun _ => rfl
  | cons s segs ih =>
    intro stack
    have hs : s ≠ dotDot := fun h => hdots (h ▸ List.mem_cons_self)
    have hrest : dotDot ∉ segs := fun h => hdots (List.mem_cons_of_mem s h)
    rw [List.foldl_cons, ih hrest, List.filter_cons]
    by_cases hskip : s = [] ∨ s = dot
    · have hstep : cleanStep rooted stack s = stack := by
        unfold cleanStep
        rw [if_pos hskip]
      rw [hstep, if_neg]
      rcases hskip with h | h <;> simp [h]
    · have hstep : cleanStep rooted stack s = s :: stack := by
        unfold cleanStep
        rw [if_neg hskip, if_neg hs]
      rw [hstep, if_pos]
      · rw [List.reverse_cons, List.append_assoc, List.singleton_append]
      · simpa [not_or] using hskip

theorem foldl_cleanStep_sublist (rooted : Bool) (segs stack : List Bytes) :
    (segs.foldl (cleanStep rooted) stack).reverse.Sublist (stack.reverse ++ segs) := by
  induction segs generalizing stack with
  | nil => simp
  | cons s segs ih =>
    refine (ih (cleanStep rooted stack s)).trans ?_
    rw [List.append_cons]
    refine List.Sublist.append_right ?_ segs
    unfold cleanStep
    by_cases hskip : s = [] ∨ s = dot
    · rw [if_pos hskip]
      exact List.sublist_append_left ..
    rw [if_neg hskip]
    by_cases hdots : s = dotDot
    · rw [if_pos hdots, hdots]
      cases stack with
      | nil => cases rooted <;> simp
      | cons top below =>
        by_cases htop : top = dotDot
        · simp [htop]
        · simp only [if_neg htop, List.reverse_cons, List.append_assoc]
          exact List.sublist_append_left ..
    · rw [if_neg hdots, List.reverse_cons]

theorem length_pathClean_le (h : p.head? = some slash) : (pathClean p).length ≤ p.length := by
  obtain ⟨q, rfl⟩ : ∃ q, p = slash :: q := ⟨p.tail, (List.cons_head?_tail h).symm⟩
  have hsub := foldl_cleanStep_sublist true (segments q) []
  have hlen := length_joinSegments_le hsub
  rw [List.reverse_nil, List.nil_append, joinSegments_segments] at hlen
  simpa [pathClean, segments_cons_slash, cleanStep] using hlen

theorem pathClean_eq (hdots : dotDot ∉ segments p) :
    pathClean p =
      if p.head? = some slash then slash :: joinSegments (keptSegments p)
      else if keptSegments p = [] then dot else joinSegments (keptSegments p) := by
  have hkept : ((segments p).foldl (cleanStep (decide (p.head? = some slash))) []).reverse =
      keptSegments p := by
    rw [foldl_cleanStep _ hdots, List.append_nil, List.reverse_reverse]
    rfl
  simp only [pathClean, hkept]

theorem head_joinSegments_ne_slash (hempty : ∀ s ∈ segs, s ≠ []) (hslash : ∀ s ∈ segs, slash ∉ s) :
    (joinSegments segs).head? ≠ some slash := by
  cases segs with
  | nil => simp
  | cons s segs =>
    have hne := hempty s List.mem_cons_self
    have hs := hslash s List.mem_cons_self
    obtain ⟨c, s', rfl⟩ := List.exists_cons_of_ne_nil hne
    have hc : c ≠ slash := fun h => hs (by simp [h])
    cases segs <;> simp [joinSegments_cons_cons, hc]

theorem joinSegments_ne_nil (hne : segs ≠ []) (hempty : ∀ s ∈ segs, s ≠ []) :
    joinSegments segs ≠ [] := by
  cases segs with
  | nil => exact absurd rfl hne
  | cons s segs =>
    have hs := hempty s List.mem_cons_self
    cases segs <;> simp [joinSegments_cons_cons, hs]

theorem joinSegments_eq_segment (hne : segs ≠ []) (hslash : ∀ s ∈ segs, slash ∉ s) {t : Bytes}
    (ht : slash ∉ t) (h : joinSegments segs = t) : segs = [t] := by
  have hsegs := segments_joinSegments hne hslash
  rw [h] at hsegs
  rw [← hsegs]
  exact List.splitOn_eq_singleton ht

end Momo
