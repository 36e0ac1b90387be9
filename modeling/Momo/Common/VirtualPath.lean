import Momo.Common.PathClean

/-! @momo src/common/string.go | scheme:a normal form, and when it is one

    `NormalizeVirtualPath` on its own results: the meaningful segments of the trimmed text, joined.
    A second call trims again, and white space at an outer end of the first or last segment goes. -/

namespace Momo

section Trim

variable {p1 : UInt8 → Bool} {p2 : UInt8 → UInt8 → Bool} {p3 : UInt8 → UInt8 → UInt8 → Bool}

/-- The text begins with white space, of one, two or three bytes. -/
def leads (p1 : UInt8 → Bool) (p2 : UInt8 → UInt8 → Bool) (p3 : UInt8 → UInt8 → UInt8 → Bool) :
    Bytes → Bool
  | [] => false
  | a :: s => p1 a || match s with
    | [] => false
    | b :: t => p2 a b || match t with
      | [] => false
      | c :: _ => p3 a b c

theorem length_trimWith_le (s : Bytes) : (trimWith p1 p2 p3 s).length ≤ s.length := by
  fun_induction trimWith p1 p2 p3 s <;> grind

theorem length_trimWith_lt {s : Bytes} (h : leads p1 p2 p3 s = true) :
    (trimWith p1 p2 p3 s).length < s.length := by
  have hle := @length_trimWith_le p1 p2 p3
  fun_cases trimWith p1 p2 p3 s <;> grind [leads]

theorem trimWith_of_not_leads {s : Bytes} (h : leads p1 p2 p3 s = false) : trimWith p1 p2 p3 s = s := by
  fun_cases trimWith p1 p2 p3 s <;> unfold leads at h <;> simp_all

/-- A slash is no part of white space, so only the first segment counts. -/
theorem leads_append (h2 : ∀ a, p2 a slash = false) (h3 : ∀ a b, p3 a b slash = false)
    (h3' : ∀ a c, p3 a slash c = false) {x : Bytes} (hx : x ≠ []) (rest : Bytes) :
    leads p1 p2 p3 (x ++ slash :: rest) = leads p1 p2 p3 x := by
  rcases x with _ | ⟨a, _ | ⟨b, _ | ⟨c, u⟩⟩⟩
  · exact absurd rfl hx
  · cases rest <;> simp [leads, h2, h3']
  · simp [leads, h3]
  · simp [leads]

end Trim

def leadsSpace (s : Bytes) : Bool := leads space1 space2 space3 s

def trailsSpace (s : Bytes) : Bool :=
  leads space1 (fun a b => space2 b a) (fun a b c => space3 c b a) s.reverse

theorem length_trimSpace_lt {s : Bytes} (h : ¬ (leadsSpace s = false ∧ trailsSpace s = false)) :
    (trimSpace s).length < s.length := by
  simp only [trimSpace, List.length_reverse]
  cases hleft : leadsSpace s with
  | true =>
    refine (length_trimWith_le _).trans_lt ?_
    rw [List.length_reverse]
    exact length_trimWith_lt hleft
  | false =>
    have htrails : trailsSpace s = true := by simpa [hleft] using h
    rw [trimWith_of_not_leads hleft]
    simpa using length_trimWith_lt htrails

theorem trimSpace_of_bare {s : Bytes} (h : leadsSpace s = false ∧ trailsSpace s = false) :
    trimSpace s = s := by
  rw [trimSpace, trimWith_of_not_leads h.1, trimWith_of_not_leads h.2, List.reverse_reverse]

/-! ### The result, and the result of the result -/

theorem leadsSpace_joinSegments {x : Bytes} (hx : x ≠ []) (rest : List Bytes) :
    leadsSpace (joinSegments (x :: rest)) = leadsSpace x := by
  cases rest with
  | nil => rw [joinSegments_singleton]
  | cons y rest =>
    rw [joinSegments_cons_cons]
    exact leads_append (by simp [space2, slash]) (by simp [space3, slash]) (by simp [space3, slash]) hx _

theorem trailsSpace_joinSegments {x : Bytes} (hx : x ≠ []) (init : List Bytes) :
    trailsSpace (joinSegments (init ++ [x])) = trailsSpace x := by
  by_cases hinit : init = []
  · rw [hinit, List.nil_append, joinSegments_singleton]
  · rw [joinSegments_concat hinit, trailsSpace, List.reverse_append, List.reverse_cons,
      List.append_assoc, List.singleton_append]
    exact leads_append (by simp [space2, slash]) (by simp [space3, slash]) (by simp [space3, slash])
      (List.reverse_ne_nil_iff.mpr hx) _

def Hazardless (t : Bytes) : Prop := 0 ∉ t ∧ 92 ∉ t ∧ dotDot ∉ segments t

theorem rejectPathHazards_eq_ok {t : Bytes} : rejectPathHazards t = .ok () ↔ Hazardless t := by
  unfold rejectPathHazards Hazardless
  split_ifs <;> simp_all

theorem meaningfulSegments_pathClean {t : Bytes} (h : dotDot ∉ segments t) :
    meaningfulSegments (pathClean t) = meaningfulSegments t := by
  have hsame : (keptSegments t).filter
      (fun s => s ≠ [] ∧ s ≠ dot ∧ s ≠ dotDot ∧ trimSpace s ≠ []) = meaningfulSegments t := by
    rw [keptSegments, List.filter_filter, meaningfulSegments]
    apply List.filter_congr
    grind
  have hsplit : keptSegments t ≠ [] → segments (joinSegments (keptSegments t)) = keptSegments t :=
    fun hne => segments_joinSegments hne fun s hs =>
      slash_notMem_of_mem_segments (mem_keptSegments.mp hs).1
  rw [pathClean_eq h, ← hsame]
  by_cases hkept : keptSegments t = []
  · rw [hkept]
    split_ifs <;> decide
  · rw [if_neg hkept]
    split_ifs
    · rw [meaningfulSegments, segments_cons_slash, hsplit hkept]
      simp
    · rw [meaningfulSegments, hsplit hkept]

theorem normalizeVirtualPath_eq_ok {p q : Bytes} : normalizeVirtualPath p = .ok q ↔
    (trimSpace p = [] ∧ q = []) ∨ (Hazardless (trimSpace p) ∧ meaningfulSegments (trimSpace p) ≠ [] ∧
      q = joinSegments (meaningfulSegments (trimSpace p))) := by
  unfold normalizeVirtualPath
  by_cases ht : trimSpace p = []
  · have hnone : meaningfulSegments [] = [] := by decide
    simp [ht, hnone, eq_comm]
  · by_cases hz : Hazardless (trimSpace p)
    · simp only [ht, if_false, rejectPathHazards_eq_ok.mpr hz, bind, Except.bind,
        meaningfulSegments_pathClean hz.2.2, hz]
      split_ifs with hnone <;> simp [hnone, eq_comm]
    · cases hr : rejectPathHazards (trimSpace p) with
      | ok _ => exact absurd (rejectPathHazards_eq_ok.mp hr) hz
      | error e => simp [ht, hz, hr, bind, Except.bind]

/-- A relative path in normal form; a slash at an end would leave an empty segment. -/
def WellFormed (q : Bytes) : Prop :=
  q = [] ∨ (∀ s ∈ segments q, s ≠ [] ∧ s ≠ dot ∧ s ≠ dotDot) ∧ 0 ∉ q ∧ 92 ∉ q

/-- The first and the last meaningful segment have no white space at their outer ends. -/
def OuterBare (p : Bytes) : Prop :=
  (∀ s ∈ (meaningfulSegments (trimSpace p)).head?, leadsSpace s = false) ∧
    ∀ s ∈ (meaningfulSegments (trimSpace p)).getLast?, trailsSpace s = false

/-- CORRECT: the result is well formed, and the result of itself exactly if its outer ends are. -/
theorem normalizeVirtualPath_again_iff {p q : Bytes} (h : normalizeVirtualPath p = .ok q) :
    (WellFormed q ∧ normalizeVirtualPath q = .ok q) ↔ OuterBare p := by
  unfold OuterBare
  rcases normalizeVirtualPath_eq_ok.mp h with ⟨ht, rfl⟩ | ⟨hz, hne, hq⟩
  · rw [ht]
    exact ⟨fun _ => by decide, fun _ => ⟨Or.inl rfl, by decide⟩⟩
  generalize hsegs : meaningfulSegments (trimSpace p) = segs at hne hq ⊢
  have hmem : ∀ s ∈ segs, s ∈ segments (trimSpace p) ∧ s ≠ [] ∧ s ≠ dot ∧ s ≠ dotDot ∧ trimSpace s ≠ [] := by
    intro s hs
    rw [← hsegs] at hs
    simpa [meaningfulSegments] using hs
  have hsplit : segments q = segs :=
    hq ▸ segments_joinSegments hne fun s hs => slash_notMem_of_mem_segments (hmem s hs).1
  have hbytes : ∀ c ∈ q, c ≠ slash → c ∈ trimSpace p := by
    intro c hc hslash
    obtain ⟨s, hs, hcs⟩ := (mem_joinSegments hslash).mp (hq ▸ hc)
    exact (infix_of_mem_segments (hmem s hs).1).subset hcs
  have h0 : 0 ∉ q := fun hc => hz.1 (hbytes 0 hc (by decide))
  have h92 : 92 ∉ q := fun hc => hz.2.1 (hbytes 92 hc (by decide))
  have hwell : WellFormed q :=
    Or.inr ⟨fun s hs => by obtain ⟨-, h1, h2, h3, -⟩ := hmem s (hsplit ▸ hs); exact ⟨h1, h2, h3⟩, h0, h92⟩
  have hagain : normalizeVirtualPath q = .ok q ↔ leadsSpace q = false ∧ trailsSpace q = false := by
    constructor
    · intro hok
      by_contra hbare
      -- the second trim shortens the text, and nothing lengthens it again
      have hlt := length_trimSpace_lt hbare
      rcases normalizeVirtualPath_eq_ok.mp hok with ⟨-, hnil⟩ | ⟨-, -, hjoin⟩
      · rw [hnil] at hlt
        exact absurd hlt (Nat.not_lt_zero _)
      · have hle := length_joinSegments_le (List.filter_sublist (l := segments (trimSpace q)) (p := fun s =>
          s ≠ [] ∧ s ≠ dot ∧ s ≠ dotDot ∧ trimSpace s ≠ []))
        rw [joinSegments_segments, ← meaningfulSegments, ← hjoin] at hle
        omega
    · intro hbare
      have hfilter : meaningfulSegments q = segs := by
        rw [meaningfulSegments, hsplit, List.filter_eq_self]
        intro s hs
        simpa using (hmem s hs).2
      refine normalizeVirtualPath_eq_ok.mpr (Or.inr ?_)
      rw [trimSpace_of_bare hbare, hfilter]
      exact ⟨⟨h0, h92, hsplit ▸ fun hd => (hmem _ hd).2.2.2.1 rfl⟩, hne, hq⟩
  obtain ⟨x, hx⟩ : ∃ x, segs.head? = some x := ⟨_, List.head?_eq_some_head hne⟩
  obtain ⟨y, hy⟩ : ∃ y, segs.getLast? = some y := ⟨_, List.getLast?_eq_some_getLast hne⟩
  have hhead : leadsSpace q = leadsSpace x := by
    obtain ⟨rest, rfl⟩ := List.head?_eq_some_iff.mp hx
    exact hq ▸ leadsSpace_joinSegments (hmem x List.mem_cons_self).2.1 rest
  have hlast : trailsSpace q = trailsSpace y := by
    obtain ⟨init, rfl⟩ := List.getLast?_eq_some_iff.mp hy
    exact hq ▸ trailsSpace_joinSegments (hmem y (by simp)).2.1 init
  simp [hagain, hwell, hhead, hlast, hx, hy]

theorem inner_blank_again :
    normalizeVirtualPath [47, 97, 32, 98, 47] = .ok [97, 32, 98] ∧
      WellFormed [97, 32, 98] ∧ normalizeVirtualPath [97, 32, 98] = .ok [97, 32, 98] := by
  have h : normalizeVirtualPath [47, 97, 32, 98, 47] = .ok [97, 32, 98] := by decide +kernel
  exact ⟨h, (normalizeVirtualPath_again_iff h).mpr (by unfold OuterBare; decide +kernel)⟩

theorem outer_blank_lost :
    (normalizeVirtualPath [47, 32, 97] = .ok [32, 97] ∧ normalizeVirtualPath [32, 97] = .ok [97]) ∧
      normalizeVirtualPath [97, 32, 47] = .ok [97, 32] ∧ normalizeVirtualPath [97, 32] = .ok [97] := by
  decide +kernel

end Momo
