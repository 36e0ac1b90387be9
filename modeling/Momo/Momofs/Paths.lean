import Momo.Common.PathClean
import Momo.Schemes.PathTree

/-! @momo src/momofs/momofs.go | scheme:texts as lists of components

    The path texts of the file system: `normalizePath`, the split into parent and base, the join of
    a child's path and the two store keys of a path.

        components  [usr, lib]   text  /usr/lib   parent  /usr   base  lib
        components  []           text  / -/

namespace Momo.Momofs

abbrev Path := List Bytes

def render (p : Path) : Bytes := slash :: joinSegments p

structure Comp (c : Bytes) : Prop where
  ne_nil : c ≠ []
  ne_dot : c ≠ dot
  ne_dotDot : c ≠ dotDot
  no_slash : slash ∉ c

/-! ### The code's functions -/

def badSegment (seg : Bytes) : Bool :=
  decide (seg ≠ [] ∧ seg ≠ dot ∧ (seg = dotDot ∨ seg = [32] ∨ 92 ∈ seg))

def validateSegments (cleaned : Bytes) : Except Err Unit :=
  match (segments cleaned).find? badSegment with
  | some seg => .error (.wrap "momofs: invalid path segment %q: %w" [.str seg] (.sys .einval))
  | none => .ok ()

def normalizePath (p : Bytes) : Except Err Bytes :=
  if p.head? ≠ some slash then
    .error (.wrap "momofs: path must be absolute: %q: %w" [.str p] (.sys .einval))
  else if p.contains 0 then .error (.wrap "momofs: path contains NUL: %w" [] (.sys .einval))
  else
    let cleaned := pathClean p
    if cleaned = dot then .error (.wrap "momofs: invalid root path: %w" [] (.sys .einval))
    else (validateSegments cleaned).map (fun _ => cleaned)

/-- `path.Base`: the last component; `.` for the empty text, `/` for separators only. -/
def pathBase (p : Bytes) : Bytes :=
  if p = [] then dot
  else
    let base := ((p.reverse.dropWhile (fun c => c = slash)).takeWhile (fun c => c ≠ slash)).reverse
    if base = [] then [slash] else base

def parentBase (p : Bytes) : Bytes × Bytes := (pathDir p, pathBase p)

/-- `path.Join` of two elements: empty ones are left out. -/
def pathJoin (a b : Bytes) : Bytes :=
  match [a, b].filter (fun s => s ≠ []) with
  | [] => []
  | parts => pathClean (joinSegments parts)

def dirPrefix : Bytes := [100, 45]

def filePrefix : Bytes := [102, 45]

def keyLen : Nat := 48

def pathKey [Sha256] (p : Bytes) : Bytes := (hashBytes p).take keyLen

def objKey [Sha256] (p : Bytes) : Bytes := filePrefix ++ pathKey p

def dirKey [Sha256] (p : Bytes) : Bytes := dirPrefix ++ pathKey p

/-! ### Texts of components -/

variable {p : Path}

theorem segments_render (hp : ∀ c ∈ p, Comp c) (hne : p ≠ []) : segments (render p) = [] :: p := by
  rw [render, segments_cons_slash, segments_joinSegments hne (fun c hc => (hp c hc).no_slash)]

theorem segments_root : segments (render []) = [[], []] := by decide

theorem filter_segments_render (hp : ∀ c ∈ p, Comp c) :
    (segments (render p)).filter (fun s => s ≠ []) = p := by
  by_cases hne : p = []
  · subst hne
    rw [segments_root]
    rfl
  · rw [segments_render hp hne]
    have hall : p.filter (fun s => s ≠ []) = p :=
      List.filter_eq_self.mpr (fun c hc => by simpa using (hp c hc).ne_nil)
    simpa using hall

theorem render_inj {q : Path} (hp : ∀ c ∈ p, Comp c) (hq : ∀ c ∈ q, Comp c)
    (h : render p = render q) : p = q := by
  rw [← filter_segments_render hp, ← filter_segments_render hq, h]

theorem render_eq_root (hp : ∀ c ∈ p, Comp c) : render p = [slash] ↔ p = [] := by
  constructor
  · intro h
    exact render_inj hp (q := []) (by simp) (h.trans rfl)
  · rintro rfl
    rfl

theorem pathClean_of_filter {t : Bytes} (hp : ∀ c ∈ p, Comp c) (hroot : t.head? = some slash)
    (hsegs : (segments t).filter (fun s => s ≠ []) = p) : pathClean t = render p := by
  have hmem : ∀ s ∈ segments t, s ≠ [] → s ∈ p := by
    intro s hs hne
    rw [← hsegs]
    exact List.mem_filter.mpr ⟨hs, by simpa using hne⟩
  have hdots : dotDot ∉ segments t := fun h => (hp _ (hmem _ h (by decide))).ne_dotDot rfl
  have hkept : keptSegments t = p := by
    rw [← hsegs, keptSegments]
    apply List.filter_congr
    intro s hs
    by_cases hne : s = []
    · simp [hne]
    · simpa [hne] using (hp s (hmem s hs hne)).ne_dot
  rw [pathClean_eq hdots, if_pos hroot, hkept, render]

theorem pathClean_render (hp : ∀ c ∈ p, Comp c) : pathClean (render p) = render p :=
  pathClean_of_filter hp rfl (filter_segments_render hp)

/-! ### What the code computes on them -/

def Accepted (p : Path) : Prop := ∀ c ∈ p, 0 ∉ c ∧ c ≠ [32] ∧ 92 ∉ c

instance (p : Path) : Decidable (Accepted p) := inferInstanceAs (Decidable (∀ c ∈ p, _))

theorem badSegment_of_comp {c : Bytes} (hc : Comp c) :
    badSegment c = true ↔ c = [32] ∨ 92 ∈ c := by
  simp [badSegment, hc.ne_nil, hc.ne_dot, hc.ne_dotDot]

theorem find_badSegment (hp : ∀ c ∈ p, Comp c) :
    (segments (render p)).find? badSegment = p.find? badSegment := by
  by_cases hne : p = []
  · subst hne
    decide
  · rw [segments_render hp hne, List.find?_cons_of_neg (by decide)]

theorem normalizePath_accepted (hp : ∀ c ∈ p, Comp c) (ha : Accepted p) :
    normalizePath (render p) = .ok (render p) := by
  have hnul : (render p).contains 0 = false := by
    rw [← Bool.not_eq_true, List.contains_iff_mem, render, List.mem_cons, not_or]
    refine ⟨by decide, fun h => ?_⟩
    obtain ⟨c, hc, h0⟩ := (mem_joinSegments (by decide)).mp h
    exact (ha c hc).1 h0
  have hfind : (segments (render p)).find? badSegment = none := by
    rw [find_badSegment hp, List.find?_eq_none]
    intro c hc hbad
    rcases (badSegment_of_comp (hp c hc)).mp hbad with h | h
    · exact (ha c hc).2.1 h
    · exact (ha c hc).2.2 h
  have hdot : render p ≠ dot := by simp [render, dot, slash]
  simp only [normalizePath, pathClean_render hp, hnul, validateSegments, hfind, if_neg hdot]
  rfl

theorem normalizePath_refused (hp : ∀ c ∈ p, Comp c) (ha : ¬ Accepted p) :
    ∃ e, normalizePath (render p) = .error e := by
  by_cases hnul : (render p).contains 0 = true
  · exact ⟨_, by simp only [normalizePath, hnul]; rfl⟩
  · have hfind : ∃ seg, (segments (render p)).find? badSegment = some seg := by
      rw [find_badSegment hp, ← Option.isSome_iff_exists, List.find?_isSome]
      unfold Accepted at ha
      push Not at ha
      obtain ⟨c, hc, hbad⟩ := ha
      refine ⟨c, hc, (badSegment_of_comp (hp c hc)).mpr ?_⟩
      have h0 : 0 ∉ c := fun h0 => hnul (List.contains_iff_mem.mpr
        (List.mem_cons_of_mem _ ((mem_joinSegments (by decide)).mpr ⟨c, hc, h0⟩)))
      by_cases h32 : c = [32]
      · exact Or.inl h32
      · exact Or.inr (hbad h0 h32)
    obtain ⟨seg, hseg⟩ := hfind
    have hdot : render p ≠ dot := by simp [render, dot, slash]
    exact ⟨_, by
      simp only [normalizePath, pathClean_render hp, hnul, validateSegments, hseg, if_neg hdot]
      rfl⟩

theorem render_concat (p : Path) (k : Bytes) :
    ∃ up, render (p ++ [k]) = up ++ slash :: k ∧ (p = [] ∧ up = [] ∨ p ≠ [] ∧ up = render p) := by
  by_cases hp : p = []
  · subst hp
    exact ⟨[], by simp [render], Or.inl ⟨rfl, rfl⟩⟩
  · exact ⟨render p, by rw [render, joinSegments_concat hp, render, List.cons_append],
      Or.inr ⟨hp, rfl⟩⟩

variable {k : Bytes}

theorem pathDir_render (hp : ∀ c ∈ p ++ [k], Comp c) : pathDir (render (p ++ [k])) = render p := by
  have hk : slash ∉ k := (hp k (by simp)).no_slash
  have hpc : ∀ c ∈ p, Comp c := fun c hc => hp c (List.mem_append_left _ hc)
  obtain ⟨up, hup, hcase⟩ := render_concat p k
  have hdrop : ((render (p ++ [k])).reverse.dropWhile (fun c => c ≠ slash)).reverse = up ++ [slash] := by
    rw [hup, List.reverse_append, List.reverse_cons, List.append_assoc,
      List.dropWhile_append_of_pos (by
        intro c hc
        have : c ≠ slash := fun h => hk (h ▸ List.mem_reverse.mp hc)
        simpa using this)]
    simp
  rw [pathDir, hdrop]
  rcases hcase with ⟨rfl, rfl⟩ | ⟨hne, rfl⟩
  · decide
  · refine pathClean_of_filter hpc rfl ?_
    have htext : render p ++ [slash] = slash :: joinSegments (p ++ [[]]) := by
      rw [joinSegments_concat hne, render, List.cons_append]
    rw [htext, segments_cons_slash, segments_joinSegments (by simp)]
    · have hall : p.filter (fun s => s ≠ []) = p :=
        List.filter_eq_self.mpr (fun c hc => by simpa using (hpc c hc).ne_nil)
      simpa [List.filter_append] using hall
    · intro c hc
      rcases List.mem_append.mp hc with hc | hc
      · exact (hpc c hc).no_slash
      · simp [List.mem_singleton.mp hc]

theorem pathBase_render (hk : Comp k) : pathBase (render (p ++ [k])) = k := by
  obtain ⟨up, hup, -⟩ := render_concat p k
  have hlast : ∀ c ∈ k.reverse, c ≠ slash := fun c hc h => hk.no_slash (h ▸ List.mem_reverse.mp hc)
  obtain ⟨c, rest, hrev⟩ := List.exists_cons_of_ne_nil (List.reverse_ne_nil_iff.mpr hk.ne_nil)
  have hc : c ≠ slash := hlast c (by rw [hrev]; exact List.mem_cons_self)
  have hbase : (((render (p ++ [k])).reverse.dropWhile (fun c => c = slash)).takeWhile
      (fun c => c ≠ slash)).reverse = k := by
    rw [hup, List.reverse_append, List.reverse_cons, List.append_assoc, hrev, List.cons_append,
      List.dropWhile_cons_of_neg (by simpa using hc), ← List.cons_append, ← hrev,
      List.takeWhile_append_of_pos (by simpa using hlast)]
    simp
  have hne : render (p ++ [k]) ≠ [] := by simp [render]
  unfold pathBase
  rw [if_neg hne, hbase, if_neg hk.ne_nil]

theorem parentBase_render (hp : ∀ c ∈ p ++ [k], Comp c) :
    parentBase (render (p ++ [k])) = (render p, k) := by
  rw [parentBase, pathDir_render hp, pathBase_render (hp k (by simp))]

theorem pathJoin_render (hp : ∀ c ∈ p ++ [k], Comp c) :
    pathJoin (render p) k = render (p ++ [k]) := by
  have hk : Comp k := hp k (by simp)
  have hparts : [render p, k].filter (fun s => s ≠ []) = [render p, k] := by
    simp [render, hk.ne_nil]
  have htext : joinSegments [render p, k] = slash :: (joinSegments p ++ slash :: k) := by
    rw [joinSegments_cons_cons, joinSegments_singleton, render, List.cons_append]
  unfold pathJoin
  simp only [hparts, htext]
  refine pathClean_of_filter hp rfl ?_
  by_cases hne : p = []
  · subst hne
    rw [joinSegments_nil, List.nil_append, segments_cons_slash, segments_cons_slash]
    have hseg : segments k = [k] := List.splitOn_eq_singleton hk.no_slash
    simp [hseg, hk.ne_nil]
  · rw [← joinSegments_concat hne]
    exact filter_segments_render hp

/-! ### Keys -/

section Keys

variable [Sha256]

theorem length_pathKey (p : Bytes) : (pathKey p).length = 48 := by
  rw [pathKey, List.length_take, length_hashBytes]
  rfl

theorem dirKey_ne_objKey (p q : Bytes) : dirKey p ≠ objKey q := by
  intro h
  have := congrArg List.head? h
  simp [dirKey, objKey, dirPrefix, filePrefix] at this

theorem objKey_inj {p q : Bytes} : objKey p = objKey q ↔ pathKey p = pathKey q :=
  List.append_right_inj _

theorem dirKey_inj {p q : Bytes} : dirKey p = dirKey q ↔ pathKey p = pathKey q :=
  List.append_right_inj _

theorem length_objKey (p : Bytes) : (objKey p).length = 50 := by
  rw [objKey, List.length_append, length_pathKey]
  rfl

theorem length_dirKey (p : Bytes) : (dirKey p).length = 50 := by
  rw [dirKey, List.length_append, length_pathKey]
  rfl

end Keys

end Momo.Momofs
