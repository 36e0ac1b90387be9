import Mathlib.Data.List.Basic
import Mathlib.Data.List.Infix
import Mathlib.Logic.Function.Basic

/-! @scheme path trees | nodes by path, closed under prefixes

    A tree given by its paths: what stands at each list of steps from the root. The type carries the
    one law, that a node other than the root hangs on an inner node. -/

namespace Momo

/-- A tree over steps `κ` and nodes `ν`; only an `Inner` node has nodes below it. -/
@[ext]
structure PathTree (κ ν : Type) (Inner : ν → Prop) where
  node : List κ → Option ν
  closed : ∀ p k, node (p ++ [k]) ≠ none → ∃ v, node p = some v ∧ Inner v

namespace PathTree

variable {κ ν : Type} {Inner : ν → Prop} (t : PathTree κ ν Inner)

theorem inner_above {p r : List κ} (hr : r ≠ []) (h : t.node (p ++ r) ≠ none) :
    ∃ v, t.node p = some v ∧ Inner v := by
  induction r using List.reverseRecOn with
  | nil => exact absurd rfl hr
  | append_singleton r k ih =>
    rw [← List.append_assoc] at h
    obtain ⟨v, hv, hinner⟩ := t.closed _ _ h
    cases r with
    | nil => exact ⟨v, by rwa [List.append_nil] at hv, hinner⟩
    | cons j r => exact ih (by simp) (by rw [hv]; simp)

theorem none_below {p r : List κ} (hleaf : ∀ k, t.node (p ++ [k]) = none) (hr : r ≠ []) :
    t.node (p ++ r) = none := by
  by_contra h
  cases r with
  | nil => exact hr rfl
  | cons k r =>
    have hk : t.node (p ++ [k]) ≠ none := by
      cases r with
      | nil => exact h
      | cons j r =>
        obtain ⟨v, hv, -⟩ := t.inner_above (p := p ++ [k]) (r := j :: r) (by simp)
          (by rwa [List.append_assoc, List.singleton_append])
        rw [hv]
        simp
    exact hk (hleaf k)

variable [DecidableEq κ]

def put (p : List κ) (k : κ) (v : ν) (hp : ∃ w, t.node p = some w ∧ Inner w)
    (hv : Inner v ∨ ∀ j, t.node (p ++ [k] ++ [j]) = none) : PathTree κ ν Inner where
  node := Function.update t.node (p ++ [k]) (some v)
  closed q j h := by
    by_cases he : q ++ [j] = p ++ [k]
    · obtain ⟨rfl, -⟩ := List.append_inj' he rfl
      rw [Function.update_of_ne (by simp)]
      exact hp
    · rw [Function.update_of_ne he] at h
      by_cases hq : q = p ++ [k]
      · subst hq
        rw [Function.update_self]
        rcases hv with hv | hv
        · exact ⟨v, rfl, hv⟩
        · exact absurd (hv j) h
      · rw [Function.update_of_ne hq]
        exact t.closed q j h

def drop (p : List κ) (hleaf : ∀ j, t.node (p ++ [j]) = none) : PathTree κ ν Inner where
  node := Function.update t.node p none
  closed q j h := by
    have hne : q ++ [j] ≠ p := fun he => h (by rw [he, Function.update_self])
    rw [Function.update_of_ne hne] at h
    have hq : q ≠ p := fun he => h (he ▸ hleaf j)
    rw [Function.update_of_ne hq]
    exact t.closed q j h

/-- The nodes after the subtree of `src` went to `dst`. -/
def moved (node : List κ → Option ν) (src dst : List κ) (p : List κ) : Option ν :=
  if dst <+: p then node (src ++ p.drop dst.length)
  else if src <+: p then none
  else node p

theorem moved_below (node : List κ → Option ν) (src dst r : List κ) :
    moved node src dst (dst ++ r) = node (src ++ r) := by
  rw [moved, if_pos (List.prefix_append dst r), List.drop_left]

theorem moved_gone {node : List κ → Option ν} {src dst p : List κ} (hd : ¬ dst <+: p)
    (hs : src <+: p) : moved node src dst p = none := by
  rw [moved, if_neg hd, if_pos hs]

theorem moved_other {node : List κ → Option ν} {src dst p : List κ} (hd : ¬ dst <+: p)
    (hs : ¬ src <+: p) : moved node src dst p = node p := by
  rw [moved, if_neg hd, if_neg hs]

def move (src q : List κ) (k : κ) (hq : ∃ w, t.node q = some w ∧ Inner w) (hout : ¬ src <+: q) :
    PathTree κ ν Inner where
  node := moved t.node src (q ++ [k])
  closed p j h := by
    have hqd : ¬ q ++ [k] <+: q := by
      intro hpre
      have := hpre.length_le
      rw [List.length_append, List.length_singleton] at this
      omega
    by_cases hpre : q ++ [k] <+: p ++ [j]
    · rcases List.prefix_concat_iff.mp hpre with he | hpre
      · -- the moved node itself hangs on `q`
        obtain ⟨rfl, -⟩ := List.append_inj' he rfl
        rw [moved_other hqd hout]
        exact hq
      · obtain ⟨r, rfl⟩ := hpre
        rw [List.append_assoc, moved_below, ← List.append_assoc] at h
        rw [moved_below]
        exact t.closed _ _ h
    · have hsrc : ¬ src <+: p ++ [j] := fun hs => h (moved_gone hpre hs)
      rw [moved_other hpre hsrc] at h
      rw [moved_other (fun hp => hpre (hp.trans (List.prefix_append p [j])))
        (fun hp => hsrc (hp.trans (List.prefix_append p [j])))]
      exact t.closed p j h

@[simp] theorem node_put (p : List κ) (k : κ) (v : ν) (hp : ∃ w, t.node p = some w ∧ Inner w)
    (hv : Inner v ∨ ∀ j, t.node (p ++ [k] ++ [j]) = none) :
    (t.put p k v hp hv).node = Function.update t.node (p ++ [k]) (some v) := rfl

@[simp] theorem node_drop (p : List κ) (hleaf : ∀ j, t.node (p ++ [j]) = none) :
    (t.drop p hleaf).node = Function.update t.node p none := rfl

@[simp] theorem node_move (src q : List κ) (k : κ) (hq : ∃ w, t.node q = some w ∧ Inner w)
    (hout : ¬ src <+: q) : (t.move src q k hq hout).node = moved t.node src (q ++ [k]) := rfl

end PathTree

end Momo
