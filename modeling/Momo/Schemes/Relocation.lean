import Mathlib.Logic.Function.Basic

/-! @scheme relocation | family:maps changed key by key

    Values that go from one key to another. A relation `M` says which key goes where; `Relocates`
    says that the values went with the keys, that the old keys are free and that nothing else
    changed. A relocation is built from single moves, one after the other. -/

namespace Momo

/-- The map `b` is `a` with the value of `x` moved to `y` wherever `M x y`. -/
structure Relocates {K V : Type} (M : K → K → Prop) (a b : K → Option V) : Prop where
  moved : ∀ x y, M x y → b y = a x
  left : ∀ x y, M x y → b x = none
  frame : ∀ z, (∀ y, ¬ M z y) → (∀ x, ¬ M x z) → b z = a z

namespace Relocates

variable {K V : Type} {M N : K → K → Prop} {a b c : K → Option V}

theorem none (h : ∀ x y, ¬ M x y) : Relocates M a a where
  moved x y hxy := absurd hxy (h x y)
  left x y hxy := absurd hxy (h x y)
  frame _ _ _ := rfl

theorem congr (h : ∀ x y, M x y ↔ N x y) (hr : Relocates M a b) : Relocates N a b where
  moved x y hxy := hr.moved x y ((h x y).mpr hxy)
  left x y hxy := hr.left x y ((h x y).mpr hxy)
  frame z hout hin := hr.frame z (fun y hy => hout y ((h z y).mp hy)) fun x hx => hin x ((h x z).mp hx)

theorem start {a' : K → Option V} (hr : Relocates M a' b) (hfrom : ∀ x y, M x y → a' x = a x)
    (hframe : ∀ z, (∀ x, ¬ M x z) → a' z = a z) : Relocates M a b where
  moved x y hxy := (hr.moved x y hxy).trans (hfrom x y hxy)
  left := hr.left
  frame z hout hin := (hr.frame z hout hin).trans (hframe z hin)

theorem single [DecidableEq K] {k l : K} (hkl : k ≠ l) (a : K → Option V) :
    Relocates (fun x y => x = k ∧ y = l) a
      (Function.update (Function.update a l (a k)) k Option.none) where
  moved x y hxy := by
    obtain ⟨rfl, rfl⟩ := hxy
    rw [Function.update_of_ne hkl.symm, Function.update_self]
  left x y hxy := by
    obtain ⟨rfl, rfl⟩ := hxy
    rw [Function.update_self]
  frame z hout hin := by
    have hk : z ≠ k := fun h => hout l ⟨h, rfl⟩
    have hl : z ≠ l := fun h => hin k ⟨rfl, h⟩
    rw [Function.update_of_ne hk, Function.update_of_ne hl]

theorem comp (hab : Relocates M a b) (hbc : Relocates N b c)
    (hdisj : ∀ x y x' y', M x y → N x' y' → x ≠ x' ∧ x ≠ y' ∧ y ≠ x' ∧ y ≠ y') :
    Relocates (fun x y => M x y ∨ N x y) a c where
  moved x y hxy := by
    rcases hxy with hm | hn
    · rw [hbc.frame y (fun y' h => (hdisj _ _ _ _ hm h).2.2.1 rfl)
        fun x' h => (hdisj _ _ _ _ hm h).2.2.2 rfl]
      exact hab.moved x y hm
    · rw [hbc.moved x y hn]
      exact hab.frame x (fun y' h => (hdisj _ _ _ _ h hn).1 rfl) fun x' h => (hdisj _ _ _ _ h hn).2.2.1 rfl
  left x y hxy := by
    rcases hxy with hm | hn
    · rw [hbc.frame x (fun y' h => (hdisj _ _ _ _ hm h).1 rfl)
        fun x' h => (hdisj _ _ _ _ hm h).2.1 rfl]
      exact hab.left x y hm
    · exact hbc.left x y hn
  frame z hout hin := by
    rw [hbc.frame z (fun y h => hout y (Or.inr h)) fun x h => hin x (Or.inr h)]
    exact hab.frame z (fun y h => hout y (Or.inl h)) fun x h => hin x (Or.inl h)

end Relocates

end Momo
