import Mathlib

/-! @scheme prog | family:state passing with errors

    Two kinds of computation on a state. A `Prog` ends with a value or an error and in both cases
    with the state it reached, so what was done before a failure stays done. A `Loop` may also run
    out of the fuel its recursion was given, and then says nothing. -/

namespace Momo

variable {σ ε α γ : Type}

/-- A computation on a state `σ` that may fail with an `ε`. -/
abbrev Prog (σ ε α : Type) : Type := σ → Except ε α × σ

namespace Prog

instance : Monad (Prog σ ε) where
  pure a := fun s => (.ok a, s)
  bind x g := fun s =>
    match x s with
    | (.ok a, s') => g a s'
    | (.error e, s') => (.error e, s')

def fail (e : ε) : Prog σ ε α := fun s => (.error e, s)

def ofExcept (r : Except ε α) : Prog σ ε α := fun s => (r, s)

def attempt (x : Prog σ ε α) : Prog σ ε (Except ε α) := fun s => (.ok (x s).1, (x s).2)

def modify (g : σ → σ) : Prog σ ε Unit := fun s => (.ok (), g s)

def mapError (g : ε → ε) (x : Prog σ ε α) : Prog σ ε α := fun s => ((x s).1.mapError g, (x s).2)

theorem pure_eq (a : α) (s : σ) : (pure a : Prog σ ε α) s = (.ok a, s) := rfl

variable {x : Prog σ ε α} {s s' : σ} {a : α}

theorem bind_of_ok (h : x s = (.ok a, s')) (g : α → Prog σ ε γ) : (x >>= g) s = g a s' := by
  simp only [bind, h]

theorem bind_of_error {e : ε} (h : x s = (.error e, s')) (g : α → Prog σ ε γ) :
    (x >>= g) s = (.error e, s') := by
  simp only [bind, h]

variable {r : Except ε α}

theorem ofExcept_eq {r' : Except ε α} (h : r = r') (s : σ) : ofExcept r s = (r', s) :=
  congrArg (·, s) h

theorem bind_ofExcept_ok (h : r = .ok a) (g : α → Prog σ ε γ) (s : σ) :
    (ofExcept r >>= g) s = g a s :=
  bind_of_ok (ofExcept_eq h s) g

theorem bind_ofExcept_error {e : ε} (h : r = .error e) (g : α → Prog σ ε γ) (s : σ) :
    (ofExcept r >>= g) s = (.error e, s) :=
  bind_of_error (ofExcept_eq h s) g

variable {t : σ}

theorem bind_eq_ok {g : α → Prog σ ε γ} {b : γ} :
    (x >>= g) s = (.ok b, t) ↔ ∃ a s', x s = (.ok a, s') ∧ g a s' = (.ok b, t) := by
  rcases h : x s with ⟨_ | a, s'⟩
  · rw [bind_of_error h]
    simp
  · rw [bind_of_ok h]
    constructor
    · exact fun hg => ⟨a, s', rfl, hg⟩
    · rintro ⟨_, _, heq, hg⟩
      cases heq
      exact hg

theorem ofExcept_eq_ok : ofExcept r s = (.ok a, t) ↔ r = .ok a ∧ s = t :=
  Prod.mk.injEq .. ▸ Iff.rfl

theorem mapError_eq_ok {g : ε → ε} : mapError g x s = (.ok a, t) ↔ x s = (.ok a, t) := by
  rcases h : x s with ⟨_ | _, s'⟩ <;> simp [mapError, h, Except.mapError]

theorem attempt_eq (h : x s = (r, s')) : attempt x s = (.ok r, s') := by
  simp only [attempt, h]

end Prog

abbrev Loop (σ ε α : Type) : Type := σ → Option (Except ε α × σ)

namespace Loop

instance : Monad (Loop σ ε) where
  pure a := fun s => some (.ok a, s)
  bind x g := fun s =>
    match x s with
    | none => none
    | some (.ok a, s') => g a s'
    | some (.error e, s') => some (.error e, s')

instance : MonadLift (Prog σ ε) (Loop σ ε) where
  monadLift x := fun s => some (x s)

def diverge : Loop σ ε α := fun _ => none

theorem pure_eq (a : α) (s : σ) : (pure a : Loop σ ε α) s = some (.ok a, s) := rfl

variable {s s' : σ}

theorem bind_of_ok {x : Loop σ ε α} {a : α} (h : x s = some (.ok a, s')) (g : α → Loop σ ε γ) :
    (x >>= g) s = g a s' := by
  simp only [bind, h]

theorem bind_of_error {x : Loop σ ε α} {e : ε} (h : x s = some (.error e, s')) (g : α → Loop σ ε γ)
     :
    (x >>= g) s = some (.error e, s') := by
  simp only [bind, h]

theorem bind_of_none {x : Loop σ ε α} (h : x s = none) (g : α → Loop σ ε γ) :
    (x >>= g) s = none := by
  simp only [bind, h]

variable {x : Prog σ ε α}

theorem lift_eq {r : Except ε α} (h : x s = (r, s')) :
    (monadLift x : Loop σ ε α) s = some (r, s') :=
  congrArg some h

theorem lift_bind (x : Prog σ ε α) (g : α → Prog σ ε γ) :
    (monadLift (x >>= g) : Loop σ ε γ) = (monadLift x : Loop σ ε α) >>= fun a => monadLift (g a) := by
  funext s
  change some ((x >>= g) s) = ((monadLift x : Loop σ ε α) >>= fun a => monadLift (g a)) s
  rcases h : x s with ⟨_ | _, s'⟩
  · rw [Prog.bind_of_error h, bind_of_error (lift_eq h)]
  · rw [Prog.bind_of_ok h, bind_of_ok (lift_eq h)]
    rfl

theorem bind_lift_ok {a : α} (h : x s = (.ok a, s')) (g : α → Loop σ ε γ) :
    ((monadLift x : Loop σ ε α) >>= g) s = g a s' :=
  bind_of_ok (lift_eq h) g

theorem bind_lift_error {e : ε} (h : x s = (.error e, s')) (g : α → Loop σ ε γ) :
    ((monadLift x : Loop σ ε α) >>= g) s = some (.error e, s') :=
  bind_of_error (lift_eq h) g

end Loop

end Momo
