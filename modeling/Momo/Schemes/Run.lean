import Mathlib

/-! @scheme run | family:transition-system

    Runs of a deterministic system over a list of operations. A run is the fold of the step
    function; a run is `Guarded` when every operation meets a condition in the state it starts
    from. Two rules carry every induction over runs: an invariant kept by each guarded step holds
    at the end of a guarded run, and a relation kept by each pair of steps relates the ends of two
    runs over the same operations. -/

namespace Momo

variable {S A O : Type}

def run (step : S → O → S) (s : S) (ops : List O) : S := ops.foldl step s

@[simp] theorem run_nil (step : S → O → S) (s : S) : run step s [] = s := rfl

@[simp] theorem run_cons (step : S → O → S) (s : S) (o : O) (ops : List O) :
    run step s (o :: ops) = run step (step s o) ops := rfl

theorem run_append (step : S → O → S) (s : S) (ops ops' : List O) :
    run step s (ops ++ ops') = run step (run step s ops) ops' := List.foldl_append

/-- Every operation of the run meets `ok` in the state it starts from. -/
def Guarded (step : S → O → S) (ok : S → O → Prop) : S → List O → Prop
  | _, [] => True
  | s, o :: ops => ok s o ∧ Guarded step ok (step s o) ops

instance Guarded.decidable (step : S → O → S) (ok : S → O → Prop)
    [hd : ∀ s o, Decidable (ok s o)] : ∀ s ops, Decidable (Guarded step ok s ops)
  | _, [] => isTrue trivial
  | s, o :: ops =>
    have := Guarded.decidable step ok (step s o) ops
    inferInstanceAs (Decidable (ok s o ∧ Guarded step ok (step s o) ops))

variable {step : S → O → S} {ok : S → O → Prop}

theorem guarded_append {ops' : List O} :
    ∀ {ops : List O} {s : S}, Guarded step ok s (ops ++ ops') ↔
      Guarded step ok s ops ∧ Guarded step ok (run step s ops) ops'
  | [], _ => by simp [Guarded]
  | o :: ops, s => by
      simp only [List.cons_append, Guarded, run_cons, guarded_append, and_assoc]

variable {ops : List O} {s : S}

theorem guarded_iff_split :
    Guarded step ok s ops ↔
      ∀ before o after, ops = before ++ o :: after → ok (run step s before) o := by
  constructor
  · rintro hg before o after rfl
    exact (guarded_append.mp hg).2.1
  · intro h
    induction ops generalizing s with
    | nil => trivial
    | cons o ops ih =>
      refine ⟨h [] o ops rfl, ih fun before o' after hcut => ?_⟩
      exact h (o :: before) o' after (by rw [hcut, List.cons_append])

theorem guarded_of_forall {ok : O → Prop} :
    ∀ {ops : List O} (s : S), (∀ o ∈ ops, ok o) → Guarded step (fun _ o => ok o) s ops
  | [], _, _ => trivial
  | o :: _, s, h =>
    ⟨h o (List.mem_cons_self ..),
      guarded_of_forall (step s o) (fun o' ho' => h o' (List.mem_cons_of_mem _ ho'))⟩

theorem Guarded.and_mem (hg : Guarded step ok s ops) :
    Guarded step (fun t o => ok t o ∧ o ∈ ops) s ops := by
  have hmono : ∀ (l : List O) (t : S), l ⊆ ops → Guarded step ok t l →
      Guarded step (fun t o => ok t o ∧ o ∈ ops) t l := by
    intro l
    induction l with
    | nil => intro t _ _; trivial
    | cons o l ih =>
      intro t hsub hl
      exact ⟨⟨hl.1, hsub (List.mem_cons_self ..)⟩,
        ih (step t o) (fun x hx => hsub (List.mem_cons_of_mem _ hx)) hl.2⟩
  exact hmono ops s (List.Subset.refl ops) hg

theorem run_invariant (inv : S → Prop) (hstep : ∀ s o, inv s → ok s o → inv (step s o)) (hs : inv s)
    (hg : Guarded step ok s ops) : inv (run step s ops) := by
  induction ops generalizing s with
  | nil => exact hs
  | cons o ops ih => exact ih (hstep s o hs hg.1) hg.2

theorem run_simulation {astep : A → O → A} {rel : S → A → Prop}
    (hstep : ∀ s a o, rel s a → ok s o → rel (step s o) (astep a o)) {a : A} (hs : rel s a)
    (hg : Guarded step ok s ops) : rel (run step s ops) (run astep a ops) := by
  induction ops generalizing s a with
  | nil => exact hs
  | cons o ops ih => exact ih (hstep s a o hs hg.1) hg.2

end Momo
