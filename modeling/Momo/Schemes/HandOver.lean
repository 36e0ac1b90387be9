import Mathlib

/-! @scheme hand-over | family:protocol

    Copies of one thing on several parties, handed over from party to party: a party that wants to
    be rid of its copy sends it to another one, or learns that the other one has it, and drops its
    own once that is acknowledged. -/

namespace Momo.HandOver

inductive Task (ι : Type)
  | free
  | sending (target : ι)
  | acked

structure Copies (ι : Type) where
  holders : Set ι
  task : ι → Task ι

variable {ι : Type} [DecidableEq ι]

inductive Step (c : Copies ι) : Copies ι → Prop
  | stay : Step c c
  | offer {k t : ι} (hk : k ∈ c.holders) (ht : c.task t = .free) (hne : t ≠ k) :
      Step c { c with task := Function.update c.task k (.sending t) }
  | skip {k t : ι} (hk : t ∈ c.holders) (ht : c.task t = .free) (hne : t ≠ k) :
      Step c { c with task := Function.update c.task k .acked }
  | arrive {k t : ι} {s : Set ι} (hk : c.task k = .sending t) (hs : c.holders ⊆ s) (ht : t ∈ s) :
      Step c ⟨s, Function.update c.task k .acked⟩
  | refuse (k : ι) {s : Set ι} (hs : c.holders ⊆ s) : Step c ⟨s, Function.update c.task k .free⟩
  | drop {k : ι} (hk : c.task k = .acked) :
      Step c ⟨c.holders \ {k}, Function.update c.task k .free⟩

/-- Some copy is not about to go: its holder is free, or is sending it to a free party. -/
def Secure (c : Copies ι) : Prop :=
  ∃ k ∈ c.holders, c.task k = .free ∨ ∃ t, c.task k = .sending t ∧ c.task t = .free

omit [DecidableEq ι] in
theorem secure_of_free {c : Copies ι} (hfree : ∀ k, c.task k = .free) (h : c.holders.Nonempty) :
    Secure c := by
  obtain ⟨k, hk⟩ := h
  exact ⟨k, hk, Or.inl (hfree k)⟩

omit [DecidableEq ι] in
theorem Secure.nonempty {c : Copies ι} (h : Secure c) : c.holders.Nonempty := by
  obtain ⟨k, hk, -⟩ := h
  exact ⟨k, hk⟩

theorem update_free {f : ι → Task ι} {t : ι} (k : ι) (ht : f t = .free) :
    Function.update f k .free t = .free := by
  rcases eq_or_ne t k with rfl | hne
  · exact Function.update_self ..
  · rw [Function.update_of_ne hne, ht]

theorem secure_step {c c' : Copies ι} (hs : Secure c) (hstep : Step c c') : Secure c' := by
  cases hstep with
  | stay => exact hs
  | @offer k t hk ht hne =>
    -- the sender itself, whose target is free
    refine ⟨k, hk, Or.inr ⟨t, Function.update_self .., ?_⟩⟩
    simp only [Function.update_of_ne hne, ht]
  | @skip k t hk ht hne =>
    refine ⟨t, hk, Or.inl ?_⟩
    simp only [Function.update_of_ne hne, ht]
  | @arrive k t s hk hsub ht =>
    have hne : ∀ u, c.task u = .free → u ≠ k := by
      rintro u hu rfl
      rw [hk] at hu
      cases hu
    obtain ⟨w, hw, hfree | ⟨u, hsend, hu⟩⟩ := hs
    · exact ⟨w, hsub hw, Or.inl (by simp only [Function.update_of_ne (hne w hfree), hfree])⟩
    · rcases eq_or_ne w k with rfl | hwk
      · -- the copy has arrived where it was sent to
        rw [hk] at hsend
        cases hsend
        exact ⟨t, ht, Or.inl (by simp only [Function.update_of_ne (hne t hu), hu])⟩
      · refine ⟨w, hsub hw, Or.inr ⟨u, ?_, ?_⟩⟩
        · simp only [Function.update_of_ne hwk, hsend]
        · simp only [Function.update_of_ne (hne u hu), hu]
  | @refuse k s hsub =>
    obtain ⟨w, hw, hfree | ⟨u, hsend, hu⟩⟩ := hs
    · exact ⟨w, hsub hw, Or.inl (update_free k hfree)⟩
    · rcases eq_or_ne w k with rfl | hwk
      · exact ⟨w, hsub hw, Or.inl (Function.update_self ..)⟩
      · refine ⟨w, hsub hw, Or.inr ⟨u, ?_, update_free k hu⟩⟩
        simp only [Function.update_of_ne hwk, hsend]
  | @drop k hk =>
    obtain ⟨w, hw, hfree | ⟨u, hsend, hu⟩⟩ := hs
    · have hwk : w ≠ k := by
        rintro rfl
        rw [hk] at hfree
        cases hfree
      exact ⟨w, ⟨hw, hwk⟩, Or.inl (update_free k hfree)⟩
    · have hwk : w ≠ k := by
        rintro rfl
        rw [hk] at hsend
        cases hsend
      refine ⟨w, ⟨hw, hwk⟩, Or.inr ⟨u, ?_, update_free k hu⟩⟩
      simp only [Function.update_of_ne hwk, hsend]

end Momo.HandOver
