import Mathlib

/-! @scheme hash-chain | family:tamper evidence

    A list of entries in which each one names the hash of the one before it and carries its own,
    computed from its fields and that link:

        start <- e1 <- e2 <- ... <- en

    Two facts: a chain grows at its end, and when hashes do not collide the last hash determines the
    whole list, its length included. -/

namespace Momo.HashChain

variable {E H : Type} (link own : E → H) (digest : H → E → H)

def Chain : H → List E → Prop
  | _, [] => True
  | prev, e :: es => link e = prev ∧ own e = digest prev e ∧ Chain (own e) es

def lastHash : H → List E → H
  | prev, [] => prev
  | _, e :: es => lastHash (own e) es

theorem lastHash_concat (prev : H) (es : List E) (e : E) :
    lastHash own prev (es ++ [e]) = own e := by
  induction es generalizing prev with
  | nil => rfl
  | cons f es ih => exact ih (own f)

theorem chain_concat {prev : H} {es : List E} {e : E} :
    Chain link own digest prev (es ++ [e]) ↔ Chain link own digest prev es ∧
      link e = lastHash own prev es ∧ own e = digest (lastHash own prev es) e := by
  induction es generalizing prev with
  | nil => simp [Chain, lastHash]
  | cons f es ih =>
    rw [List.cons_append, Chain, Chain, ih]
    simp only [and_assoc, lastHash]

theorem chain_determined {start : H} {es fs : List E} (hes : Chain link own digest start es)
    (hfs : Chain link own digest start fs) (hes0 : es ≠ []) (hfs0 : fs ≠ [])
    (hstart : ∀ p e, e ∈ es ∨ e ∈ fs → digest p e ≠ start)
    (hinj : ∀ e ∈ es, ∀ f ∈ fs, own e = own f → own e = digest (link e) e →
      own f = digest (link f) f → e = f)
    (hlast : lastHash own start es = lastHash own start fs) : es = fs := by
  induction es using List.reverseRecOn generalizing fs with
  | nil => exact absurd rfl hes0
  | append_singleton es e ih =>
    obtain ⟨fs, f, rfl⟩ : ∃ fs' f, fs = fs' ++ [f] := by
      rcases List.eq_nil_or_concat fs with h | ⟨fs', f, h⟩
      · exact absurd h hfs0
      · exact ⟨fs', f, by simpa using h⟩
    obtain ⟨hes', hlinkE, hownE⟩ := (chain_concat link own digest).mp hes
    obtain ⟨hfs', hlinkF, hownF⟩ := (chain_concat link own digest).mp hfs
    rw [lastHash_concat, lastHash_concat] at hlast
    -- the last entries agree, so the hashes before them do
    obtain rfl : e = f := hinj e (by simp) f (by simp) hlast (by rw [hlinkE]; exact hownE)
      (by rw [hlinkF]; exact hownF)
    have hprev : lastHash own start es = lastHash own start fs := hlinkE.symm.trans hlinkF
    have hne : ∀ {gs : List E}, Chain link own digest start gs → gs ≠ [] →
        (∀ g ∈ gs, g ∈ es ∨ g ∈ fs) → lastHash own start gs ≠ start := by
      intro gs hgs hgs0 hsub
      rcases List.eq_nil_or_concat gs with h | ⟨gs', g, h⟩
      · exact absurd h hgs0
      · have h : gs = gs' ++ [g] := by simpa using h
        subst h
        rw [lastHash_concat, ((chain_concat link own digest).mp hgs).2.2]
        refine hstart _ g ?_
        rcases hsub g (by simp) with hg | hg
        · exact Or.inl (List.mem_append_left _ hg)
        · exact Or.inr (List.mem_append_left _ hg)
    by_cases hes0' : es = []
    · -- one chain is at its start, so is the other
      subst hes0'
      by_cases hfs0' : fs = []
      · rw [hfs0']
      · exact absurd hprev.symm (hne hfs' hfs0' (fun g hg => Or.inr hg))
    · by_cases hfs0' : fs = []
      · subst hfs0'
        exact absurd hprev (hne hes' hes0' (fun g hg => Or.inl hg))
      · rw [ih hes' hfs' hes0' hfs0'
          (fun p g hg => hstart p g (hg.imp (List.mem_append_left _) (List.mem_append_left _)))
          (fun g hg g' hg' => hinj g (List.mem_append_left _ hg) g' (List.mem_append_left _ hg'))
          hprev]

end Momo.HashChain
