import Momo.Schemes.OrderedMap

/-! @scheme last-write | family:logs with replacement

    A log of writes of texts under keys. What it means is the map its last writes leave; what a
    program may do instead is keep the whole log and sort it by key. The two read the same, from the
    first key to the last, exactly when every write that a later one replaces was empty. The order
    the sort gives to writes of one key does not matter for that. -/

namespace Momo.LastWrite

variable {K A : Type} [LinearOrder K]

def collect (log : List (K × List A)) : OMap K (List A) :=
  log.foldl (fun m w => m.put w.1 w.2) OMap.empty

def text (log : List (K × List A)) : List A := log.flatMap Prod.snd

def OnlyLatest : List (K × List A) → Prop
  | [] => True
  | w :: log => ((∃ w' ∈ log, w'.1 = w.1) → w.2 = []) ∧ OnlyLatest log

instance OnlyLatest.decidable [DecidableEq A] : ∀ log : List (K × List A), Decidable (OnlyLatest log)
  | [] => inferInstanceAs (Decidable True)
  | w :: log =>
    haveI := OnlyLatest.decidable log
    inferInstanceAs (Decidable (((∃ w' ∈ log, w'.1 = w.1) → w.2 = []) ∧ OnlyLatest log))

theorem collect_concat (log : List (K × List A)) (w : K × List A) :
    collect (log ++ [w]) = (collect log).put w.1 w.2 := by
  rw [collect, List.foldl_append]
  rfl

variable {log : List (K × List A)}

omit [LinearOrder K] in
theorem onlyLatest_concat {w : K × List A} :
    OnlyLatest (log ++ [w]) ↔ OnlyLatest log ∧ ∀ w' ∈ log, w'.1 = w.1 → w'.2 = [] := by
  induction log with
  | nil => simp [OnlyLatest]
  | cons v log ih =>
    rw [List.cons_append, OnlyLatest, OnlyLatest, ih]
    constructor
    · rintro ⟨hv, hlog, hw⟩
      refine ⟨⟨fun ⟨w', hw', heq⟩ => hv ⟨w', List.mem_append_left _ hw', heq⟩, hlog⟩, ?_⟩
      intro w' hw' heq
      rcases List.mem_cons.mp hw' with rfl | hw'
      · exact hv ⟨w, by simp, heq.symm⟩
      · exact hw w' hw' heq
    · rintro ⟨⟨hv, hlog⟩, hw⟩
      refine ⟨?_, hlog, fun w' hw' => hw w' (List.mem_cons_of_mem _ hw')⟩
      rintro ⟨w', hw', heq⟩
      rcases List.mem_append.mp hw' with hw' | hw'
      · exact hv ⟨w', hw', heq⟩
      · obtain rfl := List.mem_singleton.mp hw'
        exact hw v (List.mem_cons_self ..) heq.symm

/-! ### What is in the map -/

theorem mem_of_get_collect {k : K} {v : List A} (h : (collect log).get k = some v) :
    (k, v) ∈ log := by
  induction log using List.reverseRecOn with
  | nil => cases h
  | append_singleton log w ih =>
    rw [collect_concat, OMap.get_put] at h
    split_ifs at h with hk
    · obtain rfl := Option.some.inj h
      rw [hk]
      simp
    · exact List.mem_append_left _ (ih h)

theorem get_collect_of_mem (hlog : OnlyLatest log) {k : K} {v : List A} (h : (k, v) ∈ log)
    (hv : v ≠ []) : (collect log).get k = some v := by
  induction log using List.reverseRecOn with
  | nil => cases h
  | append_singleton log w ih =>
    obtain ⟨hlog, hw⟩ := onlyLatest_concat.mp hlog
    rw [collect_concat, OMap.get_put]
    rcases List.mem_append.mp h with h | h
    · by_cases hk : k = w.1
      · exact absurd (hw _ h hk) hv
      · rw [if_neg hk]
        exact ih hlog h
    · obtain rfl := List.mem_singleton.mp h
      rw [if_pos rfl]

/-! ### Lengths -/

theorem length_text_place (k : K) (v : List A) : ∀ {l : List (K × List A)},
    l.Pairwise (fun a b => a.1 < b.1) →
    (text (OMap.place k v l)).length + ((OMap.lookup k l).getD []).length =
      (text l).length + v.length
  | [], _ => by simp [OMap.place, OMap.lookup, text]
  | a :: l, hl => by
    obtain ⟨hlt, hl⟩ := List.pairwise_cons.mp hl
    rw [OMap.place, OMap.lookup]
    by_cases h1 : k < a.1
    · have hnone : OMap.lookup k l = none := by
        rw [Option.eq_none_iff_forall_ne_some]
        intro x hx
        have hmem : (k, x) ∈ l := (OMap.mem_iff_lookup hl).mpr hx
        exact absurd (hlt _ hmem) (not_lt.mpr h1.le)
      rw [if_pos h1, if_neg h1.ne', hnone]
      simp [text]
      omega
    · rw [if_neg h1]
      by_cases h2 : k = a.1
      · rw [if_pos h2, if_pos h2.symm]
        simp [text]
        omega
      · have ih := length_text_place k v hl
        rw [if_neg h2, if_neg (Ne.symm h2)]
        simp only [text, List.flatMap_cons, List.length_append] at ih ⊢
        omega

theorem length_collect_concat (log : List (K × List A)) (w : K × List A) :
    (text (collect (log ++ [w])).entries).length + (((collect log).get w.1).getD []).length =
      (text (collect log).entries).length + w.2.length := by
  rw [collect_concat]
  exact length_text_place w.1 w.2 (collect log).sorted

omit [LinearOrder K] in
theorem length_text_concat (log : List (K × List A)) (w : K × List A) :
    (text (log ++ [w])).length = (text log).length + w.2.length := by
  simp [text]

theorem length_collect_le (log : List (K × List A)) :
    (text (collect log).entries).length ≤ (text log).length := by
  induction log using List.reverseRecOn with
  | nil => exact Nat.le_refl _
  | append_singleton log w ih =>
    have h := length_collect_concat log w
    rw [length_text_concat]
    omega

theorem onlyLatest_of_length (h : (text (collect log).entries).length = (text log).length) :
    OnlyLatest log := by
  induction log using List.reverseRecOn with
  | nil => trivial
  | append_singleton log w ih =>
    have hstep := length_collect_concat log w
    have hle := length_collect_le log
    rw [length_text_concat] at h
    have hlog : OnlyLatest log := ih (by omega)
    have hget : ((collect log).get w.1).getD [] = [] := List.length_eq_zero_iff.mp (by omega)
    refine onlyLatest_concat.mpr ⟨hlog, fun w' hw' heq => ?_⟩
    by_contra hne
    rw [← heq, get_collect_of_mem hlog hw' hne] at hget
    exact hne hget

/-! ### Sorted logs -/

omit [LinearOrder K] in
theorem text_filter [DecidableEq A] (l : List (K × List A)) :
    text (l.filter (fun w => w.2 ≠ [])) = text l := by
  induction l with
  | nil => rfl
  | cons w l ih =>
    rw [List.filter_cons]
    split_ifs with hw
    · rw [text, List.flatMap_cons, text, List.flatMap_cons]
      exact congrArg (w.2 ++ ·) ih
    · have hw : w.2 = [] := by simpa using hw
      rw [ih, text, text, List.flatMap_cons, hw, List.nil_append]

theorem text_unique (hlog : OnlyLatest log) {w w' : K × List A} (hw : w ∈ log) (hw' : w' ∈ log)
    (hk : w.1 = w'.1) (hne : w.2 ≠ []) (hne' : w'.2 ≠ []) : w = w' := by
  have h := get_collect_of_mem hlog hw hne
  have h' := get_collect_of_mem hlog hw' hne'
  rw [hk, h'] at h
  exact Prod.ext hk (Option.some.inj h).symm

omit [LinearOrder K] in
theorem nodup_texts [DecidableEq A] (hlog : OnlyLatest log) :
    (log.filter (fun w => w.2 ≠ [])).Nodup := by
  induction log with
  | nil => exact List.nodup_nil
  | cons w log ih =>
    rw [List.filter_cons]
    split_ifs with hw
    · refine List.nodup_cons.mpr ⟨fun hmem => ?_, ih hlog.2⟩
      exact (by simpa using hw : w.2 ≠ []) (hlog.1 ⟨w, List.mem_of_mem_filter hmem, rfl⟩)
    · exact ih hlog.2

/-- CORRECT: a log sorted by key reads like the map of its last writes exactly when every replaced
    write was empty. -/
theorem sorted_text_iff {sorted : List (K × List A)} (hperm : sorted.Perm log)
    (hsorted : sorted.Pairwise (fun a b => a.1 ≤ b.1)) :
    text sorted = text (collect log).entries ↔ OnlyLatest log := by
  classical
  constructor
  · intro h
    apply onlyLatest_of_length
    rw [← h, text, text, (hperm.flatMap_right Prod.snd).length_eq]
  · intro hlog
    rw [← text_filter sorted, ← text_filter (collect log).entries]
    congr 1
    -- two lists of the same texts, both strictly ascending
    have hstrict : (sorted.filter (fun w => w.2 ≠ [])).Pairwise (fun a b => a.1 < b.1) := by
      have hnodup : (sorted.filter (fun w => w.2 ≠ [])).Nodup :=
        ((hperm.filter _).nodup_iff).mpr (nodup_texts hlog)
      refine ((hsorted.filter _).and hnodup).imp_of_mem ?_
      intro a b ha hb hab
      obtain ⟨ha, hane⟩ := List.mem_filter.mp ha
      obtain ⟨hb, hbne⟩ := List.mem_filter.mp hb
      refine lt_of_le_of_ne hab.1 (fun hk => hab.2 ?_)
      exact text_unique hlog (hperm.mem_iff.mp ha) (hperm.mem_iff.mp hb) hk (by simpa using hane)
        (by simpa using hbne)
    have hstrict' := (collect log).sorted.filter (fun w => w.2 ≠ [])
    refine List.Perm.eq_of_pairwise ?_ hstrict hstrict' ?_
    · intro a b _ _ hab hba
      exact absurd hab (not_lt.mpr hba.le)
    · refine (List.perm_ext_iff_of_nodup (hstrict.imp fun h => ?_) (hstrict'.imp fun h => ?_)).mpr ?_
      · exact fun heq => absurd h (by rw [heq]; exact lt_irrefl _)
      · exact fun heq => absurd h (by rw [heq]; exact lt_irrefl _)
      · rintro ⟨k, v⟩
        rw [List.mem_filter, List.mem_filter, hperm.mem_iff, OMap.mem_entries]
        constructor
        · rintro ⟨hmem, hv⟩
          exact ⟨get_collect_of_mem hlog hmem (by simpa using hv), hv⟩
        · rintro ⟨hget, hv⟩
          exact ⟨mem_of_get_collect hget, hv⟩

end Momo.LastWrite
