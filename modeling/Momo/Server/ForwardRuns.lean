import Momo.Server.Forward

/-! @momo src/server/server.go | scheme:reachability, then per-node effects

    Which nodes of the placement have stored an acknowledged upload. First who is reached, a matter
    of the placement alone; then what a visit and a relay do to one store; then both together, by
    induction on the depth of the forwarding. -/

namespace Momo

namespace Network

variable {n : ℕ} {mode : Mode} {ids : List (Fin n)}

/-! ### Reachability -/

theorem order_eq_nil (N : Network n) (ts : List (Fin n)) : N.order ts = [] ↔ ts = [] := by
  rw [← List.length_eq_zero_iff, (N.order_perm ts).length_eq, List.length_eq_zero_iff]

variable {i : Fin n}

theorem dropWhile_next {k : Fin n} {rest : List (Fin n)} (hnd : ids.Nodup)
    (h : ids.dropWhile (fun id => id ≠ i) = i :: k :: rest) :
    ids.dropWhile (fun id => id ≠ k) = k :: rest := by
  induction ids with
  | nil => cases h
  | cons a ids ih =>
    obtain ⟨ha, hnd⟩ := List.nodup_cons.mp hnd
    rw [List.dropWhile_cons] at h
    rcases eq_or_ne a i with rfl | hne
    · simp only [ne_eq, not_true_eq_false, decide_false, Bool.false_eq_true, if_false,
        List.cons.injEq, true_and] at h
      subst h
      have hak : a ≠ k := fun hc => ha (hc ▸ List.mem_cons_self ..)
      simp [hak]
    · simp only [ne_eq, hne, not_false_eq_true, decide_true, if_true] at h
      have hka : a ≠ k := by
        rintro rfl
        refine ha ((List.dropWhile_suffix (fun id => decide (id ≠ i))).subset ?_)
        simp only [decide_not] at h
        simp [h]
      rw [List.dropWhile_cons]
      simp only [ne_eq, hka, not_false_eq_true, decide_true, if_true]
      exact ih hnd h

theorem dropWhile_of_notMem (h : i ∉ ids) : ids.dropWhile (fun id => id ≠ i) = [] := by
  rw [List.dropWhile_eq_nil_iff]
  intro a ha
  exact decide_eq_true (fun hc => h (hc ▸ ha))

theorem dropWhile_of_mem (h : i ∈ ids) : ∃ rest, ids.dropWhile (fun id => id ≠ i) = i :: rest := by
  induction ids with
  | nil => cases h
  | cons a ids ih =>
    rcases eq_or_ne a i with rfl | hne
    · exact ⟨ids, by simp⟩
    · obtain ⟨rest, hrest⟩ := ih ((List.mem_cons.mp h).resolve_left hne.symm)
      exact ⟨rest, by simpa [List.dropWhile_cons, hne] using hrest⟩

variable {external : Bool}

theorem of_targets_nil (h : targets mode external ids i = []) (fuel : ℕ) :
    Enough mode ids (fuel + 1) external i ∧
    ∀ j, (Visits mode ids (fuel + 1) external i j ↔ j = i) ∧
      ¬ Relays mode ids (fuel + 1) external i j := by
  refine ⟨?_, fun j => ⟨?_, ?_⟩⟩
  · simp only [Enough, h, List.not_mem_nil, false_implies, implies_true]
  · simp only [Visits, h, List.not_mem_nil, false_and, exists_false, or_false]
  · simp only [Relays, h, List.not_mem_nil, false_and, exists_false, or_false, ne_eq,
      not_true_eq_false, and_false, not_false_eq_true]

theorem chain_suffix (hnd : ids.Nodup) (external : Bool) : ∀ (rest : List (Fin n)) (i : Fin n)
    (fuel : ℕ), ids.dropWhile (fun id => id ≠ i) = i :: rest → rest.length < fuel →
    Enough .chain ids fuel external i ∧
    ∀ j, (Visits .chain ids fuel external i j ↔ j ∈ i :: rest) ∧
      (Relays .chain ids fuel external i j ↔ j ∈ i :: rest ∧ nextHop ids j ≠ none) := by
  intro rest
  induction rest generalizing external with
  | nil =>
    intro i fuel hdrop hf
    obtain ⟨fuel, rfl⟩ : ∃ f, fuel = f + 1 := Nat.exists_eq_succ_of_ne_zero (by omega)
    have hnone : nextHop ids i = none := by simp only [nextHop, hdrop]
    have htargets : targets .chain external ids i = [] := by simp only [targets, hnone]; rfl
    obtain ⟨henough, hrec⟩ := of_targets_nil htargets fuel
    refine ⟨henough, fun j => ⟨?_, iff_of_false (hrec j).2 ?_⟩⟩
    · rw [(hrec j).1, List.mem_singleton]
    · rintro ⟨hj, hc⟩
      rw [List.mem_singleton.mp hj] at hc
      exact hc hnone
  | cons k rest ih =>
    intro i fuel hdrop hf
    obtain ⟨fuel, rfl⟩ : ∃ f, fuel = f + 1 := Nat.exists_eq_succ_of_ne_zero (by omega)
    have hsome : nextHop ids i = some k := by simp only [nextHop, hdrop]
    have htargets : targets .chain external ids i = [k] := by simp only [targets, hsome]; rfl
    obtain ⟨henough, hrec⟩ := ih false k fuel (dropWhile_next hnd hdrop)
      (by rw [List.length_cons] at hf; omega)
    refine ⟨?_, fun j => ⟨?_, ?_⟩⟩
    · simpa only [Enough, htargets, List.mem_singleton, forall_eq] using henough
    · simp only [Visits, htargets, List.mem_singleton, exists_eq_left, (hrec j).1,
        List.mem_cons (a := j) (b := i)]
    · simp only [Relays, htargets, List.mem_singleton, exists_eq_left, (hrec j).2, ne_eq,
        List.cons_ne_nil, not_false_eq_true, and_true, List.mem_cons (a := j) (b := i)]
      constructor
      · rintro (rfl | ⟨hj, hn⟩)
        · exact ⟨Or.inl rfl, by simp [hsome]⟩
        · exact ⟨Or.inr hj, hn⟩
      · rintro ⟨rfl | hj, hn⟩
        · exact Or.inl rfl
        · exact Or.inr ⟨hj, hn⟩

theorem splay_targets_nil {t : Fin n} (h : ids.head? ≠ some t) :
    targets .splay false ids t = [] := by
  simp [targets, h]

theorem mem_splay_targets {t : Fin n} (h : ids.head? = some i ∨ external = true) :
    t ∈ targets .splay external ids i ↔ t ∈ ids ∧ t ≠ i := by
  simp only [targets, if_pos h, List.mem_filter, decide_eq_true_eq]

theorem splay_targets_ne_nil (h : ids.head? = some i ∨ external = true) :
    targets .splay external ids i ≠ [] ↔ ∃ k ∈ ids, k ≠ i := by
  constructor
  · intro hne
    obtain ⟨k, hk⟩ := List.exists_mem_of_ne_nil _ hne
    exact ⟨k, (mem_splay_targets h).mp hk⟩
  · rintro ⟨k, hk⟩ hnil
    have hmem := (mem_splay_targets h).mpr hk
    rw [hnil] at hmem
    cases hmem

theorem splay_peer (fuel : ℕ) (t : Fin n) :
    Enough .splay ids (fuel + 2) false t ∧
    ∀ j, Relays .splay ids (fuel + 2) false t j ↔ j = t ∧ ids.head? = some t ∧ ∃ k ∈ ids, k ≠ t := by
  rcases eq_or_ne ids.head? (some t) with hhead | hhead
  swap
  · obtain ⟨henough, hrec⟩ := of_targets_nil (splay_targets_nil hhead) (fuel + 1)
    exact ⟨henough, fun j => iff_of_false (hrec j).2 (fun hc => hhead hc.2.1)⟩
  have hleaf : ∀ k ∈ targets .splay false ids t, targets .splay false ids k = [] := by
    intro k hk
    refine splay_targets_nil (fun hc => ?_)
    exact ((mem_splay_targets (Or.inl hhead)).mp hk).2 (Option.some.inj (hc.symm.trans hhead))
  constructor
  · intro k hk
    exact (of_targets_nil (hleaf k hk) fuel).1
  · intro j
    rw [Relays, splay_targets_ne_nil (Or.inl hhead)]
    constructor
    · rintro (⟨hj, hk⟩ | ⟨k, hk, hc⟩)
      · exact ⟨hj, hhead, hk⟩
      · exact absurd hc ((of_targets_nil (hleaf k hk) fuel).2 j).2
    · rintro ⟨hj, -, hk⟩
      exact Or.inl ⟨hj, hk⟩

theorem reach_spec (mode : Mode) (hnd : ids.Nodup) (hlen : ids.length ≤ n) (external : Bool) (i : Fin n) :
    Enough mode ids (n + 2) external i ∧ ∀ j ∈ ids,
      (Visits mode ids (n + 2) external i j ↔ j ∈ reached mode ids external i) ∧
      (Relays mode ids (n + 2) external i j ↔
        j ∈ reached mode ids external i ∧ relaying mode ids external i j) := by
  have hpos : 0 < n := Fin.pos i
  have hself : ∀ j ∈ ids, (j ∈ ids.filter (fun id => id = i) ↔ j = i) := by
    intro j hj
    simp only [List.mem_filter, hj, true_and, decide_eq_true_eq]
  have hnone : targets mode external ids i = [] →
      (∀ j ∈ ids, (j ∈ reached mode ids external i ↔ j = i)) →
      (∀ j ∈ ids, j ∈ reached mode ids external i → ¬ relaying mode ids external i j) →
      Enough mode ids (n + 2) external i ∧ ∀ j ∈ ids,
        (Visits mode ids (n + 2) external i j ↔ j ∈ reached mode ids external i) ∧
        (Relays mode ids (n + 2) external i j ↔
          j ∈ reached mode ids external i ∧ relaying mode ids external i j) := by
    intro htargets hreach hrelay
    obtain ⟨henough, hrec⟩ := of_targets_nil htargets (n + 1)
    refine ⟨henough, fun j hj => ⟨?_, iff_of_false (hrec j).2 (fun hc => hrelay j hj hc.1 hc.2)⟩⟩
    rw [(hrec j).1, hreach j hj]
  cases mode with
  | none => exact hnone rfl hself (fun _ _ _ h => h)
  | primarySplay => exact hnone rfl hself (fun _ _ _ h => h)
  | chain =>
    by_cases hi : i ∈ ids
    · obtain ⟨rest, hrest⟩ := dropWhile_of_mem hi
      have hshort := (List.dropWhile_suffix (fun id => decide (id ≠ i)) (l := ids)).length_le
      rw [hrest, List.length_cons] at hshort
      obtain ⟨henough, hrec⟩ := chain_suffix hnd external rest i (n + 2) hrest (by omega)
      refine ⟨henough, fun j _ => ?_⟩
      rw [reached, hrest]
      exact hrec j
    · have hdrop := dropWhile_of_notMem hi
      refine hnone (by simp only [targets, nextHop, hdrop]; rfl) (fun j hj => ?_) (fun j _ hc => ?_)
      · rw [reached, hdrop]
        exact iff_of_false List.not_mem_nil (fun hc => hi (hc ▸ hj))
      · rw [reached, hdrop] at hc
        cases hc
  | splay =>
    by_cases hlead : ids.head? = some i ∨ external = true
    swap
    · refine hnone (by simp only [targets, if_neg hlead]) ?_ (fun _ _ _ h => hlead h.1)
      simpa only [reached, if_neg hlead] using hself
    simp only [reached, if_pos hlead]
    refine ⟨fun t _ => ?_, fun j hj => ⟨iff_of_true ?_ hj, ?_⟩⟩
    · obtain ⟨m, rfl⟩ : ∃ m, n = m + 1 := Nat.exists_eq_succ_of_ne_zero hpos.ne'
      exact (splay_peer m t).1
    · -- every node of the placement is a target of the first one
      rcases eq_or_ne j i with hji | hne
      · exact Or.inl hji
      · exact Or.inr ⟨j, (mem_splay_targets hlead).mpr ⟨hj, hne⟩, Or.inl rfl⟩
    · obtain ⟨m, rfl⟩ : ∃ m, n = m + 1 := Nat.exists_eq_succ_of_ne_zero hpos.ne'
      rw [Relays, splay_targets_ne_nil hlead, relaying]
      constructor
      · rintro (⟨rfl, hk⟩ | ⟨t, ht, hrel⟩)
        · exact ⟨hj, hlead, Or.inl rfl, hk⟩
        · obtain ⟨rfl, hhead, hk⟩ := ((splay_peer m t).2 j).mp hrel
          exact ⟨hj, hlead, Or.inr hhead, hk⟩
      · rintro ⟨-, -, hwho, hk⟩
        rcases eq_or_ne j i with rfl | hne
        · exact Or.inl ⟨rfl, hk⟩
        · refine Or.inr ⟨j, (mem_splay_targets hlead).mpr ⟨hj, hne⟩, ?_⟩
          exact ((splay_peer m j).2 j).mpr ⟨rfl, hwho.resolve_left hne, hk⟩

end Network

/-! ### What a visit and a relay do to one store -/

namespace CASStore

variable {β : Type}

def Known (s : CASStore β) (name h : Bytes) : Prop :=
  (s.db.objects.get h).isSome = true ∧ s.getHashForName name = .ok h

instance (s : CASStore β) (name h : Bytes) : Decidable (s.Known name h) :=
  inferInstanceAs (Decidable (_ ∧ _))

variable [BlobStore β] [MapBackend β]

def Fresh (s : CASStore β) (name h : Bytes) : Prop := ¬ s.Known name h ∧ ¬ s.Holds h

instance (s : CASStore β) (name h : Bytes) : Decidable (s.Fresh name h) :=
  inferInstanceAs (Decidable (_ ∧ _))

variable {s s' : CASStore β} {name h : Bytes}

omit [BlobStore β] [MapBackend β] in
theorem Written.known {now : Int} {size : Int} {remotePath : Bytes} {f : PutFields}
    (hw : Written s s' now name h size remotePath f) : s'.Known name h := by
  constructor
  · rw [hw.objects, Bucket.get_set_self]
    rfl
  · rw [getHashForName_eq_ok, hw.tombstones, hw.ns, Bucket.get_del_self, Bucket.get_set_self]
    exact ⟨rfl, rfl⟩

variable [Sha256]

def Stored (s : CASStore β) (name h : Bytes) : Prop := s.getHashForName name = .ok h ∧ s.Intact h

structure Visited (name h : Bytes) (s₀ s : CASStore β) : Prop where
  known : s.Known name h
  marks : s.db.quarantine = s₀.db.quarantine
  fresh : s₀.Fresh name h → s.Intact h
  bytes : ¬ s₀.Fresh name h → s.bytes h = s₀.bytes h

/-- A store `s` that was `s₀` before, has been visited and has relayed the object. -/
structure Relayed (name h : Bytes) (s₀ s : CASStore β) : Prop where
  known : s.Known name h
  intact : s.Intact h ↔
    s₀.Fresh name h ∨ s₀.Intact h ∨ s₀.db.quarantine.get h ≠ none ∨ s₀.bytes h = none
  settled : s.Intact h ∨ s.bytes h ≠ none ∧ s.db.quarantine.get h = none

theorem getFile_ok {env : UploadEnv} {u : Upload} (h : s.getFile env u = (.ok (), s')) :
    Written s s' env.putAt u.name u.hash u.size u.remotePath {} ∧ s'.bytes = s.bytesPut env u ∧
      s.BytesAccepted env u ∧ hashBytes u.payload.data = u.hash := by
  obtain ⟨hacc, hrej⟩ := registerUpload_spec s env u
  unfold getFile at h
  by_cases ha : s.BytesAccepted env u ∧ MetaAccepted u
  · obtain ⟨s'', hreg, hw, hb⟩ := hacc ha
    simp only [hreg, verifyUpload] at h
    cases hv : u.verdict u.payload.data with
    | none =>
      simp only [hv, Prod.mk.injEq, true_and] at h
      exact ⟨h ▸ hw, h ▸ hb, ha.1, Upload.hash_of_verdict hv⟩
    | some e =>
      simp only [hv] at h
      cases h
  · obtain ⟨e, s'', hreg, -⟩ := hrej ha
    simp only [hreg] at h
    cases h

theorem visited_of_storeUpload {env : UploadEnv} {u : Upload} {dedup : Bool} {x : Unit}
    (hans : s.answer u = some dedup) (hst : s.storeUpload env u.received dedup = (.ok x, s')) :
    Visited u.name u.hash s s' := by
  obtain ⟨-, hdedup⟩ := answer_eq_some.mp hans
  unfold storeUpload at hst
  cases dedup with
  | true =>
    have hknown : s.Known u.name u.hash := of_decide_eq_true hdedup.symm
    simp only [if_true] at hst
    split at hst
    · cases hst
    · rename_i hput
      cases hst
      obtain ⟨-, hw, -, hb⟩ := put_ok hput
      exact ⟨hw.known, hw.quarantine, fun hf => absurd hknown hf.1, fun _ => congrFun hb _⟩
  | false =>
    have hunknown : ¬ s.Known u.name u.hash := of_decide_eq_false hdedup.symm
    simp only [Bool.false_eq_true, if_false] at hst
    obtain ⟨hw, hb, hacc, hd⟩ := getFile_ok hst
    refine ⟨hw.known, hw.quarantine, fun hf => ?_, fun hf => ?_⟩
    · -- neither known nor held: the payload is written
      have hwr : s.Writes env u.received :=
        ⟨hacc.1, hacc.2.1, hf.2, (hacc.2.2.resolve_left hf.2).1⟩
      refine ⟨u.received.payload.data, ?_, hd⟩
      rw [hb, bytesPut, if_pos hwr]
      exact Function.update_self ..
    · have hheld : s.Holds u.hash := by
        by_contra hc
        exact hf ⟨hunknown, hc⟩
      rw [hb, bytesPut, if_neg (fun hw => hw.2.2.1 hheld)]

variable {r : Stream × FileMetadata}

theorem get_known (hk : s.Known name h) (hget : s.get name = (.ok r, s')) :
    s'.Known name h ∧
      ((s' = s ∧ s.bytes h ≠ none ∧ s.db.quarantine.get h = none) ∨
        ((s.db.quarantine.get h ≠ none ∨ s.bytes h = none) ∧ s'.Intact h)) := by
  have hopen := (openVerifiedBlob_spec s h).2
  have hcases := fun (st : Stream) => @openVerifiedBlob_ok β _ _ h _ s st
  simp only [get, hk.2] at hget
  generalize s.openVerifiedBlob h = out at hget hopen hcases
  obtain ⟨res, s''⟩ := out
  cases res with
  | error e => cases hget
  | ok st =>
    simp only at hget
    split at hget
    · cases hget
    · obtain ⟨-, rfl⟩ := Prod.mk.inj hget
      obtain ⟨q, hdb⟩ := hopen.db
      refine ⟨?_, hcases st rfl⟩
      unfold Known getHashForName
      rw [hdb]
      exact hk

variable {s₀ : CASStore β}

theorem Visited.trans (h1 : Visited name h s₀ s) (h2 : Visited name h s s') :
    Visited name h s₀ s' := by
  have hb : s'.bytes h = s.bytes h := h2.bytes (fun hf => hf.1 h1.known)
  refine ⟨h2.known, h2.marks.trans h1.marks, fun hf => ?_, fun hf => hb.trans (h1.bytes hf)⟩
  rw [Intact, hb]
  exact h1.fresh hf

theorem Visited.intact_iff (hv : Visited name h s₀ s) :
    s.Intact h ↔ s₀.Fresh name h ∨ s₀.Intact h := by
  by_cases hf : s₀.Fresh name h
  · exact iff_of_true (hv.fresh hf) (Or.inl hf)
  · rw [Intact, Intact, hv.bytes hf, or_iff_right hf]

theorem Relayed.visit (h1 : Relayed name h s₀ s) (h2 : Visited name h s s') :
    Relayed name h s₀ s' := by
  have hb : s'.bytes h = s.bytes h := h2.bytes (fun hf => hf.1 h1.known)
  refine ⟨h2.known, ?_, ?_⟩
  · rw [Intact, hb]
    exact h1.intact
  · rw [Intact, hb, h2.marks]
    exact h1.settled

theorem Visited.relay (h1 : Visited name h s₀ s) (hget : s.get name = (.ok r, s')) :
    Relayed name h s₀ s' := by
  obtain ⟨hk, ⟨rfl, hb, hq⟩ | ⟨hwhy, hgood⟩⟩ := get_known h1.known hget
  · refine ⟨hk, ?_, Or.inr ⟨hb, hq⟩⟩
    by_cases hf : s₀.Fresh name h
    · exact iff_of_true (h1.fresh hf) (Or.inl hf)
    · have hsame := h1.bytes hf
      have hintact : s'.Intact h ↔ s₀.Intact h := by rw [Intact, Intact, hsame]
      rw [hintact]
      refine ⟨fun hi => Or.inr (Or.inl hi), ?_⟩
      rintro (hc | hi | hc | hc)
      · exact absurd hc hf
      · exact hi
      · exact absurd hq (h1.marks ▸ hc)
      · exact absurd (hsame.trans hc) hb
  · refine ⟨hk, iff_of_true hgood ?_, Or.inl hgood⟩
    by_cases hf : s₀.Fresh name h
    · exact Or.inl hf
    · rw [← h1.marks, ← h1.bytes hf]
      exact Or.inr (Or.inr hwhy)

theorem Relayed.relay (h1 : Relayed name h s₀ s) (hget : s.get name = (.ok r, s')) :
    Relayed name h s₀ s' := by
  obtain ⟨hk, ⟨rfl, -, -⟩ | ⟨hwhy, hgood⟩⟩ := get_known h1.known hget
  · exact h1
  · have hbefore : s.Intact h := by
      refine h1.settled.resolve_right ?_
      rintro ⟨hb, hq⟩
      exact hwhy.elim (fun hc => hc hq) hb
    exact ⟨hk, iff_of_true hgood (h1.intact.mp hbefore), Or.inl hgood⟩

end CASStore

/-! ### The whole forwarding -/

section Tracking

variable [Sha256] {β : Type} [BlobStore β] [MapBackend β] {n : ℕ}

structure Tracks (name h : Bytes) (stores₀ stores : Fin n → CASStore β) (V R : Fin n → Prop) :
    Prop where
  relayed_visited : ∀ j, R j → V j
  untouched : ∀ j, ¬ V j → stores j = stores₀ j
  visited : ∀ j, V j → ¬ R j → CASStore.Visited name h (stores₀ j) (stores j)
  relayed : ∀ j, R j → CASStore.Relayed name h (stores₀ j) (stores j)

variable {name h : Bytes} {stores₀ stores : Fin n → CASStore β} {V R : Fin n → Prop}

theorem Tracks.congr {V' R' : Fin n → Prop} (ht : Tracks name h stores₀ stores V R)
    (hV : ∀ j, V j ↔ V' j) (hR : ∀ j, R j ↔ R' j) : Tracks name h stores₀ stores V' R' := by
  obtain rfl : V = V' := funext (fun j => propext (hV j))
  obtain rfl : R = R' := funext (fun j => propext (hR j))
  exact ht

variable {i : Fin n}

theorem Tracks.visit (ht : Tracks name h stores₀ stores V R) {s : CASStore β}
    (hv : CASStore.Visited name h (stores i) s) :
    Tracks name h stores₀ (Function.update stores i s) (fun j => V j ∨ j = i) R := by
  refine ⟨fun j hj => Or.inl (ht.relayed_visited j hj), fun j hj => ?_, fun j hj hr => ?_,
    fun j hr => ?_⟩
  · push Not at hj
    rw [Function.update_of_ne hj.2]
    exact ht.untouched j hj.1
  · rcases eq_or_ne j i with rfl | hne
    · rw [Function.update_self]
      by_cases hvj : V j
      · exact (ht.visited j hvj hr).trans hv
      · rw [← ht.untouched j hvj]
        exact hv
    · rw [Function.update_of_ne hne]
      exact ht.visited j (hj.resolve_right hne) hr
  · rcases eq_or_ne j i with rfl | hne
    · rw [Function.update_self]
      exact (ht.relayed j hr).visit hv
    · rw [Function.update_of_ne hne]
      exact ht.relayed j hr

/-- Step: a visited node reads the object back. -/
theorem Tracks.relay (ht : Tracks name h stores₀ stores V R) {s : CASStore β}
    {r : Stream × FileMetadata} (hi : V i) (hget : (stores i).get name = (.ok r, s)) :
    Tracks name h stores₀ (Function.update stores i s) V (fun j => R j ∨ j = i) := by
  refine ⟨?_, fun j hj => ?_, fun j hj hr => ?_, fun j hr => ?_⟩
  · rintro j (hj | rfl)
    · exact ht.relayed_visited j hj
    · exact hi
  · have hne : j ≠ i := fun hc => hj (hc ▸ hi)
    rw [Function.update_of_ne hne]
    exact ht.untouched j hj
  · push Not at hr
    rw [Function.update_of_ne hr.2]
    exact ht.visited j hj hr.1
  · rcases eq_or_ne j i with rfl | hne
    · rw [Function.update_self]
      by_cases hrj : R j
      · exact (ht.relayed j hrj).relay hget
      · exact (ht.visited j hi hrj).relay hget
    · rw [Function.update_of_ne hne]
      exact ht.relayed j (hr.resolve_right hne)

def TracksDelivery (name h : Bytes) (stores₀ : Fin n → CASStore β) (mode : Mode)
    (ids : List (Fin n)) (fuel : ℕ) (external : Bool) (i : Fin n)
    (deliver : (Fin n → CASStore β) → Upload → Bool × (Fin n → CASStore β)) : Prop :=
  ∀ (stores : Fin n → CASStore β) (u : Upload) (V R : Fin n → Prop), u.name = name → u.hash = h →
    Tracks name h stores₀ stores V R → (deliver stores u).1 = true →
    Tracks name h stores₀ (deliver stores u).2
      (fun j => V j ∨ Network.Visits mode ids fuel external i j)
      (fun j => R j ∨ Network.Relays mode ids fuel external i j)

variable {ids : List (Fin n)}

theorem tracks_forwardStream {mode : Mode} {fuel : ℕ} {target : Fin n}
    {deliver : (Fin n → CASStore β) → Upload → Bool × (Fin n → CASStore β)}
    (hd : TracksDelivery name h stores₀ mode ids fuel false target deliver) {u : Upload}
    (hname : u.name = name) (hhash : u.hash = h) (hi : V i) (ht : Tracks name h stores₀ stores V R)
    (hack : (forwardStream deliver stores i target u).1 = true) :
    Tracks name h stores₀ (forwardStream deliver stores i target u).2
      (fun j => V j ∨ Network.Visits mode ids fuel false target j)
      (fun j => (R j ∨ j = i) ∨ Network.Relays mode ids fuel false target j) := by
  unfold forwardStream at hack ⊢
  cases hget : (stores i).get u.name with
  | mk res s =>
    simp only [hget] at hack ⊢
    cases res with
    | error e => cases hack
    | ok r =>
      simp only at hack ⊢
      split_ifs at hack ⊢
      rw [hname] at hget
      exact hd _ _ V _ hname hhash (ht.relay hi hget) (Bool.and_eq_true_iff.mp hack).1

theorem tracks_forwardAll {mode : Mode} {fuel : ℕ}
    {deliver : Fin n → (Fin n → CASStore β) → Upload → Bool × (Fin n → CASStore β)}
    (hd : ∀ t, TracksDelivery name h stores₀ mode ids fuel false t (deliver t)) {u : Upload}
    (hname : u.name = name) (hhash : u.hash = h) (ts : List (Fin n)) :
    ∀ (stores : Fin n → CASStore β) (V R : Fin n → Prop), V i →
      Tracks name h stores₀ stores V R →
      (forwardAll (fun stores t => forwardStream (deliver t) stores i t u) ts stores).1 = true →
      Tracks name h stores₀
        (forwardAll (fun stores t => forwardStream (deliver t) stores i t u) ts stores).2
        (fun j => V j ∨ ∃ t ∈ ts, Network.Visits mode ids fuel false t j)
        (fun j => R j ∨ (j = i ∧ ts ≠ []) ∨ ∃ t ∈ ts, Network.Relays mode ids fuel false t j) := by
  induction ts with
  | nil =>
    intro stores V R _ ht _
    exact ht.congr (by simp) (by simp)
  | cons t ts ih =>
    intro stores V R hi ht hack
    obtain ⟨hfirst, hrest⟩ := Bool.and_eq_true_iff.mp hack
    have hone := tracks_forwardStream (hd t) hname hhash hi ht hfirst
    refine (ih _ _ _ (Or.inl hi) hone hrest).congr (fun j => ?_) (fun j => ?_)
    · simp only [List.exists_mem_cons_iff, or_assoc]
    · simp only [List.exists_mem_cons_iff, ne_eq, List.cons_ne_nil, not_false_eq_true, and_true]
      tauto

theorem handler_tracks (N : Network n) (mode : Mode) (hids : N.placementIds mode h = .ok ids)
    (fuel : ℕ) :
    ∀ (external : Bool) (path : List (Fin n)) (i : Fin n),
      TracksDelivery name h stores₀ mode ids fuel external i (handler N mode fuel external path i) := by
  induction fuel with
  | zero =>
    intro external path i stores u V R _ _ _ hack
    cases hack
  | succ fuel ih =>
    intro external path i stores u V R hname hhash ht hack
    rw [handler, hhash, hids] at hack ⊢
    cases hans : (stores i).answer u with
    | none =>
      simp only [hans] at hack
      cases hack
    | some dedup =>
      simp only [hans] at hack ⊢
      cases hst : (stores i).storeUpload (N.env (i :: path)) u.received dedup with
      | mk res s =>
        simp only [hst] at hack ⊢
        cases res with
        | error e => cases hack
        | ok x =>
          have hvisit := CASStore.visited_of_storeUpload hans hst
          rw [hname, hhash] at hvisit
          refine (tracks_forwardAll (fun t => ih false (i :: path) t) hname hhash _ _ _ _
            (Or.inr rfl) (ht.visit hvisit) hack).congr (fun j => ?_) (fun j => ?_)
          · -- the order of the forwards does not matter for who is reached
            simp only [Network.Visits, (N.order_perm _).mem_iff, or_assoc]
          · simp only [Network.Relays, (N.order_perm _).mem_iff, ne_eq, N.order_eq_nil]

end Tracking

/-! ### Enough fuel -/

section Fuel

variable {β : Type} {n : ℕ}

variable {ids : List (Fin n)}

theorem Network.Enough.succ {mode : Mode} (fuel : ℕ) :
    ∀ (external : Bool) (i : Fin n), Enough mode ids fuel external i →
      Enough mode ids (fuel + 1) external i := by
  induction fuel with
  | zero =>
    intro external i h
    cases h
  | succ fuel ih =>
    intro external i h t ht
    exact ih false t (h t ht)

theorem forwardAll_congr {f g : (Fin n → CASStore β) → Fin n → Bool × (Fin n → CASStore β)}
    (ts : List (Fin n)) : (∀ t ∈ ts, ∀ stores, f stores t = g stores t) →
      ∀ stores, forwardAll f ts stores = forwardAll g ts stores := by
  induction ts with
  | nil => exact fun _ _ => rfl
  | cons t ts ih =>
    intro h stores
    simp only [forwardAll, h t (List.mem_cons_self ..) stores,
      ih (fun t' ht' => h t' (List.mem_cons_of_mem _ ht'))]

theorem Network.placementIds_nodup {N : Network n} {mode : Mode} {h : Bytes}
    (hids : N.placementIds mode h = .ok ids) : ids.Nodup ∧ ids.length ≤ n := by
  unfold placementIds at hids
  cases hp : (daemonMap N.failureDomain).placement N.score h
      (if mode = .none then 1 else N.replicationFactor) with
  | error e =>
    rw [hp] at hids
    cases hids
  | ok nodes =>
    rw [hp] at hids
    obtain rfl := Except.ok.inj hids
    have hnd := ClusterMap.placement_nodup (daemonMap_nodup N.failureDomain) hp
    exact ⟨hnd, by simpa using hnd.length_le_card⟩

variable [Sha256] [BlobStore β]

/-- Step: once the forwarding ends within the fuel, one more unit changes nothing. -/
theorem handler_succ (N : Network n) (mode : Mode) {h : Bytes}
    (hids : N.placementIds mode h = .ok ids) (fuel : ℕ) :
    ∀ (external : Bool) (path : List (Fin n)) (i : Fin n) (stores : Fin n → CASStore β)
      (u : Upload), u.hash = h → Network.Enough mode ids fuel external i →
      handler N mode (fuel + 1) external path i stores u =
        handler N mode fuel external path i stores u := by
  induction fuel with
  | zero =>
    intro external path i stores u _ henough
    cases henough
  | succ fuel ih =>
    intro external path i stores u hhash henough
    rw [handler, handler, hhash, hids]
    cases (stores i).answer u with
    | none => rfl
    | some dedup =>
      simp only
      split
      · rfl
      · refine forwardAll_congr _ (fun t ht stores' => ?_) _
        have hsame : ∀ stores'' st,
            handler N mode (fuel + 1) false (i :: path) t stores'' (forwardedUpload u st) =
              handler N mode fuel false (i :: path) t stores'' (forwardedUpload u st) :=
          fun stores'' st => ih false _ t stores'' _ hhash
            (henough t ((N.order_perm _).mem_iff.mp ht))
        unfold forwardStream
        simp only [hsame]

theorem upload_fuel (N : Network n) (mode : Mode) (external : Bool) (i : Fin n)
    (stores : Fin n → CASStore β) (u : Upload) (k : ℕ) :
    handler N mode (n + 2 + k) external [] i stores u = upload N mode external i stores u := by
  cases hids : N.placementIds mode u.hash with
  | error e =>
    rw [upload, show n + 2 + k = (n + 1 + k) + 1 by omega, handler, handler, hids]
    cases (stores i).answer u <;> rfl
  | ok ids =>
    obtain ⟨hnd, hlen⟩ := Network.placementIds_nodup hids
    have henough : Network.Enough mode ids (n + 2) external i :=
      (Network.reach_spec mode hnd hlen external i).1
    have hall : ∀ k, Network.Enough mode ids (n + 2 + k) external i := by
      intro k
      induction k with
      | zero => exact henough
      | succ k ih => exact Network.Enough.succ _ _ _ ih
    induction k with
    | zero => rfl
    | succ k ih => exact (handler_succ N mode hids _ _ _ _ _ _ rfl (hall k)).trans ih

end Fuel

/-! ### Who has stored an acknowledged upload -/

section Acknowledged

variable [Sha256] {β : Type} [BlobStore β] [MapBackend β] {n : ℕ}

/-- A reached node will have the object: its payload is asked for and written, or its bytes are
    good already, or it relays the object and so replaces missing and quarantined bytes. -/
def CASStore.Ready (s : CASStore β) (relays : Prop) (name h : Bytes) : Prop :=
  s.Fresh name h ∨ s.Intact h ∨ relays ∧ (s.db.quarantine.get h ≠ none ∨ s.bytes h = none)

/-- CORRECT: when a direct upload is acknowledged, every node of the placement has stored the
    object exactly if every reached one was ready for it and every other one had it before. -/
theorem upload_acked_stored (N : Network n) (mode : Mode) (external : Bool) (i : Fin n)
    (stores : Fin n → CASStore β) (u : Upload) {ids : List (Fin n)}
    (hids : N.placementIds mode u.hash = .ok ids)
    (hack : (upload N mode external i stores u).1 = true) :
    (∀ j ∈ ids, ((upload N mode external i stores u).2 j).Stored u.name u.hash) ↔
      ∀ j ∈ ids, if j ∈ Network.reached mode ids external i then
          (stores j).Ready (Network.relaying mode ids external i j) u.name u.hash
        else (stores j).Stored u.name u.hash := by
  obtain ⟨hnd, hlen⟩ := Network.placementIds_nodup hids
  have hstart : Tracks u.name u.hash stores stores (fun _ => False) (fun _ => False) :=
    ⟨fun _ h => h, fun _ _ => rfl, fun _ h => h.elim, fun _ h => h.elim⟩
  have hend : Tracks u.name u.hash stores (upload N mode external i stores u).2
      (Network.Visits mode ids (n + 2) external i) (Network.Relays mode ids (n + 2) external i) :=
    (handler_tracks N mode hids (n + 2) external [] i stores u _ _ rfl rfl hstart hack).congr
      (by simp) (by simp)
  refine forall₂_congr (fun j hj => ?_)
  obtain ⟨hvisits, hrelays⟩ := (Network.reach_spec mode hnd hlen external i).2 j hj
  split_ifs with hreach
  · by_cases hr : Network.relaying mode ids external i j
    · have hrel := hend.relayed j (hrelays.mpr ⟨hreach, hr⟩)
      rw [CASStore.Stored, and_iff_right hrel.known.2, CASStore.Ready, and_iff_right hr]
      exact hrel.intact
    · have hvis := hend.visited j (hvisits.mpr hreach) (fun hc => hr (hrelays.mp hc).2)
      rw [CASStore.Stored, and_iff_right hvis.known.2, CASStore.Ready, hvis.intact_iff]
      simp only [hr, false_and, or_false]
  · rw [hend.untouched j (fun hc => hreach (hvisits.mp hc))]

end Acknowledged

/-! ### Three daemons -/

section Runs

/-- The digest of `a`, and of its hex form followed by each node id. -/
@[reducible] def clusterSha : Sha256 :=
  Sha256.ofTable [
    ([97], digestA),
    (hexEncode digestA ++ lePut 8 0, ⟨[55, 213, 200, 148, 139, 122, 254, 4, 82, 73, 98, 140, 101, 86,
      134, 237, 43, 27, 70, 0, 137, 230, 4, 35, 57, 32, 243, 39, 5, 105, 118, 132], rfl⟩),
    (hexEncode digestA ++ lePut 8 1, ⟨[232, 113, 81, 242, 245, 86, 186, 223, 129, 126, 127, 8, 167, 197,
      73, 164, 44, 75, 223, 9, 63, 254, 112, 97, 254, 43, 171, 131, 173, 169, 88, 74], rfl⟩),
    (hexEncode digestA ++ lePut 8 2, ⟨[73, 135, 110, 128, 210, 0, 245, 91, 139, 91, 240, 169, 126, 5,
      135, 190, 155, 53, 123, 77, 1, 181, 50, 162, 88, 249, 27, 204, 41, 187, 42, 97], rfl⟩)]

local instance forwardSha : Sha256 := clusterSha

local instance forwardScore : ScoreLog := ⟨fun _ mantissa => mantissa⟩

def threeDaemons : Network 3 where
  failureDomain _ := []
  score := finalScore Fin.val
  replicationFactor := 2
  order targets := targets
  order_perm _ := List.Perm.refl _
  env _ := {}

def objectA : Upload :=
  { name := [120], hash := hashBytes [97], size := 1, content := ⟨[97], none⟩ }

def emptyStores (_ : Fin 3) : CASStore LocalBlobStore := { blobs := {} }

example : threeDaemons.placementIds .chain objectA.hash = .ok [1, 0] := by decide +kernel

theorem chain_at_head_stored :
    ((upload threeDaemons .chain false 1 emptyStores objectA).2 1).Stored objectA.name
      objectA.hash ∧
    ((upload threeDaemons .chain false 1 emptyStores objectA).2 0).Stored objectA.name
      objectA.hash := by
  have hids : threeDaemons.placementIds .chain objectA.hash = .ok [1, 0] := by decide +kernel
  have hreach : ∀ j ∈ ([1, 0] : List (Fin 3)), j ∈ Network.reached .chain [1, 0] false 1 := by decide
  have hfresh : ∀ j, (emptyStores j).Fresh objectA.name objectA.hash := by decide +kernel
  have hall := (upload_acked_stored threeDaemons .chain false 1 emptyStores objectA hids
    (by decide +kernel)).mpr (fun j hj => by
      rw [if_pos (hreach j hj)]
      exact Or.inl (hfresh j))
  exact ⟨hall 1 (by decide), hall 0 (by decide)⟩

/-- A chain upload at the tail, a native splay upload at the tail and a chain upload at the node
    outside the placement are acknowledged, and the head of the placement has no bytes. -/
theorem acked_head_without_object :
    threeDaemons.placementIds .chain objectA.hash = .ok [1, 0] ∧
    (upload threeDaemons .chain false 0 emptyStores objectA).1 = true ∧
    ¬ ((upload threeDaemons .chain false 0 emptyStores objectA).2 1).Stored objectA.name
      objectA.hash ∧
    (upload threeDaemons .splay false 0 emptyStores objectA).1 = true ∧
    ¬ ((upload threeDaemons .splay false 0 emptyStores objectA).2 1).Stored objectA.name
      objectA.hash ∧
    (upload threeDaemons .chain false 2 emptyStores objectA).1 = true ∧
    ¬ ((upload threeDaemons .chain false 2 emptyStores objectA).2 1).Stored objectA.name
      objectA.hash := by
  have hmissing : ∀ {s : CASStore LocalBlobStore}, s.bytes objectA.hash = none →
      ¬ s.Stored objectA.name objectA.hash := by
    rintro s hb ⟨-, c, hc, -⟩
    rw [hb] at hc
    cases hc
  exact ⟨by decide +kernel, by decide +kernel, hmissing (by decide +kernel), by decide +kernel,
    hmissing (by decide +kernel), by decide +kernel, hmissing (by decide +kernel)⟩

end Runs

end Momo
