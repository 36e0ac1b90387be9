import Momo.Server.Rebalance

/-! @momo src/server/rebalance.go | scheme:simulation of the hand-over

    For one blob, a run of the cluster is a run of the hand-over scheme: a node's store says whether
    it holds a copy, its runner whether it is sending it, about to drop it, or busy with another
    blob. Two things have to be asked of a push so that its steps are moves of the scheme: the
    target is not at a push of the same blob, and a target that skips the payload has the bytes. -/

namespace Momo.Rebalance

variable {n : ℕ}

def Runner.busy (r : Runner n) (h : Bytes) : Bool :=
  match r with
  | .sending _ h' _ _ => h' = h
  | .pushed _ h' => h' = h
  | _ => false

def Cluster.nextPush (T : Topology n) (conf : Fin n → RebalanceConfig) (t : Cluster n) (i : Fin n) :
    Option (Bytes × Fin n) :=
  match t.runner i with
  | .walking p => p.next T (conf i) i
  | _ => none

/-- A node that may be pushed to: it is not busy with the blob, and has the bytes if its metadata
    make it skip the payload. -/
def Cluster.Receptive (t : Cluster n) (h : Bytes) (target : Fin n) : Prop :=
  (t.runner target).busy h = false ∧
    ((t.store target).canDedup h h = .ok true → ((t.store target).bytes h).isSome = true)

instance (t : Cluster n) (h : Bytes) (target : Fin n) : Decidable (t.Receptive h target) :=
  inferInstanceAs (Decidable (_ ∧ _))

def Safe (T : Topology n) (conf : Fin n → RebalanceConfig) (t : Cluster n) : Op n → Prop
  | .advance i _ => ∀ push ∈ t.nextPush T conf i, t.Receptive push.1 push.2
  | _ => True

instance (T : Topology n) (conf : Fin n → RebalanceConfig) (t : Cluster n) (o : Op n) :
    Decidable (Safe T conf t o) :=
  match o with
  | .advance i _ =>
    inferInstanceAs (Decidable (∀ push ∈ t.nextPush T conf i, t.Receptive push.1 push.2))
  | .tick .. => instDecidableTrue
  | .join .. => instDecidableTrue
  | .receive .. => instDecidableTrue
  | .drop .. => instDecidableTrue

/-! ### Targets -/

theorem Task.target_ne {T : Topology n} {self target : Fin n} {task : Task n} {h : Bytes}
    (ht : task.target T self h = some target) : target ≠ self := by
  cases task with
  | shed pct =>
    simp only [Task.target, pickShedTarget] at ht
    split at ht
    · cases ht
    · simpa using List.find?_some ht
  | migrate peer =>
    simp only [Task.target] at ht
    split at ht
    · rename_i hown
      obtain rfl := Option.some.inj ht
      unfold placementOwnership at hown
      cases hp : T.cmap.placement T.score h T.rf with
      | error e =>
        rw [hp] at hown
        cases hown
      | ok placement =>
        -- the peer owns the blob and this node does not
        rw [hp] at hown
        simp only [Except.map, Except.ok.injEq, Prod.mk.injEq] at hown
        rintro rfl
        rw [hown.1] at hown
        cases hown.2
    · cases ht

theorem Pass.next_ne {T : Topology n} {rc : RebalanceConfig} {i target : Fin n} {p : Pass n}
    {h : Bytes} (hn : p.next T rc i = some (h, target)) : target ≠ i := by
  unfold Pass.next at hn
  split at hn
  · cases hn
  · split_ifs at hn
    obtain ⟨t, ht, heq⟩ := Option.map_eq_some_iff.mp hn
    cases heq
    exact Task.target_ne ht

/-! ### The handler of a push -/

section Cycles

variable [Sha256]

def Sound (s : Store) : Prop := ∀ h c, s.bytes h = some c → hashBytes c = h

variable {s : Store} {h : Bytes}

theorem Sound.intact_iff (hs : Sound s) : s.Intact h ↔ (s.bytes h).isSome = true := by
  rw [Option.isSome_iff_exists]
  constructor
  · rintro ⟨c, hc, -⟩
    exact ⟨c, hc⟩
  · rintro ⟨c, hc⟩
    exact ⟨c, hc, hs h c hc⟩

theorem serve_dedup_bytes {β : Type} [BlobStore β] [MapBackend β] (T : Topology n) (s : CASStore β)
    (env : UploadEnv) (u : Upload) : (serve T s env u true).2.bytes = s.bytes := by
  have hb := CASStore.storeUpload_dedup_bytes s env u.received
  unfold serve
  split
  · rfl
  · split <;> rename_i hst <;> rw [hst] at hb <;> exact hb

omit [Sha256] in
theorem payload_blobUpload (h c : Bytes) : (blobUpload h c).received.payload = ⟨c, none⟩ := by
  simp [blobUpload, Upload.received, Upload.payload, Reader.limit]

theorem Sound.getFile (hs : Sound s) (env : UploadEnv) {u : Upload}
    (hv : u.verdict u.payload.data = none) :
    Sound (s.getFile env u).2 ∧ (∀ h, s.Intact h → (s.getFile env u).2.Intact h) ∧
      ((s.getFile env u).1 = .ok () → (s.getFile env u).2.Intact u.hash) := by
  obtain ⟨hbytes, hok⟩ := CASStore.getFile_honest s env hv
  have hsound : Sound (s.getFile env u).2 := by
    intro h c hc
    rw [hbytes] at hc
    rcases eq_or_ne h u.hash with rfl | hne
    · rw [CASStore.bytesPut] at hc
      split_ifs at hc
      · rw [Function.update_self] at hc
        cases hc
        exact Upload.hash_of_verdict hv
      · exact hs _ c hc
    · rw [CASStore.bytesPut_ne s env hne] at hc
      exact hs h c hc
  refine ⟨hsound, fun h hi => ?_, fun hres => ?_⟩
  · rw [hs.intact_iff] at hi
    rw [hsound.intact_iff, hbytes]
    rcases eq_or_ne h u.hash with rfl | hne
    · rw [CASStore.bytesPut]
      split_ifs
      · rw [Function.update_self]
        rfl
      · exact hi
    · rw [CASStore.bytesPut_ne s env hne, hi]
  · obtain ⟨hacc, -⟩ := hok.mp hres
    rw [hsound.intact_iff, hbytes, CASStore.bytesPut]
    by_cases hp : s.Holds u.hash
    · -- the local back end can be asked, so a held hash has its bytes
      rw [if_neg (fun hw => hw.2.2.1 hp)]
      exact hp.2.resolve_left (by rintro ⟨⟩)
    · rw [if_pos ⟨hacc.1, hacc.2.1, hp, (hacc.2.2.resolve_left hp).1⟩, Function.update_self]
      rfl

theorem Sound.serve (T : Topology n) (hs : Sound s) (env : UploadEnv) {c : Bytes}
    (hc : hashBytes c = h) :
    Sound (serve T s env (blobUpload h c) false).2 ∧
    (∀ h', s.Intact h' → (serve T s env (blobUpload h c) false).2.Intact h') ∧
    ((serve T s env (blobUpload h c) false).1 = true →
      (serve T s env (blobUpload h c) false).2.Intact h) := by
  have hv : (blobUpload h c).received.verdict (blobUpload h c).received.payload.data = none := by
    rw [payload_blobUpload]
    exact if_neg (not_not.mpr hc)
  have hg := hs.getFile env hv
  unfold Rebalance.serve
  split
  · exact ⟨hs, fun _ hi => hi, fun hc => by cases hc⟩
  · simp only [CASStore.storeUpload, Bool.false_eq_true, if_false]
    cases hres : s.getFile env (blobUpload h c).received with
    | mk res s' =>
      rw [hres] at hg
      obtain ⟨hsound, hmono, hacked⟩ := hg
      cases res with
      | error e => exact ⟨hsound, hmono, fun hc => by cases hc⟩
      | ok x => exact ⟨hsound, hmono, fun _ => hacked rfl⟩

/-! ### The simulation -/

def Runner.taskOn (h : Bytes) : Runner n → HandOver.Task (Fin n)
  | .sending _ h' target _ => if h' = h then .sending target else .free
  | .pushed _ h' => if h' = h then .acked else .free
  | _ => .free

variable {r : Runner n}

omit [Sha256] in
theorem Runner.taskOn_eq_free (hb : r.busy h = false) : r.taskOn h = .free := by
  cases r with
  | idle => rfl
  | walking p => rfl
  | sending p h' target c =>
    simp only [Runner.busy, decide_eq_false_iff_not] at hb
    exact if_neg hb
  | pushed p h' =>
    simp only [Runner.busy, decide_eq_false_iff_not] at hb
    exact if_neg hb

def Cluster.copies (t : Cluster n) (h : Bytes) : HandOver.Copies (Fin n) where
  holders := {k | (t.store k).Intact h}
  task k := (t.runner k).taskOn h

theorem Cluster.copies_move (t : Cluster n) (h : Bytes) (k i : Fin n) (s : Store) (r : Runner n) :
    ((t.setStore k s).setRunner i r).copies h =
      ⟨{j | (Function.update t.store k s j).Intact h},
        Function.update (t.copies h).task i (r.taskOn h)⟩ := by
  unfold copies setRunner setStore
  simp only [HandOver.Copies.mk.injEq, true_and]
  funext j
  rcases eq_or_ne j i with rfl | hne
  · rw [Function.update_self, Function.update_self]
  · rw [Function.update_of_ne hne, Function.update_of_ne hne]

theorem Cluster.copies_setRunner (t : Cluster n) (h : Bytes) (i : Fin n) (r : Runner n) :
    (t.setRunner i r).copies h =
      { t.copies h with task := Function.update (t.copies h).task i (r.taskOn h) } := by
  have hmove := t.copies_move h i i (t.store i) r
  rwa [Cluster.setStore, Function.update_eq_self] at hmove

variable {k : Fin n}

theorem Cluster.holders_subset (t : Cluster n) (hs : (t.store k).Intact h → s.Intact h) :
    (t.copies h).holders ⊆ {j | (Function.update t.store k s j).Intact h} := by
  intro j hj
  change (Function.update t.store k s j).Intact h
  rcases eq_or_ne j k with rfl | hne
  · rw [Function.update_self]
    exact hs hj
  · rw [Function.update_of_ne hne]
    exact hj

theorem Cluster.holders_eq (t : Cluster n) (hs : s.Intact h ↔ (t.store k).Intact h) :
    {j | (Function.update t.store k s j).Intact h} = (t.copies h).holders := by
  ext j
  change (Function.update t.store k s j).Intact h ↔ (t.store j).Intact h
  rcases eq_or_ne j k with rfl | hne
  · rw [Function.update_self, hs]
  · rw [Function.update_of_ne hne]

theorem intact_congr {s' : Store} (hb : s'.bytes = s.bytes) (h : Bytes) :
    s'.Intact h ↔ s.Intact h := by
  rw [CASStore.Intact, CASStore.Intact, hb]

structure Cluster.Sound (t : Cluster n) : Prop where
  store : ∀ k, Rebalance.Sound (t.store k)
  payload : ∀ k p h target c, t.runner k = .sending p h target c → hashBytes c = h

variable {i : Fin n}

theorem sim_free (t : Cluster n) (hr : r.taskOn h = .free) (hs : (t.store k).Intact h → s.Intact h)
     :
    HandOver.Step (t.copies h) (((t.setStore k s).setRunner i r).copies h) := by
  rw [t.copies_move, hr]
  exact .refuse i (t.holders_subset hs)

theorem sim_setRunner (t : Cluster n) (hr : r.taskOn h = .free) :
    HandOver.Step (t.copies h) ((t.setRunner i r).copies h) := by
  rw [t.copies_setRunner, hr]
  exact .refuse i (Set.Subset.refl _)

omit [Sha256] in
theorem bytes_of_getBlobByHash {rc : Reader} (hg : getBlobByHash s h = .ok rc) :
    s.bytes h = some rc.data := by
  have hget : BlobStore.getBlob s.blobs h = .ok rc := hg
  rw [MapBackend.getBlob_eq] at hget
  split at hget
  · rename_i c hv
    cases hget
    exact hv
  · cases hget

omit [Sha256] in
theorem dropBlob_cases (s : Store) (io : Option Err) (h : Bytes) :
    (∃ e s', dropBlob s io h = (.error e, s') ∧ s'.bytes = s.bytes) ∨
      ∃ s', dropBlob s io h = (.ok (), s') ∧ s'.bytes = Function.update s.bytes h none := by
  have hdrop : dropBlob s io h = ((BlobStore.deleteBlob s.blobs h io).1,
    { s with blobs := (BlobStore.deleteBlob s.blobs h io).2 }) := rfl
  by_cases hf : io ≠ none ∨ hasPathTraversalChars h = true
  · obtain ⟨e, b, hdel, hview⟩ := MapBackend.deleteBlob_fail s.blobs h io hf
    exact Or.inl ⟨e, { s with blobs := b }, by rw [hdrop, hdel], hview⟩
  · push Not at hf
    obtain ⟨rfl, hh⟩ := hf
    obtain ⟨b, hdel, hview⟩ := MapBackend.deleteBlob_ok s.blobs h (Bool.not_eq_true _ ▸ hh)
    exact Or.inr ⟨{ s with blobs := b }, by rw [hdrop, hdel], hview⟩

variable {t : Cluster n}

theorem sim_beginPush (T : Topology n) (hi : t.Sound) {target : Fin n} (p : Pass n) {h' : Bytes}
    (env : UploadEnv) (hr : t.Receptive h' target) (hne : target ≠ i) (h : Bytes) :
    HandOver.Step (t.copies h) ((beginPush T t i p h' target env).copies h) := by
  cases hg : getBlobByHash (t.store i) h' with
  | error e =>
    simp only [beginPush, hg]
    exact sim_setRunner t rfl
  | ok rc =>
    have hbytes := bytes_of_getBlobByHash hg
    cases hans : (t.store target).answer (blobUpload h' rc.data) with
    | none =>
      simp only [beginPush, hg, hans]
      exact sim_setRunner t rfl
    | some dedup =>
      cases dedup with
      | false =>
        simp only [beginPush, hg, hans]
        rcases eq_or_ne h' h with rfl | hother
        · rw [t.copies_setRunner, Runner.taskOn, if_pos rfl]
          exact .offer ⟨rc.data, hbytes, (hi.store i) _ _ hbytes⟩
            (Runner.taskOn_eq_free hr.1) hne
        · exact sim_setRunner t (if_neg hother)
      | true =>
        simp only [beginPush, hg, hans]
        have hsame := serve_dedup_bytes T (t.store target) env (blobUpload h' rc.data)
        rcases eq_or_ne h' h with rfl | hother
        · -- the skipped payload is a move only because the target has the bytes
          have hdedup : (t.store target).canDedup h' h' = .ok true := by
            unfold CASStore.answer at hans
            split_ifs at hans
            cases hd : (t.store target).canDedup h' h' with
            | error e => simp [blobUpload, hd, Except.toOption] at hans
            | ok b =>
              simp only [blobUpload, hd, Except.toOption, Option.some.injEq] at hans
              rw [hans]
          rw [t.copies_move, Runner.taskOn, if_pos rfl,
            t.holders_eq (intact_congr hsame h')]
          exact .skip (((hi.store target).intact_iff).mpr (hr.2 hdedup))
            (Runner.taskOn_eq_free hr.1) hne
        · exact sim_free t (if_neg hother) (intact_congr hsame h).mpr

theorem sim_step (T : Topology n) (conf : Fin n → RebalanceConfig) (t : Cluster n) (o : Op n)
    (hi : t.Sound) (hsafe : Safe T conf t o) (h : Bytes) :
    HandOver.Step (t.copies h) ((step T conf t o).copies h) := by
  cases o with
  | tick i disk modTime =>
    simp only [step]
    split
    · split_ifs
      · exact .stay
      · exact sim_setRunner t rfl
    · exact .stay
  | join i peer modTime =>
    simp only [step]
    split
    · exact sim_setRunner t rfl
    · exact .stay
  | advance i env =>
    cases hrun : t.runner i with
    | walking p =>
      cases hnext : p.next T (conf i) i with
      | none =>
        simp only [step, hrun, hnext]
        split_ifs
        · exact sim_setRunner t rfl
        · exact sim_setRunner t rfl
      | some push =>
        simp only [step, hrun, hnext]
        have hrec : t.Receptive push.1 push.2 :=
          hsafe push (by simp only [Cluster.nextPush, hrun, hnext, Option.mem_def])
        exact sim_beginPush T hi _ env hrec (Pass.next_ne hnext) h
    | idle => simpa only [step, hrun] using .stay
    | sending => simpa only [step, hrun] using .stay
    | pushed => simpa only [step, hrun] using .stay
  | receive i env =>
    cases hrun : t.runner i with
    | sending p h' target c =>
      obtain ⟨-, hmono, hacked⟩ :=
        (hi.store target).serve T env (hi.payload i p h' target c hrun)
      simp only [step, hrun]
      cases hserve : serve T (t.store target) env (blobUpload h' c) false with
      | mk acked s =>
        rw [hserve] at hmono hacked
        cases acked with
        | false => exact sim_free t rfl (hmono h)
        | true =>
          rcases eq_or_ne h' h with rfl | hother
          · simp only
            rw [t.copies_move, Runner.taskOn, if_pos rfl]
            refine .arrive (t := target) ?_ (t.holders_subset (hmono h')) ?_
            · simp only [Cluster.copies, hrun, Runner.taskOn, if_true]
            · change (Function.update t.store target s target).Intact h'
              rw [Function.update_self]
              exact hacked rfl
          · exact sim_free t (if_neg hother) (hmono h)
    | idle => simpa only [step, hrun] using .stay
    | walking => simpa only [step, hrun] using .stay
    | pushed => simpa only [step, hrun] using .stay
  | drop i io disk =>
    cases hrun : t.runner i with
    | pushed p h' =>
      rcases dropBlob_cases (t.store i) io h' with ⟨e, s, hdrop, hb⟩ | ⟨s, hdrop, hb⟩
      · simp only [step, hrun, hdrop]
        exact sim_free t rfl (intact_congr hb h).mpr
      · simp only [step, hrun, hdrop]
        rcases eq_or_ne h' h with rfl | hother
        · rw [t.copies_move]
          have hholders : {j | (Function.update t.store i s j).Intact h'} =
              (t.copies h').holders \ {i} := by
            ext j
            change (Function.update t.store i s j).Intact h' ↔ (t.store j).Intact h' ∧ j ≠ i
            rcases eq_or_ne j i with rfl | hne
            · rw [Function.update_self, CASStore.Intact, hb, Function.update_self]
              simp
            · rw [Function.update_of_ne hne, and_iff_left hne]
          rw [hholders]
          exact .drop (by simp only [Cluster.copies, hrun, Runner.taskOn, if_true])
        · refine sim_free t rfl (fun hk => ?_)
          rw [CASStore.Intact, hb, Function.update_of_ne hother.symm]
          exact hk
    | idle => simpa only [step, hrun] using .stay
    | walking => simpa only [step, hrun] using .stay
    | sending => simpa only [step, hrun] using .stay

/-! ### Soundness over steps -/

namespace Cluster

theorem Sound.move {t : Cluster n} (hi : t.Sound) {k i : Fin n} {s : Store} {r : Runner n}
    (hs : Rebalance.Sound s) (hr : ∀ p h target c, r = .sending p h target c → hashBytes c = h) :
    ((t.setStore k s).setRunner i r).Sound where
  store j := by
    change Rebalance.Sound (Function.update t.store k s j)
    rcases eq_or_ne j k with rfl | hne
    · rwa [Function.update_self]
    · rw [Function.update_of_ne hne]
      exact hi.store j
  payload j p h target c hj := by
    change Function.update t.runner i r j = _ at hj
    rcases eq_or_ne j i with rfl | hne
    · rw [Function.update_self] at hj
      exact hr p h target c hj
    · rw [Function.update_of_ne hne] at hj
      exact hi.payload j p h target c hj

theorem Sound.setRunner {t : Cluster n} (hi : t.Sound) {i : Fin n} {r : Runner n}
    (hr : ∀ p h target c, r = .sending p h target c → hashBytes c = h) :
    (t.setRunner i r).Sound := by
  have hmove := hi.move (k := i) (i := i) (hi.store i) hr
  rwa [Cluster.setStore, Function.update_eq_self] at hmove

end Cluster

theorem sound_congr {s' : Store} (hs : Sound s) (hb : s'.bytes = s.bytes) : Sound s' := by
  intro h c hc
  rw [hb] at hc
  exact hs h c hc

theorem sound_beginPush (T : Topology n) (hi : t.Sound) (i target : Fin n) (p : Pass n) (h : Bytes)
    (env : UploadEnv) : (beginPush T t i p h target env).Sound := by
  unfold beginPush
  split
  · exact hi.setRunner (fun _ _ _ _ hc => by cases hc)
  · rename_i rc hg
    split
    · exact hi.setRunner (fun _ _ _ _ hc => by cases hc)
    · exact hi.move (sound_congr (hi.store target) (serve_dedup_bytes T _ env _))
        (fun _ _ _ _ hc => by cases hc)
    · -- the payload is what the sender's store holds
      refine hi.setRunner (fun _ _ _ _ hc => ?_)
      cases hc
      exact hi.store i _ _ (bytes_of_getBlobByHash hg)

theorem sound_step (T : Topology n) (conf : Fin n → RebalanceConfig) (o : Op n) (hi : t.Sound) :
    (step T conf t o).Sound := by
  cases o with
  | tick i disk modTime =>
    simp only [step]
    split
    · split_ifs
      · exact hi
      · exact hi.setRunner (fun _ _ _ _ hc => by cases hc)
    · exact hi
  | join i peer modTime =>
    simp only [step]
    split
    · exact hi.setRunner (fun _ _ _ _ hc => by cases hc)
    · exact hi
  | advance i env =>
    simp only [step]
    split
    · split
      · exact sound_beginPush T hi ..
      · split_ifs <;> exact hi.setRunner (fun _ _ _ _ hc => by cases hc)
    · exact hi
  | receive i env =>
    simp only [step]
    split
    · rename_i p h target c hrun
      obtain ⟨hsound, -, -⟩ := (hi.store target).serve T env (hi.payload i p h target c hrun)
      split <;> rename_i hserve <;> rw [hserve] at hsound
      · exact hi.move hsound (fun _ _ _ _ hc => by cases hc)
      · exact hi.move hsound (fun _ _ _ _ hc => by cases hc)
    · exact hi
  | drop i io disk =>
    simp only [step]
    split
    · rename_i p h hrun
      rcases dropBlob_cases (t.store i) io h with ⟨e, s, hdrop, hb⟩ | ⟨s, hdrop, hb⟩
      · simp only [hdrop]
        exact hi.move (sound_congr (hi.store i) hb) (fun _ _ _ _ hc => by cases hc)
      · simp only [hdrop]
        refine hi.move (fun h' c hc => ?_) (fun _ _ _ _ hc => by cases hc)
        rw [hb] at hc
        rcases eq_or_ne h' h with rfl | hne
        · rw [Function.update_self] at hc
          cases hc
        · rw [Function.update_of_ne hne] at hc
          exact hi.store i h' c hc
    · exact hi

/-! ### No blob is lost -/

def Cluster.Held (t : Cluster n) (h : Bytes) : Prop := ∃ k, (t.store k).Intact h

end Cycles

/-! ### Two nodes -/

section Runs

local instance rebalanceSha : Sha256 := sampleSha

local instance mantissaScore : ScoreLog := ⟨fun _ mantissa => mantissa⟩

def twoNodes : Topology 2 :=
  { cmap := daemonMap (fun _ => []), score := finalScore Fin.val, rf := 2 }

def eager : RebalanceConfig := { diskHighWater := 80, diskLowWater := 70, maxShedPerCycle := 10 }

/-- Node 0 holds the object `a` under the name `x`, node 1 is empty. -/
def oneCopy (k : Fin 2) : Store :=
  match k with
  | 0 => (CASStore.put { blobs := {} } none 1 [120] (hashBytes [97]) 1 [] (some ⟨[97], none⟩)).2
  | 1 => { blobs := {} }

/-- A cycle of one node on a disk that is 90 % full; when the payload is skipped there is nothing to
    receive. -/
def fullDiskCycle (i : Fin 2) : List (Op 2) :=
  [.tick i (.ok (90, 10)) (fun _ => 0), .advance i {}, .receive i {}, .drop i none (.ok (90, 10)),
    .advance i {}]

def oneCycle : List (Op 2) := fullDiskCycle 0

def threeCycles : List (Op 2) := fullDiskCycle 0 ++ fullDiskCycle 1 ++ fullDiskCycle 0

theorem oneCopy_sound (k : Fin 2) : Sound (oneCopy k) := by
  intro h c hc
  have hview : LocalBlobStore.view (oneCopy k).blobs h = some c := hc
  unfold LocalBlobStore.view at hview
  split_ifs at hview
  have hmem := (OMap.mem_entries _).mpr hview
  have hfiles : ∀ k : Fin 2, ∀ e ∈ (oneCopy k).blobs.files.entries, hashBytes e.2 = e.1 := by
    decide +kernel
  exact hfiles k (h, c) hmem

theorem oneCopy_held : Cluster.Held { store := oneCopy } (hashBytes [97]) :=
  ⟨0, [97], by decide +kernel, rfl⟩

end Runs

end Momo.Rebalance
