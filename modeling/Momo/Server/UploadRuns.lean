import Momo.Server.Upload
import Momo.Storage.Books
import Momo.Schemes.Run

/-! @momo src/server/file.go, src/storage/storage.go | scheme:interleaved transactions

    Any number of uploads in flight on one store, their puts and their checks interleaved in any
    order. Between the two the payload is registered but not verified, and another upload of the
    same hash is content with the bytes it finds. -/

namespace Momo.UploadRuns

/-- How far an upload has come; a registered one remembers what was read of its payload. -/
inductive Phase
  | waiting
  | registered (read : Bytes)
  | accepted
  | failed
  deriving DecidableEq

structure Flight (β : Type) (n : ℕ) where
  store : CASStore β
  phase : Fin n → Phase := fun _ => .waiting
  lastWriter : Bytes → Option (Fin n) := fun _ => none

inductive Op (n : ℕ)
  | register (i : Fin n)
  | verify (i : Fin n)

section Uploads

variable [Sha256] {β : Type} [BlobStore β] {n : ℕ}

def step (U : Fin n → UploadEnv × Upload) (t : Flight β n) : Op n → Flight β n
  | .register i =>
    match t.phase i with
    | .waiting =>
      match t.store.registerUpload (U i).1 (U i).2 with
      | (.error _, s) => { t with store := s, phase := Function.update t.phase i .failed }
      | (.ok read, s) =>
        { store := s
          phase := Function.update t.phase i (.registered read)
          lastWriter := Function.update t.lastWriter (U i).2.name (some i) }
    | _ => t
  | .verify i =>
    match t.phase i with
    | .registered read =>
      match t.store.verifyUpload (U i).1 (U i).2 read with
      | (.ok _, s) => { t with store := s, phase := Function.update t.phase i .accepted }
      | (.error _, s) =>
        { store := s
          phase := Function.update t.phase i .failed
          lastWriter := Function.update t.lastWriter (U i).2.name none }
    | _ => t

def Doomed (U : Fin n → UploadEnv × Upload) (phase : Fin n → Phase) (j : Fin n) : Prop :=
  match phase j with
  | .registered read => (U j).2.verdict read ≠ none
  | _ => False

instance (U : Fin n → UploadEnv × Upload) (phase : Fin n → Phase) (j : Fin n) :
    Decidable (Doomed U phase j) := by
  unfold Doomed
  split <;> infer_instance

/-- The condition on a step: an upload registers with a size that is not negative and while no
    doomed upload shares its hash or its name, and an upload is undone without a failing delete. -/
def Safe (U : Fin n → UploadEnv × Upload) (t : Flight β n) : Op n → Prop
  | .register i =>
    0 ≤ (U i).2.size ∧
      ∀ j, Doomed U t.phase j → (U j).2.hash ≠ (U i).2.hash ∧ (U j).2.name ≠ (U i).2.name
  | .verify i => Doomed U t.phase i → (U i).1.deleteFault = none

instance (U : Fin n → UploadEnv × Upload) (t : Flight β n) (o : Op n) : Decidable (Safe U t o) := by
  cases o <;> unfold Safe <;> infer_instance

/-! ### The invariant -/

variable [MapBackend β]

structure Inv (U : Fin n → UploadEnv × Upload) (t : Flight β n) : Prop where
  books : CASStore.Books t.store.db
  present : ∀ h m, t.store.db.objects.get h = some m → (t.store.bytes h).isSome
  intact : ∀ h m, t.store.db.objects.get h = some m →
    t.store.Intact h ∨ ∃ j, Doomed U t.phase j ∧ (U j).2.hash = h ∧ m.refCount = 1
  mapped : ∀ i, t.lastWriter (U i).2.name = some i →
    t.store.db.ns.get (U i).2.name = some (U i).2.hash
  doomed : ∀ j, Doomed U t.phase j →
    t.lastWriter (U j).2.name = some j ∧ hasPathTraversalChars (U j).2.hash = false

structure AtRest (s : CASStore β) : Prop where
  books : CASStore.Books s.db
  intact : ∀ h m, s.db.objects.get h = some m → s.Intact h

theorem inv_start (U : Fin n → UploadEnv × Upload) {s : CASStore β} (hs : AtRest s) :
    Inv U { store := s } where
  books := hs.books
  present h m hm := by
    obtain ⟨c, hc, -⟩ := hs.intact h m hm
    rw [hc]
    rfl
  intact h m hm := Or.inl (hs.intact h m hm)
  mapped _ h := by cases h
  doomed _ h := h.elim

variable {i : Fin n}

omit [BlobStore β] [MapBackend β] in
theorem doomed_update {U : Fin n → UploadEnv × Upload} {phase : Fin n → Phase} {j : Fin n}
    (p : Phase) (hne : j ≠ i) : Doomed U (Function.update phase i p) j ↔ Doomed U phase j := by
  unfold Doomed
  rw [Function.update_of_ne hne]

omit [BlobStore β] [MapBackend β] in
theorem not_doomed_of_phase {U : Fin n → UploadEnv × Upload} {phase : Fin n → Phase}
    (h : ∀ read, phase i ≠ .registered read) : ¬ Doomed U phase i := by
  unfold Doomed
  split
  · rename_i read hread
    exact absurd hread (h read)
  · exact not_false

variable {U : Fin n → UploadEnv × Upload} {t : Flight β n}

theorem Inv.name_ne (hi : Inv U t) {j : Fin n} (hne : j ≠ i) (hj : Doomed U t.phase j)
    (hw : t.lastWriter (U i).2.name = some i) : (U j).2.name ≠ (U i).2.name := by
  intro hc
  have := (hi.doomed j hj).1
  rw [hc, hw] at this
  exact hne (Option.some.inj this).symm

theorem Inv.intact_of_lastWriter (hi : Inv U t) (hnd : ¬ Doomed U t.phase i)
    (hw : t.lastWriter (U i).2.name = some i) : t.store.Intact (U i).2.hash := by
  have hns := hi.mapped i hw
  obtain ⟨m, hm⟩ := hi.books.recorded _ _ hns
  rcases hi.intact _ m hm with hgood | ⟨j, hj, hhash, hone⟩
  · exact hgood
  · -- a doomed upload on this hash would be a second name on its only reference
    have hji : j ≠ i := fun hc => hnd (hc ▸ hj)
    have hnsj := hi.mapped j (hi.doomed j hj).1
    rw [hhash] at hnsj
    have := hi.books.two_le_refCount (hi.name_ne hji hj hw) hns hnsj hm
    omega

theorem Inv.holds (hi : Inv U t) {h : Bytes} {m : ObjectMeta}
    (hm : t.store.db.objects.get h = some m) : t.store.Holds h :=
  ⟨by rw [hm]; rfl, Or.inr (hi.present h m hm)⟩

theorem Inv.bytesPut_eq (hi : Inv U t) (env : UploadEnv) (u : Upload) {h : Bytes} {m : ObjectMeta}
    (hm : t.store.db.objects.get h = some m) : t.store.bytesPut env u h = t.store.bytes h := by
  rcases eq_or_ne h u.hash with rfl | hne
  · rw [CASStore.bytesPut, if_neg (fun hw => hw.2.2.1 (hi.holds hm))]
  · exact CASStore.bytesPut_ne _ _ hne

variable {s' : CASStore β}

theorem inv_refused (hi : Inv U t) (hwait : t.phase i = .waiting) (hdb : s'.db = t.store.db)
    (hb : s'.bytes = t.store.bytesPut (U i).1 (U i).2) :
    Inv U { t with store := s', phase := Function.update t.phase i .failed } := by
  have hnd : ¬ Doomed U t.phase i := not_doomed_of_phase (by simp [hwait])
  have hnd' : ¬ Doomed U (Function.update t.phase i .failed) i := not_doomed_of_phase (by simp)
  have hdoom : ∀ j, Doomed U (Function.update t.phase i .failed) j ↔ Doomed U t.phase j := by
    intro j
    rcases eq_or_ne j i with rfl | hne
    · exact iff_of_false hnd' hnd
    · exact doomed_update _ hne
  have hbytes : ∀ h m, s'.db.objects.get h = some m → s'.bytes h = t.store.bytes h := by
    intro h m hm
    rw [hdb] at hm
    rw [hb, hi.bytesPut_eq _ _ hm]
  refine ⟨hdb ▸ hi.books, fun h m hm => ?_, fun h m hm => ?_, fun k hk => ?_, fun j hj => ?_⟩
  · rw [hbytes h m hm]
    exact hi.present h m (hdb ▸ hm)
  · rw [CASStore.Intact, hbytes h m hm]
    refine (hi.intact h m (hdb ▸ hm)).imp_right ?_
    rintro ⟨j, hj, hrest⟩
    exact ⟨j, (hdoom j).mpr hj, hrest⟩
  · rw [hdb]
    exact hi.mapped k hk
  · exact hi.doomed j ((hdoom j).mp hj)

theorem inv_registered (hi : Inv U t) (hwait : t.phase i = .waiting) (hs : Safe U t (.register i))
    (ha : t.store.BytesAccepted (U i).1 (U i).2)
    (hw : CASStore.Written t.store s' (U i).1.putAt (U i).2.name (U i).2.hash (U i).2.size
      (U i).2.remotePath {}) (hb : s'.bytes = t.store.bytesPut (U i).1 (U i).2) :
    Inv U { store := s'
            phase := Function.update t.phase i (.registered (U i).2.payload.data)
            lastWriter := Function.update t.lastWriter (U i).2.name (some i) } := by
  obtain ⟨hsize, hclear⟩ := hs
  have hnd : ¬ Doomed U t.phase i := not_doomed_of_phase (by simp [hwait])
  have hne : ∀ j, Doomed U t.phase j → j ≠ i := fun j hj hc => hnd (hc ▸ hj)
  have hself : Doomed U (Function.update t.phase i (.registered (U i).2.payload.data)) i ↔
      (U i).2.verdict (U i).2.payload.data ≠ none := by
    simp only [Doomed, Function.update_self]
  refine ⟨CASStore.books_written hi.books hsize hw, fun h m hm => ?_, fun h m hm => ?_,
    fun k hk => ?_, fun j hj => ?_⟩
  · -- present: a hash without a record is written now
    rcases hw.objects_cases hm with ⟨rfl, -⟩ | ⟨-, hm⟩
    · cases hex : t.store.db.objects.get (U i).2.hash with
      | some m0 =>
        rw [hb, hi.bytesPut_eq _ _ hex]
        exact hi.present _ m0 hex
      | none =>
        have hnp : ¬ t.store.Holds (U i).2.hash := fun hp => by simp [CASStore.Holds, hex] at hp
        have hwr : t.store.Writes (U i).1 (U i).2 :=
          ⟨ha.1, ha.2.1, hnp, (ha.2.2.resolve_left hnp).1⟩
        rw [hb, CASStore.bytesPut, if_pos hwr, Function.update_self]
        rfl
    · rw [hb, hi.bytesPut_eq _ _ hm]
      exact hi.present h m hm
  · rcases hw.objects_cases hm with ⟨rfl, rfl⟩ | ⟨-, hm⟩
    · cases hex : t.store.db.objects.get (U i).2.hash with
      | some m0 =>
        -- the hash was known: its bytes match, since no doomed upload is on it
        rcases hi.intact _ m0 hex with hgood | ⟨j, hj, hhash, -⟩
        · left
          rw [CASStore.Intact, hb, hi.bytesPut_eq _ _ hex]
          exact hgood
        · exact absurd hhash (hclear j hj).1
      | none =>
        have hnp : ¬ t.store.Holds (U i).2.hash := fun hp => by simp [CASStore.Holds, hex] at hp
        have hwr : t.store.Writes (U i).1 (U i).2 :=
          ⟨ha.1, ha.2.1, hnp, (ha.2.2.resolve_left hnp).1⟩
        have hbytes : s'.bytes (U i).2.hash = some (U i).2.payload.data := by
          rw [hb, CASStore.bytesPut, if_pos hwr, Function.update_self]
        cases hv : (U i).2.verdict (U i).2.payload.data with
        | none => exact Or.inl ⟨_, hbytes, Upload.hash_of_verdict hv⟩
        | some e =>
          refine Or.inr ⟨i, hself.mpr (by rw [hv]; exact Option.some_ne_none e), rfl, ?_⟩
          rw [CASStore.putMeta_refCount]
          rfl
    · rw [CASStore.Intact, hb, hi.bytesPut_eq _ _ hm]
      refine (hi.intact h m hm).imp_right ?_
      rintro ⟨j, hj, hrest⟩
      exact ⟨j, (doomed_update _ (hne j hj)).mpr hj, hrest⟩
  · -- mapped: the put wrote its own name, and is the last writer of no other
    simp only at hk ⊢
    rw [hw.ns]
    rcases eq_or_ne (U k).2.name (U i).2.name with hname | hname
    · rw [hname, Function.update_self] at hk
      obtain rfl := Option.some.inj hk
      exact Bucket.get_set_self ..
    · rw [Function.update_of_ne hname] at hk
      rw [Bucket.get_set_ne _ _ _ hname]
      exact hi.mapped k hk
  · rcases eq_or_ne j i with rfl | hji
    · exact ⟨Function.update_self .., ha.1⟩
    · have hj' := (doomed_update _ hji).mp hj
      simp only
      rw [Function.update_of_ne (hclear j hj').2]
      exact hi.doomed j hj'

/-- Step: an upload passes its check; nothing moves. -/
theorem inv_accepted (hi : Inv U t) (hnd : ¬ Doomed U t.phase i) :
    Inv U { t with phase := Function.update t.phase i .accepted } := by
  have hnd' : ¬ Doomed U (Function.update t.phase i .accepted) i := not_doomed_of_phase (by simp)
  have hdoom : ∀ j, Doomed U (Function.update t.phase i .accepted) j ↔ Doomed U t.phase j := by
    intro j
    rcases eq_or_ne j i with rfl | hne
    · exact iff_of_false hnd' hnd
    · exact doomed_update _ hne
  refine { hi with intact := fun h m hm => ?_, doomed := fun j hj => hi.doomed j ((hdoom j).mp hj) }
  refine (hi.intact h m hm).imp_right ?_
  rintro ⟨j, hj, hrest⟩
  exact ⟨j, (hdoom j).mpr hj, hrest⟩

theorem inv_undone (hi : Inv U t) (hd : Doomed U t.phase i) {at_ : Int}
    (hr : CASStore.Removed t.store s' none (U i).2.name at_) :
    Inv U { store := s'
            phase := Function.update t.phase i .failed
            lastWriter := Function.update t.lastWriter (U i).2.name none } := by
  obtain ⟨hlast, hh⟩ := hi.doomed i hd
  have hns := hi.mapped i hlast
  have hnd' : ¬ Doomed U (Function.update t.phase i .failed) i := not_doomed_of_phase (by simp)
  refine ⟨CASStore.books_removed hi.books hr, fun h m hm => ?_, fun h m hm => ?_, fun k hk => ?_,
    fun j hj => ?_⟩
  · obtain ⟨hkeep, hcase⟩ := hr.objects_cases hm
    rw [hr.bytes, if_neg hkeep]
    rcases hcase with ⟨-, m0, hm0, -⟩ | ⟨-, hm⟩
    · exact hi.present h m0 hm0
    · exact hi.present h m hm
  · obtain ⟨hkeep, hcase⟩ := hr.objects_cases hm
    rw [CASStore.Intact, hr.bytes, if_neg hkeep]
    rcases hcase with ⟨hname, m0, hm0, -⟩ | ⟨hname, hm⟩
    · -- the upload's own hash survives: it has other references, so its bytes match
      obtain rfl := Option.some.inj (hns.symm.trans hname)
      rcases hi.intact _ m0 hm0 with hgood | ⟨j, -, -, hone⟩
      · exact Or.inl hgood
      · have horphan : CASStore.orphanOf t.store.db (U i).2.name = some (U i).2.hash :=
          CASStore.orphanOf_eq_some.mpr ⟨hns, m0, hm0, by omega⟩
        exact absurd ⟨horphan, rfl, hh⟩ hkeep
    · refine (hi.intact h m hm).imp_right ?_
      rintro ⟨j, hj, hhash, hone⟩
      have hji : j ≠ i := by
        rintro rfl
        exact hname (hhash ▸ hns)
      exact ⟨j, (doomed_update _ hji).mpr hj, hhash, hone⟩
  · simp only at hk ⊢
    rcases eq_or_ne (U k).2.name (U i).2.name with hname | hname
    · rw [hname, Function.update_self] at hk
      cases hk
    · rw [Function.update_of_ne hname] at hk
      rw [hr.ns, Bucket.get_del_ne _ hname]
      exact hi.mapped k hk
  · rcases eq_or_ne j i with rfl | hji
    · exact absurd hj hnd'
    · have hj' := (doomed_update _ hji).mp hj
      simp only
      rw [Function.update_of_ne (hi.name_ne hji hj' hlast)]
      exact hi.doomed j hj'

theorem inv_step (t : Flight β n) (o : Op n) (hi : Inv U t) (hs : Safe U t o) :
    Inv U (step U t o) := by
  cases o with
  | register i =>
    cases hp : t.phase i with
    | waiting =>
      obtain ⟨hacc, hrej⟩ := CASStore.registerUpload_spec t.store (U i).1 (U i).2
      by_cases ha : t.store.BytesAccepted (U i).1 (U i).2 ∧ CASStore.MetaAccepted (U i).2
      · obtain ⟨s', hreg, hw, hb⟩ := hacc ha
        simp only [step, hp, hreg]
        exact inv_registered hi hp hs ha.1 hw hb
      · obtain ⟨e, s', hreg, -, hdb, hb⟩ := hrej ha
        simp only [step, hp, hreg]
        exact inv_refused hi hp hdb hb
    | registered read => simpa only [step, hp] using hi
    | accepted => simpa only [step, hp] using hi
    | failed => simpa only [step, hp] using hi
  | verify i =>
    cases hp : t.phase i with
    | waiting => simpa only [step, hp] using hi
    | registered read =>
      cases hv : (U i).2.verdict read with
      | none =>
        simp only [step, hp, CASStore.verifyUpload, hv]
        exact inv_accepted hi (by simp [Doomed, hp, hv])
      | some e =>
        have hd : Doomed U t.phase i := by simp [Doomed, hp, hv]
        have hns := hi.mapped i (hi.doomed i hd).1
        obtain ⟨s', hdel, hr⟩ := CASStore.remove_ok t.store none (U i).1.deleteAt
          (fun _ => metadataError) metadataError (Bucket.keyOk_of_get hns)
        simp only [step, hp, CASStore.verifyUpload, hv, hs hd, CASStore.delete, hdel]
        exact inv_undone hi hd hr
    | accepted => simpa only [step, hp] using hi
    | failed => simpa only [step, hp] using hi

/-! ### What an accepted upload is promised -/

def ReadsBack (s : CASStore β) (name hash : Bytes) : Prop :=
  ∃ st m c, s.get name = (.ok (st, m), s) ∧ st.readAll = (c, none) ∧ hashBytes c = hash

theorem readsBack_of_intact {s : CASStore β} (hb : CASStore.Books s.db) {name hash : Bytes}
    (hns : s.db.ns.get name = some hash) (hi : s.Intact hash) : ReadsBack s name hash := by
  obtain ⟨m, hm⟩ := hb.recorded _ _ hns
  obtain ⟨c, hc, hd⟩ := hi
  refine ⟨_, _, c, CASStore.get_mapped s (hb.visible hns) hns (hb.unmarked hash) hc hm
    (hb.sized _ _ hm), ?_, hd⟩
  cases hv : s.cfg.verifyOnRead <;> simp [Stream.readAll, hd]

/-- CORRECT: in a safe run every accepted upload reads back bytes of the announced hash, as long as
    it is the last writer of its name. -/
theorem readsBack_of_accepted {s : CASStore β} (hs : AtRest s) (U : Fin n → UploadEnv × Upload)
    {ops : List (Op n)} (hg : Guarded (step U) (Safe U) { store := s } ops) (i : Fin n)
    (ha : (run (step U) { store := s } ops).phase i = .accepted)
    (hw : (run (step U) { store := s } ops).lastWriter (U i).2.name = some i) :
    ReadsBack (run (step U) { store := s } ops).store (U i).2.name (U i).2.hash := by
  have hi : Inv U (run (step U) { store := s } ops) :=
    run_invariant (Inv U) inv_step (inv_start U hs) hg
  have hnd : ¬ Doomed U (run (step U) { store := s } ops).phase i :=
    not_doomed_of_phase (by simp [ha])
  exact readsBack_of_intact hi.books (hi.mapped i hw) (hi.intact_of_lastWriter hnd hw)

end Uploads

/-! ### Two uploads on an empty store -/

section Runs

local instance flightSha : Sha256 := sampleSha

/-- Upload 0 announces the hash of `b` and delivers the bytes of `a`; upload 1 is an honest `b`. -/
def mixedUploads (i : Fin 2) : UploadEnv × Upload :=
  match i with
  | 0 => ({}, { name := [120], hash := hashBytes [98], size := 1, content := ⟨[97], none⟩ })
  | 1 => ({}, { name := [121], hash := hashBytes [98], size := 1, content := ⟨[98], none⟩ })

def emptyStore : CASStore LocalBlobStore := { blobs := {} }

theorem emptyStore_atRest : AtRest emptyStore where
  books := CASStore.books_empty
  intact _ _ h := by cases h

def takingTurns : List (Op 2) := [.register 0, .verify 0, .register 1, .verify 1]

def overlapping : List (Op 2) := [.register 0, .register 1, .verify 1, .verify 0]

theorem readsBack_takingTurns :
    ReadsBack (run (step mixedUploads) { store := emptyStore } takingTurns).store
      [121] (hashBytes [98]) :=
  readsBack_of_accepted emptyStore_atRest mixedUploads
    (show Guarded _ _ _ takingTurns by decide +kernel) 1 (by decide +kernel) (by decide +kernel)

theorem accepted_overlapping_unreadable :
    (run (step mixedUploads) { store := emptyStore } overlapping).phase 1 = .accepted ∧
    (run (step mixedUploads) { store := emptyStore } overlapping).lastWriter [121] = some 1 ∧
    ¬ ReadsBack (run (step mixedUploads) { store := emptyStore } overlapping).store
      [121] (hashBytes [98]) := by
  refine ⟨by decide +kernel, by decide +kernel, ?_⟩
  rintro ⟨st, m, c, hget, hread, -⟩
  have hbad : ((run (step mixedUploads) { store := emptyStore } overlapping).store.get [121]).1 =
      .ok (⟨⟨[97], none⟩, some (hashBytes [98])⟩, ⟨[121], hashBytes [98], 1, [], 0⟩) := by
    decide +kernel
  rw [hget] at hbad
  cases hbad
  -- reading on, the digest is found not to match
  have hfault : (Stream.readAll ⟨⟨[97], none⟩, some (hashBytes [98])⟩).2 ≠ none := by
    decide +kernel
  exact hfault (by rw [hread])

end Runs

end Momo.UploadRuns
