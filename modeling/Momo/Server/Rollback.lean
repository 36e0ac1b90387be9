import Momo.Server.Upload

/-! @momo src/server/file.go, src/storage/storage.go | scheme:effect of a failed upload

    What a failed `getFile` leaves behind. A put that fails early changes nothing; one that fails
    after its bytes were written leaves them; a payload that fails its check has already been
    registered, and the delete that undoes this unmaps the name whatever it meant before and takes a
    reference off the hash. -/

namespace Momo.CASStore

/-! ### What a read depends on -/

/-- No name of the hash can be read, whatever its bytes: no record, or a negative size. -/
def Barren (record : Option ObjectMeta) : Prop := ∀ m, record = some m → m.size < 0

theorem fileMetadata_isOk {db : MetaDB} {name h : Bytes} :
    (fileMetadata db name h).isOk = true ↔ ¬ Barren (db.objects.get h) := by
  unfold fileMetadata Barren
  cases db.objects.get h with
  | none => simp [Except.isOk, Except.toBool]
  | some m => by_cases hm : m.size < 0 <;> simp [hm, Except.isOk, Except.toBool]

section Effects

variable [Sha256] {β : Type} [BlobStore β] [MapBackend β]

def readWith (s : CASStore β) (h : Bytes) (b : Option Bytes) : Except Err Stream :=
  readBlob β s.cfg (s.db.quarantine.get h).isSome h b

variable {s : CASStore β} {h : Bytes} {e : Err}

theorem readWith_of_error (hh : hasPathTraversalChars h = false) {b : Option Bytes}
    (he : s.readWith h b = .error e) : fallback s.cfg h = .error e := by
  unfold readWith at he
  cases b with
  | none => rwa [readBlob_none _ _ hh] at he
  | some c =>
    unfold readBlob at he
    split_ifs at he
    exact he

theorem readWith_error_ne (hh : hasPathTraversalChars h = false) {b : Option Bytes}
    (he : s.readWith h b = .error e) (db : MetaDB) (name : Bytes) :
    fileMetadata db name h ≠ .error e := by
  have hfall := readWith_of_error hh he
  have herr : e = .sys .enoent ∨ ∃ e', e = .wrap "survivors query for %s: %w" [.str h] e' := by
    unfold fallback survivorRead at hfall
    split at hfall
    · rename_i source _ _
      cases hs : source.survivors h with
      | error e' =>
        rw [hs] at hfall
        exact Or.inr ⟨e', (Except.error.inj hfall).symm⟩
      | ok peers =>
        rw [hs] at hfall
        simp only at hfall
        split at hfall
        · cases hfall
        · exact Or.inl (Except.error.inj hfall).symm
    · exact Or.inl (Except.error.inj hfall).symm
  unfold fileMetadata
  rcases herr with rfl | ⟨e', rfl⟩
  · split
    · simp
    · split_ifs <;> simp
  · split
    · simp
    · split_ifs <;> simp

theorem read_same_iff (hh : hasPathTraversalChars h = false) (b b' : Option Bytes) (db : MetaDB)
    (name : Bytes) :
    (s.readWith h b').bind (fun f => (fileMetadata db name h).map (f, ·)) =
        (s.readWith h b).bind (fun f => (fileMetadata db name h).map (f, ·)) ↔
      s.readWith h b = s.readWith h b' ∨
        (s.readWith h b).isOk = true ∧ (s.readWith h b').isOk = true ∧
          Barren (db.objects.get h) := by
  have hmeta : (fileMetadata db name h).isOk = true ↔ ¬ Barren (db.objects.get h) :=
    fileMetadata_isOk
  have hb := fun e he => readWith_error_ne (s := s) (b := b) (e := e) hh he db name
  have hb' := fun e he => readWith_error_ne (s := s) (b := b') (e := e) hh he db name
  generalize s.readWith h b = x at hb ⊢
  generalize s.readWith h b' = y at hb' ⊢
  generalize fileMetadata db name h = record at hmeta hb hb' ⊢
  cases record with
  | error e =>
    have hbarren : Barren (db.objects.get h) := by
      by_contra hc
      cases hmeta.mpr hc
    cases x with
    | error ex =>
      have hne : e ≠ ex := fun h => hb ex rfl (by rw [h])
      cases y with
      | error ey => simp [Except.bind, Except.isOk, Except.toBool, eq_comm]
      | ok fy => simp [Except.bind, Except.map, Except.isOk, Except.toBool, hne]
    | ok fx =>
      cases y with
      | error ey =>
        have hne : ey ≠ e := fun h => hb' ey rfl (by rw [h])
        simp [Except.bind, Except.map, Except.isOk, Except.toBool, hne]
      | ok fy => simp [Except.bind, Except.map, Except.isOk, Except.toBool, hbarren]
  | ok m =>
    have hfertile : ¬ Barren (db.objects.get h) := hmeta.mp rfl
    cases x <;> cases y <;>
      simp [Except.bind, Except.map, Except.isOk, Except.toBool, hfertile, eq_comm]

theorem read_unrecorded_iff (hh : hasPathTraversalChars h = false) (b b' : Option Bytes)
    {db db' : MetaDB} (name : Bytes) (hnone : db.objects.get h = none)
    (hsome : db'.objects.get h ≠ none) :
    (s.readWith h b').bind (fun f => (fileMetadata db' name h).map (f, ·)) =
        (s.readWith h b).bind (fun f => (fileMetadata db name h).map (f, ·)) ↔
      (s.readWith h b).isOk = false ∧ (s.readWith h b').isOk = false := by
  have hmiss : fileMetadata db name h =
      .error (.wrap "metadata missing for hash %s: %w" [.str h] (.sys .enoent)) := by
    simp only [fileMetadata, hnone]
  have hrec : ∀ m, fileMetadata db' name h ≠ .error m ∨
      m ≠ .wrap "metadata missing for hash %s: %w" [.str h] (.sys .enoent) := by
    intro m
    obtain ⟨o, ho⟩ := Option.ne_none_iff_exists'.mp hsome
    simp only [fileMetadata, ho]
    split_ifs
    · rcases eq_or_ne m (.wrap "metadata missing for hash %s: %w" [.str h] (.sys .enoent)) with
        rfl | hne
      · exact Or.inl (by simp)
      · exact Or.inr hne
    · exact Or.inl (by simp)
  cases hx : s.readWith h b with
  | error e =>
    have hfall := readWith_of_error hh hx
    cases hy : s.readWith h b' with
    | error e' =>
      obtain rfl := Except.error.inj (hfall.symm.trans (readWith_of_error hh hy))
      simp [Except.bind, Except.isOk, Except.toBool]
    | ok f =>
      have hne := readWith_error_ne hh hx db' name
      cases hm : fileMetadata db' name h with
      | error m =>
        have : m ≠ e := fun hc => hne (hm.trans (by rw [hc]))
        simp [Except.bind, Except.map, Except.isOk, Except.toBool, this]
      | ok m => simp [Except.bind, Except.map, Except.isOk, Except.toBool]
  | ok f =>
    cases hy : s.readWith h b' with
    | error e' =>
      have hne := readWith_error_ne hh hy db name
      rw [hmiss] at hne ⊢
      have : e' ≠ .wrap "metadata missing for hash %s: %w" [.str h] (.sys .enoent) :=
        fun hc => hne (by rw [hc])
      simp [Except.bind, Except.map, Except.isOk, Except.toBool, this]
    | ok f' =>
      rw [hmiss]
      cases hm : fileMetadata db' name h with
      | error m =>
        have := (hrec m).resolve_left (fun hc => hc hm)
        simp [Except.bind, Except.map, Except.isOk, Except.toBool, this]
      | ok m => simp [Except.bind, Except.map, Except.isOk, Except.toBool]

/-! ### What a failed upload leaves -/

structure RolledBack (s s' : CASStore β) (env : UploadEnv) (u : Upload) : Prop where
  cfg : s'.cfg = s.cfg
  quarantine : s'.db.quarantine = s.db.quarantine
  hidden : ∃ e, s'.getHashForName u.name = .error e
  visible : ∀ n, n ≠ u.name → s'.getHashForName n = s.getHashForName n
  paths : ∀ n, n ≠ u.name → s'.db.paths.get n = s.db.paths.get n
  modTimes : ∀ n, n ≠ u.name → s'.db.modTimes.get n = s.db.modTimes.get n
  otherBytes : ∀ h, h ≠ u.hash → s'.bytes h = s.bytes h
  otherObjects : ∀ h, h ≠ u.hash → s'.db.objects.get h = s.db.objects.get h
  gone : (∀ m, s.db.objects.get u.hash = some m → m.refCount ≤ 0) → env.deleteFault = none →
    s'.bytes u.hash = none ∧ s'.db.objects.get u.hash = none
  kept : (∃ m, s.db.objects.get u.hash = some m ∧ 0 < m.refCount) ∨ env.deleteFault ≠ none →
    s'.bytes u.hash = s.bytesPut env u u.hash ∧
      (s'.db.objects.get u.hash).map ObjectMeta.size =
        some ((s.db.objects.get u.hash).elim u.size ObjectMeta.size)

variable {s' : CASStore β} {env : UploadEnv} {u : Upload}

omit [Sha256] in
theorem rolledBack_of_written {s1 : CASStore β} (hh : hasPathTraversalChars u.hash = false)
    (hw : Written s s1 env.putAt u.name u.hash u.size u.remotePath {})
    (hb : s1.bytes = s.bytesPut env u) (hr : Removed s1 s' env.deleteFault u.name env.deleteAt) :
    RolledBack s s' env u := by
  have hns : s1.db.ns.get u.name = some u.hash := by rw [hw.ns, Bucket.get_set_self]
  have hobj : s1.db.objects.get u.hash = some (putMeta (s.db.objects.get u.hash) u.size {}) := by
    rw [hw.objects, Bucket.get_set_self]
  have horphan : orphanOf s1.db u.name = some u.hash ↔
      ∀ m, s.db.objects.get u.hash = some m → m.refCount ≤ 0 := by
    simp only [orphanOf_eq_some, hns, hobj, Option.some.injEq, true_and, exists_eq_left',
      putMeta_refCount]
    cases s.db.objects.get u.hash with
    | none => simp
    | some m =>
      simp only [Option.elim_some, Option.some.injEq, forall_eq']
      omega
  have hdel : DeleteOk env.deleteFault u.hash ↔ env.deleteFault = none :=
    ⟨fun h => h.1, fun h => ⟨h, hh⟩⟩
  have hnot : ∀ h, h ≠ u.hash → ¬ (orphanOf s1.db u.name = some h ∧ DeleteOk env.deleteFault h) := by
    rintro h hne ⟨ho, -⟩
    exact hne (Option.some.inj ((orphanOf_eq_some.mp ho).1.symm.trans hns))
  refine ⟨hr.cfg.trans hw.cfg, hr.quarantine.trans hw.quarantine, ⟨.sys .enoent, ?_⟩, ?_, ?_, ?_, ?_,
    ?_, ?_, ?_⟩
  · -- the delete's tombstone hides the name
    simp only [getHashForName, hr.tombstones, Bucket.get_set_self]
  · intro n hne
    simp only [getHashForName, hr.tombstones, hr.ns, hw.tombstones, hw.ns,
      Bucket.get_set_ne _ _ _ hne, Bucket.get_del_ne _ hne]
  · intro n hne
    rw [hr.paths, Bucket.get_del_ne _ hne]
    exact putPath_get_ne hw.paths hne
  · intro n hne
    rw [hr.modTimes, Bucket.get_del_ne _ hne, hw.modTimes, Bucket.get_set_ne _ _ _ hne]
  · intro h hne
    rw [hr.bytes h, if_neg (hnot h hne), hb, bytesPut_ne s env hne]
  · intro h hne
    have hns' : s1.db.ns.get u.name ≠ some h := fun hc => hne (Option.some.inj (hc.symm.trans hns))
    rw [hr.objects h, if_neg (hnot h hne), if_neg hns', hw.objects, Bucket.get_set_ne _ _ _ hne]
  · intro hlast hok
    have hc := And.intro (horphan.mpr hlast) (hdel.mpr hok)
    exact ⟨by rw [hr.bytes, if_pos hc], by rw [hr.objects, if_pos hc]⟩
  · intro hkeep
    have hc : ¬ (orphanOf s1.db u.name = some u.hash ∧ DeleteOk env.deleteFault u.hash) := by
      rintro ⟨ho, hd⟩
      rcases hkeep with ⟨m, hm, hpos⟩ | hfault
      · have := horphan.mp ho m hm
        omega
      · exact hfault (hdel.mp hd)
    refine ⟨by rw [hr.bytes, if_neg hc, hb], ?_⟩
    rw [hr.objects, if_neg hc, if_pos hns, hobj, Option.map_some, Option.map_some, dropRef_size,
      putMeta_size]

theorem getFile_error_cases (h : (s.getFile env u).1 = .error e) :
    (s.BytesAccepted env u ∧ MetaAccepted u ∧ RolledBack s (s.getFile env u).2 env u) ∨
    (¬ (s.BytesAccepted env u ∧ MetaAccepted u) ∧ (s.getFile env u).2.cfg = s.cfg ∧
      (s.getFile env u).2.db = s.db ∧ (s.getFile env u).2.bytes = s.bytesPut env u) := by
  obtain ⟨hacc, hrej⟩ := registerUpload_spec s env u
  by_cases ha : s.BytesAccepted env u ∧ MetaAccepted u
  · obtain ⟨s1, hreg, hw, hb⟩ := hacc ha
    refine Or.inl ⟨ha.1, ha.2, ?_⟩
    obtain ⟨s', hdel, hr⟩ := remove_ok s1 env.deleteFault env.deleteAt (fun _ => metadataError)
      metadataError hw.nameOk
    have hdel' : s1.delete env.deleteFault env.deleteAt u.name = (.ok (), s') := hdel
    simp only [getFile, hreg, verifyUpload] at h ⊢
    cases hv : u.verdict u.payload.data with
    | none =>
      rw [hv] at h
      cases h
    | some e' =>
      simp only [hdel']
      exact rolledBack_of_written ha.1.1 hw hb hr
  · obtain ⟨e', s1, hreg, hcfg, hdb, hb⟩ := hrej ha
    refine Or.inr ⟨ha, ?_⟩
    simp only [getFile, hreg]
    exact ⟨hcfg, hdb, hb⟩

/-! ### When no read can tell -/

def BytesUnseen (s : CASStore β) (u : Upload) : Prop :=
  s.readWith u.hash (s.bytes u.hash) = s.readWith u.hash (some u.payload.data) ∨
    (s.readWith u.hash (s.bytes u.hash)).isOk = true ∧
      (s.readWith u.hash (some u.payload.data)).isOk = true ∧ Barren (s.db.objects.get u.hash)

/-- Registering the upload and undoing it shows in no read of another name of the hash. -/
def RollbackUnseen (s : CASStore β) (env : UploadEnv) (u : Upload) : Prop :=
  match s.db.objects.get u.hash with
  | none =>
    if env.deleteFault = none then
      s.readWith u.hash (s.bytes u.hash) = s.readWith u.hash none ∨
        (s.readWith u.hash (s.bytes u.hash)).isOk = true ∧ (s.readWith u.hash none).isOk = true
    else
      (s.readWith u.hash (s.bytes u.hash)).isOk = false ∧
        (s.readWith u.hash (some u.payload.data)).isOk = false
  | some m =>
    if m.refCount ≤ 0 ∧ env.deleteFault = none then
      (s.readWith u.hash (s.bytes u.hash)).isOk = false
    else s.Holds u.hash ∨ s.BytesUnseen u

/-- The states and uploads whose failure no read can tell: a registered upload had no readable
    object under its name and spares the other names of its hash; bytes left by a refused one are
    not seen. -/
def Harmless (s : CASStore β) (env : UploadEnv) (u : Upload) : Prop :=
  if s.BytesAccepted env u ∧ MetaAccepted u then
    (s.get u.name).1 = .error (.sys .enoent) ∧
      ((∃ n, n ≠ u.name ∧ s.getHashForName n = .ok u.hash) → s.RollbackUnseen env u)
  else s.Writes env u → (∃ n, s.getHashForName n = .ok u.hash) → s.BytesUnseen u

theorem RolledBack.get_iff (hr : RolledBack s s' env u) (ha : s.BytesAccepted env u) {n : Bytes}
    (hne : n ≠ u.name) :
    (s'.get n).1 = (s.get n).1 ↔ (s.getHashForName n = .ok u.hash → s.RollbackUnseen env u) := by
  have hh := ha.1
  cases hvis : s.getHashForName n with
  | error e =>
    rw [get_hidden s hvis, get_hidden s' ((hr.visible n hne).trans hvis)]
    simp
  | ok h =>
    rw [get_visible s hvis, get_visible s' ((hr.visible n hne).trans hvis), hr.cfg, hr.quarantine]
    rcases eq_or_ne h u.hash with rfl | hother
    swap
    · rw [hr.otherBytes h hother, fileMetadata_congr (by rw [hr.otherObjects h hother])
        (hr.paths n hne) (hr.modTimes n hne)]
      simp [hother]
    simp only [forall_const]
    change (s.readWith u.hash (s'.bytes u.hash)).bind _ =
      (s.readWith u.hash (s.bytes u.hash)).bind _ ↔ _
    unfold RollbackUnseen
    cases hobj : s.db.objects.get u.hash with
    | none =>
      have hnp : ¬ s.Holds u.hash := fun h => by simp [Holds, hobj] at h
      have hw : s.Writes env u := ⟨hh, ha.2.1, hnp, (ha.2.2.resolve_left hnp).1⟩
      simp only
      split_ifs with hf
      · -- everything about the hash is gone, as before the upload
        obtain ⟨hb, ho⟩ := hr.gone (by simp [hobj]) hf
        rw [hb, fileMetadata_congr (by rw [ho, hobj]) (hr.paths n hne)
          (hr.modTimes n hne), read_same_iff hh]
        simp [Barren, hobj]
      · -- the failed delete leaves a record where there was none
        obtain ⟨hb, ho⟩ := hr.kept (Or.inr hf)
        rw [hb, bytesPut, if_pos hw, Function.update_self]
        exact read_unrecorded_iff hh _ _ n hobj (fun hc => by rw [hc] at ho; cases ho)
    | some m =>
      simp only
      split_ifs with hlast
      · -- the last reference goes, and the record with it
        obtain ⟨hb, ho⟩ := hr.gone
          (fun m' hm' => by rw [hobj] at hm'; cases hm'; exact hlast.1) hlast.2
        rw [hb, eq_comm, read_unrecorded_iff hh _ _ n ho (by simp [hobj])]
        refine ⟨fun h => h.2, fun h => ⟨?_, h⟩⟩
        cases hx : s.readWith u.hash (s.bytes u.hash) with
        | ok f =>
          rw [hx] at h
          cases h
        | error e =>
          rw [readWith, readBlob_none _ _ hh, readWith_of_error hh hx]
          rfl
      · have hkeep : (∃ m', s.db.objects.get u.hash = some m' ∧ 0 < m'.refCount) ∨
            env.deleteFault ≠ none := by
          by_contra hc
          push Not at hc
          exact hlast ⟨hc.1 m hobj, hc.2⟩
        obtain ⟨hb, ho⟩ := hr.kept hkeep
        rw [hobj] at ho
        rw [hb, fileMetadata_congr (by rw [ho, hobj]; rfl)
          (hr.paths n hne) (hr.modTimes n hne)]
        by_cases hp : s.Holds u.hash
        · rw [bytesPut, if_neg (fun hw => hw.2.2.1 hp)]
          simp [hp]
        · have hw : s.Writes env u := ⟨hh, ha.2.1, hp, (ha.2.2.resolve_left hp).1⟩
          rw [bytesPut, if_pos hw, Function.update_self, read_same_iff hh, or_iff_right hp]
          rfl

theorem get_bytesPut_iff (hcfg : s'.cfg = s.cfg) (hdb : s'.db = s.db)
    (hb : s'.bytes = s.bytesPut env u) (n : Bytes) :
    (s'.get n).1 = (s.get n).1 ↔
      (s.Writes env u → s.getHashForName n = .ok u.hash → s.BytesUnseen u) := by
  have hname : s'.getHashForName n = s.getHashForName n := by
    unfold getHashForName
    rw [hdb]
  cases hvis : s.getHashForName n with
  | error e =>
    rw [get_hidden s hvis, get_hidden s' (hname.trans hvis)]
    simp
  | ok h =>
    rw [get_visible s hvis, get_visible s' (hname.trans hvis), hcfg, hdb, hb]
    by_cases hw : s.Writes env u
    · rcases eq_or_ne h u.hash with rfl | hother
      · rw [bytesPut, if_pos hw, Function.update_self]
        simp only [hw, forall_const]
        exact read_same_iff hw.1 _ _ s.db n
      · rw [bytesPut_ne s env hother]
        simp [hother]
    · rw [bytesPut, if_neg hw]
      simp [hw]

/-- CORRECT: a failed upload changes no read exactly when it is harmless. -/
theorem getFile_error_reads (s : CASStore β) (env : UploadEnv) (u : Upload) {e : Err}
    (h : (s.getFile env u).1 = .error e) :
    (∀ n, ((s.getFile env u).2.get n).1 = (s.get n).1) ↔ s.Harmless env u := by
  unfold Harmless
  rcases getFile_error_cases h with ⟨ha, hm, hr⟩ | ⟨hna, hcfg, hdb, hb⟩
  · rw [if_pos ⟨ha, hm⟩]
    obtain ⟨e', hhid⟩ := hr.hidden
    constructor
    · intro hall
      refine ⟨(hall u.name).symm.trans (get_hidden _ hhid), ?_⟩
      rintro ⟨n, hne, hvis⟩
      exact (hr.get_iff ha hne).mp (hall n) hvis
    · rintro ⟨hname, hothers⟩ n
      rcases eq_or_ne n u.name with rfl | hne
      · rw [get_hidden _ hhid, hname]
      · exact (hr.get_iff ha hne).mpr (fun hvis => hothers ⟨n, hne, hvis⟩)
  · rw [if_neg hna]
    constructor
    · rintro hall hw ⟨n, hvis⟩
      exact (get_bytesPut_iff hcfg hdb hb n).mp (hall n) hw hvis
    · intro hc n
      exact (get_bytesPut_iff hcfg hdb hb n).mpr (fun hw hvis => hc hw ⟨n, hvis⟩)

end Effects

/-! ### Concrete uploads -/

section Runs

local instance uploadSha : Sha256 := sampleSha

def dishonest (name : Bytes) : Upload :=
  { name := name, hash := hashBytes [98], size := 1, content := ⟨[97], none⟩ }

/-- A store that holds `a` under the name `n`. -/
def storeOfA : CASStore LocalBlobStore :=
  (CASStore.put { blobs := {} } none 1 [110] (hashBytes [97]) 1 [] (some ⟨[97], none⟩)).2

theorem getFile_dishonest_new_name :
    (storeOfA.getFile {} (dishonest [120])).1 =
      .error (.wrap "file hash mismatch: expected %s, got %s: %w"
        [.str (hashBytes [98]), .str (hashBytes [97])] (.sys .ebadmsg)) ∧
    ∀ n, ((storeOfA.getFile {} (dishonest [120])).2.get n).1 = (storeOfA.get n).1 := by
  have herr : (storeOfA.getFile {} (dishonest [120])).1 =
      .error (.wrap "file hash mismatch: expected %s, got %s: %w"
        [.str (hashBytes [98]), .str (hashBytes [97])] (.sys .ebadmsg)) := by decide +kernel
  refine ⟨herr, (getFile_error_reads storeOfA {} (dishonest [120]) herr).mpr ?_⟩
  rw [Harmless, if_pos (by decide +kernel)]
  refine ⟨by decide +kernel, ?_⟩
  rintro ⟨n, -, hvis⟩
  -- the only name of the store is on the other hash
  have hns : storeOfA.db.ns.map.entries = [([110], hashBytes [97])] := by decide +kernel
  have hmem := (OMap.mem_entries storeOfA.db.ns.map).mpr (getHashForName_eq_ok.mp hvis).2
  rw [hns, List.mem_singleton, Prod.mk.injEq] at hmem
  exact absurd hmem.2 (by decide +kernel)

/-- Under the name of the stored object it takes that object away. -/
theorem getFile_dishonest_old_name :
    (storeOfA.get [110]).1 = .ok (⟨⟨[97], none⟩, some (hashBytes [97])⟩,
      ⟨[110], hashBytes [97], 1, [], 1⟩) ∧
    (storeOfA.getFile {} (dishonest [110])).1 =
      .error (.wrap "file hash mismatch: expected %s, got %s: %w"
        [.str (hashBytes [98]), .str (hashBytes [97])] (.sys .ebadmsg)) ∧
    ((storeOfA.getFile {} (dishonest [110])).2.get [110]).1 = .error (.sys .enoent) := by
  decide +kernel

end Runs

end Momo.CASStore
