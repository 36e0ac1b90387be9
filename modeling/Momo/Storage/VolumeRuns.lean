import Momo.Storage.Volume

/-! @momo src/storage/volume_blobstore.go | scheme:invariant over runs

    What the volume store promises: a blob that was put and not deleted since reads back its
    payload, across rolls and reopens. The promise is kept as long as every needle is written where
    its offset says: the file position of the active volume has to be its recorded size. A volume
    created by this process starts that way and every append keeps it so, but a volume opened from
    disk starts at position zero with the size of its file, so the first append after a reopen goes
    over the oldest needles while its recorded offset points past the end of the file. -/

namespace Momo.VolumeBlobStore

/-- One call; a reopen is `Close` followed by `NewVolumeBlobStore`. -/
inductive Op
  | put (hash : Bytes) (content : Reader)
  | get (hash : Bytes)
  | delete (hash : Bytes)
  | reopen

/-- The store together with the payload each hash was last successfully put with and not
    successfully deleted since. -/
structure Traced where
  store : VolumeBlobStore
  live : Bytes → Option Bytes

def step [Sha256] (t : Traced) : Op → Traced
  | .put hash content =>
    match t.store.putBlob hash content with
    | (.ok payload, s) => ⟨s, Function.update t.live hash (some payload)⟩
    | (.error _, s) => ⟨s, t.live⟩
  | .get _ => t
  | .delete hash =>
    match t.store.deleteBlob hash with
    | (.ok _, s) => ⟨s, Function.update t.live hash none⟩
    | (.error _, s) => ⟨s, t.live⟩
  | .reopen => ⟨t.store.reopen, t.live⟩

structure Placed (s : VolumeBlobStore) (h : Bytes) (m : NeedleMetadata) (p : Bytes) : Prop where
  hash : decodeContentHash h = .ok m.hash
  hashLen : m.hash.length = 32
  size : m.size = alignTo8 p.length
  lenBound : p.length < 2 ^ 32
  frame : ∃ data, s.files.get m.volumeID = some data ∧ HasAt data m.offset (needleFrame m.hash p 0)

/-- The invariant: volumes `1 … counter` exist, all but the last are sealed, the last is active with
    its recorded size, and the live needles are placed and apart from each other. -/
structure Inv (s : VolumeBlobStore) (live : Bytes → Option Bytes) : Prop where
  counterPos : 1 ≤ s.volumeIDCounter
  counterBound : s.volumeIDCounter + 1 < 2 ^ 32
  active : ∃ data pos, s.files.get s.volumeIDCounter = some data ∧
    s.activeVolume = some ⟨s.volumeIDCounter, data.length, pos, false⟩
  sealedIds : ∀ id, (s.sealedVolumes.get id).isSome ↔ 1 ≤ id ∧ id < s.volumeIDCounter
  sealedFiles : ∀ id vf, s.sealedVolumes.get id = some vf → vf.volumeID = id ∧ vf.isSealed = true
  fileIds : ∀ id, (s.files.get id).isSome ↔ 1 ≤ id ∧ id ≤ s.volumeIDCounter
  flags : ∀ id, 1 ≤ id → id ≤ s.volumeIDCounter →
    s.volumes.get id = some (decide (id < s.volumeIDCounter))
  dead : ∀ h, live h = none → s.needles.get h = none
  placed : ∀ h p, live h = some p → ∃ m, s.needles.get h = some m ∧ Placed s h m p
  apart : ∀ h h' m m', s.needles.get h = some m → s.needles.get h' = some m' → h ≠ h' →
    m.volumeID = m'.volumeID →
    Disjoint2 m.offset (needleOverhead + m.size) m'.offset (needleOverhead + m'.size)

variable {h : Bytes}

theorem decodeContentHash_length {d : Bytes} (hd : decodeContentHash h = .ok d) :
    d.length = 32 := by
  unfold decodeContentHash at hd
  split_ifs at hd
  split at hd
  · cases hd
  · split_ifs at hd with hlen
    obtain rfl := Except.ok.inj hd
    simpa using hlen

variable {s : VolumeBlobStore}

theorem Placed.end_le {p data : Bytes} {m : NeedleMetadata} (hp : Placed s h m p)
    (hdata : s.files.get m.volumeID = some data) :
    m.offset + (needleOverhead + m.size) ≤ data.length := by
  obtain ⟨data', hdata', hat⟩ := hp.frame
  obtain rfl : data = data' := Option.some.inj (hdata ▸ hdata')
  have hne : needleFrame m.hash p 0 ≠ [] := by
    intro hc
    have := congrArg List.length hc
    rw [length_needleFrame hp.hashLen] at this
    simp [needleOverhead] at this
  have := hat.le_length hne
  rw [length_needleFrame hp.hashLen, ← hp.size] at this
  exact this

variable {live : Bytes → Option Bytes}

theorem Inv.getBlob (hi : Inv s live) {p : Bytes} (hl : live h = some p) : s.getBlob h = .ok p := by
  obtain ⟨m, hm, hp⟩ := hi.placed h p hl
  obtain ⟨data, hdata, hat⟩ := hp.frame
  have hread := readNeedle_frame hp.hashLen hp.lenBound hat
  -- the needle's volume is open: it is the active one or a sealed one
  obtain ⟨vf, hopen, hid⟩ : ∃ vf, s.openVolume "VolumeBlobStore.GetBlob" m.volumeID = .ok vf ∧
      vf.volumeID = m.volumeID := by
    obtain ⟨adata, pos, -, hact⟩ := hi.active
    unfold openVolume
    rw [hact]
    by_cases hc : m.volumeID = s.volumeIDCounter
    · exact ⟨_, if_pos hc, hc.symm⟩
    · have hin := (hi.fileIds m.volumeID).mp (by rw [hdata]; rfl)
      obtain ⟨vf, hvf⟩ := Option.isSome_iff_exists.mp ((hi.sealedIds m.volumeID).mpr
        ⟨hin.1, lt_of_le_of_ne hin.2 hc⟩)
      exact ⟨vf, by simp only [if_neg hc, hvf], (hi.sealedFiles _ vf hvf).1⟩
  simp only [VolumeBlobStore.getBlob, hp.hash, hm, hopen, hid, hdata, hread, bind, Except.bind,
    Option.getD_some, Except.mapError, if_true]

/-! ### Append -/

variable {hash : Bytes}

theorem inv_append (hi : Inv s live) {vf : VolumeFile} {digest payload : Bytes}
    (hact : s.activeVolume = some vf) (hpos : vf.pos = vf.size)
    (hd : decodeContentHash hash = .ok digest) (hlen : payload.length < 2 ^ 32) :
    Inv (s.appendNeedle vf hash digest payload) (Function.update live hash (some payload)) := by
  obtain ⟨data, pos, hdata, hact'⟩ := hi.active
  obtain rfl : vf = ⟨s.volumeIDCounter, data.length, pos, false⟩ := Option.some.inj (hact ▸ hact')
  obtain rfl : pos = data.length := hpos
  have hd32 := decodeContentHash_length hd
  set frame := needleFrame digest payload 0 with hframe
  have hflen : frame.length = needleOverhead + alignTo8 payload.length :=
    length_needleFrame hd32 payload 0
  have happ : s.appendNeedle ⟨s.volumeIDCounter, data.length, data.length, false⟩ hash digest
      payload = { s with
        files := s.files.put s.volumeIDCounter (writeAt 0 data data.length frame)
        activeVolume := some ⟨s.volumeIDCounter,
          data.length + (needleOverhead + alignTo8 payload.length), data.length + frame.length, false⟩
        needles := s.needles.put hash
          ⟨digest, s.volumeIDCounter, data.length, alignTo8 payload.length⟩ } := by
    simp only [appendNeedle, writeNeedle, hdata, Option.getD_some, ← hframe]
  rw [happ]
  -- a needle placed before stays placed
  have hkeep : ∀ h p m, s.needles.get h = some m → Placed s h m p →
      Placed { s with files := s.files.put s.volumeIDCounter (writeAt 0 data data.length frame) }
        h m p := by
    rintro h p m - ⟨h1, h2, h3, h4, d, hdm, hat⟩
    refine ⟨h1, h2, h3, h4, ?_⟩
    by_cases hv : m.volumeID = s.volumeIDCounter
    · obtain rfl : d = data := Option.some.inj (by rw [← hdm, hv, hdata])
      refine ⟨_, by rw [hv]; exact OMap.get_put_self .., hat.writeAt 0 (Or.inl ?_)⟩
      have hend := Placed.end_le ⟨h1, h2, h3, h4, d, hdm, hat⟩ hdm
      rw [length_needleFrame h2, ← h3]
      exact hend
    · exact ⟨d, by rw [← hdm]; exact OMap.get_put_ne _ _ hv, hat⟩
  refine ⟨hi.counterPos, hi.counterBound, ?_, hi.sealedIds, hi.sealedFiles, ?_, hi.flags, ?_, ?_, ?_⟩
  · refine ⟨_, data.length + frame.length, OMap.get_put_self .., ?_⟩
    rw [length_writeAt, Nat.max_eq_right (by omega), hflen]
  · intro id
    rw [← hi.fileIds id, OMap.get_put]
    split_ifs with hid
    · subst hid; simp [hdata]
    · rfl
  · intro h hl
    by_cases hh : h = hash
    · subst hh; simp at hl
    · rw [Function.update_of_ne hh] at hl
      rw [OMap.get_put_ne _ _ hh]
      exact hi.dead h hl
  · intro h p hl
    by_cases hh : h = hash
    · subst hh
      rw [Function.update_self] at hl
      obtain rfl := Option.some.inj hl
      refine ⟨_, OMap.get_put_self .., hd, hd32, rfl, hlen, _, OMap.get_put_self .., ?_⟩
      exact hasAt_writeAt 0 data data.length frame
    · rw [Function.update_of_ne hh] at hl
      obtain ⟨m, hm, hp⟩ := hi.placed h p hl
      refine ⟨m, by rw [OMap.get_put_ne _ _ hh]; exact hm, ?_⟩
      obtain ⟨h1, h2, h3, h4, h5⟩ := hkeep h p m hm hp
      exact ⟨h1, h2, h3, h4, h5⟩
  · -- apart: an older needle of the active volume ends at or before the new one starts
    have hold : ∀ h m, s.needles.get h = some m → m.volumeID = s.volumeIDCounter →
        m.offset + (needleOverhead + m.size) ≤ data.length := by
      intro h m hm hv
      cases hl : live h with
      | none => rw [hi.dead h hl] at hm; cases hm
      | some p =>
        obtain ⟨m', hm', hp⟩ := hi.placed h p hl
        obtain rfl : m = m' := Option.some.inj (hm ▸ hm')
        exact hp.end_le (by rw [hv, hdata])
    intro h h' m m' hm hm' hne hv
    simp only at hm hm'
    rw [OMap.get_put] at hm hm'
    split_ifs at hm hm' with h1 h2 h2
    · exact absurd (h1.trans h2.symm) hne
    · obtain rfl := Option.some.inj hm
      exact Or.inr (hold h' m' hm' hv.symm)
    · obtain rfl := Option.some.inj hm'
      exact Or.inl (hold h m hm hv)
    · exact hi.apart h h' m m' hm hm' hne hv

/-! ### Roll -/

theorem inv_seal (hi : Inv s live) (hroll : s.volumeIDCounter + 2 < 2 ^ 32) :
    Inv s.sealCurrentVolume live ∧
      s.sealCurrentVolume.activeVolume = some ⟨s.volumeIDCounter + 1, 0, 0, false⟩ ∧
      s.sealCurrentVolume.volumeSize = s.volumeSize := by
  obtain ⟨data, pos, hdata, hact⟩ := hi.active
  have hflag := hi.flags s.volumeIDCounter hi.counterPos le_rfl
  have hmod : (s.volumeIDCounter + 1) % 2 ^ 32 = s.volumeIDCounter + 1 :=
    Nat.mod_eq_of_lt (by omega)
  have hnew : s.files.get (s.volumeIDCounter + 1) = none := by
    by_contra hc
    have := (hi.fileIds (s.volumeIDCounter + 1)).mp (Option.isSome_iff_ne_none.mpr hc)
    omega
  have hseal : s.sealCurrentVolume = { s with
      volumeIDCounter := s.volumeIDCounter + 1
      files := s.files.put (s.volumeIDCounter + 1) []
      volumes := (s.volumes.put s.volumeIDCounter true).put (s.volumeIDCounter + 1) false
      activeVolume := some ⟨s.volumeIDCounter + 1, 0, 0, false⟩
      sealedVolumes := s.sealedVolumes.put s.volumeIDCounter
        ⟨s.volumeIDCounter, data.length, pos, true⟩ } := by
    simp only [sealCurrentVolume, hact, createNewVolume, hmod, hflag, hnew, Option.isSome_some,
      Option.getD_none, if_true, Bool.false_eq_true, if_false]
  rw [hseal]
  have hplaced : ∀ h p m, Placed s h m p →
      Placed { s with files := s.files.put (s.volumeIDCounter + 1) [] } h m p := by
    rintro h p m ⟨h1, h2, h3, h4, d, hdm, hat⟩
    have hv : m.volumeID ≠ s.volumeIDCounter + 1 := by
      intro hv
      rw [hv, hnew] at hdm
      cases hdm
    exact ⟨h1, h2, h3, h4, d, by rw [← hdm]; exact OMap.get_put_ne _ _ hv, hat⟩
  refine ⟨⟨?_, ?_, ⟨[], 0, OMap.get_put_self .., rfl⟩, ?_, ?_, ?_, ?_, hi.dead, ?_, hi.apart⟩, rfl, rfl⟩
  · simp only; omega
  · simp only; omega
  · intro id
    simp only
    rw [OMap.get_put]
    split_ifs with hid
    · subst hid
      simp only [Option.isSome_some, true_iff]
      have := hi.counterPos
      omega
    · rw [hi.sealedIds id]
      omega
  · intro id vf hvf
    simp only at hvf
    rw [OMap.get_put] at hvf
    split_ifs at hvf with hid
    · obtain rfl := Option.some.inj hvf
      exact ⟨hid.symm, rfl⟩
    · exact hi.sealedFiles id vf hvf
  · intro id
    simp only
    rw [OMap.get_put]
    split_ifs with hid
    · subst hid; simp
    · rw [hi.fileIds id]
      omega
  · intro id h1 h2
    simp only at h2 ⊢
    rw [OMap.get_put, OMap.get_put]
    split_ifs with hid hid'
    · subst hid; simp
    · subst hid'; simp
    · rw [hi.flags id h1 (by omega)]
      simp only [Option.some.injEq, decide_eq_decide]
      omega
  · intro h p hl
    obtain ⟨m, hm, hp⟩ := hi.placed h p hl
    obtain ⟨h1, h2, h3, h4, h5⟩ := hplaced h p m hp
    exact ⟨m, hm, h1, h2, h3, h4, h5⟩

/-! ### Delete -/

theorem alignTo8_idem (n : Nat) : alignTo8 (alignTo8 n) = alignTo8 n := by
  unfold alignTo8; omega

variable {s' : VolumeBlobStore}

theorem inv_delete (hi : Inv s live) (hdel : s.deleteBlob hash = (.ok (), s')) :
    Inv s' (Function.update live hash none) := by
  obtain ⟨data, pos, hdata, hact⟩ := hi.active
  unfold deleteBlob at hdel
  split at hdel
  · cases (Prod.mk.inj hdel).1
  · cases (Prod.mk.inj hdel).1
  rename_i digest m hd hm
  -- the volume is open and not sealed, so it is the active one
  have hv : m.volumeID = s.volumeIDCounter ∧ s' = { s with
      files := s.files.put s.volumeIDCounter
        (punch 0 data m.offset (needleOverhead + alignTo8 m.size))
      needles := s.needles.del hash } := by
    unfold openVolume at hdel
    simp only [hact] at hdel
    by_cases hc : m.volumeID = s.volumeIDCounter
    · simp only [if_pos hc, hdata, Option.getD_some, Bool.false_eq_true, if_false] at hdel
      exact ⟨hc, by rw [hact]; exact (Prod.mk.inj hdel).2.symm⟩
    · simp only [if_neg hc] at hdel
      cases hsv : s.sealedVolumes.get m.volumeID with
      | none => simp [hsv] at hdel
      | some vf => simp [hsv, (hi.sealedFiles _ vf hsv).2] at hdel
  obtain ⟨hv, rfl⟩ := hv
  -- the punched range is the needle's own
  have hsize : alignTo8 m.size = m.size := by
    cases hl : live hash with
    | none => rw [hi.dead hash hl] at hm; cases hm
    | some p =>
      obtain ⟨m', hm', hp⟩ := hi.placed hash p hl
      obtain rfl : m = m' := Option.some.inj (hm ▸ hm')
      rw [hp.size, alignTo8_idem]
  rw [hsize]
  refine ⟨hi.counterPos, hi.counterBound, ⟨_, pos, OMap.get_put_self .., ?_⟩, hi.sealedIds,
    hi.sealedFiles, ?_, hi.flags, ?_, ?_, ?_⟩
  · rw [length_punch]; exact hact
  · intro id
    rw [← hi.fileIds id, OMap.get_put]
    split_ifs with hid
    · subst hid; simp [hdata]
    · rfl
  · intro h hl
    simp only
    rw [OMap.get_del]
    split_ifs with hh
    · rfl
    · rw [Function.update_of_ne hh] at hl
      exact hi.dead h hl
  · intro h p hl
    by_cases hh : h = hash
    · subst hh; simp at hl
    rw [Function.update_of_ne hh] at hl
    obtain ⟨m', hm', hp⟩ := hi.placed h p hl
    refine ⟨m', by simp only; rw [OMap.get_del_ne _ hh]; exact hm', hp.hash, hp.hashLen, hp.size,
      hp.lenBound, ?_⟩
    obtain ⟨d, hdm, hat⟩ := hp.frame
    by_cases hv' : m'.volumeID = s.volumeIDCounter
    · obtain rfl : d = data := Option.some.inj (by rw [← hdm, hv', hdata])
      refine ⟨_, by rw [hv']; exact OMap.get_put_self .., hat.punch 0 ?_⟩
      rw [length_needleFrame hp.hashLen, ← hp.size]
      exact hi.apart h hash m' m hm' hm hh (hv'.trans hv.symm)
    · exact ⟨d, by rw [← hdm]; exact OMap.get_put_ne _ _ hv', hat⟩
  · intro h h' m1 m2 h1 h2 hne hv12
    exact hi.apart h h' m1 m2 (OMap.get_of_get_del h1) (OMap.get_of_get_del h2) hne hv12

/-! ### Reopen -/

variable {n : Nat}

theorem maxVolumeID_eq (hf : ∀ id, (s.files.get id).isSome ↔ 1 ≤ id ∧ id ≤ n) (hn : 1 ≤ n) :
    s.maxVolumeID = n := by
  apply le_antisymm
  · exact OMap.maxOver_le (fun id data hd => ((hf id).mp (by rw [hd]; rfl)).2)
  · obtain ⟨data, hd⟩ := Option.isSome_iff_exists.mp ((hf n).mpr ⟨hn, le_rfl⟩)
    exact OMap.le_maxOver (fun id _ => id) hd

theorem restore_loop {data : Bytes} (hf : ∀ id, (s.files.get id).isSome ↔ 1 ≤ id ∧ id ≤ n)
    (hdata : s.files.get n = some data)
    (hfl : ∀ id, 1 ≤ id → id ≤ n → s.volumes.get id = some (decide (id < n)))
    (hact : s.activeVolume = none) (hseal : s.sealedVolumes = OMap.empty) : ∀ k, k ≤ n →
    ∃ sv, (List.range' 1 k).foldl restoreVolume s = { s with
        sealedVolumes := sv
        activeVolume := if k = n ∧ 0 < k then some ⟨n, data.length, 0, false⟩ else none } ∧
      (∀ id, (sv.get id).isSome ↔ 1 ≤ id ∧ id < n ∧ id ≤ k) ∧
      ∀ id vf, sv.get id = some vf → vf.volumeID = id ∧ vf.isSealed = true
  | 0, _ => ⟨OMap.empty, by simp [← hact, ← hseal], by simp; omega, by simp⟩
  | k + 1, hk => by
      obtain ⟨sv, hfold, hids, hvf⟩ := restore_loop hf hdata hfl hact hseal k (by omega)
      rw [List.range'_1_concat, List.foldl_append, hfold, List.foldl_cons, List.foldl_nil,
        Nat.add_comm 1 k]
      have hflag := hfl (k + 1) (by omega) hk
      by_cases hlast : k + 1 = n
      · -- the last volume: not sealed
        refine ⟨sv, ?_, ?_, hvf⟩
        · subst hlast
          simp [restoreVolume, openExistingVolume, hdata, hflag]
        · intro id; rw [hids id]; omega
      · obtain ⟨d, hd⟩ := Option.isSome_iff_exists.mp ((hf (k + 1)).mpr ⟨by omega, hk⟩)
        have hlt : k + 1 < n := by omega
        refine ⟨sv.put (k + 1) ⟨k + 1, d.length, 0, true⟩, ?_, ?_, ?_⟩
        · have hk' : ¬ (k = n ∧ 0 < k) := by omega
          simp [restoreVolume, openExistingVolume, hd, hflag, hlt, hk', hlast]
        · intro id
          rw [OMap.get_put]
          split_ifs with hid
          · subst hid; simp; omega
          · rw [hids id]; omega
        · intro id vf hget
          rw [OMap.get_put] at hget
          split_ifs at hget with hid
          · obtain rfl := Option.some.inj hget
            exact ⟨hid.symm, rfl⟩
          · exact hvf id vf hget

theorem inv_reopen (hi : Inv s live) : Inv s.reopen live := by
  obtain ⟨data, pos, hdata, -⟩ := hi.active
  set s0 : VolumeBlobStore := { s with
    activeVolume := none, sealedVolumes := OMap.empty, volumeIDCounter := 0 } with hs0
  have hmax : s0.maxVolumeID = s.volumeIDCounter := maxVolumeID_eq hi.fileIds hi.counterPos
  obtain ⟨sv, hfold, hids, hvf⟩ := restore_loop (s := { s0 with volumeIDCounter := s.volumeIDCounter })
    hi.fileIds hdata hi.flags rfl rfl s.volumeIDCounter le_rfl
  have hre : s.reopen = { s with
      sealedVolumes := sv, activeVolume := some ⟨s.volumeIDCounter, data.length, 0, false⟩ } := by
    have hpos : s.volumeIDCounter = s.volumeIDCounter ∧ 0 < s.volumeIDCounter :=
      ⟨rfl, hi.counterPos⟩
    rw [if_pos hpos] at hfold
    rw [reopen, ← hs0, restoreVolumes]
    simp only [hmax, hfold]
    rfl
  rw [hre]
  refine { hi with
    active := ⟨data, 0, hdata, rfl⟩
    sealedIds := fun id => by simp only; rw [hids id]; omega
    sealedFiles := hvf
    placed := fun h p hl => ?_ }
  obtain ⟨m, hm, hp⟩ := hi.placed h p hl
  exact ⟨m, hm, hp.hash, hp.hashLen, hp.size, hp.lenBound, hp.frame⟩

/-! ### Runs -/

/-- The needle's frame lands on the offset that will be recorded for it: the active volume's file
    position is its recorded size, or the needle does not fit there and goes to a new volume (whose
    id must not be the last `uint32`, which the restore loop cannot pass). The payload length fits
    the 32-bit length field. -/
def PutLands (t : Traced) : Op → Prop
  | .put _ content =>
    content.data.length < 2 ^ 32 ∧
    ∀ vf ∈ t.store.activeVolume,
      (vf.size + (needleOverhead + alignTo8 content.data.length) ≤ t.store.volumeSize →
        vf.pos = vf.size) ∧
      (t.store.volumeSize < vf.size + (needleOverhead + alignTo8 content.data.length) →
        t.store.volumeIDCounter + 2 < 2 ^ 32)
  | _ => True

instance (t : Traced) (o : Op) : Decidable (PutLands t o) := by
  cases o <;> unfold PutLands <;> infer_instance

theorem readVerifiedPayload_ok [Sha256] {digest payload : Bytes} {r : Reader}
    (h : readVerifiedPayload digest r = .ok payload) : payload = r.data := by
  unfold readVerifiedPayload at h
  split at h
  · cases h
  · split_ifs at h
    exact (Except.ok.inj h).symm

theorem inv_reserve (hi : Inv s live) {res : Except Err VolumeFile}
    (hr : s.reserveNeedleSlot n = (res, s'))
    (hfit : ∀ vf, s.activeVolume = some vf → vf.size + n ≤ s.volumeSize → vf.pos = vf.size)
    (hroll : ∀ vf, s.activeVolume = some vf → s.volumeSize < vf.size + n →
      s.volumeIDCounter + 2 < 2 ^ 32) :
    Inv s' live ∧ ∀ vf, res = .ok vf → s'.activeVolume = some vf ∧ vf.pos = vf.size := by
  obtain ⟨data, pos, hdata, hact⟩ := hi.active
  simp only [reserveNeedleSlot, hact] at hr
  split_ifs at hr with hle
  · obtain ⟨rfl, rfl⟩ := Prod.mk.inj hr
    refine ⟨hi, fun vf hvf => ?_⟩
    obtain rfl := Except.ok.inj hvf
    exact ⟨hact, hfit _ hact hle⟩
  · obtain ⟨hi', hact', hvs⟩ := inv_seal hi (hroll _ hact (not_le.mp hle))
    simp only [hact'] at hr
    split_ifs at hr with hfull
    · obtain ⟨rfl, rfl⟩ := Prod.mk.inj hr
      exact ⟨hi', fun vf hvf => by cases hvf⟩
    · obtain ⟨rfl, rfl⟩ := Prod.mk.inj hr
      refine ⟨hi', fun vf hvf => ?_⟩
      obtain rfl := Except.ok.inj hvf
      exact ⟨hact', rfl⟩

theorem inv_putBlob [Sha256] (hi : Inv s live) {content : Reader} {res : Except Err Bytes}
    (ho : PutLands ⟨s, live⟩ (.put hash content)) (hput : s.putBlob hash content = (res, s')) :
    (∀ e, res = .error e → Inv s' live) ∧
      ∀ p, res = .ok p → Inv s' (Function.update live hash (some p)) := by
  obtain ⟨hlen, hlands⟩ := ho
  unfold putBlob at hput
  split at hput
  · obtain ⟨rfl, rfl⟩ := Prod.mk.inj hput
    exact ⟨fun _ _ => hi, fun _ h => by cases h⟩
  rename_i digest hd
  split at hput
  · obtain ⟨rfl, rfl⟩ := Prod.mk.inj hput
    exact ⟨fun _ _ => hi, fun _ h => by cases h⟩
  rename_i payload hv
  obtain rfl := readVerifiedPayload_ok hv
  split at hput
  · rename_i e s1 hr
    obtain ⟨rfl, rfl⟩ := Prod.mk.inj hput
    have hres := inv_reserve hi hr (fun vf h => (hlands vf h).1) (fun vf h => (hlands vf h).2)
    exact ⟨fun _ _ => hres.1, fun _ h => by cases h⟩
  · rename_i vf s1 hr
    obtain ⟨rfl, rfl⟩ := Prod.mk.inj hput
    obtain ⟨hi', hvf⟩ := inv_reserve hi hr (fun vf h => (hlands vf h).1)
      (fun vf h => (hlands vf h).2)
    refine ⟨fun _ h => (by cases h), fun p h => ?_⟩
    obtain rfl := Except.ok.inj h
    exact inv_append hi' (hvf vf rfl).1 (hvf vf rfl).2 hd hlen

theorem deleteBlob_error {e : Err} (h : s.deleteBlob hash = (.error e, s')) : s' = s := by
  unfold deleteBlob at h
  split at h
  · exact (Prod.mk.inj h).2.symm
  · exact (Prod.mk.inj h).2.symm
  · split at h
    · exact (Prod.mk.inj h).2.symm
    · split_ifs at h
      · exact (Prod.mk.inj h).2.symm
      · cases (Prod.mk.inj h).1

theorem inv_step [Sha256] {t : Traced} (o : Op) (hi : Inv t.store t.live) (ho : PutLands t o) :
    Inv (step t o).store (step t o).live := by
  cases o with
  | put hash content =>
    obtain ⟨⟨res, s'⟩, hput⟩ : ∃ r, t.store.putBlob hash content = r := ⟨_, rfl⟩
    obtain ⟨herr, hok⟩ := inv_putBlob hi ho hput
    simp only [step, hput]
    cases res with
    | error e => exact herr e rfl
    | ok p => exact hok p rfl
  | get hash => exact hi
  | delete hash =>
    obtain ⟨⟨res, s'⟩, hdel⟩ : ∃ r, t.store.deleteBlob hash = r := ⟨_, rfl⟩
    simp only [step, hdel]
    cases res with
    | error e => exact deleteBlob_error hdel ▸ hi
    | ok u => exact inv_delete hi hdel
  | reopen => exact inv_reopen hi

theorem inv_new {volumeSize : Int} (h : newVolumeBlobStore volumeSize = .ok s) :
    Inv s (fun _ => none) := by
  have hnew : ∀ n, restoreVolumes { volumeSize := n } =
      { volumeSize := n, files := OMap.empty.put 1 [], volumes := OMap.empty.put 1 false,
        activeVolume := some ⟨1, 0, 0, false⟩, volumeIDCounter := 1 } := fun n => rfl
  simp only [newVolumeBlobStore, hnew] at h
  split_ifs at h
  all_goals
    obtain rfl := Except.ok.inj h
    refine ⟨le_rfl, by simp only; omega, ⟨[], 0, rfl, rfl⟩, ?_, ?_, ?_, ?_, fun _ _ => rfl, ?_, ?_⟩
    · intro id; simp only [OMap.get_empty, Option.isSome_none]; simp; omega
    · intro id vf hvf; cases hvf
    · intro id
      simp only
      rw [OMap.get_put]
      split_ifs with hid
      · subst hid; simp
      · simp; omega
    · intro id h1 h2
      obtain rfl : id = 1 := le_antisymm h2 h1
      rfl
    · intro h p hl; cases hl
    · intro h h' m m' hm; cases hm

def start (s : VolumeBlobStore) : Traced := ⟨s, fun _ => none⟩

/-- CORRECT: from a new store of any volume size, in every run whose puts land, every live blob
    reads back its payload. -/
theorem getBlob_after_run [Sha256] {volumeSize : Int} {s : VolumeBlobStore}
    (h : newVolumeBlobStore volumeSize = .ok s) {ops : List Op}
    (hg : Guarded step PutLands (start s) ops) {hash payload : Bytes}
    (hl : (run step (start s) ops).live hash = some payload) :
    (run step (start s) ops).store.getBlob hash = .ok payload := by
  have hinv : Inv (run step (start s) ops).store (run step (start s) ops).live :=
    run_invariant (fun t => Inv t.store t.live) (fun t o hi ho => inv_step o hi ho) (inv_new h) hg
  exact hinv.getBlob hl

/-- INVARIANT: in every run whose puts land, the needle of each live blob stands at its recorded
    offset with its own size, no two needles of a volume overlap, and no other hash has one. -/
theorem needles_after_run [Sha256] {volumeSize : Int} {s : VolumeBlobStore}
    (h : newVolumeBlobStore volumeSize = .ok s) {ops : List Op}
    (hg : Guarded step PutLands (start s) ops) :
    let t := run step (start s) ops
    (∀ hash, t.live hash = none → t.store.needles.get hash = none) ∧
    (∀ hash payload, t.live hash = some payload → ∃ m data, t.store.needles.get hash = some m ∧
      m.size = alignTo8 payload.length ∧ t.store.files.get m.volumeID = some data ∧
      HasAt data m.offset (needleFrame m.hash payload 0)) ∧
    ∀ h h' m m', t.store.needles.get h = some m → t.store.needles.get h' = some m' → h ≠ h' →
      m.volumeID = m'.volumeID →
        Disjoint2 m.offset (needleOverhead + m.size) m'.offset (needleOverhead + m'.size) := by
  intro t
  have hinv : Inv t.store t.live :=
    run_invariant (fun t => Inv t.store t.live) (fun t o hi ho => inv_step o hi ho) (inv_new h) hg
  refine ⟨hinv.dead, fun hash payload hl => ?_, hinv.apart⟩
  obtain ⟨m, hm, hp⟩ := hinv.placed hash payload hl
  obtain ⟨data, hdata, hat⟩ := hp.frame
  exact ⟨m, data, hm, hp.size, hdata, hat⟩

/-! ### Concrete runs -/

section Runs

local instance : Sha256 := sampleSha

def smallStore : VolumeBlobStore := restoreVolumes { volumeSize := 100 }

def rolledOps : List Op :=
  [.put (hashBytes [97]) ⟨[97], none⟩, .reopen, .put (hashBytes [98]) ⟨[98], none⟩,
    .delete (hashBytes [98]), .reopen, .get (hashBytes [97])]

theorem getBlob_after_rolledOps :
    newVolumeBlobStore 100 = .ok smallStore ∧ Guarded step PutLands (start smallStore) rolledOps ∧
    (run step (start smallStore) rolledOps).live (hashBytes [97]) = some [97] ∧
    (run step (start smallStore) rolledOps).store.getBlob (hashBytes [97]) = .ok [97] := by
  have hnew : newVolumeBlobStore 100 = .ok smallStore := rfl
  have hg : Guarded step PutLands (start smallStore) rolledOps := by decide +kernel
  have hl : (run step (start smallStore) rolledOps).live (hashBytes [97]) = some [97] := by
    decide +kernel
  exact ⟨hnew, hg, hl, getBlob_after_run hnew hg hl⟩

theorem needles_after_rolledOps : Guarded step PutLands (start smallStore) rolledOps ∧
    (run step (start smallStore) rolledOps).store.needles.get (hashBytes [98]) = none := by
  have hg : Guarded step PutLands (start smallStore) rolledOps := by decide +kernel
  have hnew : newVolumeBlobStore 100 = .ok smallStore := rfl
  have hl : (run step (start smallStore) rolledOps).live (hashBytes [98]) = none := by
    decide +kernel
  exact ⟨hg, (needles_after_run hnew hg).1 _ hl⟩

def defaultStore : VolumeBlobStore := restoreVolumes { volumeSize := defaultVolumeSizeBytes }

def reopenedRun : Traced :=
  run step (start defaultStore)
    [.put (hashBytes [97]) ⟨[97], none⟩, .reopen, .put (hashBytes [98]) ⟨[98], none⟩]

/-- The second needle is written over the first and recorded past the end of the file, and neither
    blob can be read any more. -/
theorem getBlob_after_reopen_put :
    newVolumeBlobStore 0 = .ok defaultStore ∧
    reopenedRun.live (hashBytes [97]) = some [97] ∧
    reopenedRun.store.getBlob (hashBytes [97]) = .error (.text "hash mismatch in volume") ∧
    reopenedRun.live (hashBytes [98]) = some [98] ∧
    reopenedRun.store.getBlob (hashBytes [98]) =
      .error (.wrap "failed to read needle: %w" [] (.text "EOF")) := by
  refine ⟨rfl, ?_⟩
  decide +kernel

end Runs

end Momo.VolumeBlobStore
