import Momo.Storage.Assembly
import Momo.Storage.VolumeRuns
import Momo.Storage.CASSpec

/-! @momo src/storage/factory.go, src/storage/encrypted_blobstore.go,
    src/storage/volume_blobstore.go, src/storage/adaptive_blobstore.go, src/storage/storage.go
    scheme:write then read, one specification per back end

    Does every store `buildCAS` puts together give back what was put? Each back end gets one
    equivalence for "put, then get" (`Stores`), in terms of the number of bytes it is handed and of
    whether these bytes hash to the key they are put under. The decorator hands on more bytes than
    it got, and bytes that do not. -/

namespace Momo

def Stores {β : Type} [BlobStore β] (b : β) (h c : Bytes) (r : Reader) : Prop :=
  ∃ read b', BlobStore.putBlob b h ⟨c, none⟩ none = (.ok read, b') ∧ BlobStore.getBlob b' h = .ok r

theorem stores_of_put {β : Type} [BlobStore β] {b b' : β} {h c : Bytes} {res : Except Err Bytes}
    (hput : BlobStore.putBlob b h ⟨c, none⟩ none = (res, b')) (r : Reader) :
    Stores b h c r ↔ (∃ read, res = .ok read) ∧ BlobStore.getBlob b' h = .ok r := by
  simp only [Stores, hput, Prod.mk.injEq]
  constructor
  · rintro ⟨read, _, ⟨hres, rfl⟩, hget⟩
    exact ⟨⟨read, hres⟩, hget⟩
  · rintro ⟨⟨read, hres⟩, hget⟩
    exact ⟨read, b', ⟨hres, rfl⟩, hget⟩

theorem stores_map_iff {β : Type} [BlobStore β] [MapBackend β] (b : β) {h : Bytes}
    (hh : hasPathTraversalChars h = false) (c : Bytes) (r : Reader) :
    Stores b h c r ↔ r = ⟨c, none⟩ := by
  obtain ⟨b', hput, hview⟩ := MapBackend.putBlob_ok b h c hh
  have hget : BlobStore.getBlob b' h = .ok ⟨c, none⟩ := by
    rw [MapBackend.getBlob_eq, hview, Function.update_self]
  rw [stores_of_put hput, hget]
  simp only [Except.ok.injEq, exists_eq', true_and]
  exact eq_comm

theorem limit_fault (c : Bytes) (n : Int) : (Reader.limit ⟨c, none⟩ n).fault = none := by
  simp [Reader.limit]

theorem limit_length_le (r : Reader) (n : Int) : (r.limit n).data.length ≤ r.data.length := by
  simp [Reader.limit]

/-! ### S3 -/

namespace S3BlobStore

theorem pathClean_segment {p : Bytes} (hslash : slash ∉ p) (hne : p ≠ []) (hdot : p ≠ dot)
    (hdots : p ≠ dotDot) : pathClean p = p := by
  have hsegs : segments p = [p] := List.splitOnP_eq_singleton fun x hx => by
    have : x ≠ slash := fun h => hslash (h ▸ hx)
    simpa using this
  have hroot : p.head? ≠ some slash := fun h => hslash (List.mem_of_mem_head? h)
  simp [pathClean, hsegs, hroot, cleanStep, hne, hdot, hdots, joinSegments]

/-- Requests get through: the settings are within the limits `newRequest` has, and the URL of the
    key can be built. -/
def Reaches [NetURL] (s : S3BlobStore) (h : Bytes) : Prop :=
  s.bucket.length ≤ maxS3BucketLen ∧ s.endpoint.length ≤ maxS3KeyLen ∧
    NetURL.requestOk s.endpoint s.bucket s.pathStyle h = true

instance [NetURL] (s : S3BlobStore) (h : Bytes) : Decidable (s.Reaches h) :=
  inferInstanceAs (Decidable (_ ∧ _))

theorem newRequest_hashBytes [Sha256] [NetURL] (s : S3BlobStore) (x : Bytes) :
    (s.Reaches (hashBytes x) ∧ s.newRequest (hashBytes x) = .ok (hashBytes x)) ∨
      (¬ s.Reaches (hashBytes x) ∧ ∃ e, s.newRequest (hashBytes x) = .error e) := by
  have hlen := length_hashBytes x
  have hguard := hasPathTraversalChars_hashBytes x
  have hslash : slash ∉ hashBytes x := by
    intro hmem
    have : hasPathTraversalChars (hashBytes x) = true := by
      rw [hasPathTraversalChars, Bool.or_eq_true, List.any_eq_true]
      exact .inl ⟨slash, hmem, by decide⟩
    rw [hguard] at this
    cases this
  have hlong : ∀ p : Bytes, p.length < 64 → hashBytes x ≠ p := by
    rintro p hp rfl
    omega
  have hclean : pathClean (hashBytes x) = hashBytes x :=
    pathClean_segment hslash (hlong [] (by decide)) (hlong dot (by decide)) (hlong dotDot (by decide))
  have hsafe : ¬ (hashBytes x = dot ∨ hashBytes x = dotDot ∨ (dotDot ++ [slash]) <+: hashBytes x ∨
      [slash] <+: hashBytes x) := by
    rintro (h | h | h | h)
    · exact hlong dot (by decide) h
    · exact hlong dotDot (by decide) h
    · exact hslash (h.subset (by decide))
    · exact hslash (h.subset (by decide))
  have hkey : ¬ maxS3KeyLen < (hashBytes x).length := by rw [hlen]; decide
  unfold newRequest
  simp only [hclean, if_neg hsafe, hkey, false_or]
  by_cases hlimits : maxS3BucketLen < s.bucket.length ∨ maxS3KeyLen < s.endpoint.length
  · refine .inr ⟨fun h => ?_, _, if_pos hlimits⟩
    have := h.1
    have := h.2.1
    omega
  · rw [if_neg hlimits]
    cases hurl : NetURL.requestOk s.endpoint s.bucket s.pathStyle (hashBytes x) with
    | false =>
      refine .inr ⟨fun h => ?_, _, rfl⟩
      rw [h.2.2] at hurl
      cases hurl
    | true => exact .inl ⟨⟨by omega, by omega, hurl⟩, rfl⟩

theorem putBlob_cases [NetURL] {s s' : S3BlobStore} {h c : Bytes} {res : Except Err Bytes}
    (hput : s.putBlob h ⟨c, none⟩ = (res, s')) :
    (∃ e, res = .error e ∧ (c.length ≤ maxFileSize → ∃ e', s.newRequest h = .error e')) ∨
    (c.length ≤ maxFileSize ∧ ∃ key, s.newRequest h = .ok key ∧ res = .ok c ∧
      s' = { s with objects := s.objects.put key c }) := by
  unfold putBlob at hput
  split_ifs at hput with hbig
  · obtain ⟨rfl, -⟩ := Prod.mk.inj hput
    exact .inl ⟨_, rfl, fun hsize => absurd hbig (not_lt.mpr hsize)⟩
  simp only at hput
  split at hput
  · rename_i e he
    obtain ⟨rfl, -⟩ := Prod.mk.inj hput
    exact .inl ⟨_, rfl, fun _ => ⟨e, he⟩⟩
  · rename_i key hkey
    obtain ⟨rfl, rfl⟩ := Prod.mk.inj hput
    exact .inr ⟨not_lt.mp hbig, key, hkey, rfl, rfl⟩

theorem stores_iff [Sha256] [NetURL] (s : S3BlobStore) (x c : Bytes) (r : Reader) :
    Stores s (hashBytes x) c r ↔
      (s.Reaches (hashBytes x) ∧ c.length ≤ maxFileSize) ∧ r = ⟨c, none⟩ := by
  obtain ⟨⟨res, s'⟩, hput⟩ : ∃ p, s.putBlob (hashBytes x) ⟨c, none⟩ = p := ⟨_, rfl⟩
  rw [stores_of_put hput]
  have hreq := newRequest_hashBytes s x
  rcases putBlob_cases hput with ⟨e, rfl, hwhy⟩ | ⟨hsize, key, hkey, rfl, rfl⟩
  · simp only [reduceCtorEq, exists_false, false_and, false_iff, not_and]
    rintro ⟨hreach, hsize⟩
    obtain ⟨e', he'⟩ := hwhy hsize
    rcases hreq with ⟨-, hok⟩ | ⟨hnot, -⟩
    · rw [hok] at he'
      cases he'
    · exact absurd hreach hnot
  · rcases hreq with ⟨hreach, hok⟩ | ⟨-, e, hfail⟩
    · obtain rfl := Except.ok.inj (hkey.symm.trans hok)
      have hget : getBlob { s with objects := s.objects.put (hashBytes x) c } (hashBytes x) =
          .ok ⟨c, none⟩ := by
        have hok' : newRequest { s with objects := s.objects.put (hashBytes x) c } (hashBytes x) =
            .ok (hashBytes x) := hok
        simp only [getBlob, hok', OMap.get_put_self]
      simp only [BlobStore.getBlob, hget, hreach, hsize, Except.ok.injEq, exists_eq', true_and,
        and_self]
      exact eq_comm
    · rw [hfail] at hkey
      cases hkey

end S3BlobStore

/-! ### The raw device -/

namespace RawBlobStore

/-- A new blob of `n` bytes gets a region that can be read: it has bytes, not too many, and the
    device is not at its end. -/
def Fits (s : RawBlobStore) (n : ℕ) : Prop :=
  0 < n ∧ n ≤ maxFileSize ∧ s.nextOffset ≤ maxInt64 - maxFileSize

instance (s : RawBlobStore) (n : ℕ) : Decidable (s.Fits n) := inferInstanceAs (Decidable (_ ∧ _))

variable {h c : Bytes}

theorem putBlob_new {s s' : RawBlobStore} {res : Except Err Unit}
    (hh : hasPathTraversalChars h = false) (hk : KeyOk h) (hnew : s.alloc.get h = none)
    (hput : s.putBlob h ⟨c, none⟩ = (res, s')) :
    (∀ e, res = .error e → ¬ (c.length ≤ maxFileSize ∧ s.nextOffset ≤ maxInt64 - maxFileSize)) ∧
      (res = .ok () → s.nextOffset ≤ maxInt64 - maxFileSize) := by
  have hlen := limit_length_le ⟨c, none⟩ (maxFileSize + 1)
  have hfault := limit_fault c (maxFileSize + 1)
  unfold putBlob at hput
  rw [hh, hnew] at hput
  simp only [Bool.false_eq_true, if_false, Option.isSome_none] at hput
  by_cases hoff : maxInt64 - maxFileSize < s.nextOffset
  · rw [if_pos hoff] at hput
    obtain ⟨rfl, -⟩ := Prod.mk.inj hput
    exact ⟨fun _ _ hroom => absurd hoff (not_lt.mpr hroom.2), fun h => by cases h⟩
  rw [if_neg hoff] at hput
  refine ⟨?_, fun _ => not_lt.mp hoff⟩
  rintro e rfl ⟨hsize, hroom⟩
  split at hput
  · rename_i e' he
    rw [hfault] at he
    cases he
  rename_i hf
  by_cases hbig : maxFileSize < (Reader.limit ⟨c, none⟩ (maxFileSize + 1)).data.length
  · exact absurd (hbig.trans_le hlen) (not_lt.mpr hsize)
  rw [if_neg hbig, if_neg (by have := not_lt.mp hbig; omega), Bucket.put_of_keyOk _ hk] at hput
  cases (Prod.mk.inj hput).1

theorem getBlob_written_eq (s : RawBlobStore) (hh : hasPathTraversalChars h = false) (hk : KeyOk h)
    (hpos : 0 < c.length) (hsize : c.length ≤ maxFileSize) :
    getBlob
      { device := writeAt 0 s.device s.nextOffset c
        alloc := s.alloc.set h hk ⟨s.nextOffset, c.length⟩
        nextOffset := s.nextOffset + c.length } h = .ok ⟨c, none⟩ := by
  cases hget : getBlob
      { device := writeAt 0 s.device s.nextOffset c
        alloc := s.alloc.set h hk ⟨s.nextOffset, c.length⟩
        nextOffset := s.nextOffset + c.length } h with
  | ok r => rw [getBlob_written s hk hget]
  | error e =>
    unfold getBlob at hget
    rw [hh, Bucket.get_set_self] at hget
    simp only [Bool.false_eq_true, if_false] at hget
    split_ifs at hget with hbad
    rcases hbad with hbad | hbad
    · exact absurd hpos (not_lt.mpr hbad)
    · exact absurd hsize (not_le.mpr hbad)

theorem fits_of_getBlob_written {s : RawBlobStore} (hk : KeyOk h) {r : Reader} (hget : getBlob
      { device := writeAt 0 s.device s.nextOffset c
        alloc := s.alloc.set h hk ⟨s.nextOffset, c.length⟩
        nextOffset := s.nextOffset + c.length } h = .ok r) :
    0 < c.length ∧ c.length ≤ maxFileSize := by
  unfold getBlob at hget
  rw [Bucket.get_set_self] at hget
  simp only at hget
  split_ifs at hget with hh hbad
  rw [not_or, not_le, not_lt] at hbad
  exact hbad

theorem stores_iff (s : RawBlobStore) (hh : hasPathTraversalChars h = false) (hk : KeyOk h)
    (c : Bytes) (r : Reader) :
    Stores s h c r ↔ (s.alloc.get h = none → s.Fits c.length) ∧
      if (s.alloc.get h).isSome then s.getBlob h = .ok r else r = ⟨c, none⟩ := by
  obtain ⟨⟨res, s'⟩, hput⟩ : ∃ p, s.putBlob h ⟨c, none⟩ = p := ⟨_, rfl⟩
  have hstores : Stores s h c r ↔ res = .ok () ∧ s'.getBlob h = .ok r := by
    have hput' : BlobStore.putBlob s h ⟨c, none⟩ none =
        (res.map (fun _ => if (s.alloc.get h).isSome then [] else c), s') := by
      simp only [BlobStore.putBlob, hput]
    rw [stores_of_put hput']
    cases res with
    | error e => simp [Except.map]
    | ok u => simp [Except.map, BlobStore.getBlob]
  rw [hstores]
  cases hentry : s.alloc.get h with
  | some a =>
    have hsome : (s.alloc.get h).isSome = true := by rw [hentry]; rfl
    rcases putBlob_cases hput with ⟨e, rfl, hs | ⟨hnone, -⟩⟩ | ⟨rfl, -, rfl⟩ | ⟨-, hnone, -⟩
    · -- a hash in the table is never refused
      have hok : (s.putBlob h ⟨c, none⟩).1 = .ok () := by
        unfold putBlob
        rw [if_neg (by rw [hh]; exact Bool.false_ne_true), if_pos hsome]
      rw [hput] at hok
      cases hok
    · rw [hentry] at hnone
      cases hnone
    · simp
    · rw [hentry] at hnone
      cases hnone
  | none =>
    obtain ⟨hrefused, hroom⟩ := putBlob_new hh hk hentry hput
    simp only [forall_const, Option.isSome_none, Bool.false_eq_true, if_false]
    rcases putBlob_cases hput with ⟨e, rfl, -⟩ | ⟨-, hsome, -⟩ | ⟨rfl, -, hk', rfl⟩
    · simp only [reduceCtorEq, false_and, false_iff, not_and]
      exact fun hfit => absurd hfit.2 (hrefused e rfl)
    · rw [hentry] at hsome
      cases hsome
    · constructor
      · rintro ⟨-, hr⟩
        obtain ⟨hpos, hsize⟩ := fits_of_getBlob_written hk' hr
        exact ⟨⟨hpos, hsize, hroom rfl⟩, getBlob_written s hk' hr⟩
      · rintro ⟨⟨hpos, hsize, -⟩, rfl⟩
        exact ⟨rfl, getBlob_written_eq s hh hk' hpos hsize⟩

end RawBlobStore

/-! ### Volumes -/

namespace VolumeBlobStore

/-- The bytes of a volume a payload of `n` bytes takes. -/
def needleSize (n : ℕ) : ℕ := needleOverhead + alignTo8 n

/-- A payload of `n` bytes has room and lands where its record says: its length fits the length
    field; if the active volume has room for it, the file position is the recorded size; if not, an
    empty volume has. -/
def Room (s : VolumeBlobStore) (n : ℕ) : Prop :=
  n < 2 ^ 32 ∧ ∃ vf, s.activeVolume = some vf ∧
    if vf.size + needleSize n ≤ s.volumeSize then vf.pos = vf.size else needleSize n ≤ s.volumeSize

/-- A store as it was opened: there is an active volume, not sealed, and its file position is the
    recorded size or lies before it, with nothing in the file beyond. -/
def Settled (s : VolumeBlobStore) : Prop :=
  ∃ vf, s.activeVolume = some vf ∧ vf.isSealed = false ∧
    (vf.pos = vf.size ∨
      (vf.pos < vf.size ∧ ((s.files.get vf.volumeID).getD []).length ≤ vf.size))

theorem decodeContentHash_hashBytes [Sha256] (x : Bytes) :
    decodeContentHash (hashBytes x) = .ok (Sha256.sum256 x) := by
  rw [decodeContentHash, hasPathTraversalChars_hashBytes, hashBytes, hexDecode_hexEncode]
  simp only [Bool.false_eq_true, if_false, Sha256.length_sum256, ne_eq, not_true_eq_false]

variable {s : VolumeBlobStore} {h digest : Bytes}

theorem getBlob_appendNeedle {vf : VolumeFile} {c : Bytes} (hd : decodeContentHash h = .ok digest)
    (hpos : vf.pos = vf.size ∨
      (vf.pos < vf.size ∧ ((s.files.get vf.volumeID).getD []).length ≤ vf.size)) :
    (s.appendNeedle vf h digest c).getBlob h = .ok c ↔ c.length < 2 ^ 32 ∧ vf.pos = vf.size := by
  have hd32 := decodeContentHash_length hd
  have hget : (s.appendNeedle vf h digest c).getBlob h = (do
      let needle ← (readNeedle (writeAt 0 ((s.files.get vf.volumeID).getD []) vf.pos
        (needleFrame digest c 0)) vf.size).mapError (.wrap "failed to read needle: %w" [])
      if digest = needle.hash then .ok needle.payload else .error (.text "hash mismatch in volume")) := by
    simp only [getBlob, hd, appendNeedle, writeNeedle, OMap.get_put_self, openVolume, if_true, bind,
      Except.bind, Option.getD_some]
  have hframe := length_needleFrame hd32 c 0
  rw [hget]
  constructor
  · intro hok
    obtain ⟨needle, hread, hpayload⟩ := CASStore.bind_eq_ok.mp hok
    obtain ⟨hlen, hend⟩ := readNeedle_eq_ok (CASStore.mapError_eq_ok.mp hread)
    split_ifs at hpayload
    obtain rfl := Except.ok.inj hpayload
    refine ⟨hlen, ?_⟩
    -- a frame before the recorded size ends before the place it is looked for ends
    rcases hpos with hpos | ⟨hlt, hfile⟩
    · exact hpos
    · have hoverhead : 0 < needleOverhead := by decide
      rw [length_writeAt, hframe] at hend
      omega
  · rintro ⟨hlen, hpos⟩
    have hread := readNeedle_frame hd32 hlen (hasAt_writeAt 0 ((s.files.get vf.volumeID).getD [])
      vf.pos (needleFrame digest c 0))
    rw [hpos] at hread
    simp only [hpos, hread, Except.mapError, bind, Except.bind, if_true]

theorem reserveNeedleSlot_settled {vf : VolumeFile} (n : ℕ) (hact : s.activeVolume = some vf)
    (hsealed : vf.isSealed = false) :
    if vf.size + n ≤ s.volumeSize then s.reserveNeedleSlot n = (.ok vf, s)
    else if n ≤ s.volumeSize then ∃ vf', s.reserveNeedleSlot n = (.ok vf', s.sealCurrentVolume) ∧
      vf'.pos = vf'.size
    else ∃ e, s.reserveNeedleSlot n = (.error e, s.sealCurrentVolume) := by
  have hseal : s.sealCurrentVolume.activeVolume =
        some ⟨(s.volumeIDCounter + 1) % 2 ^ 32, 0, 0, false⟩ ∧
      s.sealCurrentVolume.volumeSize = s.volumeSize := by
    simp only [sealCurrentVolume, hact, hsealed, Bool.false_eq_true, if_false, createNewVolume,
      and_self]
  unfold reserveNeedleSlot
  simp only [hact, hseal.1, hseal.2, Nat.zero_add]
  split_ifs with hfit hroom hfull
  · rfl
  · omega
  · exact ⟨_, rfl, rfl⟩
  · exact ⟨_, rfl⟩
  · omega

theorem stores_iff [Sha256] (hs : s.Settled) (c : Bytes) :
    Stores s (hashBytes c) c ⟨c, none⟩ ↔ s.Room c.length := by
  obtain ⟨vf, hact, hsealed, hpos⟩ := hs
  have hd := decodeContentHash_hashBytes c
  have hverified : readVerifiedPayload (Sha256.sum256 c) ⟨c, none⟩ = .ok c := by
    simp [readVerifiedPayload]
  have hput : ∀ vf' s', s.reserveNeedleSlot (needleSize c.length) = (.ok vf', s') →
      s.putBlob (hashBytes c) ⟨c, none⟩ =
        (.ok c, s'.appendNeedle vf' (hashBytes c) (Sha256.sum256 c) c) := by
    intro vf' s' hslot
    rw [needleSize] at hslot
    simp only [putBlob, hd, hverified, hslot]
  have hread : ∀ (s' : VolumeBlobStore) vf', (vf'.pos = vf'.size ∨ (vf'.pos < vf'.size ∧
      ((s'.files.get vf'.volumeID).getD []).length ≤ vf'.size)) →
      s.putBlob (hashBytes c) ⟨c, none⟩ =
        (.ok c, s'.appendNeedle vf' (hashBytes c) (Sha256.sum256 c) c) →
      (Stores s (hashBytes c) c ⟨c, none⟩ ↔ c.length < 2 ^ 32 ∧ vf'.pos = vf'.size) := by
    intro s' vf' hpos' hput'
    rw [← getBlob_appendNeedle hd hpos', stores_of_put hput']
    simp only [Except.ok.injEq, exists_eq', true_and, BlobStore.getBlob]
    cases (s'.appendNeedle vf' (hashBytes c) (Sha256.sum256 c) c).getBlob (hashBytes c) with
    | error e => simp [Except.map]
    | ok p => simp [Except.map]
  have hslot := reserveNeedleSlot_settled (needleSize c.length) hact hsealed
  have hroom : s.Room c.length ↔ c.length < 2 ^ 32 ∧
      if vf.size + needleSize c.length ≤ s.volumeSize then vf.pos = vf.size
      else needleSize c.length ≤ s.volumeSize := by
    simp only [Room, hact, Option.some.injEq, exists_eq_left']
  rw [hroom]
  by_cases hfit : vf.size + needleSize c.length ≤ s.volumeSize
  · rw [if_pos hfit] at hslot ⊢
    exact hread s vf hpos (hput vf s hslot)
  · rw [if_neg hfit] at hslot ⊢
    by_cases hempty : needleSize c.length ≤ s.volumeSize
    · rw [if_pos hempty] at hslot
      obtain ⟨vf', hslot, hpos'⟩ := hslot
      rw [hread s.sealCurrentVolume vf' (.inl hpos') (hput vf' _ hslot)]
      simp only [hpos', hempty]
    · rw [if_neg hempty] at hslot
      obtain ⟨e, hslot⟩ := hslot
      rw [needleSize] at hslot
      simp [Stores, BlobStore.putBlob, putBlob, hd, hverified, hslot, hempty]

theorem not_stores_foreign [Sha256] (s : VolumeBlobStore) {x d : Bytes}
    (hd : Sha256.sum256 d ≠ Sha256.sum256 x) (r : Reader) : ¬ Stores s (hashBytes x) d r := by
  rintro ⟨read, b', hput, -⟩
  have hrefused : readVerifiedPayload (Sha256.sum256 x) ⟨d, none⟩ =
      .error (.text "hash mismatch: expected %x, got %x"
        [.str (Sha256.sum256 x), .str (Sha256.sum256 d)]) := by
    simp [readVerifiedPayload, Ne.symm hd]
  simp [BlobStore.putBlob, putBlob, decodeContentHash_hashBytes, hrefused] at hput

/-! Opening a directory settles the store. -/

/-- What the restore loop leaves active: an unsealed volume at position zero, its size that of its
    file. -/
def Loaded (s : VolumeBlobStore) : Prop :=
  ∀ vf, s.activeVolume = some vf → vf.isSealed = false ∧ vf.pos = 0 ∧
    vf.size = ((s.files.get vf.volumeID).getD []).length

theorem loaded_restoreVolume (hs : s.Loaded) (id : Nat) : (s.restoreVolume id).Loaded := by
  unfold restoreVolume openExistingVolume
  cases hfile : s.files.get id with
  | none => exact hs
  | some data =>
    simp only [Option.map_some]
    split_ifs with hsealed
    · exact hs
    · intro vf hvf
      obtain rfl := Option.some.inj hvf
      refine ⟨by simpa using hsealed, rfl, ?_⟩
      simp only [hfile, Option.getD_some]

theorem loaded_foldl : ∀ (ids : List Nat) {s : VolumeBlobStore}, s.Loaded →
    (ids.foldl restoreVolume s).Loaded
  | [], _, hs => hs
  | id :: ids, _, hs => loaded_foldl ids (loaded_restoreVolume hs id)

theorem settled_restoreVolumes (hnone : s.activeVolume = none) : s.restoreVolumes.Settled := by
  have hloaded : ((List.range' 1 s.maxVolumeID).foldl restoreVolume
      { s with volumeIDCounter := s.maxVolumeID }).Loaded := by
    refine loaded_foldl _ fun vf hvf => ?_
    rw [show s.activeVolume = some vf from hvf] at hnone
    cases hnone
  unfold restoreVolumes
  simp only
  split
  · exact ⟨_, rfl, rfl, .inl rfl⟩
  · rename_i vf hvf
    obtain ⟨hsealed, hpos, hsize⟩ := hloaded vf hvf
    refine ⟨vf, hvf, hsealed, ?_⟩
    rw [hpos, hsize]
    rcases Nat.eq_zero_or_pos (((((List.range' 1 s.maxVolumeID).foldl restoreVolume
      { s with volumeIDCounter := s.maxVolumeID }).files.get vf.volumeID).getD []).length) with h0 | hlt
    · exact .inl h0.symm
    · exact .inr ⟨hlt, le_rfl⟩

theorem settled_openDir {dir : Dir} {volumeSize : Int} (h : openDir dir volumeSize = .ok s) :
    s.Settled := by
  unfold openDir at h
  simp only at h
  split_ifs at h
  all_goals
    cases h
    exact settled_restoreVolumes rfl

/-! Presence of a needle decides whether a read says ENOENT. -/

theorem getBlob_missing (hd : decodeContentHash h = .ok digest) (hnone : s.needles.get h = none) :
    s.getBlob h = .error (.sys .enoent) := by
  simp only [getBlob, hd, hnone, bind, Except.bind]

theorem getBlob_ne_enoent {m : NeedleMetadata} (hd : decodeContentHash h = .ok digest)
    (hm : s.needles.get h = some m) : s.getBlob h ≠ .error (.sys .enoent) := by
  intro hget
  simp only [getBlob, hd, hm, bind, Except.bind] at hget
  split at hget
  · -- the volume is not open
    rename_i e hopen
    cases hget
    simp only [openVolume] at hopen
    split at hopen
    · cases hopen
    · split_ifs at hopen
      split at hopen <;> cases hopen
  · split at hget
    · rename_i e hread
      cases hget
      cases hn : readNeedle ((s.files.get _).getD []) m.offset with
      | error e' => rw [hn] at hread; cases hread
      | ok needle => rw [hn] at hread; cases hread
    · split_ifs at hget
      cases hget

theorem needle_of_putBlob [Sha256] {s' : VolumeBlobStore} {read : Bytes} {r : Reader}
    (hput : s.putBlob h r = (.ok read, s')) : (s'.needles.get h).isSome = true := by
  unfold putBlob at hput
  split at hput
  · cases hput
  split at hput
  · cases hput
  split at hput
  · cases hput
  · cases hput
    simp [appendNeedle]

end VolumeBlobStore

/-! ### The adaptive back end -/

namespace AdaptiveBlobStore
variable [Sha256]

theorem lt_maxAlloc_of_stores {a : AdaptiveBlobStore} {x d : Bytes} {r : Reader}
    (h : Stores a (hashBytes x) d r) : a.threshold < maxAlloc := by
  by_contra halloc
  have hput : (a.putBlob (hashBytes x) ⟨d, none⟩).1 =
      .error (recovered "AdaptiveBlobStore.PutBlob" "makeslice: len out of range") := by
    rw [putBlob, hasPathTraversalChars_hashBytes, if_neg Bool.false_ne_true, if_pos (by omega)]
  obtain ⟨read, b', hok, -⟩ := h
  rw [show a.putBlob (hashBytes x) ⟨d, none⟩ = (.ok read, b') from hok] at hput
  cases hput

theorem getBlob_of_needle {a : AdaptiveBlobStore} {x : Bytes} {m : NeedleMetadata}
    (hm : a.volume.needles.get (hashBytes x) = some m) :
    a.getBlob (hashBytes x) =
      (a.volume.getBlob (hashBytes x)).map (fun payload => (⟨payload, none⟩ : Reader)) := by
  have hne := VolumeBlobStore.getBlob_ne_enoent (VolumeBlobStore.decodeContentHash_hashBytes x) hm
  simp only [getBlob, hasPathTraversalChars_hashBytes, Bool.false_eq_true, if_false]
  cases hv : a.volume.getBlob (hashBytes x) with
  | ok payload => rfl
  | error e =>
    have : e ≠ .sys .enoent := fun h => hne (by rw [hv, h])
    simp [this, Except.map]

theorem stores_large (a : AdaptiveBlobStore) (x : Bytes) {d : Bytes} (hlarge : a.threshold < d.length)
    (r : Reader) :
    Stores a (hashBytes x) d r ↔ a.threshold < maxAlloc ∧
      if (a.volume.needles.get (hashBytes x)).isSome then a.getBlob (hashBytes x) = .ok r
      else r = ⟨d, none⟩ := by
  have hh := hasPathTraversalChars_hashBytes x
  have hd := VolumeBlobStore.decodeContentHash_hashBytes x
  by_cases halloc : a.threshold < maxAlloc
  · have hput : a.putBlob (hashBytes x) ⟨d, none⟩ =
        (.ok d, { a with fallback := ⟨a.fallback.files.put (hashBytes x) d⟩ }) := by
      rw [putBlob, if_neg (by rw [hh]; exact Bool.false_ne_true), if_neg (by omega),
        if_neg (by simp only; omega)]
      simp only [LocalBlobStore.putBlob, hh, Bool.false_eq_true, if_false]
    rw [stores_of_put hput]
    simp only [halloc, true_and, Except.ok.injEq, exists_eq', BlobStore.getBlob]
    cases hneedle : a.volume.needles.get (hashBytes x) with
    | none =>
      have hmiss := VolumeBlobStore.getBlob_missing hd hneedle
      simp only [getBlob, hh, Bool.false_eq_true, if_false, hmiss, if_true, LocalBlobStore.getBlob,
        OMap.get_put_self, Option.isSome_none, Except.ok.injEq]
      exact eq_comm
    | some m =>
      rw [getBlob_of_needle (by exact hneedle), getBlob_of_needle hneedle]
      simp
  · simp only [halloc, false_and, iff_false]
    exact fun h => halloc (lt_maxAlloc_of_stores h)

theorem stores_small (a : AdaptiveBlobStore) (x : Bytes) {d : Bytes} (hsmall : d.length ≤ a.threshold)
    (r : Reader) :
    Stores a (hashBytes x) d r ↔ a.threshold < maxAlloc ∧ Stores a.volume (hashBytes x) d r := by
  have hh := hasPathTraversalChars_hashBytes x
  by_cases halloc : a.threshold < maxAlloc
  · have hput : a.putBlob (hashBytes x) ⟨d, none⟩ =
        ((a.volume.putBlob (hashBytes x) ⟨d, none⟩).1,
          { a with volume := (a.volume.putBlob (hashBytes x) ⟨d, none⟩).2 }) := by
      rw [putBlob, if_neg (by rw [hh]; exact Bool.false_ne_true), if_neg (by omega),
        if_pos hsmall]
    obtain ⟨⟨res, v⟩, hvol⟩ : ∃ p, a.volume.putBlob (hashBytes x) ⟨d, none⟩ = p := ⟨_, rfl⟩
    rw [hvol] at hput
    rw [stores_of_put hput, stores_of_put hvol]
    simp only [halloc, true_and]
    refine and_congr_right ?_
    -- an accepted put leaves a needle
    rintro ⟨read, rfl⟩
    obtain ⟨m, hm⟩ := Option.isSome_iff_exists.mp (VolumeBlobStore.needle_of_putBlob hvol)
    exact iff_of_eq (congrArg (· = .ok r) (getBlob_of_needle (by exact hm)))
  · simp only [halloc, false_and, iff_false]
    exact fun h => halloc (lt_maxAlloc_of_stores h)

end AdaptiveBlobStore

/-! ### The back ends together -/

theorem stores_wrap {β γ : Type} [BlobStore β] [BlobStore γ] (wrap : β → γ)
    (hput : ∀ b h r, BlobStore.putBlob (wrap b) h r none =
      (BlobStore.putBlob b h r none).map id wrap)
    (hget : ∀ b h, BlobStore.getBlob (wrap b) h = BlobStore.getBlob b h) (b : β) (h c : Bytes)
    (r : Reader) : Stores (wrap b) h c r ↔ Stores b h c r := by
  constructor
  · rintro ⟨read, b', hp, hg⟩
    rw [hput] at hp
    obtain ⟨hread, rfl⟩ := Prod.mk.inj hp
    rw [hget] at hg
    exact ⟨read, _, Prod.fst_eq_iff.mp hread, hg⟩
  · rintro ⟨read, b', hp, hg⟩
    exact ⟨read, wrap b', by rw [hput, hp]; rfl, by rw [hget, hg]⟩

namespace Backend

/-- `n` bytes put under `h` are accepted and kept; `own` tells whether they hash to `h`. -/
def Takes [NetURL] (b : Backend) (h : Bytes) (n : ℕ) (own : Bool) : Prop :=
  match b with
  | .localFiles _ => True
  | .s3 b => b.Reaches h ∧ n ≤ maxFileSize
  | .raw b => b.alloc.get h = none → b.Fits n
  | .volume b => own = true ∧ b.Room n
  | .adaptive a => a.threshold < AdaptiveBlobStore.maxAlloc ∧
      (n ≤ a.threshold → own = true ∧ a.volume.Room n)

/-- A put of `n` bytes under `h` leaves what a read of `h` sees: the raw device has an entry, or the
    bytes go to the files while a needle is on record. -/
def Keeps (b : Backend) (h : Bytes) (n : ℕ) : Bool :=
  match b with
  | .raw b => (b.alloc.get h).isSome
  | .adaptive a => a.threshold < n && (a.volume.needles.get h).isSome
  | .localFiles _ | .s3 _ | .volume _ => false

def Settled (b : Backend) : Prop :=
  match b with
  | .volume b => b.Settled
  | .adaptive a => a.volume.Settled
  | .localFiles _ | .s3 _ | .raw _ => True

variable [Sha256] [NetURL]

theorem stores_own {b : Backend} (hs : b.Settled) (c : Bytes) :
    Stores b (hashBytes c) c ⟨c, none⟩ ↔ b.Takes (hashBytes c) c.length true ∧
      (b.Keeps (hashBytes c) c.length = true → b.getBlob (hashBytes c) = .ok ⟨c, none⟩) := by
  have hh := hasPathTraversalChars_hashBytes c
  cases b with
  | localFiles b =>
    rw [stores_wrap Backend.localFiles (fun _ _ _ => rfl) (fun _ _ => rfl), stores_map_iff b hh]
    simp [Takes, Keeps]
  | s3 b =>
    rw [stores_wrap Backend.s3 (fun _ _ _ => rfl) (fun _ _ => rfl), b.stores_iff]
    simp [Takes, Keeps]
  | raw b =>
    rw [stores_wrap Backend.raw (fun _ _ _ => rfl) (fun _ _ => rfl),
      b.stores_iff hh (keyOk_hashBytes c)]
    simp only [Takes, Keeps]
    cases b.alloc.get (hashBytes c) with
    | none => simp
    | some a => simp [getBlob, BlobStore.getBlob]
  | volume b =>
    rw [stores_wrap Backend.volume (fun _ _ _ => rfl) (fun _ _ => rfl),
      VolumeBlobStore.stores_iff hs]
    simp [Takes, Keeps]
  | adaptive a =>
    rw [stores_wrap Backend.adaptive (fun _ _ _ => rfl) (fun _ _ => rfl)]
    by_cases hsmall : c.length ≤ a.threshold
    · rw [a.stores_small c hsmall, VolumeBlobStore.stores_iff hs]
      simp [Takes, Keeps, hsmall]
    · rw [a.stores_large c (not_le.mp hsmall)]
      simp only [Takes, Keeps, hsmall, not_le.mp hsmall, decide_true, Bool.true_and, false_implies,
        and_true]
      cases a.volume.needles.get (hashBytes c) with
      | none => simp
      | some m => simp [getBlob, BlobStore.getBlob]

theorem stores_foreign (b : Backend) {x d : Bytes} (hd : Sha256.sum256 d ≠ Sha256.sum256 x)
    (r : Reader) :
    Stores b (hashBytes x) d r ↔ b.Takes (hashBytes x) d.length false ∧
      if b.Keeps (hashBytes x) d.length then b.getBlob (hashBytes x) = .ok r else r = ⟨d, none⟩ := by
  have hh := hasPathTraversalChars_hashBytes x
  cases b with
  | localFiles b =>
    rw [stores_wrap Backend.localFiles (fun _ _ _ => rfl) (fun _ _ => rfl), stores_map_iff b hh]
    simp [Takes, Keeps]
  | s3 b =>
    rw [stores_wrap Backend.s3 (fun _ _ _ => rfl) (fun _ _ => rfl), b.stores_iff]
    simp [Takes, Keeps]
  | raw b =>
    rw [stores_wrap Backend.raw (fun _ _ _ => rfl) (fun _ _ => rfl),
      b.stores_iff hh (keyOk_hashBytes x)]
    rfl
  | volume b =>
    rw [stores_wrap Backend.volume (fun _ _ _ => rfl) (fun _ _ => rfl)]
    simp [Takes, b.not_stores_foreign hd]
  | adaptive a =>
    rw [stores_wrap Backend.adaptive (fun _ _ _ => rfl) (fun _ _ => rfl)]
    by_cases hsmall : d.length ≤ a.threshold
    · rw [a.stores_small x hsmall]
      simp [Takes, hsmall, a.volume.not_stores_foreign hd]
    · rw [a.stores_large x (not_le.mp hsmall)]
      simp only [Takes, Keeps, hsmall, not_le.mp hsmall, decide_true, Bool.true_and, false_implies,
        and_true]
      rfl

end Backend

/-! ### Encryption -/

namespace EncryptedBlobStore
variable {β : Type} [BlobStore β] [Aead]

def ciphertext (e : EncryptedBlobStore β) (c : Bytes) : Bytes := Crypto.encryptBytes e.key e.seed c

def opened (e : EncryptedBlobStore β) (r : Reader) : Reader :=
  let plain := Crypto.decryptStream e.key r
  ⟨plain.data, plain.fault.map (.wrap "decryption failed: %w" [])⟩

omit [BlobStore β] [Aead] in
theorem length_seed (e : EncryptedBlobStore β) : e.seed.length = Crypto.streamSeedSize :=
  (e.seeds e.drawn).property

omit [BlobStore β] in
theorem opened_ciphertext (e : EncryptedBlobStore β) (c : Bytes) :
    e.opened ⟨e.ciphertext c, none⟩ = ⟨c, none⟩ := by
  rw [opened, ciphertext, Crypto.decryptStream_encryptBytes e.length_seed]
  rfl

omit [BlobStore β] in
theorem length_ciphertext (e : EncryptedBlobStore β) (c : Bytes) :
    (e.ciphertext c).length = Crypto.encryptedLength c.length :=
  Crypto.length_encryptBytes e.length_seed c

theorem stores_iff (e : EncryptedBlobStore β) (h c : Bytes) (r : Reader) :
    Stores e h c r ↔ ∃ r', Stores e.inner h (e.ciphertext c) r' ∧ e.opened r' = r := by
  obtain ⟨⟨res, inner⟩, hput⟩ : ∃ p, BlobStore.putBlob e.inner h ⟨e.ciphertext c, none⟩ none = p :=
    ⟨_, rfl⟩
  have hsealed : e.sealedReader ⟨c, none⟩ = ⟨e.ciphertext c, none⟩ := rfl
  simp only [stores_of_put hput]
  cases res with
  | error err => simp [Stores, BlobStore.putBlob, putBlob, hsealed, hput]
  | ok read =>
    have hput' : BlobStore.putBlob e h ⟨c, none⟩ none =
        (.ok c, { e with inner := inner, drawn := e.drawn + 1 }) := by
      simp only [BlobStore.putBlob, putBlob, hsealed, hput]
    have hget : BlobStore.getBlob { e with inner := inner, drawn := e.drawn + 1 } h =
        (BlobStore.getBlob inner h).map e.opened := rfl
    rw [stores_of_put hput', hget]
    cases BlobStore.getBlob inner h with
    | error err => simp [Except.map]
    | ok r' => simp [Except.map]

end EncryptedBlobStore

namespace Blobs

/-- A content of `n` bytes is accepted and kept: encrypted, the back end sees more bytes, and not
    those of the hash. -/
def Takes [NetURL] (b : Blobs) (h : Bytes) (n : ℕ) : Prop :=
  match b with
  | .plain b => b.Takes h n true
  | .encrypted e => e.inner.Takes h (Crypto.encryptedLength n) false

/-- A put of `n` bytes leaves what a read sees. -/
def Keeps (b : Blobs) (h : Bytes) (n : ℕ) : Bool :=
  match b with
  | .plain b => b.Keeps h n
  | .encrypted e => e.inner.Keeps h (Crypto.encryptedLength n)

def Settled (b : Blobs) : Prop :=
  match b with
  | .plain b => b.Settled
  | .encrypted e => e.inner.Settled

variable [Sha256] [NetURL] [Aead]

/-- The ciphertext of `c` does not hash to the address of `c`. -/
def Apart (b : Blobs) (c : Bytes) : Prop :=
  match b with
  | .plain _ => True
  | .encrypted e => Sha256.sum256 (e.ciphertext c) ≠ Sha256.sum256 c

/-- CORRECT: what a put followed by a get comes to, for every interface value. -/
theorem stores_iff {b : Blobs} (hs : b.Settled) {c : Bytes} (hapart : b.Apart c) :
    Stores b (hashBytes c) c ⟨c, none⟩ ↔ b.Takes (hashBytes c) c.length ∧
      (b.Keeps (hashBytes c) c.length = true →
        BlobStore.getBlob b (hashBytes c) = .ok ⟨c, none⟩) := by
  cases b with
  | plain b =>
    rw [stores_wrap Blobs.plain (fun _ _ _ => rfl) (fun _ _ => rfl), Backend.stores_own hs]
    rfl
  | encrypted e =>
    rw [stores_wrap Blobs.encrypted (fun _ _ _ => rfl) (fun _ _ => rfl), e.stores_iff]
    simp only [e.inner.stores_foreign hapart, e.length_ciphertext, Takes, Keeps]
    cases hkeep : e.inner.Keeps (hashBytes c) (Crypto.encryptedLength c.length) with
    | false =>
      simp only [Bool.false_eq_true, if_false, false_implies, and_true]
      constructor
      · rintro ⟨r', ⟨htakes, -⟩, -⟩
        exact htakes
      · exact fun htakes => ⟨_, ⟨htakes, rfl⟩, e.opened_ciphertext c⟩
    | true =>
      simp only [if_true, forall_const]
      have hget : BlobStore.getBlob (Blobs.encrypted e) (hashBytes c) =
          (e.inner.getBlob (hashBytes c)).map e.opened := rfl
      rw [hget]
      cases e.inner.getBlob (hashBytes c) with
      | error err => simp [Except.map]
      | ok r' => simp [Except.map, and_assoc]

end Blobs

end Momo
