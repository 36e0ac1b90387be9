import Momo.Storage.BackendRoundTrip
import Momo.Storage.ReadBack

/-! @momo src/storage/factory.go, src/storage/storage.go, src/storage/encrypted_blobstore.go
    scheme:write then read, through the whole assembly

    A put through the store `buildCAS` returns, and the get after it. Above the back end the put
    asks for the name, the path and the size; below it everything is decided by `Blobs.stores_iff`. -/

namespace Momo

namespace CASStore

section Through
variable [Sha256] {β : Type} [BlobStore β]

/-- A put of `c` under its address succeeds, and the get of the name after it delivers `c`. -/
def PutThenGet (s : CASStore β) (now : Int) (name : Bytes) (size : Int) (remotePath c : Bytes) :
    Prop :=
  ∃ read s', s.put none now name (hashBytes c) size remotePath (some ⟨c, none⟩) = (.ok read, s') ∧
    ∃ st info, (s'.get name).1 = .ok (st, info) ∧ st.readAll = (c, none)

/-- What the metadata ask of a put: a name bbolt and the wire accept, a path that normalises, a
    size on record that is one, and no mark on the hash. -/
structure Recordable (db : MetaDB) (name : Bytes) (size : Int) (remotePath h : Bytes) : Prop where
  nameOk : KeyOk name
  nameLen : name.length ≤ fileInfoLength
  path : remotePath = [] ∨ (normalizeVirtualPath remotePath).isOk = true
  size : 0 ≤ (db.objects.get h).elim size ObjectMeta.size
  unmarked : db.quarantine.get h = none

theorem readAll_eq_iff {cfg : CASConfig} {r : Reader} {c : Bytes} :
    Stream.readAll ⟨r, if cfg.verifyOnRead then some (hashBytes c) else none⟩ = (c, none) ↔
      r = ⟨c, none⟩ := by
  obtain ⟨data, fault⟩ := r
  cases fault with
  | some e => simp [Stream.readAll]
  | none =>
    simp only [Stream.readAll, Prod.mk.injEq, Reader.mk.injEq, and_true]
    constructor
    · exact fun h => h.1
    · rintro rfl
      cases cfg.verifyOnRead <;> simp

theorem get_local_iff {s : CASStore β} {name c : Bytes} {m : ObjectMeta}
    (hdeg : s.cfg.degradedRead = false) (hvis : s.getHashForName name = .ok (hashBytes c))
    (hm : s.db.objects.get (hashBytes c) = some m) :
    (∃ st info, (s.get name).1 = .ok (st, info) ∧ st.readAll = (c, none)) ↔
      s.db.quarantine.get (hashBytes c) = none ∧ 0 ≤ m.size ∧
        BlobStore.getBlob s.blobs (hashBytes c) = .ok ⟨c, none⟩ := by
  have hclosed : s.openDegraded (hashBytes c) = (.error (.sys .enoent), s) := by
    simp [openDegraded, hdeg]
  cases hget : BlobStore.getBlob s.blobs (hashBytes c) with
  | error e =>
    have herr : ∃ e' s', s.openVerifiedBlob (hashBytes c) = (.error e', s') := by
      simp only [openVerifiedBlob, hget, hclosed]
      split_ifs
      · exact ⟨_, _, rfl⟩
      · exact ⟨_, _, rfl⟩
    obtain ⟨e', s', herr⟩ := herr
    simp [get, hvis, herr]
  | ok r =>
    cases hmark : s.db.quarantine.get (hashBytes c) with
    | some u =>
      have herr : s.openVerifiedBlob (hashBytes c) = (.error (.sys .enoent), s) := by
        simp only [openVerifiedBlob, hget, hmark, Option.isSome_some, if_true, hclosed]
      simp [get, hvis, herr]
    | none =>
      have hopen : s.openVerifiedBlob (hashBytes c) =
          (.ok ⟨r, if s.cfg.verifyOnRead then some (hashBytes c) else none⟩, s) := by
        simp only [openVerifiedBlob, hget, hmark, Option.isSome_none, Bool.false_eq_true, if_false]
      rw [← @fileMetadata_readable _ _ name _ hm]
      simp only [get, hvis, hopen, true_and, Except.ok.injEq]
      cases fileMetadata s.db name (hashBytes c) with
      | error e => simp
      | ok info => simp [readAll_eq_iff]

theorem get_after_putTx {s : CASStore β} (hdeg : s.cfg.degradedRead = false) {now : Int}
    {name : Bytes} {size : Int} {remotePath c : Bytes} {f : PutFields} {db : MetaDB}
    (htx : putTx now name (hashBytes c) size remotePath f s.db = .ok db) (b : β) :
    (∃ st info, (get { s with blobs := b, db := db } name).1 = .ok (st, info) ∧
        st.readAll = (c, none)) ↔
      s.db.quarantine.get (hashBytes c) = none ∧
        0 ≤ (s.db.objects.get (hashBytes c)).elim size ObjectMeta.size ∧
        BlobStore.getBlob b (hashBytes c) = .ok ⟨c, none⟩ := by
  obtain ⟨hn, hk, paths, -, -, rfl⟩ := putTx_eq_ok.mp htx
  rw [← putMeta_size _ _ f]
  exact get_local_iff hdeg
    (getHashForName_eq_ok.mpr ⟨Bucket.get_del_self _ _, Bucket.get_set_self _ _ hn _⟩)
    (Bucket.get_set_self _ _ hk _)

theorem putThenGet_iff {s : CASStore β} (hdeg : s.cfg.degradedRead = false) (hbar : BarrierOk s.cfg)
    (now : Int) (name : Bytes) (size : Int) (remotePath c : Bytes) {present : Bool}
    (hpresent : s.blobPresent (hashBytes c) = .ok present) :
    s.PutThenGet now name size remotePath c ↔
      Recordable s.db name size remotePath (hashBytes c) ∧
        if present then BlobStore.getBlob s.blobs (hashBytes c) = .ok ⟨c, none⟩
        else Stores s.blobs (hashBytes c) c ⟨c, none⟩ := by
  have hh := hasPathTraversalChars_hashBytes c
  -- the bytes step, by what it leaves in the back end
  have hbytes : ∀ (b : β), (∃ read, s.storeContent (hashBytes c) (some ⟨c, none⟩) none =
        (.ok read, { s with blobs := b })) →
      (s.PutThenGet now name size remotePath c ↔
        Recordable s.db name size remotePath (hashBytes c) ∧
          BlobStore.getBlob b (hashBytes c) = .ok ⟨c, none⟩) := by
    rintro b ⟨read, hstore⟩
    have hput : ∀ res s', s.put none now name (hashBytes c) size remotePath (some ⟨c, none⟩) =
        (.ok res, s') ↔ res = read ∧ ∃ db, putTx now name (hashBytes c) size remotePath {} s.db =
          .ok db ∧ s' = { s with blobs := b, db := db } := by
      intro res s'
      simp only [put, putWithMetadata, hh, Bool.false_eq_true, if_false, hstore]
      cases putTx now name (hashBytes c) size remotePath {} s.db with
      | error e => simp
      | ok db => simp [eq_comm]
    simp only [PutThenGet, hput]
    constructor
    · rintro ⟨_, s', ⟨rfl, db, htx, rfl⟩, hread⟩
      obtain ⟨hmark, hsize, hget⟩ := (get_after_putTx hdeg htx b).mp hread
      obtain ⟨hn, hk, paths, hlen, hpath, -⟩ := putTx_eq_ok.mp htx
      exact ⟨⟨hn, hlen, (putPath_isOk _ hn _).mp ⟨paths, hpath⟩, hsize, hmark⟩, hget⟩
    · rintro ⟨⟨hn, hlen, hpath, hsize, hmark⟩, hget⟩
      obtain ⟨paths, hpath⟩ := (putPath_isOk s.db.paths hn remotePath).mpr hpath
      have htx := (@putTx_eq_ok now size name (hashBytes c) remotePath {} s.db _).mpr
        ⟨hn, keyOk_hashBytes c, paths, hlen, hpath, rfl⟩
      exact ⟨read, _, ⟨rfl, _, htx, rfl⟩, (get_after_putTx hdeg htx b).mpr ⟨hmark, hsize, hget⟩⟩
  cases present with
  | true =>
    rw [if_pos rfl]
    exact hbytes s.blobs ⟨c, by simp only [storeContent, hpresent, if_true]; rfl⟩
  | false =>
    rw [if_neg Bool.false_ne_true]
    obtain ⟨⟨res, b⟩, hputBlob⟩ : ∃ p, BlobStore.putBlob s.blobs (hashBytes c) ⟨c, none⟩ none = p :=
      ⟨_, rfl⟩
    cases res with
    | error e =>
      simp only [stores_of_put hputBlob, reduceCtorEq, exists_false, false_and, and_false, iff_false]
      rintro ⟨read, s', hok, -⟩
      simp [put, putWithMetadata, hh, storeContent, hpresent, writeBlob, hputBlob] at hok
    | ok read =>
      have hstore : s.storeContent (hashBytes c) (some ⟨c, none⟩) none =
          (.ok read, { s with blobs := b }) := by
        simp only [storeContent, hpresent, Bool.false_eq_true, if_false, writeBlob, hputBlob]
        cases hd : s.cfg.durability with
        | none => rfl
        | some commit => simp only [hbar commit hd]; rfl
      rw [hbytes b ⟨read, hstore⟩, stores_of_put hputBlob]
      simp only [Except.ok.injEq, exists_eq', true_and]

end Through

end CASStore

/-! ### The assembly -/

theorem map_mapError_eq_ok {α β : Type} {x : Except Err α} {f : α → β} {g : Err → Err} {y : β} :
    (x.map f).mapError g = .ok y ↔ ∃ a, x = .ok a ∧ f a = y := by
  cases x with
  | error e => simp [Except.map, Except.mapError]
  | ok a => simp [Except.map, Except.mapError]

/-- Base: a back end comes with its volumes as they were opened. -/
theorem newBackend_settled [NetURL] {cfg : StorageConfig} {dir : DataDir} {b : Backend}
    (h : newBackend cfg dir = .ok b) : b.Settled := by
  unfold newBackend at h
  split at h
  case h_1 | h_2 | h_3 =>
    cases h
    trivial
  case h_4 | h_5 =>
    obtain ⟨b', -, rfl⟩ := map_mapError_eq_ok.mp h
    trivial
  case h_6 | h_7 =>
    obtain ⟨v, hv, rfl⟩ := map_mapError_eq_ok.mp h
    exact VolumeBlobStore.settled_openDir hv
  case h_8 => cases h

theorem wrapBlobs_eq_ok {encKeyHex : Bytes} {seeds : ℕ → Seed} {b : Backend} {blobs : Blobs}
    (h : wrapBlobs encKeyHex seeds b = .ok blobs) :
    blobs = .plain b ∨
      ∃ key, newCipherFromHex encKeyHex = .ok key ∧ blobs = .encrypted ⟨b, key, seeds, 0⟩ := by
  unfold wrapBlobs at h
  split_ifs at h
  · cases h
    exact .inl rfl
  · obtain ⟨key, hkey, rfl⟩ := map_mapError_eq_ok.mp h
    exact .inr ⟨key, hkey, rfl⟩

theorem buildCAS_eq_ok [NetURL] {cfg : StorageConfig} {dir : DataDir} {encKeyHex : Bytes}
    {seeds : ℕ → Seed} {s : CASStore Blobs} (h : buildCAS cfg dir encKeyHex seeds = .ok s) :
    s.cfg.degradedRead = false ∧ CASStore.BarrierOk s.cfg ∧ s.db = dir.db ∧
      ∃ b, newBackend cfg dir = .ok b ∧ wrapBlobs encKeyHex seeds b = .ok s.blobs := by
  obtain ⟨b, hb, h⟩ := CASStore.bind_eq_ok.mp h
  obtain ⟨blobs, hblobs, h⟩ := CASStore.bind_eq_ok.mp h
  split at h
  · cases h
  · cases h
    refine ⟨rfl, ?_, rfl, b, hb, hblobs⟩
    intro commit hcommit hash
    cases hcommit
    rfl

section Assembled
variable [Sha256] [NetURL] [Aead]

theorem blobPresent_total (s : CASStore Blobs) (c : Bytes) :
    ∃ present, s.blobPresent (hashBytes c) = .ok present := by
  have hlocal : ∀ b : LocalBlobStore, ∃ p, b.blobExists (hashBytes c) = .ok p := fun b =>
    ⟨_, if_neg (by rw [hasPathTraversalChars_hashBytes]; exact Bool.false_ne_true)⟩
  have hvolume : ∀ b : VolumeBlobStore, ∃ p, b.blobExists (hashBytes c) = .ok p := fun b =>
    ⟨_, by rw [VolumeBlobStore.blobExists, VolumeBlobStore.decodeContentHash_hashBytes]; rfl⟩
  have hbackend : ∀ b : Backend, ∃ p, b.blobExists (hashBytes c) = .ok p := by
    intro b
    cases b with
    | localFiles b => exact hlocal b
    | s3 b => exact ⟨true, rfl⟩
    | raw b => exact ⟨true, rfl⟩
    | volume b => exact hvolume b
    | adaptive a =>
      obtain ⟨p, hp⟩ := hvolume a.volume
      cases p with
      | true => exact ⟨true, by simp only [Backend.blobExists, AdaptiveBlobStore.blobExists, hp]⟩
      | false =>
        obtain ⟨q, hq⟩ := hlocal a.fallback
        exact ⟨q, by simp only [Backend.blobExists, AdaptiveBlobStore.blobExists, hp, hq]⟩
  unfold CASStore.blobPresent
  split_ifs
  · cases hb : s.blobs with
    | plain b =>
      obtain ⟨p, hp⟩ := hbackend b
      exact ⟨p, by simp only [BlobStore.blobExists, hp]; rfl⟩
    | encrypted e =>
      obtain ⟨p, hp⟩ := hbackend e.inner
      exact ⟨p, by simp only [BlobStore.blobExists, EncryptedBlobStore.blobExists, hp]; rfl⟩
  · exact ⟨false, rfl⟩

end Assembled

/-! ### Concrete assemblies -/

section Runs

local instance assemblySha : Sha256 := sampleSha

local instance anyURL : NetURL where
  scheme _ := .ok httpsScheme
  requestOk _ _ _ _ := true

local instance assemblyAead : Aead := tagAead

def zeroKeyHex : Bytes := List.replicate 64 48

def zeroSeeds : ℕ → Seed := fun _ => ⟨List.replicate 8 0, rfl⟩

def rawConfig : StorageConfig := { backend := .raw, rawDevicePath := [47] }

def firstPut (cfg : StorageConfig) (encKeyHex c : Bytes) :
    Except Err (Except Err Bytes × Except Err (Bytes × Option Err)) :=
  (buildCAS cfg {} encKeyHex zeroSeeds).map (fun s =>
    let put := s.put none 1 [120] (hashBytes c) c.length [] (some ⟨c, none⟩)
    (put.1, (put.2.get [120]).1.map (fun r => r.1.readAll)))

/-- What a volume says to the ciphertext of `a`. -/
def sealedMismatch : Err :=
  .wrap "failed to store encrypted blob: %w" []
    (.text "hash mismatch: expected %x, got %x"
      [.str (Sha256.sum256 [97]), .str (Sha256.sum256
        (Crypto.encryptBytes (List.replicate 32 0) (List.replicate 8 0) [97]))])

end Runs

end Momo
