import Momo.Storage.CASSpec

/-! @momo src/server/file.go, src/server/server.go | scheme:register, then verify

    How a node takes in an upload. `getFile` streams the payload into the store under the announced
    name and hash, digesting it on the way, and only then compares the digest with the announced
    one; a mismatch is undone by deleting the name. `registerUpload` and `verifyUpload` are its two
    store operations. The connection handler asks for the payload unless the name already maps to
    the announced hash (`canDedup`). -/

namespace Momo

/-- An upload: what the client announced, what its connection delivers, and the additive checksums
    it asked for (the verdict on the bytes read, and the surface's own error for a mismatch). -/
structure Upload where
  name : Bytes
  hash : Bytes
  size : Int
  remotePath : Bytes := []
  content : Reader
  checksums : Option (Bytes → Bool) := none
  onMismatch : Option Err := none

structure UploadEnv where
  putAt : Int := 0
  putFault : Option Err := none
  deleteAt : Int := 0
  deleteFault : Option Err := none

namespace Upload

/-- `io.LimitReader(reader, fileSize)`. -/
def payload (u : Upload) : Reader := u.content.limit u.size

variable [Sha256]

def verdict (u : Upload) (read : Bytes) : Option Err :=
  if hashBytes read ≠ u.hash then
    some (.wrap "file hash mismatch: expected %s, got %s: %w" [.str u.hash, .str (hashBytes read)]
      (.sys .ebadmsg))
  else match u.checksums with
    | none => none
    | some verified =>
      if verified read then none
      else some (u.onMismatch.getD
        (.wrap "%w: %s" [.str u.name] (.text "integrity checksum mismatch")))

theorem hash_of_verdict {u : Upload} {read : Bytes} (h : u.verdict read = none) :
    hashBytes read = u.hash := by
  by_contra hne
  rw [verdict, if_pos hne] at h
  cases h

end Upload

namespace CASStore

section Handlers

variable [Sha256] {β : Type} [BlobStore β]

/-- The first half of `getFile`: the put. -/
def registerUpload (s : CASStore β) (env : UploadEnv) (u : Upload) :
    Except Err Bytes × CASStore β :=
  match s.put env.putFault env.putAt u.name u.hash u.size u.remotePath (some u.payload) with
  | (.error e, s') =>
    (.error (.wrap "storage error: failed to put object %s: %w" [.str u.name] e), s')
  | (.ok read, s') => (.ok read, s')

/-- The second half of `getFile`: the check, and the delete that undoes the put. Its own failure is
    ignored. -/
def verifyUpload (s : CASStore β) (env : UploadEnv) (u : Upload) (read : Bytes) :
    Except Err Unit × CASStore β :=
  match u.verdict read with
  | none => (.ok (), s)
  | some e => (.error e, (s.delete env.deleteFault env.deleteAt u.name).2)

def getFile (s : CASStore β) (env : UploadEnv) (u : Upload) : Except Err Unit × CASStore β :=
  match s.registerUpload env u with
  | (.error e, s') => (.error e, s')
  | (.ok read, s') => s'.verifyUpload env u read

def canDedup (s : CASStore β) (name hash : Bytes) : Except Err Bool :=
  (s.has hash).map (fun known => known && decide (s.getHashForName name = .ok hash))

/-- How the handler stores an upload, once it has decided whether to ask for the payload. -/
def storeUpload (s : CASStore β) (env : UploadEnv) (u : Upload) (dedup : Bool) :
    Except Err Unit × CASStore β :=
  if dedup then
    match s.put env.putFault env.putAt u.name u.hash u.size u.remotePath none with
    | (.error e, s') => (.error e, s')
    | (.ok _, s') => (.ok (), s')
  else s.getFile env u

end Handlers

/-! ### Specification -/

variable {β : Type} [BlobStore β] [MapBackend β]

def Crosses (cfg : CASConfig) (h : Bytes) : Prop :=
  ∀ commit, cfg.durability = some commit → commit h = .ok ()

instance (cfg : CASConfig) (h : Bytes) : Decidable (Crosses cfg h) :=
  match hd : cfg.durability with
  | none => isTrue (fun commit hc => by rw [hd] at hc; cases hc)
  | some commit =>
    decidable_of_iff (commit h = .ok ())
      ⟨fun h commit' hc => by rw [hd] at hc; cases hc; exact h, fun h => h commit hd⟩

/-- The bytes of an upload are accepted: its payload comes whole, and it is known already or
    written and past the barrier. -/
def BytesAccepted (s : CASStore β) (env : UploadEnv) (u : Upload) : Prop :=
  hasPathTraversalChars u.hash = false ∧ u.payload.fault = none ∧
    (s.Holds u.hash ∨ env.putFault = none ∧ Crosses s.cfg u.hash)

def MetaAccepted (u : Upload) : Prop :=
  KeyOk u.name ∧ KeyOk u.hash ∧ u.name.length ≤ fileInfoLength ∧
    (u.remotePath = [] ∨ (normalizeVirtualPath u.remotePath).isOk = true)

instance (s : CASStore β) (env : UploadEnv) (u : Upload) : Decidable (s.BytesAccepted env u) :=
  inferInstanceAs (Decidable (_ ∧ _ ∧ (_ ∨ _)))

instance (u : Upload) : Decidable (MetaAccepted u) :=
  inferInstanceAs (Decidable (_ ∧ _ ∧ _ ∧ (_ ∨ _)))

def Writes (s : CASStore β) (env : UploadEnv) (u : Upload) : Prop :=
  hasPathTraversalChars u.hash = false ∧ u.payload.fault = none ∧ ¬ s.Holds u.hash ∧
    env.putFault = none

instance (s : CASStore β) (env : UploadEnv) (u : Upload) : Decidable (s.Writes env u) :=
  inferInstanceAs (Decidable (_ ∧ _ ∧ _ ∧ _))

def bytesPut (s : CASStore β) (env : UploadEnv) (u : Upload) : Bytes → Option Bytes :=
  if s.Writes env u then Function.update s.bytes u.hash (some u.payload.data) else s.bytes

theorem bytesPut_ne (s : CASStore β) (env : UploadEnv) {u : Upload} {h : Bytes}
    (hne : h ≠ u.hash) : s.bytesPut env u h = s.bytes h := by
  unfold bytesPut
  split_ifs
  · exact Function.update_of_ne hne ..
  · rfl

theorem storeContent_payload (s : CASStore β) (env : UploadEnv) (u : Upload)
    (hh : hasPathTraversalChars u.hash = false) :
    ∃ res b, s.storeContent u.hash (some u.payload) env.putFault = (res, { s with blobs := b }) ∧
      MapBackend.view b = s.bytesPut env u ∧
      (s.BytesAccepted env u → res = .ok u.payload.data) ∧
      (¬ s.BytesAccepted env u → ∃ e, res = .error e) := by
  rw [storeContent_eq s hh]
  unfold bytesPut
  by_cases hp : s.Holds u.hash
  · refine ⟨drain u.payload, s.blobs, by simp only [if_pos hp],
      (if_neg (fun h => h.2.2.1 hp)).symm, ?_, ?_⟩
    · rintro ⟨-, hf, -⟩
      rw [drain, hf]
    · intro hna
      cases hf : u.payload.fault with
      | none => exact absurd ⟨hh, hf, Or.inl hp⟩ hna
      | some e => exact ⟨_, by rw [drain, hf]⟩
  by_cases hfail : env.putFault ≠ none ∨ u.payload.fault ≠ none ∨ hasPathTraversalChars u.hash = true
  · obtain ⟨e, b, hput, hview⟩ := MapBackend.putBlob_fail s.blobs u.hash u.payload env.putFault hfail
    have hnw : ¬ s.Writes env u := by
      rintro ⟨-, hf, -, hio⟩
      simp [hf, hio, hh] at hfail
    have hna : ¬ s.BytesAccepted env u := by
      rintro ⟨-, hf, hor⟩
      simp [hf, (hor.resolve_left hp).1, hh] at hfail
    exact ⟨.error e, b, by simp only [if_neg hp, writeBlob, hput], by rw [hview, if_neg hnw],
      fun ha => absurd ha hna, fun _ => ⟨e, rfl⟩⟩
  · push Not at hfail
    obtain ⟨hio, hf, -⟩ := hfail
    obtain ⟨b, hput, hview⟩ := MapBackend.putBlob_ok s.blobs u.hash u.payload.data hh
    rw [show (⟨u.payload.data, none⟩ : Reader) = u.payload by rw [← hf]] at hput
    have hw : s.Writes env u := ⟨hh, hf, hp, hio⟩
    have hacc : s.BytesAccepted env u ↔ Crosses s.cfg u.hash :=
      ⟨fun h => (h.2.2.resolve_left hp).2, fun h => ⟨hh, hf, Or.inr ⟨hio, h⟩⟩⟩
    rw [hacc, if_pos hw, hio]
    cases hd : s.cfg.durability with
    | none =>
      refine ⟨.ok u.payload.data, b, by simp only [if_neg hp, writeBlob, hput, hd], hview,
        fun _ => rfl, fun hc => absurd (fun commit h => ?_) hc⟩
      rw [hd] at h
      cases h
    | some commit =>
      refine ⟨(commit u.hash).map (fun _ => u.payload.data), b,
        by simp only [if_neg hp, writeBlob, hput, hd], hview, fun hc => ?_, fun hc => ?_⟩
      · rw [hc commit hd]
        rfl
      · cases hcom : commit u.hash with
        | error e => exact ⟨e, rfl⟩
        | ok x => exact absurd (fun c h => by cases hd.symm.trans h; exact hcom) hc

theorem registerUpload_spec (s : CASStore β) (env : UploadEnv) (u : Upload) :
    (s.BytesAccepted env u ∧ MetaAccepted u → ∃ s', s.registerUpload env u =
        (.ok u.payload.data, s') ∧
      Written s s' env.putAt u.name u.hash u.size u.remotePath {} ∧ s'.bytes = s.bytesPut env u) ∧
    (¬ (s.BytesAccepted env u ∧ MetaAccepted u) → ∃ e s', s.registerUpload env u = (.error e, s') ∧
      s'.cfg = s.cfg ∧ s'.db = s.db ∧ s'.bytes = s.bytesPut env u) := by
  unfold registerUpload put putWithMetadata
  cases hh : hasPathTraversalChars u.hash with
  | true =>
    have hna : ¬ s.BytesAccepted env u := fun h => by rw [h.1] at hh; cases hh
    have hnw : ¬ s.Writes env u := fun h => by rw [h.1] at hh; cases hh
    refine ⟨fun h => absurd h.1 hna, fun _ => ⟨_, s, rfl, rfl, rfl, ?_⟩⟩
    rw [bytesPut, if_neg hnw]
  | false =>
    obtain ⟨res, b, hstep, hview, hok, herr⟩ := storeContent_payload s env u hh
    simp only [Bool.false_eq_true, if_false, hstep]
    have htx : ∀ db, (∃ db', putTx env.putAt u.name u.hash u.size u.remotePath {} db = .ok db') ↔
        MetaAccepted u := by
      intro db
      constructor
      · rintro ⟨db', h⟩
        obtain ⟨hn, hk, paths, hlen, hpaths, -⟩ := putTx_eq_ok.mp h
        exact ⟨hn, hk, hlen, (putPath_isOk db.paths hn u.remotePath).mp ⟨paths, hpaths⟩⟩
      · rintro ⟨hn, hk, hlen, hp⟩
        obtain ⟨paths, hpaths⟩ := (putPath_isOk db.paths hn u.remotePath).mpr hp
        exact ⟨_, putTx_eq_ok.mpr ⟨hn, hk, paths, hlen, hpaths, rfl⟩⟩
    constructor
    · rintro ⟨hb, hm⟩
      obtain ⟨db', hdb⟩ := (htx s.db).mpr hm
      obtain ⟨hn, hk, paths, hlen, hpaths, rfl⟩ := putTx_eq_ok.mp hdb
      rw [hok hb]
      simp only [hdb]
      exact ⟨_, rfl, ⟨rfl, hn, hlen, hk, rfl, rfl, rfl, rfl, hpaths, rfl, rfl, rfl⟩, hview⟩
    · intro hna
      by_cases hb : s.BytesAccepted env u
      · rw [hok hb]
        simp only
        cases hdb : putTx env.putAt u.name u.hash u.size u.remotePath {} s.db with
        | ok db' => exact absurd ⟨hb, (htx s.db).mp ⟨db', hdb⟩⟩ hna
        | error e => exact ⟨_, _, rfl, rfl, rfl, hview⟩
      · obtain ⟨e, rfl⟩ := herr hb
        exact ⟨_, _, rfl, rfl, rfl, hview⟩

end CASStore

end Momo
