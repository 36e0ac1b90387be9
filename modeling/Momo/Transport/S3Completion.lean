import Momo.Schemes.Code
import Momo.Transport.S3Multipart

/-! @momo src/transport/s3_communicator.go, src/transport/s3_objectlock.go
    scheme:one condition per exit

    What CompleteMultipartUpload stores, and what a failed one leaves behind. -/

namespace Momo

namespace CASStore

variable {β : Type} [Sha256] [BlobStore β] [MapBackend β]

/-- What a put of a whole content needs: a short name, and a back end that takes the bytes unless they
    are there. -/
def PutAccepted (s : CASStore β) (io : Option Err) (name c : Bytes) : Prop :=
  name ≠ [] ∧ name.length ≤ fileInfoLength ∧
    (s.Holds (hashBytes c) ∨
      (io = none ∧ ∀ commit, s.cfg.durability = some commit → commit (hashBytes c) = .ok ()))

theorem storeContent_isOk_iff (s : CASStore β) (io : Option Err) (c : Bytes) :
    (∃ s', s.storeContent (hashBytes c) (some ⟨c, none⟩) io = (.ok c, s') ∧ s'.db = s.db) ↔
      s.Holds (hashBytes c) ∨
        (io = none ∧ ∀ commit, s.cfg.durability = some commit → commit (hashBytes c) = .ok ()) := by
  have hh := hasPathTraversalChars_hashBytes c
  rw [storeContent_eq s hh]
  by_cases hp : s.Holds (hashBytes c)
  · simp only [hp, true_or, iff_true]
    exact ⟨s, rfl, rfl⟩
  · simp only [hp, false_or]
    constructor
    · rintro ⟨s', hw, -⟩
      by_cases hio : io = none
      · subst hio
        obtain ⟨b, hput, -⟩ := MapBackend.putBlob_ok s.blobs (hashBytes c) c hh
        refine ⟨rfl, fun commit hd => ?_⟩
        simp only [writeBlob, hput, hd] at hw
        have hres := (Prod.mk.inj hw).1
        cases hc : commit (hashBytes c) with
        | error e => rw [hc] at hres; cases hres
        | ok u => rfl
      · obtain ⟨e, b, hput, -⟩ :=
          MapBackend.putBlob_fail s.blobs (hashBytes c) ⟨c, none⟩ io (Or.inl hio)
        simp only [writeBlob, hput] at hw
        cases (Prod.mk.inj hw).1
    · rintro ⟨rfl, hcommit⟩
      obtain ⟨b, hput, -⟩ := MapBackend.putBlob_ok s.blobs (hashBytes c) c hh
      refine ⟨{ s with blobs := b }, ?_, rfl⟩
      simp only [writeBlob, hput]
      cases hd : s.cfg.durability with
      | none => rfl
      | some commit =>
        simp only [hcommit commit hd]
        rfl

theorem put_isOk_iff (s : CASStore β) (io : Option Err) (now : Int) (name c : Bytes) (size : Int) :
    (∃ read s', s.put io now name (hashBytes c) size [] (some ⟨c, none⟩) = (.ok read, s')) ↔
      s.PutAccepted io name c := by
  have hh := hasPathTraversalChars_hashBytes c
  constructor
  · rintro ⟨read, s', h⟩
    obtain ⟨-, hw, -, -⟩ := put_ok h
    refine ⟨hw.nameOk.1, hw.nameLen, (storeContent_isOk_iff s io c).mp ?_⟩
    unfold put putWithMetadata at h
    rw [hh] at h
    simp only [Bool.false_eq_true, if_false] at h
    obtain ⟨res, b, hstep, hcase⟩ := storeContent_cases s hh (some ⟨c, none⟩) io
    rw [hstep] at h
    rcases hcase with ⟨e, rfl, -⟩ | ⟨hread, -⟩
    · cases (Prod.mk.inj h).1
    · cases res with
      | error e => cases (Prod.mk.inj h).1
      | ok d =>
        obtain rfl : d = c := (hread _ rfl).2 d rfl
        exact ⟨_, hstep, rfl⟩
  · rintro ⟨hn, hlen, hbytes⟩
    obtain ⟨s', hstep, hdb⟩ := (storeContent_isOk_iff s io c).mpr hbytes
    have hk : KeyOk name := ⟨hn, hlen.trans (by decide)⟩
    obtain ⟨db', htx⟩ : ∃ db', putTx now name (hashBytes c) size [] {} s'.db = .ok db' :=
      ⟨_, putTx_eq_ok.mpr ⟨hk, keyOk_hashBytes c, s'.db.paths, hlen, rfl, rfl⟩⟩
    refine ⟨c, { s' with db := db' }, ?_⟩
    simp only [put, putWithMetadata, hh, Bool.false_eq_true, if_false, hstep, htx]

end CASStore

namespace S3

/-! ### Answers that are errors -/

theorem putRefused_isError (e : Err) : (putRefused e).isError = true := by
  unfold putRefused
  split_ifs <;> rfl

theorem lockRefused_isError (key : Bytes) (e : Err) : (lockRefused key e).isError = true := by
  unfold lockRefused
  split_ifs <;> rfl

/-! ### Locking the new version -/

section Locks

variable {β : Type}

variable {env : CompleteEnv} {s : CASStore β} {bucket key vid : Bytes} {lock : ObjectLockState}

theorem lockVersion_available (h : env.lock = true) :
    (∃ s', lockVersion env s bucket key vid lock = (.ok (), s')) ↔
      ∃ s', s.putVersionLock bucket key vid env.now ⟨some lock.mode, lock.retainUntil, lock.legalHoldOn⟩
        false = (.ok (), s') := by
  unfold lockVersion
  rw [if_neg (by simp [h])]
  rcases s.putVersionLock bucket key vid env.now ⟨some lock.mode, lock.retainUntil, lock.legalHoldOn⟩
    false with ⟨res, s'⟩
  cases res <;> simp

variable {s' : CASStore β}

theorem lockVersion_isError {reply : MultipartReply}
    (h : lockVersion env s bucket key vid lock = (.error reply, s')) : reply.isError = true := by
  unfold lockVersion at h
  split_ifs at h
  · obtain ⟨h, -⟩ := Prod.mk.inj h
    obtain rfl := Except.error.inj h
    rfl
  · split at h
    · obtain ⟨h, -⟩ := Prod.mk.inj h
      obtain rfl := Except.error.inj h
      exact lockRefused_isError ..
    · cases (Prod.mk.inj h).1

theorem putVersionLock_isOk_iff {now : Int} {r : VersionRecord} (hb : bucket ≠ []) (hkey : key ≠ [])
    (hr : s.db.objectVersions.get (versionKey bucket key vid) = some r) (hvid : vid ≠ []) :
    (∃ s', s.putVersionLock bucket key vid now ⟨some lock.mode, lock.retainUntil, lock.legalHoldOn⟩
        false = (.ok (), s')) ↔
      (lock.mode ≠ .unset → 0 < lock.retainUntil) ∧
        checkLockTighten now ((s.db.lockState.get (versionKey bucket key vid)).getD {}) lock false =
          .ok () := by
  have hk : KeyOk (versionKey bucket key vid) := Bucket.keyOk_of_get hr
  have hval : validateLockState ⟨some lock.mode, lock.retainUntil, lock.legalHoldOn⟩ =
      if lock.mode ≠ .unset ∧ lock.retainUntil ≤ 0 then .error (.sys .einval) else .ok lock := rfl
  constructor
  · rintro ⟨s', h⟩
    rcases CASStore.mutateVersionLock_cases s bucket key vid now false
        (fun _ => ⟨some lock.mode, lock.retainUntil, lock.legalHoldOn⟩) with
      ⟨e, he⟩ | ⟨existing, next, locks, rfl, hnext, htight, -, -⟩
    · rw [CASStore.putVersionLock, he] at h
      cases (Prod.mk.inj h).1
    · rw [hval] at hnext
      split_ifs at hnext with hmode
      obtain rfl := Except.ok.inj hnext
      exact ⟨fun hm => not_le.mp (fun hle => hmode ⟨hm, hle⟩), htight⟩
  · rintro ⟨hdeadline, htight⟩
    rw [if_neg (fun h => absurd (hdeadline h.1) (not_lt.mpr h.2))] at hval
    unfold CASStore.putVersionLock CASStore.mutateVersionLock
    simp only [hb, hkey, hvid, or_self, if_false, hr, reduceCtorEq, and_false, hval, bind, Except.bind,
      htight, Bucket.put_of_keyOk _ hk]
    exact ⟨_, rfl⟩

variable [Sha256]

def completedRecord (env : CompleteEnv) (data vid : Bytes) : VersionRecord :=
  { versionID := vid, hash := hashBytes data, size := data.length, timestamp := env.clock,
    isLatest := true }

/-- A lock that is asked for can be set: the gateway has locks, a version is recorded to carry it,
    and the state passes the store's two checks. -/
structure LockAccepted (env : CompleteEnv) (s : CASStore β) (req : CompleteRequest) (data : Bytes)
    (lock : ObjectLockState) : Prop where
  available : env.lock = true
  versioned : env.versioning = true ∧ env.versionedAtRecord = .ok true
  bucket : req.bucket ≠ []
  deadline : lock.mode ≠ .unset → 0 < lock.retainUntil
  recorded : ∃ vid, env.newVersionID = .ok vid ∧ vid ≠ [] ∧
    (∃ versions, putVersion "CASStore.RecordVersion" s.db.objectVersions req.bucket req.key
      (completedRecord env data vid) = .ok versions) ∧
    checkLockTighten env.now ((s.db.lockState.get (versionKey req.bucket req.key vid)).getD {}) lock
      false = .ok ()

def Recorded (env : CompleteEnv) (s : CASStore β) (req : CompleteRequest) (data vid : Bytes)
    (versions : Bucket VersionRecord) : Prop :=
  (env.versioning = true ∧ env.versionedAtRecord = .ok true) ∧ env.newVersionID = .ok vid ∧
    putVersion "CASStore.RecordVersion" s.db.objectVersions req.bucket req.key
      (completedRecord env data vid) = .ok versions

theorem recordMultipartVersion_cases (env : CompleteEnv) (s : CASStore β) (req : CompleteRequest)
    (data : Bytes) :
    (∃ vid versions, Recorded env s req data vid versions ∧
      recordMultipartVersion env s req.bucket req.key (hashBytes data) data.length =
        (vid, s.withVersions versions)) ∨
    ((∀ vid versions, ¬ Recorded env s req data vid versions) ∧
      recordMultipartVersion env s req.bucket req.key (hashBytes data) data.length = ([], s)) := by
  unfold recordMultipartVersion
  by_cases hv : env.versioning = true ∧ env.versionedAtRecord = .ok true
  · rw [if_pos hv]
    cases hid : env.newVersionID with
    | error e =>
      refine Or.inr ⟨fun vid versions h => ?_, rfl⟩
      cases hid.symm.trans h.2.1
    | ok vid =>
      simp only [CASStore.recordVersion, CASStore.updateVersions]
      cases hput : putVersion "CASStore.RecordVersion" s.db.objectVersions req.bucket req.key
          (completedRecord env data vid) with
      | error e =>
        refine Or.inr ⟨fun vid' versions h => ?_, ?_⟩
        · obtain rfl := Except.ok.inj (hid.symm.trans h.2.1)
          cases hput.symm.trans h.2.2
        · unfold completedRecord at hput
          simp only [hput]
      | ok versions =>
        refine Or.inl ⟨vid, versions, ⟨hv, hid, hput⟩, ?_⟩
        unfold completedRecord at hput
        simp only [hput]
  · rw [if_neg hv]
    exact Or.inr ⟨fun vid versions h => hv h.1, rfl⟩

theorem lockVersion_isOk_iff {req : CompleteRequest} {data : Bytes} (hkey : req.key ≠ [])
    (hrec : recordMultipartVersion env s req.bucket req.key (hashBytes data) data.length = (vid, s'))
     :
    (∃ s'', lockVersion env s' req.bucket req.key vid lock = (.ok (), s'')) ↔
      LockAccepted env s req data lock := by
  by_cases hlock : env.lock = false
  · constructor
    · rintro ⟨s'', h⟩
      rw [lockVersion, if_pos hlock] at h
      cases (Prod.mk.inj h).1
    · intro h
      cases hlock.symm.trans h.available
  · have hlock : env.lock = true := by simpa using hlock
    rw [lockVersion_available hlock]
    rcases recordMultipartVersion_cases env s req data with ⟨vid', versions, hr, heq⟩ | ⟨hno, heq⟩
    · obtain ⟨rfl, rfl⟩ := Prod.mk.inj (heq.symm.trans hrec)
      obtain ⟨hversioned, hid, hput⟩ := hr
      by_cases hempty : req.bucket = [] ∨ vid' = []
      · constructor
        · rintro ⟨s'', h⟩
          rw [CASStore.putVersionLock, CASStore.mutateVersionLock, if_pos (by tauto)] at h
          cases (Prod.mk.inj h).1
        · intro h
          obtain ⟨vid, hid', hvid, -⟩ := h.recorded
          obtain rfl := Except.ok.inj (hid.symm.trans hid')
          exact absurd hempty (not_or.mpr ⟨h.bucket, hvid⟩)
      · obtain ⟨hb, hvid⟩ := not_or.mp hempty
        obtain ⟨found, -, hget⟩ := putVersion_ok hput
        have hrecord : (s.withVersions versions).db.objectVersions.get
            (versionKey req.bucket req.key vid') = some (completedRecord env data vid') := by
          rw [CASStore.withVersions, hget, completedRecord, if_pos rfl]
        rw [putVersionLock_isOk_iff hb hkey hrecord hvid]
        constructor
        · rintro ⟨hdeadline, htight⟩
          exact ⟨hlock, hversioned, hb, hdeadline, vid', hid, hvid, ⟨versions, hput⟩, htight⟩
        · intro h
          obtain ⟨vid, hid', -, -, htight⟩ := h.recorded
          obtain rfl := Except.ok.inj (hid.symm.trans hid')
          exact ⟨h.deadline, htight⟩
    · obtain ⟨rfl, rfl⟩ := Prod.mk.inj (heq.symm.trans hrec)
      constructor
      · rintro ⟨s'', h⟩
        rw [CASStore.putVersionLock, CASStore.mutateVersionLock, if_pos (by simp)] at h
        cases (Prod.mk.inj h).1
      · intro h
        obtain ⟨vid, hid, -, ⟨versions, hput⟩, -⟩ := h.recorded
        exact absurd ⟨h.versioned, hid, hput⟩ (hno vid versions)

theorem LockAccepted.congr {req : CompleteRequest} {data : Bytes}
    (hversions : s'.db.objectVersions = s.db.objectVersions)
    (hlocks : s'.db.lockState = s.db.lockState) (h : LockAccepted env s req data lock) :
    LockAccepted env s' req data lock :=
  ⟨h.available, h.versioned, h.bucket, h.deadline, by rw [hversions, hlocks]; exact h.recorded⟩

end Locks

/-! ### The two gates of the headers -/

section Gates

variable [GoText]

theorem multipartLockHeaders_cases (env : CompleteEnv) (req : CompleteRequest) :
    (∃ reply, multipartLockHeaders env req = .error reply ∧ reply.isError = true ∧
      ∀ lock, parseS3LockHeaders req = .ok lock →
        lockRequested lock = true ∧ ¬ (env.versioning = true ∧ env.versionedAtGate = .ok true)) ∨
    ∃ lock, parseS3LockHeaders req = .ok lock ∧
      (lockRequested lock = true → env.versioning = true ∧ env.versionedAtGate = .ok true) ∧
      multipartLockHeaders env req = .ok (if lockRequested lock then some lock else none) := by
  unfold multipartLockHeaders
  cases hparse : parseS3LockHeaders req with
  | error e => exact Or.inl ⟨_, rfl, rfl, fun lock h => by cases h⟩
  | ok lock =>
    simp only
    cases hreq : lockRequested lock with
    | false => exact Or.inr ⟨lock, rfl, by simp [hreq], by simp [hreq]⟩
    | true =>
      by_cases hv : env.versioning = true ∧ env.versionedAtGate = .ok true
      · exact Or.inr ⟨lock, rfl, fun _ => hv, by simp [hreq, hv]⟩
      · refine Or.inl ⟨_, by rw [if_neg (by simp), if_neg hv], rfl, fun lock' h => ?_⟩
        obtain rfl := Except.ok.inj h
        exact ⟨hreq, hv⟩

variable [Checksums] [HeadersJSON]

def ChecksumAccepted (req : CompleteRequest) (data : Bytes) : Prop :=
  ∃ algo expected, parseChecksum req = .ok (algo, expected) ∧
    ∀ a, algo = some a → expected ≠ [] → Checksums.sum a data = expected

theorem verifyMultipartChecksum_cases (env : CompleteEnv) (s3meta : Bucket Bytes)
    (req : CompleteRequest) (data : Bytes) :
    (∃ reply, verifyMultipartChecksum env s3meta req data = .error reply ∧ reply.isError = true ∧
      ¬ ChecksumAccepted req data) ∨
    ∃ s3meta', verifyMultipartChecksum env s3meta req data = .ok s3meta' ∧
      ChecksumAccepted req data := by
  unfold verifyMultipartChecksum
  cases hparse : parseChecksum req with
  | error e =>
    refine Or.inl ⟨_, rfl, rfl, ?_⟩
    rintro ⟨algo, expected, h, -⟩
    cases hparse.symm.trans h
  | ok found =>
    obtain ⟨algo, expected⟩ := found
    cases algo with
    | none => exact Or.inr ⟨_, rfl, none, expected, hparse, fun a h => by cases h⟩
    | some a =>
      simp only
      by_cases hbad : expected ≠ [] ∧ Checksums.sum a data ≠ expected
      · refine Or.inl ⟨_, by rw [if_pos hbad], rfl, ?_⟩
        rintro ⟨algo, expected', h, hsum⟩
        obtain ⟨rfl, rfl⟩ := Prod.mk.inj (Except.ok.inj (hparse.symm.trans h))
        exact hbad.2 (hsum a rfl hbad.1)
      · rw [if_neg hbad]
        have haccepted : ChecksumAccepted req data := by
          refine ⟨some a, expected, hparse, ?_⟩
          rintro a' ⟨⟩ hne
          by_contra hsum
          exact hbad ⟨hne, hsum⟩
        split_ifs
        · exact Or.inr ⟨_, rfl, haccepted⟩
        · exact Or.inr ⟨_, rfl, haccepted⟩

end Gates

/-! ### When a completion succeeds -/

section Completion

variable {β : Type} [Sha256] [BlobStore β] [MapBackend β]

theorem storeAssembled_completed_iff (env : CompleteEnv) (st : State β) (req : CompleteRequest)
    (data : Bytes) (lockState : Option ObjectLockState) :
    (storeAssembled env st req data lockState).1.isError = false ↔
      env.attached = true ∧ st.store.PutAccepted env.io req.key data ∧
        ∀ lock, lockState = some lock → LockAccepted env st.store req data lock := by
  have hput := CASStore.put_isOk_iff st.store env.io env.clock req.key data data.length
  unfold storeAssembled
  by_cases hatt : env.attached = false
  · simp [hatt, MultipartReply.isError]
  · rw [if_neg hatt]
    have hatt : env.attached = true := by simpa using hatt
    cases hres : st.store.put env.io env.clock req.key (hashBytes data) data.length []
        (some ⟨data, none⟩) with
    | mk res s' =>
      cases res with
      | error e =>
        simp only [putRefused_isError, Bool.true_eq_false, false_iff]
        rintro ⟨-, haccepted, -⟩
        obtain ⟨read, s'', hok⟩ := hput.mpr haccepted
        cases hres.symm.trans hok
      | ok read =>
        have haccepted := hput.mp ⟨read, s', hres⟩
        obtain ⟨-, hw, -, -⟩ := CASStore.put_ok hres
        cases lockState with
        | none => simp [MultipartReply.isError, hatt, haccepted]
        | some lock =>
          simp only [hatt, haccepted, true_and, Option.some.injEq, forall_eq']
          cases hrec : recordMultipartVersion env s' req.bucket req.key (hashBytes data) data.length with
          | mk vid s'' =>
            have hiff : (∃ s₃, lockVersion env s'' req.bucket req.key vid lock = (.ok (), s₃)) ↔
                LockAccepted env st.store req data lock :=
              (lockVersion_isOk_iff hw.nameOk.1 hrec).trans
                ⟨.congr hw.objectVersions.symm hw.lockState.symm,
                  .congr hw.objectVersions hw.lockState⟩
            rw [← hiff]
            simp only
            rcases hlock : lockVersion env s'' req.bucket req.key vid lock with ⟨res, s₃⟩
            cases res with
            | error reply => simp [lockVersion_isError hlock]
            | ok u => simp [MultipartReply.isError]

variable [GoText] [Checksums] [HeadersJSON]

def HeadersAccepted (env : CompleteEnv) (s : CASStore β) (req : CompleteRequest) (data : Bytes) :
    Prop :=
  ∃ lock, parseS3LockHeaders req = .ok lock ∧
    (lockRequested lock = true → (env.versioning = true ∧ env.versionedAtGate = .ok true) ∧
      LockAccepted env s req data lock)

structure Completes (env : CompleteEnv) (s : CASStore β) (req : CompleteRequest) (data : Bytes) :
    Prop where
  headers : HeadersAccepted env s req data
  checksum : ChecksumAccepted req data
  attached : env.attached = true
  put : s.PutAccepted env.io req.key data

theorem completed_iff (sorter : PartSort Part Part.partNumber) (env : CompleteEnv) (st : State β)
    (req : CompleteRequest) {up : Upload}
    (hup : session st req.uploadId req.bucket req.key = some up) :
    (handleCompleteMultipartUpload sorter env st req).1.isError = false ↔
      Completes env st.store req (assembled sorter up) := by
  unfold handleCompleteMultipartUpload
  simp only [hup]
  rcases multipartLockHeaders_cases env req with ⟨reply, heq, herr, hno⟩ | ⟨lock, hparse, hgate, heq⟩
  · simp only [heq, herr, Bool.true_eq_false, false_iff]
    rintro ⟨⟨lock, hparse, hlock⟩, -, -, -⟩
    obtain ⟨hreq, hv⟩ := hno lock hparse
    exact hv (hlock hreq).1
  · simp only [heq]
    rcases verifyMultipartChecksum_cases env st.s3meta req (assembled sorter up) with
      ⟨reply, hsum, herr, hno⟩ | ⟨s3meta, hsum, haccepted⟩
    · simp only [hsum, herr, Bool.true_eq_false, false_iff]
      exact fun h => hno h.checksum
    · simp only [hsum]
      rw [storeAssembled_completed_iff]
      constructor
      · rintro ⟨hatt, hput, hlock⟩
        refine ⟨⟨lock, hparse, fun hreq => ⟨hgate hreq, hlock lock ?_⟩⟩, haccepted, hatt, hput⟩
        rw [if_pos hreq]
      · rintro ⟨⟨lock', hparse', hlock⟩, -, hatt, hput⟩
        obtain rfl := Except.ok.inj (hparse.symm.trans hparse')
        refine ⟨hatt, hput, fun l hl => ?_⟩
        split_ifs at hl with hreq
        obtain rfl := Option.some.inj hl
        exact (hlock hreq).2

/-! ### What a failure leaves -/

def contentOf (s : CASStore β) (key : Bytes) : Option Bytes :=
  match s.getHashForName key with
  | .ok h => s.bytes h
  | .error _ => none

/-- A completion that is answered with an error leaves the session, the object and its S3
    metadata. -/
def FailureKeeps (sorter : PartSort Part Part.partNumber) (env : CompleteEnv) (st : State β)
    (req : CompleteRequest) : Prop :=
  (handleCompleteMultipartUpload sorter env st req).1.isError = true →
    let st' := (handleCompleteMultipartUpload sorter env st req).2
    st'.uploads.get req.uploadId = st.uploads.get req.uploadId ∧
      contentOf st'.store req.key = contentOf st.store req.key ∧
      st'.s3meta.get req.key = st.s3meta.get req.key

instance (sorter : PartSort Part Part.partNumber) (env : CompleteEnv) (st : State β)
    (req : CompleteRequest) : Decidable (FailureKeeps sorter env st req) :=
  inferInstanceAs (Decidable (_ → _ ∧ _ ∧ _))

omit [MapBackend β] in
theorem session_taken (sorter : PartSort Part Part.partNumber) (env : CompleteEnv) (st : State β)
    (req : CompleteRequest) {up : Upload}
    (hup : session st req.uploadId req.bucket req.key = some up) :
    (handleCompleteMultipartUpload sorter env st req).2.uploads.get req.uploadId = none := by
  have hstored : ∀ (st : State β) data lock,
      (storeAssembled env st req data lock).2.uploads = st.uploads := by
    intro st data lock
    unfold storeAssembled
    split_ifs
    · rfl
    · split
      · rfl
      · dsimp only
        split
        · rfl
        · split <;> rfl
  unfold handleCompleteMultipartUpload
  simp only [hup]
  split
  · exact OMap.get_del_self ..
  · split
    · exact OMap.get_del_self ..
    · rw [hstored]
      exact OMap.get_del_self ..

/-- CORRECT: a failure keeps everything exactly when there is no session to lose: if the session is
    there, the request must complete. -/
theorem failure_keeps_iff (sorter : PartSort Part Part.partNumber) (env : CompleteEnv) (st : State β)
    (req : CompleteRequest) :
    FailureKeeps sorter env st req ↔
      ∀ up, session st req.uploadId req.bucket req.key = some up →
        Completes env st.store req (assembled sorter up) := by
  constructor
  · intro hkeeps up hup
    rw [← completed_iff sorter env st req hup]
    by_contra herr
    have hsame := (hkeeps (by simpa using herr)).1
    rw [session_taken sorter env st req hup, eq_comm] at hsame
    rw [session, hsame] at hup
    cases hup
  · intro hcompletes herr
    cases hup : session st req.uploadId req.bucket req.key with
    | none =>
      unfold handleCompleteMultipartUpload
      simp only [hup, and_self]
    | some up =>
      have hok := (completed_iff sorter env st req hup).mpr (hcompletes up hup)
      rw [hok] at herr
      cases herr

end Completion

/-! ### What a completion stores -/

section Stored

variable {β : Type} [Sha256]

def acceptedParts (uploadId bucket key : Bytes) (reqs : List UploadPartRequest) : List Part :=
  reqs.filterMap fun r =>
    if r.uploadId = uploadId ∧ r.bucket = bucket ∧ r.key = key then r.part.toOption else none

def numbered (p : Part) : Int × Bytes := (p.partNumber, p.data)

def latestContent (parts : List Part) : Bytes :=
  LastWrite.text (LastWrite.collect (parts.map numbered)).entries

def uploadStep (st : State β) (r : UploadPartRequest) : State β := (handleUploadPart st r).2

theorem uploadStep_spec (st : State β) (r : UploadPartRequest) {uploadId bucket key : Bytes}
    {parts : List Part} (h : st.uploads.get uploadId = some ⟨bucket, key, parts⟩) :
    (uploadStep st r).uploads.get uploadId =
        some ⟨bucket, key, parts ++ acceptedParts uploadId bucket key [r]⟩ ∧
      (uploadStep st r).store = st.store := by
  unfold uploadStep handleUploadPart acceptedParts
  cases hpart : r.part with
  | error reply => simp [h, hpart, Except.toOption]
  | ok part =>
    simp only
    cases hup : session st r.uploadId r.bucket r.key with
    | none =>
      have hno : ¬ (r.uploadId = uploadId ∧ r.bucket = bucket ∧ r.key = key) := by
        rintro ⟨rfl, rfl, rfl⟩
        simp [session, h] at hup
      simp [h, hno]
    | some up =>
      by_cases hsame : r.uploadId = uploadId ∧ r.bucket = bucket ∧ r.key = key
      · obtain ⟨rfl, rfl, rfl⟩ := hsame
        obtain ⟨rfl, -⟩ : (⟨r.bucket, r.key, parts⟩ : Upload) = up ∧
            up.bucket = r.bucket ∧ up.key = r.key := by simpa [session, h] using hup
        simp [hpart, Except.toOption]
      · have hne : uploadId ≠ r.uploadId := by
          rintro rfl
          simp only [session, h, Option.filter_some] at hup
          split_ifs at hup with hb
          simp only [decide_eq_true_eq] at hb
          exact hsame ⟨rfl, hb.1.symm, hb.2.symm⟩
        simp [hsame, OMap.get_put_ne _ _ hne, h]

theorem uploads_run (st : State β) (reqs : List UploadPartRequest) {uploadId bucket key : Bytes}
    {parts : List Part} (h : st.uploads.get uploadId = some ⟨bucket, key, parts⟩) :
    (run uploadStep st reqs).uploads.get uploadId =
        some ⟨bucket, key, parts ++ acceptedParts uploadId bucket key reqs⟩ ∧
      (run uploadStep st reqs).store = st.store := by
  induction reqs generalizing st parts with
  | nil => simpa [acceptedParts] using h
  | cons r reqs ih =>
    obtain ⟨hget, hstore⟩ := uploadStep_spec st r h
    obtain ⟨hrun, hrunStore⟩ := ih (uploadStep st r) hget
    rw [run_cons]
    refine ⟨?_, hrunStore.trans hstore⟩
    rw [hrun, List.append_assoc, acceptedParts, acceptedParts, ← List.filterMap_append]
    rfl

omit [Sha256] in
theorem assembled_eq_latest_iff (sorter : PartSort Part Part.partNumber) (up : Upload) :
    assembled sorter up = latestContent up.parts ↔ LastWrite.OnlyLatest (up.parts.map numbered) := by
  have hperm := (sorter.perm up.parts).map numbered
  have hsorted : ((sorter.sort up.parts).map numbered).Pairwise (fun a b => a.1 ≤ b.1) :=
    List.pairwise_map.mpr (sorter.sorted up.parts)
  rw [← LastWrite.sorted_text_iff hperm hsorted, LastWrite.text, List.flatMap_map]
  rfl

variable [BlobStore β] [MapBackend β]

theorem contentOf_put {s s' : CASStore β} {io : Option Err} {now : Int} {key c read : Bytes} {size : Int}
    (hheld : s.Holds (hashBytes c) → s.bytes (hashBytes c) = some c)
    (h : s.put io now key (hashBytes c) size [] (some ⟨c, none⟩) = (.ok read, s')) :
    contentOf s' key = some c := by
  obtain ⟨-, hw, -, hbytes⟩ := CASStore.put_ok h
  have hname : s'.getHashForName key = .ok (hashBytes c) := by
    rw [CASStore.getHashForName, hw.tombstones, hw.ns, Bucket.get_del_self, Bucket.get_set_self]
  rw [contentOf, hname]
  change s'.bytes (hashBytes c) = some c
  rw [hbytes, CASStore.bytesAfter]
  split_ifs with hp
  · exact hheld hp
  · exact Function.update_self ..

theorem contentOf_record (env : CompleteEnv) (s : CASStore β) (req : CompleteRequest) (data key : Bytes) :
    contentOf (recordMultipartVersion env s req.bucket req.key (hashBytes data) data.length).2 key =
      contentOf s key := by
  rcases recordMultipartVersion_cases env s req data with ⟨vid, versions, -, heq⟩ | ⟨-, heq⟩
  · rw [heq]
    rfl
  · rw [heq]

omit [Sha256] in
theorem contentOf_lockVersion (env : CompleteEnv) (s : CASStore β) (bucket key vid name : Bytes)
    (lock : ObjectLockState) :
    contentOf (lockVersion env s bucket key vid lock).2 name = contentOf s name := by
  unfold lockVersion
  split_ifs
  · rfl
  · rcases CASStore.mutateVersionLock_cases s bucket key vid env.now false
        (fun _ => ⟨some lock.mode, lock.retainUntil, lock.legalHoldOn⟩) with
      ⟨e, he⟩ | ⟨existing, next, locks, -, -, -, -, heq⟩
    · rw [CASStore.putVersionLock, he]
    · rw [CASStore.putVersionLock, heq]
      rfl

theorem contentOf_storeAssembled {env : CompleteEnv} (st : State β) {st' : State β}
    {req : CompleteRequest}
    {data etag vid : Bytes} {lockState : Option ObjectLockState}
    (hheld : st.store.Holds (hashBytes data) → st.store.bytes (hashBytes data) = some data)
    (h : storeAssembled env st req data lockState = (.completed etag vid, st')) :
    contentOf st'.store req.key = some data := by
  unfold storeAssembled at h
  split_ifs at h
  · cases (Prod.mk.inj h).1
  split at h
  · next e s' _ =>
    have herr := putRefused_isError e
    rw [(Prod.mk.inj h).1] at herr
    cases herr
  · next read s' hput =>
    have hcontent := contentOf_put hheld hput
    have hrecord := contentOf_record env s' req data req.key
    rw [hcontent] at hrecord
    dsimp only at h
    split at h
    · obtain ⟨-, rfl⟩ := Prod.mk.inj h
      exact hrecord
    · next lock =>
      split at h
      · next reply s'' hlock =>
        have herr := lockVersion_isError hlock
        rw [(Prod.mk.inj h).1] at herr
        cases herr
      · next u s'' hlock =>
        obtain ⟨-, rfl⟩ := Prod.mk.inj h
        have hsame := contentOf_lockVersion env
          (recordMultipartVersion env s' req.bucket req.key (hashBytes data) data.length).2 req.bucket
          req.key (recordMultipartVersion env s' req.bucket req.key (hashBytes data) data.length).1
          req.key lock
        rw [hlock, hrecord] at hsame
        exact hsame

variable [GoText] [Checksums] [HeadersJSON]

theorem contentOf_completed {sorter : PartSort Part Part.partNumber} {env : CompleteEnv}
    {st st' : State β} {req : CompleteRequest} {up : Upload} {etag vid : Bytes}
    (hup : session st req.uploadId req.bucket req.key = some up)
    (hheld : st.store.Holds (hashBytes (assembled sorter up)) →
      st.store.bytes (hashBytes (assembled sorter up)) = some (assembled sorter up))
    (h : handleCompleteMultipartUpload sorter env st req = (.completed etag vid, st')) :
    contentOf st'.store req.key = some (assembled sorter up) := by
  unfold handleCompleteMultipartUpload at h
  simp only [hup] at h
  rcases multipartLockHeaders_cases env req with ⟨reply, heq, herr, -⟩ | ⟨lock, -, -, heq⟩
  · rw [heq] at h
    rw [(Prod.mk.inj h).1] at herr
    cases herr
  · rw [heq] at h
    rcases verifyMultipartChecksum_cases env st.s3meta req (assembled sorter up) with
      ⟨reply, hsum, herr, -⟩ | ⟨s3meta, hsum, -⟩
    · simp only [hsum] at h
      rw [(Prod.mk.inj h).1] at herr
      cases herr
    · simp only [hsum] at h
      exact contentOf_storeAssembled
        { st with uploads := st.uploads.del req.uploadId, s3meta := s3meta } hheld h

end Stored

/-! ### Concrete uploads -/

def insertionSorter : PartSort Part Part.partNumber where
  sort l := l.insertionSort (fun a b => a.partNumber ≤ b.partNumber)
  perm l := List.perm_insertionSort _ l
  sorted l := by
    have : Std.Total (fun a b : Part => a.partNumber ≤ b.partNumber) :=
      ⟨fun a b => le_total a.partNumber b.partNumber⟩
    have : IsTrans Part (fun a b => a.partNumber ≤ b.partNumber) :=
      ⟨fun _ _ _ => le_trans⟩
    exact List.pairwise_insertionSort _ l

@[reducible] def asciiText : GoText where
  toUpper v := v.map fun c => if 97 ≤ c ∧ c ≤ 122 then c - 32 else c
  toLower v := v.map fun c => if 65 ≤ c ∧ c ≤ 90 then c + 32 else c
  parseRFC3339 v := match v with
    | [d] => some (d.toNat - 48)
    | _ => none

def headersCode : Code (List (Bytes × Bytes)) := Code.list (Code.pair Code.bytes Code.bytes)

@[reducible] def sampleHeadersJSON : HeadersJSON where
  marshal m := headersCode.enc m.entries
  unmarshal v := (headersCode.dec v).map fun r => r.1.foldl (fun m e => m.put e.1 e.2) OMap.empty

section Runs

local instance multipartSha : Sha256 := polySha
local instance multipartText : GoText := asciiText
local instance multipartSums : Checksums := ⟨fun _ data => data⟩
local instance multipartJSON : HeadersJSON := sampleHeadersJSON

def openSession : State LocalBlobStore where
  uploads := OMap.empty.put [117] ⟨[98], [107], []⟩
  store := (CASStore.put (β := LocalBlobStore) { blobs := {} } none 0 [107] (hashBytes [122]) 1 []
    (some ⟨[122], none⟩)).2
  s3meta := Bucket.empty

def sendPart (n : Int) (data : Bytes) : UploadPartRequest := ⟨[98], [107], [117], some n, ⟨data, none⟩⟩

def replacedEmpty : List UploadPartRequest := [sendPart 1 [], sendPart 2 [121], sendPart 1 [120]]

def replacedPart : List UploadPartRequest := [sendPart 1 [97], sendPart 1 [98]]

def completion : CompleteRequest := { bucket := [98], key := [107], uploadId := [117] }

def onePart : State LocalBlobStore := uploadStep openSession (sendPart 1 [97])

def wrongChecksum : CompleteRequest := { completion with checksum := fun _ => [98] }

def fullDisk : CompleteEnv := { io := some (.sys .enospc) }

def computeChecksum : CompleteRequest := { completion with checksumAlgorithm := lit "SHA256" }

def withoutLocks : CompleteEnv :=
  { lock := false, versionedAtGate := .ok true, versionedAtRecord := .ok true, newVersionID := .ok [118] }

def holdCompletion : CompleteRequest := { completion with legalHold := lit "ON" }

/-- A wrong checksum costs the session; a full disk also leaves the checksum of bytes that were never
    stored; a refused lock comes when the object is already replaced. -/
theorem failed_completion_loses :
    (¬ FailureKeeps insertionSorter {} onePart wrongChecksum ∧
      (handleCompleteMultipartUpload insertionSorter {} onePart wrongChecksum).2.uploads.get [117] =
        none) ∧
    (¬ FailureKeeps insertionSorter fullDisk onePart computeChecksum ∧
      (handleCompleteMultipartUpload insertionSorter fullDisk onePart computeChecksum).2.s3meta.get
        [107] ≠ onePart.s3meta.get [107]) ∧
    (¬ FailureKeeps insertionSorter withoutLocks onePart holdCompletion ∧
      contentOf (handleCompleteMultipartUpload insertionSorter withoutLocks onePart
        holdCompletion).2.store [107] = some [97] ∧
      contentOf onePart.store [107] = some [122]) :=
  ⟨by decide +kernel, by decide +kernel, by decide +kernel⟩

end Runs

end S3

end Momo
