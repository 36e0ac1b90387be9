import Momo.Schemes.LastWrite
import Momo.Storage.ObjectLock
import Momo.Transport.S3Delete

/-! @momo src/transport/s3_communicator.go, src/transport/s3_objectlock.go,
    src/storage/storage.go | scheme:sessions over the store's operations

    Multipart uploads at the S3 gateway. A session collects parts; CompleteMultipartUpload takes the
    session out of the table before its first check. -/

namespace Momo.S3

/-! ### What the standard library computes -/

class GoText where
  toUpper : Bytes → Bytes
  toLower : Bytes → Bytes
  parseRFC3339 : Bytes → Option Int

inductive ChecksumAlgo
  | crc32c | crc32 | sha1 | sha256
  deriving DecidableEq

def ChecksumAlgo.name : ChecksumAlgo → Bytes
  | .crc32c => lit "crc32c"
  | .crc32 => lit "crc32"
  | .sha1 => lit "sha1"
  | .sha256 => lit "sha256"

def ChecksumAlgo.all : List ChecksumAlgo := [.crc32c, .crc32, .sha1, .sha256]

/-- The base64 text of each digest. -/
class Checksums where
  sum : ChecksumAlgo → Bytes → Bytes

abbrev Headers := OMap Bytes Bytes

class HeadersJSON where
  marshal : Headers → Bytes
  unmarshal : Bytes → Option Headers

/-- `sort.Slice` by part number. It is not stable: parts of one number come out in some order. -/
structure PartSort (P : Type) (number : P → Int) where
  sort : List P → List P
  perm : ∀ l, (sort l).Perm l
  sorted : ∀ l, (sort l).Pairwise (fun a b => number a ≤ number b)

/-! ### Sessions -/

structure Part where
  partNumber : Int
  etag : Bytes
  data : Bytes
  deriving DecidableEq

structure Upload where
  bucket : Bytes
  key : Bytes
  parts : List Part := []
  deriving DecidableEq

structure State (β : Type) where
  uploads : OMap Bytes Upload := OMap.empty
  store : CASStore β
  s3meta : Bucket Bytes := Bucket.empty

inductive MultipartReply
  | initiated (uploadID : Bytes)
  | partStored (etag : Bytes)
  | completed (etag versionID : Bytes)
  | aborted
  /-- The message may end in the text of a cause. -/
  | s3Error (status : ℕ) (code : String) (message : String) (resource : Bytes)
      (cause : Option Err := none)
  deriving DecidableEq

def MultipartReply.isError : MultipartReply → Bool
  | .s3Error .. => true
  | _ => false

def noSuchUpload : MultipartReply :=
  .s3Error 404 "NoSuchUpload" "The specified upload does not exist." []

section Sessions

variable {β : Type}

def session (st : State β) (uploadId bucket key : Bytes) : Option Upload :=
  (st.uploads.get uploadId).filter fun up => up.bucket = bucket ∧ up.key = key

def handleCreateMultipartUpload (st : State β) (uploadID bucket key : Bytes) :
    MultipartReply × State β :=
  (.initiated uploadID, { st with uploads := st.uploads.put uploadID ⟨bucket, key, []⟩ })

/-- UploadPart: the part number is what `strconv.Atoi` makes of the query. -/
structure UploadPartRequest where
  bucket : Bytes
  key : Bytes
  uploadId : Bytes
  partNumber : Option Int
  body : Reader

def UploadPartRequest.part [Sha256] (req : UploadPartRequest) : Except MultipartReply Part :=
  match req.partNumber with
  | none => .error (.s3Error 400 "InvalidArgument" "Part number must be a positive integer." [])
  | some n =>
    if n < 1 then .error (.s3Error 400 "InvalidArgument" "Part number must be a positive integer." [])
    else
      let body := req.body.limit (5 * 2 ^ 30)
      match body.fault with
      | some _ => .error (.s3Error 500 "InternalError" "Failed to read part body." [])
      | none => .ok ⟨n, hashBytes body.data, body.data⟩

def handleUploadPart [Sha256] (st : State β) (req : UploadPartRequest) : MultipartReply × State β :=
  match req.part with
  | .error reply => (reply, st)
  | .ok part =>
    match session st req.uploadId req.bucket req.key with
    | none => (noSuchUpload, st)
    | some up =>
      (.partStored part.etag,
        { st with uploads := st.uploads.put req.uploadId { up with parts := up.parts ++ [part] } })

def handleAbortMultipartUpload (st : State β) (uploadID : Bytes) : MultipartReply × State β :=
  (.aborted, { st with uploads := st.uploads.del uploadID })

end Sessions

/-! ### Headers of a completion -/

structure CompleteRequest where
  bucket : Bytes
  key : Bytes
  uploadId : Bytes
  lockMode : Bytes := []
  retainUntilDate : Bytes := []
  legalHold : Bytes := []
  checksum : ChecksumAlgo → Bytes := fun _ => []
  checksumAlgorithm : Bytes := []

section Headers

variable [GoText]

def parseLockMode (v : Bytes) : Except Err LockMode :=
  if v = [] then .ok .unset
  else if GoText.toUpper v = lit "COMPLIANCE" then .ok .COMPLIANCE
  else if GoText.toUpper v = lit "GOVERNANCE" then .ok .GOVERNANCE
  else .error (.sys .einval)

/-- The deadline of `X-Amz-Object-Lock-Retain-Until-Date`. -/
def parseRetainUntil (v : Bytes) : Except Err Int :=
  if v = [] then .ok 0
  else match GoText.parseRFC3339 (trimSpace v) with
    | none => .error (.sys .einval)
    | some t => .ok t

def parseLegalHold (v : Bytes) : Except Err Bool :=
  if v = [] then .ok false
  else if GoText.toUpper v = lit "ON" then .ok true
  else if GoText.toUpper v = lit "OFF" then .ok false
  else .error (.sys .einval)

def parseS3LockHeaders (req : CompleteRequest) : Except Err ObjectLockState := do
  let mode ← parseLockMode req.lockMode
  let retainUntil ← parseRetainUntil req.retainUntilDate
  let legalHoldOn ← parseLegalHold req.legalHold
  .ok ⟨mode, retainUntil, legalHoldOn⟩

def lockRequested (st : ObjectLockState) : Bool :=
  st.mode ≠ .unset || 0 < st.retainUntil || st.legalHoldOn

def normalizeChecksumAlgorithm (v : Bytes) : Option ChecksumAlgo :=
  ChecksumAlgo.all.find? fun a => a.name = GoText.toLower (trimSpace v)

/-- The algorithm, if there is one, and the value to compare with. -/
def parseChecksum (req : CompleteRequest) : Except Err (Option ChecksumAlgo × Bytes) :=
  let found := ChecksumAlgo.all.find? fun a => req.checksum a ≠ []
  let expected := (found.map req.checksum).getD []
  if req.checksumAlgorithm = [] then .ok (found, expected)
  else match normalizeChecksumAlgorithm req.checksumAlgorithm with
    | none => .error (.text "unsupported checksum algorithm %q" [.str req.checksumAlgorithm])
    | some e =>
      match found with
      | none => .ok (some e, expected)
      | some a =>
        if a = e then .ok (some e, expected)
        else .error (.text "conflicting checksum algorithm %q vs %q"
          [.str req.checksumAlgorithm, .str a.name])

end Headers

/-! ### S3 metadata -/

section Metadata

variable [HeadersJSON]

def maxS3MetaJSONBytes : ℕ := 8192

def getS3Meta (s3meta : Bucket Bytes) (name : Bytes) : Option Headers :=
  (s3meta.get name).bind fun data =>
    if data = [] then none
    else if maxS3MetaJSONBytes < data.length then none
    else HeadersJSON.unmarshal data

def putS3Meta (s3meta : Bucket Bytes) (name : Bytes) (headers : Headers) (fault : Option Err) :
    Except Err (Bucket Bytes) :=
  if headers.entries = [] then .ok s3meta
  else
    let data := HeadersJSON.marshal headers
    if maxS3MetaJSONBytes < data.length then
      .error (.wrap "S3 header payload exceeds %d bytes: %w" [.num maxS3MetaJSONBytes]
        (.sys .eoverflow))
    else match fault with
      | some e => .error e
      | none => s3meta.put name data

def mergeChecksum (existing : Option Headers) (algo : ChecksumAlgo) (value : Bytes) : Headers :=
  let own : Headers := (OMap.empty.put (lit "x-amz-checksum-" ++ algo.name) value).put
    (lit "x-amz-checksum-algorithm") algo.name
  ((existing.getD OMap.empty).entries).foldl
    (fun m e => if (m.get e.1).isSome then m else m.put e.1 e.2) own

def persistS3Checksum (s3meta : Bucket Bytes) (key : Bytes) (algo : ChecksumAlgo) (value : Bytes)
    (fault : Option Err) : Bucket Bytes :=
  match putS3Meta s3meta key (mergeChecksum (getS3Meta s3meta key) algo value) fault with
  | .ok s3meta' => s3meta'
  | .error _ => s3meta

end Metadata

/-! ### CompleteMultipartUpload -/

/-- What a completion meets: the gateway's capabilities, what the views of the bucket's versioning
    say, the failures of the database and of the back end, the version id, and the clocks. -/
structure CompleteEnv where
  attached : Bool := true
  versioning : Bool := true
  lock : Bool := true
  versionedAtGate : Except Err Bool := .ok false
  versionedAtRecord : Except Err Bool := .ok false
  metaFault : Option Err := none
  io : Option Err := none
  newVersionID : Except Err Bytes := .ok []
  now : Int := 0
  clock : Int := 0

section Complete

variable {β : Type} [Sha256] [BlobStore β] [GoText] [Checksums] [HeadersJSON]

def multipartLockHeaders (env : CompleteEnv) (req : CompleteRequest) :
    Except MultipartReply (Option ObjectLockState) :=
  match parseS3LockHeaders req with
  | .error _ => .error (.s3Error 400 "InvalidArgument" "Invalid object lock header values." req.key)
  | .ok st =>
    if lockRequested st = false then .ok none
    else if env.versioning = true ∧ env.versionedAtGate = .ok true then .ok (some st)
    else .error (.s3Error 400 "InvalidRequest" "Object Lock headers require a versioned bucket." req.key)

def verifyMultipartChecksum (env : CompleteEnv) (s3meta : Bucket Bytes) (req : CompleteRequest)
    (data : Bytes) : Except MultipartReply (Bucket Bytes) :=
  match parseChecksum req with
  | .error e =>
    .error (.s3Error 400 "InvalidRequest" "Unsupported checksum algorithm: %v" [] (some e))
  | .ok (none, _) => .ok s3meta
  | .ok (some algo, expected) =>
    if expected ≠ [] ∧ Checksums.sum algo data ≠ expected then
      .error (.s3Error 400 "BadDigest"
        "The x-amz-checksum-* value you specified did not match the checksum we calculated." req.key)
    else if env.attached then
      .ok (persistS3Checksum s3meta req.key algo (Checksums.sum algo data) env.metaFault)
    else .ok s3meta

def recordMultipartVersion (env : CompleteEnv) (s : CASStore β) (bucket key hash : Bytes) (size : Int) :
    Bytes × CASStore β :=
  if env.versioning = true ∧ env.versionedAtRecord = .ok true then
    match env.newVersionID with
    | .error _ => ([], s)
    | .ok vid =>
      match s.recordVersion bucket key hash size vid env.clock with
      | (.error _, s') => ([], s')
      | (.ok _, s') => (vid, s')
  else ([], s)

/-- How `LockVersion` answers a refusal of the store. -/
def lockRefused (key : Bytes) (e : Err) : MultipartReply :=
  if e = .sys .enoent then
    .s3Error 404 "NoSuchVersion" "The version to lock does not exist." key
  else if e = .sys .eperm then
    .s3Error 403 "AccessDenied" "The requested object lock state change is not permitted." key
  else if e = .sys .einval then
    .s3Error 400 "InvalidArgument" "Invalid object lock header values." key
  else .s3Error 500 "InternalError" "Failed to store object lock state." key

def lockVersion (env : CompleteEnv) (s : CASStore β) (bucket key versionID : Bytes)
    (st : ObjectLockState) : Except MultipartReply Unit × CASStore β :=
  if env.lock = false then
    (.error (.s3Error 501 "NotImplemented"
      "Object Lock headers were supplied but object lock is not available." bucket), s)
  else
    match s.putVersionLock bucket key versionID env.now ⟨some st.mode, st.retainUntil, st.legalHoldOn⟩
        false with
    | (.error e, s') => (.error (lockRefused key e), s')
    | (.ok _, s') => (.ok (), s')

def putRefused (e : Err) : MultipartReply :=
  if e.is .enospc then
    .s3Error 507 "InsufficientStorage"
      "There is insufficient storage space to complete the request." []
  else .s3Error 500 "InternalError" "Failed to store assembled object." []

def assembled (sorter : PartSort Part Part.partNumber) (up : Upload) : Bytes :=
  (sorter.sort up.parts).flatMap Part.data

def storeAssembled (env : CompleteEnv) (st : State β) (req : CompleteRequest) (data : Bytes)
    (lockState : Option ObjectLockState) : MultipartReply × State β :=
  if env.attached = false then
    (.s3Error 500 "InternalError" "The storage store is not initialized." [], st)
  else
    match st.store.put env.io env.clock req.key (hashBytes data) data.length [] (some ⟨data, none⟩) with
    | (.error e, s') => (putRefused e, { st with store := s' })
    | (.ok _, s') =>
      let (versionID, s') := recordMultipartVersion env s' req.bucket req.key (hashBytes data) data.length
      match lockState with
      | none => (.completed (hashBytes data) versionID, { st with store := s' })
      | some lock =>
        match lockVersion env s' req.bucket req.key versionID lock with
        | (.error reply, s') => (reply, { st with store := s' })
        | (.ok _, s') => (.completed (hashBytes data) versionID, { st with store := s' })

def handleCompleteMultipartUpload (sorter : PartSort Part Part.partNumber) (env : CompleteEnv)
    (st : State β) (req : CompleteRequest) : MultipartReply × State β :=
  match session st req.uploadId req.bucket req.key with
  | none => (noSuchUpload, st)
  | some up =>
    let st := { st with uploads := st.uploads.del req.uploadId }
    let data := assembled sorter up
    match multipartLockHeaders env req with
    | .error reply => (reply, st)
    | .ok lockState =>
      match verifyMultipartChecksum env st.s3meta req data with
      | .error reply => (reply, st)
      | .ok s3meta => storeAssembled env { st with s3meta := s3meta } req data lockState

end Complete

end Momo.S3
