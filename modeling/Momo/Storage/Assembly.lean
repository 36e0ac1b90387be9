import Momo.Crypto.Streaming
import Momo.Storage.Backends
import Momo.Storage.Volume
import Momo.Storage.CAS

/-! @momo src/storage/factory.go, src/storage/s3_blobstore.go, src/storage/adaptive_blobstore.go,
    src/storage/encrypted_blobstore.go | scheme:interface values, decorator

    `buildCAS` puts a store together from its configuration: one of five back ends, and around it,
    when a key is configured, the decorator that encrypts. -/

namespace Momo

/-! ### The S3 back end -/

/-- What `net/url` and `net/http` say: the scheme of an endpoint, and whether the URL of a request
    can be built. -/
class NetURL where
  scheme : (endpoint : Bytes) → Except Err Bytes
  requestOk : (endpoint bucket : Bytes) → (pathStyle : Bool) → (key : Bytes) → Bool

structure S3BlobStore where
  endpoint : Bytes
  bucket : Bytes
  pathStyle : Bool := false
  objects : OMap Bytes Bytes := OMap.empty

namespace S3BlobStore

def maxS3KeyLen : ℕ := 1024

def maxS3BucketLen : ℕ := 128

/-- The key a request is made for. The limits on bucket and endpoint are checked here and not when
    the store is built. -/
def newRequest [NetURL] (s : S3BlobStore) (key : Bytes) : Except Err Bytes :=
  if maxS3KeyLen < key.length ∨ maxS3BucketLen < s.bucket.length ∨
      maxS3KeyLen < s.endpoint.length then
    .error (.wrap "s3: input length exceeds limits: %w" [] (.sys .einval))
  else
    let cleanedKey := pathClean key
    if cleanedKey = dot ∨ cleanedKey = dotDot ∨ (dotDot ++ [slash]) <+: cleanedKey ∨
        [slash] <+: cleanedKey then
      .error (.wrap "s3: invalid key path traversal: %w" [] (.sys .einval))
    else if !NetURL.requestOk s.endpoint s.bucket s.pathStyle cleanedKey then
      .error (.wrap "s3: invalid URL: %v: %w" [] (.sys .einval))
    else .ok cleanedKey

/-- The content is spooled and measured before the request is made. Spooling stops one byte above
    the limit, so a content that is too long does not show a fault it ends in. -/
def putBlob [NetURL] (s : S3BlobStore) (hash : Bytes) (content : Reader) :
    Except Err Bytes × S3BlobStore :=
  if maxFileSize < content.data.length then
    (.error (.wrap "s3: blob exceeds MaxFileSize (%d bytes): %w" [.num maxFileSize] (.sys .efbig)), s)
  else match content.fault with
    | some e => (.error (.wrap "s3: failed to spool blob: %w" [] e), s)
    | none =>
      match s.newRequest hash with
      | .error e => (.error e, s)
      | .ok key => (.ok content.data, { s with objects := s.objects.put key content.data })

def getBlob [NetURL] (s : S3BlobStore) (hash : Bytes) : Except Err Reader :=
  match s.newRequest hash with
  | .error e => .error e
  | .ok key =>
    match s.objects.get key with
    | none => .error (.sys .enoent)
    | some c => .ok ⟨c, none⟩

def deleteBlob [NetURL] (s : S3BlobStore) (hash : Bytes) : Except Err Unit × S3BlobStore :=
  match s.newRequest hash with
  | .error e => (.error e, s)
  | .ok key => (.ok (), { s with objects := s.objects.del key })

end S3BlobStore

instance [NetURL] : BlobStore S3BlobStore where
  putBlob b hash content io :=
    match io with
    | some e => (.error e, b)
    | none => b.putBlob hash content
  getBlob := S3BlobStore.getBlob
  deleteBlob b hash io :=
    match io with
    | some e => (.error e, b)
    | none => b.deleteBlob hash
  blobExists := none

/-! ### Volumes -/

namespace VolumeBlobStore

def blobExists (s : VolumeBlobStore) (hash : Bytes) : Except Err Bool := do
  let _ ← decodeContentHash hash
  .ok (s.needles.get hash).isSome

structure Dir where
  files : OMap Nat Bytes := OMap.empty
  volumes : OMap Nat Bool := OMap.empty
  needles : OMap Bytes NeedleMetadata := OMap.empty

def openDir (dir : Dir) (volumeSize : Int) : Except Err VolumeBlobStore :=
  let volumeSize := if volumeSize ≤ 0 then (defaultVolumeSizeBytes : Int) else volumeSize
  if volumeSize > maxVolumeSizeBytes then
    .error (.wrap "volume size %d exceeds maximum %d: %w"
      [.num volumeSize, .num maxVolumeSizeBytes] (.sys .einval))
  else .ok (restoreVolumes
    { volumeSize := volumeSize.toNat
      files := dir.files
      volumes := dir.volumes
      needles := dir.needles })

end VolumeBlobStore

instance [Sha256] : BlobStore VolumeBlobStore where
  putBlob b hash content io :=
    match io with
    | some e => (.error e, b)
    | none => b.putBlob hash content
  getBlob b hash := (b.getBlob hash).map (fun payload => ⟨payload, none⟩)
  deleteBlob b hash io :=
    match io with
    | some e => (.error e, b)
    | none => b.deleteBlob hash
  blobExists := some VolumeBlobStore.blobExists

/-! ### The adaptive back end -/

structure AdaptiveBlobStore where
  volume : VolumeBlobStore
  fallback : LocalBlobStore
  threshold : ℕ

namespace AdaptiveBlobStore

/-- 1 MiB. -/
def defaultAdaptiveThreshold : ℕ := 2 ^ 20

def newAdaptiveBlobStore (volume : VolumeBlobStore) (fallback : LocalBlobStore) (threshold : Int) :
    AdaptiveBlobStore :=
  ⟨volume, fallback, if threshold ≤ 0 then defaultAdaptiveThreshold else threshold.toNat⟩

def maxAlloc : ℕ := 2 ^ 48

def traversalErr : Err :=
  .wrap "invalid hash contains path traversal characters: %w" [] (.sys .einval)

/-- A buffer of `threshold + 1` bytes is filled first, which tells the two sizes apart. -/
def putBlob [Sha256] (a : AdaptiveBlobStore) (hash : Bytes) (content : Reader) :
    Except Err Bytes × AdaptiveBlobStore :=
  if hasPathTraversalChars hash then (.error traversalErr, a)
  else if maxAlloc < a.threshold + 1 then
    (.error (recovered "AdaptiveBlobStore.PutBlob" "makeslice: len out of range"), a)
  else if content.data.length ≤ a.threshold then
    match content.fault with
    | some e => (.error (.wrap "failed to read blob head: %w" [] e), a)
    | none =>
      ((a.volume.putBlob hash content).1,
        { a with volume := (a.volume.putBlob hash content).2 })
  else
    ((a.fallback.putBlob hash content none).1,
      { a with fallback := (a.fallback.putBlob hash content none).2 })

/-- The volumes first; only a plain ENOENT goes on to the files. -/
def getBlob (a : AdaptiveBlobStore) (hash : Bytes) : Except Err Reader :=
  if hasPathTraversalChars hash then .error traversalErr
  else match a.volume.getBlob hash with
    | .ok payload => .ok ⟨payload, none⟩
    | .error e => if e = .sys .enoent then a.fallback.getBlob hash else .error e

/-- From both; the last error that is not a plain ENOENT is returned. -/
def deleteBlob (a : AdaptiveBlobStore) (hash : Bytes) (io : Option Err) :
    Except Err Unit × AdaptiveBlobStore :=
  if hasPathTraversalChars hash then (.error traversalErr, a)
  else
    let (fromVolume, volume) := a.volume.deleteBlob hash
    let (fromFallback, fallback) := a.fallback.deleteBlob hash io
    let lastErr : Except Err Unit → Except Err Unit → Except Err Unit
      | .error e, before => if e = .sys .enoent then before else .error e
      | .ok _, before => before
    (lastErr fromFallback (lastErr fromVolume (.ok ())), ⟨volume, fallback, a.threshold⟩)

def blobExists (a : AdaptiveBlobStore) (hash : Bytes) : Except Err Bool :=
  match a.volume.blobExists hash with
  | .ok true => .ok true
  | _ => a.fallback.blobExists hash

end AdaptiveBlobStore

instance [Sha256] : BlobStore AdaptiveBlobStore where
  putBlob b hash content io :=
    match io with
    | some e => (.error e, b)
    | none => b.putBlob hash content
  getBlob := AdaptiveBlobStore.getBlob
  deleteBlob := AdaptiveBlobStore.deleteBlob
  blobExists := some AdaptiveBlobStore.blobExists

/-! ### The back ends together -/

inductive Backend
  | localFiles (b : LocalBlobStore)
  | s3 (b : S3BlobStore)
  | raw (b : RawBlobStore)
  | volume (b : VolumeBlobStore)
  | adaptive (b : AdaptiveBlobStore)

namespace Backend

section Calls
variable [Sha256] [NetURL]

def putBlob (b : Backend) (hash : Bytes) (content : Reader) (io : Option Err) :
    Except Err Bytes × Backend :=
  match b with
  | .localFiles b => (BlobStore.putBlob b hash content io).map id .localFiles
  | .s3 b => (BlobStore.putBlob b hash content io).map id .s3
  | .raw b => (BlobStore.putBlob b hash content io).map id .raw
  | .volume b => (BlobStore.putBlob b hash content io).map id .volume
  | .adaptive b => (BlobStore.putBlob b hash content io).map id .adaptive

def getBlob (b : Backend) (hash : Bytes) : Except Err Reader :=
  match b with
  | .localFiles b => BlobStore.getBlob b hash
  | .s3 b => BlobStore.getBlob b hash
  | .raw b => BlobStore.getBlob b hash
  | .volume b => BlobStore.getBlob b hash
  | .adaptive b => BlobStore.getBlob b hash

def deleteBlob (b : Backend) (hash : Bytes) (io : Option Err) : Except Err Unit × Backend :=
  match b with
  | .localFiles b => (BlobStore.deleteBlob b hash io).map id .localFiles
  | .s3 b => (BlobStore.deleteBlob b hash io).map id .s3
  | .raw b => (BlobStore.deleteBlob b hash io).map id .raw
  | .volume b => (BlobStore.deleteBlob b hash io).map id .volume
  | .adaptive b => (BlobStore.deleteBlob b hash io).map id .adaptive

end Calls

/-- `BlobExists`; a back end without the probe counts as holding what the metadata name. -/
def blobExists (b : Backend) (hash : Bytes) : Except Err Bool :=
  match b with
  | .localFiles b => b.blobExists hash
  | .volume b => b.blobExists hash
  | .adaptive b => b.blobExists hash
  | .s3 _ | .raw _ => .ok true

end Backend

instance [Sha256] [NetURL] : BlobStore Backend where
  putBlob := Backend.putBlob
  getBlob := Backend.getBlob
  deleteBlob := Backend.deleteBlob
  blobExists := some Backend.blobExists

/-! ### Encryption at rest -/

abbrev Seed := {s : Bytes // s.length = Crypto.streamSeedSize}

/-- `EncryptedBlobStore` around the back end `β`: its key, and the seeds it will draw. -/
structure EncryptedBlobStore (β : Type) where
  inner : β
  key : Bytes
  seeds : ℕ → Seed
  drawn : ℕ := 0

namespace EncryptedBlobStore
variable {β : Type} [BlobStore β] [Aead]

def seed (e : EncryptedBlobStore β) : Bytes := (e.seeds e.drawn).val

def sealedReader (e : EncryptedBlobStore β) (content : Reader) : Reader :=
  let r := Crypto.encryptStream e.key e.seed content
  ⟨r.data, r.fault.map (.wrap "encryption failed: %w" [])⟩

def putBlob (e : EncryptedBlobStore β) (hash : Bytes) (content : Reader) (io : Option Err) :
    Except Err Bytes × EncryptedBlobStore β :=
  match BlobStore.putBlob e.inner hash (e.sealedReader content) io with
  | (.error err, inner) =>
    (.error (.wrap "failed to store encrypted blob: %w" [] err),
      { e with inner := inner, drawn := e.drawn + 1 })
  | (.ok _, inner) => (.ok content.data, { e with inner := inner, drawn := e.drawn + 1 })

/-- Decryption happens while the stream is read. -/
def getBlob (e : EncryptedBlobStore β) (hash : Bytes) : Except Err Reader :=
  (BlobStore.getBlob e.inner hash).map (fun r =>
    let plain := Crypto.decryptStream e.key r
    ⟨plain.data, plain.fault.map (.wrap "decryption failed: %w" [])⟩)

def deleteBlob (e : EncryptedBlobStore β) (hash : Bytes) (io : Option Err) :
    Except Err Unit × EncryptedBlobStore β :=
  ((BlobStore.deleteBlob e.inner hash io).1,
    { e with inner := (BlobStore.deleteBlob e.inner hash io).2 })

def blobExists (e : EncryptedBlobStore β) (hash : Bytes) : Except Err Bool :=
  match (BlobStore.blobExists : Option (β → Bytes → Except Err Bool)) with
  | some f => f e.inner hash
  | none => .ok true

instance : BlobStore (EncryptedBlobStore β) where
  putBlob := putBlob
  getBlob := getBlob
  deleteBlob := deleteBlob
  blobExists := some blobExists

end EncryptedBlobStore

inductive Blobs
  | plain (b : Backend)
  | encrypted (e : EncryptedBlobStore Backend)

instance [Sha256] [NetURL] [Aead] : BlobStore Blobs where
  putBlob b hash content io :=
    match b with
    | .plain b => (BlobStore.putBlob b hash content io).map id .plain
    | .encrypted e => (BlobStore.putBlob e hash content io).map id .encrypted
  getBlob b hash :=
    match b with
    | .plain b => BlobStore.getBlob b hash
    | .encrypted e => BlobStore.getBlob e hash
  deleteBlob b hash io :=
    match b with
    | .plain b => (BlobStore.deleteBlob b hash io).map id .plain
    | .encrypted e => (BlobStore.deleteBlob e hash io).map id .encrypted
  blobExists := some (fun b hash =>
    match b with
    | .plain b => b.blobExists hash
    | .encrypted e => e.blobExists hash)

/-! ### The factory -/

/-- The value of the `backend` setting. -/
inductive BackendName
  | unset | local | nfs | s3 | raw | volume | adaptive
  | other (name : Bytes)
  deriving DecidableEq

/-- The value of the `durability` setting; unset means `fsync`. -/
inductive DurabilityName
  | unset | fsync | groupCommit | none
  | other (name : Bytes)
  deriving DecidableEq

/-- The fields of `ConfigurationStorage` that `buildCAS` reads, and the daemon's drive. -/
structure StorageConfig where
  backend : BackendName := .unset
  volumeSize : Int := 0
  adaptiveThreshold : Int := 0
  rawDevicePath : Bytes := []
  drive : Bytes := []
  s3Endpoint : Bytes := []
  s3Bucket : Bytes := []
  s3AccessKey : Bytes := []
  s3SecretKey : Bytes := []
  s3PathStyle : Bool := false
  s3Insecure : Bool := false
  durability : DurabilityName := .unset
  verifyOnRead : Bool := true

structure DataDir where
  db : MetaDB := {}
  files : LocalBlobStore := {}
  bucket : OMap Bytes Bytes := OMap.empty
  device : Bytes := []
  rawAlloc : Bucket RawAlloc := Bucket.empty
  volumes : VolumeBlobStore.Dir := {}

def httpsScheme : Bytes := [104, 116, 116, 112, 115]

def httpScheme : Bytes := [104, 116, 116, 112]

/-- The settings that must be there, and a scheme that may be used. -/
def newS3BlobStore [NetURL] (cfg : StorageConfig) (objects : OMap Bytes Bytes) :
    Except Err S3BlobStore := do
  let required (field : Bytes) (format : String) : Except Err Unit :=
    if field = [] then .error (.wrap format [] (.sys .einval)) else .ok ()
  required cfg.s3Endpoint "s3_endpoint is required: %w"
  required cfg.s3Bucket "s3_bucket is required: %w"
  required cfg.s3AccessKey "s3_access_key is required: %w"
  required cfg.s3SecretKey "s3_secret_key is required: %w"
  -- strings.TrimRight(endpoint, "/")
  let endpoint := (cfg.s3Endpoint.reverse.dropWhile (· = slash)).reverse
  let scheme ← (NetURL.scheme endpoint).mapError
    (fun _ => .wrap "s3_endpoint is not a valid URL: %v: %w" [] (.sys .einval))
  let store : S3BlobStore := ⟨endpoint, cfg.s3Bucket, cfg.s3PathStyle, objects⟩
  if scheme = httpsScheme then .ok store
  else if scheme = httpScheme then
    if cfg.s3Insecure then .ok store
    else .error (.wrap ("s3_endpoint uses cleartext http://; require https:// or set " ++
      "s3_insecure=true to allow insecure plaintext transport: %w") [] (.sys .einval))
  else if scheme = [] then
    .error (.wrap "s3_endpoint must include a scheme (https:// or http://): %w" [] (.sys .einval))
  else
    .error (.wrap ("s3_endpoint scheme %q is unsupported; use https:// (or http:// with " ++
      "s3_insecure=true): %w") [.str scheme] (.sys .einval))

def newRawBlobStore (cfg : StorageConfig) (device : Bytes) (alloc : Bucket RawAlloc) :
    Except Err RawBlobStore :=
  let devicePath := if cfg.rawDevicePath = [] then cfg.drive else cfg.rawDevicePath
  if devicePath = [] then
    .error (.wrap "raw device path is required (set raw_device_path or daemon.drive): %w" []
      (.sys .einval))
  else .ok (RawBlobStore.reopen { device := device, alloc := alloc })

/-- The switch of `buildCAS`. -/
def newBackend [NetURL] (cfg : StorageConfig) (dir : DataDir) : Except Err Backend :=
  let initErr (format : String) (e : Err) : Err := .wrap format [] e
  match cfg.backend with
  | .unset | .local | .nfs => .ok (.localFiles dir.files)
  | .s3 => ((newS3BlobStore cfg dir.bucket).map .s3).mapError
      (initErr "failed to initialize s3 blob store: %w")
  | .raw => ((newRawBlobStore cfg dir.device dir.rawAlloc).map .raw).mapError
      (initErr "failed to initialize raw blob store: %w")
  | .volume => ((VolumeBlobStore.openDir dir.volumes cfg.volumeSize).map .volume).mapError
      (initErr "failed to initialize volume blob store: %w")
  | .adaptive =>
    ((VolumeBlobStore.openDir dir.volumes cfg.volumeSize).map (fun v =>
      .adaptive (AdaptiveBlobStore.newAdaptiveBlobStore v dir.files cfg.adaptiveThreshold))).mapError
      (initErr "failed to initialize volume store: %w")
  | .other name => .error (.wrap "unsupported storage backend %q: %w" [.str name] (.sys .einval))

/-- 64 hex characters. -/
def newCipherFromHex (encKeyHex : Bytes) : Except Err Bytes :=
  if encKeyHex.length ≠ 64 then
    .error (.text "crypto: encryption_key must be 64 hex characters (256-bit)")
  else match hexDecode encKeyHex with
    | none => .error (.text "crypto: failed to decode hex key: %w")
    | some key => .ok key

/-- The wrapping of `buildCAS`: an empty key leaves the back end as it is. -/
def wrapBlobs (encKeyHex : Bytes) (seeds : ℕ → Seed) (b : Backend) : Except Err Blobs :=
  if encKeyHex = [] then .ok (.plain b)
  else ((newCipherFromHex encKeyHex).map (fun key => .encrypted ⟨b, key, seeds, 0⟩)).mapError
    (fun e => .wrap "failed to initialize encrypted blob store: %w" []
      (.wrap "failed to create encryption cipher: %w" [] e))

/-- `buildCAS`; every known barrier passes where the file system does not fail. -/
def buildCAS [NetURL] (cfg : StorageConfig) (dir : DataDir) (encKeyHex : Bytes)
    (seeds : ℕ → Seed) : Except Err (CASStore Blobs) := do
  let b ← newBackend cfg dir
  let blobs ← wrapBlobs encKeyHex seeds b
  match cfg.durability with
  | .other name =>
    .error (.wrap "WithDurability: unknown durability %q: %w" [.str name] (.sys .einval))
  | _ =>
    .ok
      { cfg := { verifyOnRead := cfg.verifyOnRead, durability := some (fun _ => .ok ()) }
        db := dir.db
        blobs := blobs }

end Momo
