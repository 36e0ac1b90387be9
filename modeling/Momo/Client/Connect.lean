import Momo.Crypto.Envelope
import Momo.Server.Handler
import Momo.Transport.Handshake
import Momo.Transport.Metadata

/-! @momo src/client/client.go, src/client/oprf.go | scheme:hash, encrypt, announce

    What a client announces and what it then sends. `Connect` hashes the file or its ciphertext,
    depending on the configuration, and `sendFile` sends the spooled ciphertext if there is one. -/

namespace Momo.Client

/-- The fields of `ConfigurationGlobal` that decide about encryption. -/
structure ClientConfig where
  encryptionEnabled : Bool := false
  encryptionKey : Bytes := []
  encryptionTenant : Bytes := []
  oprfEnabled : Bool := false
  e2eeKey : Bytes := []
  e2eeKeyID : Bytes := []

structure SourceFile where
  name : Bytes
  content : Bytes
  bounded : content.length < 2 ^ 63

structure ClientEnv where
  seed : {s : Bytes // s.length = Crypto.streamSeedSize}
  dataKey : {k : Bytes // k.length = Crypto.keySize}
  nonce : {n : Bytes // n.length = Crypto.nonceSize}
  deriveOPRFContentKey : Bytes → Except Err Bytes

/-- The keys a client works with; all but `plain` have a tenant key for names. -/
inductive ClientKeys
  | plain
  | static (tenantKey : Bytes)
  | oprf (tenantKey : Bytes)
  | envelope (tenantKey masterKey : Bytes)

def ClientKeys.tenantKey : ClientKeys → Option Bytes
  | .plain => none
  | .static k => some k
  | .oprf k => some k
  | .envelope k _ => some k

def loadEnvelopeKeys [Hkdf] (cfg : ClientConfig) : Except Err ClientKeys :=
  if cfg.e2eeKey.length ≠ 64 then
    .error (.wrap "invalid E2EE key: must be 64 hex characters: %w" [] (.sys .einval))
  else match hexDecode cfg.e2eeKey with
    | none => .error (.wrap "failed to decode E2EE key: %v: %w" [] (.sys .einval))
    | some masterKey => do
      let tenantKey ← Crypto.deriveKey masterKey cfg.encryptionTenant Crypto.domainContent
      if cfg.oprfEnabled then
        .error (.wrap "envelope E2EE mode is mutually exclusive with OPRF confidential dedup: %w"
          [] (.sys .einval))
      else return .envelope tenantKey masterKey

def loadTenantKeys [Hkdf] (cfg : ClientConfig) : Except Err ClientKeys :=
  match hexDecode cfg.encryptionKey with
  | none => .error (.wrap "failed to decode encryption key: %v: %w" [] (.sys .einval))
  | some masterKey => do
    let tenantKey ← Crypto.deriveKey masterKey cfg.encryptionTenant Crypto.domainContent
    if cfg.oprfEnabled then return .oprf tenantKey
    else return .static (← Crypto.newCipher tenantKey)

/-- The first part of `Connect`: keys are read and derived before any connection is made. -/
def loadKeys [Hkdf] (cfg : ClientConfig) : Except Err ClientKeys :=
  if cfg.e2eeKey ≠ [] then loadEnvelopeKeys cfg
  else if cfg.encryptionEnabled then loadTenantKeys cfg
  else .ok .plain

/-- An upload as it leaves the client: the metadata of `SendMetadata`, and the bytes `sendFile`
    copies after it. -/
structure ClientUpload where
  announced : FileMetadata
  payload : Bytes
  deriving DecidableEq

section Connect
variable [Sha256] [Aead]

def spool (keys : ClientKeys) (keyID : Bytes) (env : ClientEnv) (content : Bytes) :
    Except Err (Bytes × Bytes) :=
  let tooLarge : Err := .text "File %s size %d exceeds maximum %d: %v"
    [.num content.length, .num maxFileSize]
  match keys with
  | .plain => .ok (hashBytes content, content)
  | .static key =>
    if content.length > maxFileSize then .error tooLarge
    else
      let ciphertext := Crypto.encryptBytes key env.seed content
      .ok (hashBytes ciphertext, ciphertext)
  | .oprf _ =>
    if content.length > maxFileSize then .error tooLarge
    else do
      -- the tag is the hash of the plaintext, and stays the announced one
      let contentKey ← env.deriveOPRFContentKey (hashBytes content)
      let key ← Crypto.newCipher contentKey
      return (hashBytes content, Crypto.encryptBytes key env.seed content)
  | .envelope _ masterKey =>
    if content.length > maxFileSize then .error tooLarge
    else do
      let envelope ← Crypto.encryptEnvelope masterKey keyID env.dataKey env.nonce env.seed content
      return (hashBytes envelope, envelope)

/-- `Connect`, up to the point where the file is sent. -/
def connect [Hkdf] [HmacSha256] (cfg : ClientConfig) (env : ClientEnv) (file : SourceFile)
    (remotePath : Bytes) : Except Err ClientUpload := do
  let keys ← loadKeys cfg
  let (fileHash, payload) ← spool keys cfg.e2eeKeyID env file.content
  let wireName ← Metadata.wireName ⟨file.name, fileHash, payload.length, remotePath, 0⟩
  let (name, wireName) := match keys.tenantKey with
    | none => (file.name, wireName)
    | some tenantKey =>
      let opaqueName := hexEncode (HmacSha256.mac tenantKey wireName)
      (opaqueName, opaqueName)
  if wireName.length > fileInfoLength then
    .error (.text "Failed to upload %s: remote path and filename exceed limit of %d characters"
      [.num fileInfoLength])
  else return ⟨⟨name, fileHash, payload.length, remotePath, 0⟩, payload⟩

end Connect

/-- The upload a daemon hands to `getFile`: the metadata it received, and the payload behind it. -/
def delivered (m : FileMetadata) (payload : Bytes) : Upload :=
  Upload.received { name := m.name, hash := m.hash, size := m.size, content := ⟨payload, none⟩ }

/-! ### What is announced -/

def ClientConfig.convergent (cfg : ClientConfig) : Bool :=
  cfg.e2eeKey = [] && cfg.encryptionEnabled && cfg.oprfEnabled

/-- The condition under which the announced hash is that of the payload: no content key from the
    quorum, or a ciphertext with the digest of its plaintext. -/
def HashesPayload [Sha256] [Aead] (cfg : ClientConfig) (env : ClientEnv) (content : Bytes) : Prop :=
  cfg.convergent = true → ∀ key, env.deriveOPRFContentKey (hashBytes content) = .ok key →
    Sha256.sum256 (Crypto.encryptBytes key env.seed content) = Sha256.sum256 content

variable {cfg : ClientConfig} {keys : ClientKeys}

theorem loadEnvelopeKeys_eq_ok [Hkdf] (h : loadEnvelopeKeys cfg = .ok keys) :
    ∃ k m, keys = .envelope k m := by
  unfold loadEnvelopeKeys at h
  by_cases hlen : cfg.e2eeKey.length ≠ 64
  · rw [if_pos hlen] at h
    cases h
  rw [if_neg hlen] at h
  split at h
  · cases h
  · obtain ⟨tenantKey, -, h⟩ := CASStore.bind_eq_ok.mp h
    split_ifs at h
    cases h
    exact ⟨_, _, rfl⟩

theorem loadTenantKeys_eq_ok [Hkdf] (h : loadTenantKeys cfg = .ok keys) :
    (cfg.oprfEnabled = true ∧ ∃ k, keys = .oprf k) ∨
      (cfg.oprfEnabled = false ∧ ∃ k, keys = .static k) := by
  unfold loadTenantKeys at h
  split at h
  · cases h
  · obtain ⟨tenantKey, -, h⟩ := CASStore.bind_eq_ok.mp h
    cases hoprf : cfg.oprfEnabled with
    | true =>
      rw [hoprf, if_pos rfl] at h
      cases h
      exact .inl ⟨rfl, _, rfl⟩
    | false =>
      rw [hoprf, if_neg Bool.false_ne_true] at h
      obtain ⟨key, -, h⟩ := CASStore.bind_eq_ok.mp h
      cases h
      exact .inr ⟨rfl, _, rfl⟩

theorem convergent_iff [Hkdf] (h : loadKeys cfg = .ok keys) :
    cfg.convergent = true ↔ ∃ k, keys = .oprf k := by
  simp only [ClientConfig.convergent, Bool.and_eq_true, decide_eq_true_eq]
  unfold loadKeys at h
  by_cases henv : cfg.e2eeKey = []
  · rw [if_neg (not_not.mpr henv)] at h
    cases henc : cfg.encryptionEnabled with
    | true =>
      rw [henc, if_pos rfl] at h
      rcases loadTenantKeys_eq_ok h with ⟨hoprf, k, rfl⟩ | ⟨hoprf, k, rfl⟩
      · simp [henv, hoprf]
      · simp [hoprf]
    | false =>
      rw [henc, if_neg Bool.false_ne_true] at h
      cases h
      simp
  · rw [if_pos henv] at h
    obtain ⟨k, m, rfl⟩ := loadEnvelopeKeys_eq_ok h
    simp [henv]

section Announced
variable [Sha256] [Aead]

variable {env : ClientEnv} {payload : Bytes}

theorem spool_eq_ok {keys : ClientKeys} {keyID : Bytes} {content hash : Bytes}
    (h : spool keys keyID env content = .ok (hash, payload)) :
    (¬ (∃ k, keys = .oprf k) ∧ hash = hashBytes payload) ∨
    ((∃ k, keys = .oprf k) ∧ hash = hashBytes content ∧ ∃ key,
      env.deriveOPRFContentKey (hashBytes content) = .ok key ∧
      payload = Crypto.encryptBytes key env.seed content) := by
  unfold spool at h
  cases keys with
  | plain =>
    cases h
    exact .inl ⟨by simp, rfl⟩
  | static key =>
    simp only at h
    split_ifs at h
    cases h
    exact .inl ⟨by simp, rfl⟩
  | oprf k =>
    simp only at h
    split_ifs at h
    obtain ⟨contentKey, hkey, h⟩ := CASStore.bind_eq_ok.mp h
    obtain ⟨key, hcipher, h⟩ := CASStore.bind_eq_ok.mp h
    rw [Crypto.newCipher] at hcipher
    split_ifs at hcipher
    cases hcipher
    cases h
    exact .inr ⟨⟨k, rfl⟩, rfl, contentKey, hkey, rfl⟩
  | envelope k masterKey =>
    simp only at h
    split_ifs at h
    obtain ⟨envelope, -, h⟩ := CASStore.bind_eq_ok.mp h
    cases h
    exact .inl ⟨by simp, rfl⟩

theorem connect_eq_ok [Hkdf] [HmacSha256] {cfg : ClientConfig} {file : SourceFile}
    {remotePath : Bytes} {up : ClientUpload} (h : connect cfg env file remotePath = .ok up) :
    ∃ keys, loadKeys cfg = .ok keys ∧
      spool keys cfg.e2eeKeyID env file.content = .ok (up.announced.hash, up.payload) ∧
      up.announced.size = up.payload.length := by
  obtain ⟨keys, hkeys, h⟩ := CASStore.bind_eq_ok.mp h
  obtain ⟨⟨fileHash, payload⟩, hspool, h⟩ := CASStore.bind_eq_ok.mp h
  obtain ⟨wire, -, h⟩ := CASStore.bind_eq_ok.mp h
  simp only at h
  split_ifs at h
  cases h
  exact ⟨keys, hkeys, hspool, rfl⟩

theorem announced_iff [Hkdf] [HmacSha256] {cfg : ClientConfig} {file : SourceFile}
    {remotePath : Bytes} {up : ClientUpload} (h : connect cfg env file remotePath = .ok up) :
    up.announced.hash = hashBytes up.payload ↔ HashesPayload cfg env file.content := by
  obtain ⟨keys, hkeys, hspool, -⟩ := connect_eq_ok h
  rw [HashesPayload, convergent_iff hkeys]
  rcases spool_eq_ok hspool with ⟨hnot, hhash⟩ | ⟨hyes, hhash, key, hkey, hpayload⟩
  · exact iff_of_true hhash (fun hyes => absurd hyes hnot)
  · rw [hhash, hpayload]
    constructor
    · intro hsame _ key' hkey'
      rw [hkey] at hkey'
      cases hkey'
      exact (hexEncode_injective hsame).symm
    · intro hcond
      rw [hashBytes, hashBytes, hcond hyes key hkey]

theorem spool_bounded {keys : ClientKeys} {keyID : Bytes} {content hash : Bytes}
    (hcontent : content.length < 2 ^ 63) (h : spool keys keyID env content = .ok (hash, payload)) :
    payload.length < 2 ^ 63 := by
  have hstream : ∀ key, content.length ≤ maxFileSize →
      (Crypto.encryptBytes key env.seed content).length < 2 ^ 62 := by
    intro key hsize
    rw [Crypto.length_encryptBytes env.seed.property, Crypto.encryptedLength, Crypto.chunkSize]
    rw [maxFileSize] at hsize
    omega
  unfold spool at h
  cases keys with
  | plain =>
    cases h
    exact hcontent
  | static key =>
    simp only at h
    split_ifs at h with hsize
    cases h
    exact (hstream key (not_lt.mp hsize)).trans (by norm_num)
  | oprf k =>
    simp only at h
    split_ifs at h with hsize
    obtain ⟨contentKey, -, h⟩ := CASStore.bind_eq_ok.mp h
    obtain ⟨key, -, h⟩ := CASStore.bind_eq_ok.mp h
    cases h
    exact (hstream key (not_lt.mp hsize)).trans (by norm_num)
  | envelope k masterKey =>
    simp only at h
    split_ifs at h with hsize
    obtain ⟨envelope, henv, h⟩ := CASStore.bind_eq_ok.mp h
    cases h
    unfold Crypto.encryptEnvelope at henv
    split_ifs at henv with hkey hid
    obtain ⟨wrapCipher, -, henv⟩ := CASStore.bind_eq_ok.mp henv
    obtain ⟨dataCipher, -, henv⟩ := CASStore.bind_eq_ok.mp henv
    cases henv
    have := hstream dataCipher (not_lt.mp hsize)
    have hdata := env.dataKey.property
    have hnonce := env.nonce.property
    simp only [Crypto.envelopeHeader, Crypto.encrypt, Crypto.envelopeMagic, List.length_append,
      List.length_cons, List.length_nil, length_bePut, Aead.length_aeadSeal, hdata, hnonce,
      Crypto.keySize, Crypto.nonceSize, Crypto.envelopeMaxKeyIDLen] at hid ⊢
    omega

omit [Sha256] [Aead] in
theorem payload_delivered {m : FileMetadata} (h : m.size = payload.length) :
    (delivered m payload).payload = ⟨payload, none⟩ := by
  simp [delivered, Upload.received, Upload.payload, Reader.limit, h]

/-- CORRECT: what an honest client announces is the hash of what it sends, and an honest daemon
    stores it, exactly under the condition (and if the store can record the name). -/
theorem upload_accepted_iff [Hkdf] [HmacSha256] {β : Type} [BlobStore β] [MapBackend β]
    (cfg : ClientConfig) (env : ClientEnv) (file : SourceFile) (remotePath : Bytes) (up : ClientUpload)
    (hup : connect cfg env file remotePath = .ok up) :
    (up.announced.hash = hashBytes up.payload ↔ HashesPayload cfg env file.content) ∧
    ∀ frame m, Metadata.sendMetadata up.announced = .ok frame →
      Metadata.receiveMetadata frame = .ok m →
      ∀ (s : CASStore β) (uenv : UploadEnv), uenv.putFault = none →
        CASStore.Crosses s.cfg m.hash →
        ((s.getFile uenv (delivered m up.payload)).1 = .ok () ↔
          CASStore.MetaAccepted (delivered m up.payload) ∧ HashesPayload cfg env file.content) := by
  refine ⟨announced_iff hup, fun frame m hsend hrecv s uenv hio hcross => ?_⟩
  obtain ⟨keys, hkeys, hspool, hsize⟩ := connect_eq_ok hup
  have hbound := spool_bounded file.bounded hspool
  obtain ⟨x, hx⟩ : ∃ x, up.announced.hash = hashBytes x := by
    rcases spool_eq_ok hspool with ⟨-, hhash⟩ | ⟨-, hhash, -⟩
    · exact ⟨_, hhash⟩
    · exact ⟨_, hhash⟩
  obtain ⟨hhash, hsize', -⟩ := Metadata.receiveMetadata_sent hx (by omega) (by omega) hsend hrecv
  have hpayload := payload_delivered (hsize'.trans hsize)
  have hbytes : s.BytesAccepted uenv (delivered m up.payload) := by
    refine ⟨?_, by rw [hpayload], .inr ⟨hio, hcross⟩⟩
    show hasPathTraversalChars m.hash = false
    rw [hhash, hx]
    exact hasPathTraversalChars_hashBytes x
  have hverdict : (delivered m up.payload).verdict up.payload = none ↔
      up.announced.hash = hashBytes up.payload := by
    show (if hashBytes up.payload ≠ m.hash then _ else none) = none ↔ _
    rw [hhash]
    split_ifs with hne
    · simp [Ne.symm hne]
    · simpa using (not_not.mp hne).symm
  rw [CASStore.getFile_ok_iff, hpayload, hverdict, announced_iff hup]
  simp only [hbytes, true_and]

end Announced

/-! ### Concrete uploads -/

section Runs

local instance clientSha : Sha256 := sampleSha

local instance clientAead : Aead := tagAead

local instance zeroHkdf : Hkdf := ⟨fun _ _ => List.replicate 32 0, fun _ _ => rfl⟩

local instance zeroMac : HmacSha256 := ⟨fun _ _ => List.replicate 32 0, fun _ _ => rfl⟩

/-- A file `x` with the content `a`. -/
def letterFile : SourceFile := ⟨[120], [97], by decide⟩

def zeroBlock (n : ℕ) : {b : Bytes // b.length = n} := ⟨List.replicate n 0, List.length_replicate⟩

def zeroEnv : ClientEnv :=
  ⟨zeroBlock 8, zeroBlock 32, zeroBlock 12,
    fun _ => .ok (List.replicate 32 0)⟩

/-- A client with a key of zeros; `oprf` tells whether it asks the quorum. -/
def keyedClient (oprf : Bool) : ClientConfig :=
  { encryptionEnabled := true, encryptionKey := List.replicate 64 48, oprfEnabled := oprf }

/-- The ciphertext of `letterFile`. -/
def sealedLetter : Bytes := Crypto.encryptBytes (List.replicate 32 0) (List.replicate 8 0) [97]

def letterMetadata (hash : Bytes) : FileMetadata :=
  ⟨List.replicate 64 48, hash, sealedLetter.length, [], 0⟩

def letterFrame (hash : Bytes) : Bytes :=
  hash ++ (List.replicate 64 48 ++ Metadata.field 64 (appendInt (Int64.ofInt sealedLetter.length)))

def freshDaemon : CASStore LocalBlobStore := { blobs := {} }

theorem upload_accepted_static :
    connect (keyedClient false) zeroEnv letterFile [] =
      .ok ⟨letterMetadata (hashBytes sealedLetter), sealedLetter⟩ ∧
    Metadata.sendMetadata (letterMetadata (hashBytes sealedLetter)) =
      .ok (letterFrame (hashBytes sealedLetter)) ∧
    Metadata.receiveMetadata (letterFrame (hashBytes sealedLetter)) =
      .ok (letterMetadata (hashBytes sealedLetter)) ∧
    (freshDaemon.getFile {} (delivered (letterMetadata (hashBytes sealedLetter)) sealedLetter)).1 =
      .ok () := by
  have hup : connect (keyedClient false) zeroEnv letterFile [] =
      .ok ⟨letterMetadata (hashBytes sealedLetter), sealedLetter⟩ := by decide +kernel
  have hsend : Metadata.sendMetadata (letterMetadata (hashBytes sealedLetter)) =
      .ok (letterFrame (hashBytes sealedLetter)) := by decide +kernel
  have hrecv : Metadata.receiveMetadata (letterFrame (hashBytes sealedLetter)) =
      .ok (letterMetadata (hashBytes sealedLetter)) := by decide +kernel
  refine ⟨hup, hsend, hrecv, ?_⟩
  exact ((upload_accepted_iff (keyedClient false) zeroEnv letterFile [] _ hup).2 _ _ hsend hrecv
    freshDaemon {} rfl (fun commit h => by cases h)).mpr
      ⟨by decide +kernel, fun h => by cases h⟩

/-- With a content key from the quorum the hash of the plaintext is announced, the ciphertext is
    sent, and the daemon undoes the upload. -/
theorem upload_undone_oprf :
    connect (keyedClient true) zeroEnv letterFile [] =
      .ok ⟨letterMetadata (hashBytes [97]), sealedLetter⟩ ∧
    hashBytes [97] ≠ hashBytes sealedLetter ∧
    Metadata.sendMetadata (letterMetadata (hashBytes [97])) = .ok (letterFrame (hashBytes [97])) ∧
    Metadata.receiveMetadata (letterFrame (hashBytes [97])) = .ok (letterMetadata (hashBytes [97])) ∧
    (freshDaemon.getFile {} (delivered (letterMetadata (hashBytes [97])) sealedLetter)).1 =
      .error (.wrap "file hash mismatch: expected %s, got %s: %w"
        [.str (hashBytes [97]), .str (hashBytes sealedLetter)] (.sys .ebadmsg)) :=
  ⟨by decide +kernel, by decide +kernel, by decide +kernel, by decide +kernel, by decide +kernel⟩

end Runs

end Momo.Client
