import Momo.Storage.Needle
import Momo.Schemes.Run

/-! @momo src/storage/volume_blobstore.go | scheme:append-only volumes

    `VolumeBlobStore` packs blobs as needles into volume files. One volume is active; when the next
    needle would not fit it is sealed for good and a new one becomes active. Where a blob lies is
    kept in the `needles` bucket, which volumes are sealed in the `volumes` bucket. -/

namespace Momo

/-- An open volume. `pos` is the operating system's file position. -/
structure VolumeFile where
  volumeID : Nat
  size : Nat
  pos : Nat
  isSealed : Bool
  deriving DecidableEq

structure NeedleMetadata where
  hash : Bytes
  volumeID : Nat
  offset : Nat
  size : Nat
  deriving DecidableEq

structure VolumeBlobStore where
  volumeSize : Nat
  /-- The volume files, by the id in their name. -/
  files : OMap Nat Bytes := OMap.empty
  /-- The `volumes` bucket: the sealed flag of each record. -/
  volumes : OMap Nat Bool := OMap.empty
  /-- The `needles` bucket. -/
  needles : OMap Bytes NeedleMetadata := OMap.empty
  activeVolume : Option VolumeFile := none
  sealedVolumes : OMap Nat VolumeFile := OMap.empty
  volumeIDCounter : Nat := 0

namespace VolumeBlobStore

/-- 1 GiB. -/
def defaultVolumeSizeBytes : Nat := 2 ^ 30

/-- 32 GiB. -/
def maxVolumeSizeBytes : Nat := 32 * 2 ^ 30

/-! ### Opening -/

/-- `createNewVolumeLocked`: the next id (a `uint32`), an empty file unless one is there already. -/
def createNewVolume (s : VolumeBlobStore) : VolumeBlobStore :=
  let newID := (s.volumeIDCounter + 1) % 2 ^ 32
  { s with
    volumeIDCounter := newID
    files := s.files.put newID ((s.files.get newID).getD [])
    volumes := s.volumes.put newID false
    activeVolume := some ⟨newID, 0, 0, false⟩ }

def openExistingVolume (s : VolumeBlobStore) (id : Nat) : Option VolumeFile :=
  (s.files.get id).map (fun data =>
    ⟨id, data.length, 0, (s.volumes.get id).getD (s.volumeSize ≤ data.length)⟩)

def restoreVolume (s : VolumeBlobStore) (id : Nat) : VolumeBlobStore :=
  match s.openExistingVolume id with
  | none => s
  | some vf =>
    if vf.isSealed then { s with sealedVolumes := s.sealedVolumes.put id vf }
    else { s with activeVolume := some vf }

def maxVolumeID (s : VolumeBlobStore) : Nat := s.files.maxOver (fun id _ => id)

def restoreVolumes (s : VolumeBlobStore) : VolumeBlobStore :=
  let maxID := s.maxVolumeID
  let s := (List.range' 1 maxID).foldl restoreVolume { s with volumeIDCounter := maxID }
  match s.activeVolume with
  | none => s.createNewVolume
  | some _ => s

def reopen (s : VolumeBlobStore) : VolumeBlobStore :=
  restoreVolumes { s with
    activeVolume := none, sealedVolumes := OMap.empty, volumeIDCounter := 0 }

def newVolumeBlobStore (volumeSize : Int) : Except Err VolumeBlobStore :=
  let volumeSize := if volumeSize ≤ 0 then (defaultVolumeSizeBytes : Int) else volumeSize
  if volumeSize > maxVolumeSizeBytes then
    .error (.wrap "volume size %d exceeds maximum %d: %w"
      [.num volumeSize, .num maxVolumeSizeBytes] (.sys .einval))
  else .ok (restoreVolumes { volumeSize := volumeSize.toNat })

/-! ### Put -/

/-- 32 bytes of hex. -/
def decodeContentHash (hash : Bytes) : Except Err Bytes :=
  if hasPathTraversalChars hash then
    .error (.wrap "invalid hash contains path traversal characters: %w" [] (.sys .einval))
  else match hexDecode hash with
    | none => .error (.text "invalid hash: %w")
    | some raw =>
      if raw.length ≠ 32 then
        .error (.text "invalid hash length: expected 32 bytes, got %d" [.num raw.length])
      else .ok raw

def readVerifiedPayload [Sha256] (digest : Bytes) (content : Reader) : Except Err Bytes :=
  match content.fault with
  | some e => .error (.wrap "failed to read payload: %w" [] e)
  | none =>
    if digest = Sha256.sum256 content.data then .ok content.data
    else .error (.text "hash mismatch: expected %x, got %x"
      [.str digest, .str (Sha256.sum256 content.data)])

def sealCurrentVolume (s : VolumeBlobStore) : VolumeBlobStore :=
  match s.activeVolume with
  | none => s
  | some vf =>
    if vf.isSealed then s
    else createNewVolume { s with
      sealedVolumes := s.sealedVolumes.put vf.volumeID { vf with isSealed := true }
      activeVolume := none
      volumes := if (s.volumes.get vf.volumeID).isSome then s.volumes.put vf.volumeID true
        else s.volumes }

def reserveNeedleSlot (s : VolumeBlobStore) (needleSize : Nat) :
    Except Err VolumeFile × VolumeBlobStore :=
  match s.activeVolume with
  | none => (.error (.text "no active volume available"), s)
  | some vf =>
    if vf.size + needleSize ≤ s.volumeSize then (.ok vf, s)
    else
      let s' := s.sealCurrentVolume
      match s'.activeVolume with
      | none => (.error (.text "no active volume available after seal"), s')
      | some vf' =>
        if s'.volumeSize < vf'.size + needleSize then
          (.error (.wrap "volume full after seal: %w" [] (.sys .enospc)), s')
        else (.ok vf', s')

/-- `appendNeedle` and the metadata write of `PutBlob`: the frame goes to the file position, the
    recorded offset is the recorded size. -/
def appendNeedle (s : VolumeBlobStore) (vf : VolumeFile) (hash digest payload : Bytes) :
    VolumeBlobStore :=
  let (data, pos) := writeNeedle ((s.files.get vf.volumeID).getD []) vf.pos digest payload 0
  { s with
    files := s.files.put vf.volumeID data
    activeVolume := some { vf with
      pos := pos, size := vf.size + (needleOverhead + alignTo8 payload.length) }
    needles := s.needles.put hash ⟨digest, vf.volumeID, vf.size, alignTo8 payload.length⟩ }

def putBlob [Sha256] (s : VolumeBlobStore) (hash : Bytes) (content : Reader) :
    Except Err Bytes × VolumeBlobStore :=
  match decodeContentHash hash with
  | .error e => (.error e, s)
  | .ok digest =>
    match readVerifiedPayload digest content with
    | .error e => (.error e, s)
    | .ok payload =>
      match s.reserveNeedleSlot (needleOverhead + alignTo8 payload.length) with
      | (.error e, s') => (.error e, s')
      | (.ok vf, s') => (.ok payload, s'.appendNeedle vf hash digest payload)

/-! ### Get and delete -/

def openVolume (s : VolumeBlobStore) (op : String) (id : Nat) : Except Err VolumeFile :=
  match s.activeVolume with
  | none => .error (recovered op "nil pointer dereference")
  | some vf =>
    if id = vf.volumeID then .ok vf
    else match s.sealedVolumes.get id with
      | none => .error (.text "volume %d not found" [.num id])
      | some vf => .ok vf

def getBlob (s : VolumeBlobStore) (hash : Bytes) : Except Err Bytes := do
  let _ ← decodeContentHash hash
  match s.needles.get hash with
  | none => .error (.sys .enoent)
  | some m =>
    let vf ← s.openVolume "VolumeBlobStore.GetBlob" m.volumeID
    let needle ← (readNeedle ((s.files.get vf.volumeID).getD []) m.offset).mapError
      (.wrap "failed to read needle: %w" [])
    if m.hash = needle.hash then .ok needle.payload else .error (.text "hash mismatch in volume")

def deleteBlob (s : VolumeBlobStore) (hash : Bytes) : Except Err Unit × VolumeBlobStore :=
  match decodeContentHash hash, s.needles.get hash with
  | .error e, _ => (.error e, s)
  | .ok _, none => (.error (.sys .enoent), s)
  | .ok _, some m =>
    match s.openVolume "VolumeBlobStore.DeleteBlob" m.volumeID with
    | .error e => (.error e, s)
    | .ok vf =>
      if vf.isSealed then
        (.error (.wrap "cannot delete from sealed volume: %w" [] (.sys .eperm)), s)
      else
        let data := (s.files.get vf.volumeID).getD []
        (.ok (), { s with
          files := s.files.put vf.volumeID
            (punch 0 data m.offset (needleOverhead + alignTo8 m.size))
          needles := s.needles.del hash })

end VolumeBlobStore

end Momo
