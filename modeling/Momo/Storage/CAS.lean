import Momo.Storage.BlobStore

/-! @momo src/storage/storage.go, src/storage/rebuild.go, src/storage/integrity.go
    scheme:state passing over the database and the back end

    `CASStore`: names map to content hashes, hashes map to reference-counted metadata, and the bytes
    live in a pluggable back end. -/

namespace Momo

/-- The cluster seam of degraded reads: who may hold a hash, and a fetch from one of them. -/
structure RebuildSource where
  survivors : Bytes → Except Err (List Int)
  fetch : Bytes → Int → Except Err Reader

/-- The construction-time choices of a store; the defaults are those of `newCASStore`. -/
structure CASConfig where
  verifyOnRead : Bool := true
  degradedRead : Bool := false
  rebuildSource : Option RebuildSource := none
  /-- The durability barrier's `Commit`. -/
  durability : Option (Bytes → Except Err Unit) := none

/-- A content-addressed store over the back end `β`. -/
structure CASStore (β : Type) where
  cfg : CASConfig := {}
  db : MetaDB := {}
  blobs : β

structure FileMetadata where
  name : Bytes
  hash : Bytes
  size : Int
  remotePath : Bytes
  modTime : Int
  deriving DecidableEq

/-- The stream `Get` hands out: the bytes underneath, and the key they are checked against at
    EOF when the read is verified. -/
structure Stream where
  src : Reader
  expected : Option Bytes := none
  deriving DecidableEq

def contentHashVerifiedError (key : Bytes) : Err :=
  .wrap "integrity checksum mismatch: blob %s no longer matches its content address: %w" [.str key]
    (.sys .ebadmsg)

def Stream.readAll [Sha256] (st : Stream) : Bytes × Option Err :=
  (st.src.data,
    match st.src.fault, st.expected with
    | some e, _ => some e
    | none, none => none
    | none, some key =>
      if hashBytes st.src.data = key then none else some (contentHashVerifiedError key))

namespace CASStore

variable [Sha256] {β : Type} [BlobStore β]

/-! ### Put -/

/-- The `objects` bucket knows the hash. -/
def hasInternal (s : CASStore β) (hash : Bytes) : Bool := (s.db.objects.get hash).isSome

def has (s : CASStore β) (hash : Bytes) : Except Err Bool :=
  if hasPathTraversalChars hash then
    .error (.wrap "hash contains path traversal characters: %w" [] (.sys .einval))
  else .ok (s.hasInternal hash)

/-- Is the blob already here? Metadata alone is not trusted when the back end can be asked. -/
def blobPresent (s : CASStore β) (hash : Bytes) : Except Err Bool :=
  if s.hasInternal hash then
    match (BlobStore.blobExists : Option (β → Bytes → Except Err Bool)) with
    | none => .ok true
    | some f => (f s.blobs hash).mapError (.wrap "failed to check blob presence: %w" [])
  else .ok false

def drain (r : Reader) : Except Err Bytes :=
  match r.fault with
  | some e => .error (.wrap "failed to drain content for existing blob: %w" [] e)
  | none => .ok r.data

def writeBlob (s : CASStore β) (hash : Bytes) (r : Reader) (io : Option Err) :
    Except Err Bytes × CASStore β :=
  match BlobStore.putBlob s.blobs hash r io with
  | (.error e, b) => (.error e, { s with blobs := b })
  | (.ok read, b) =>
    match s.cfg.durability with
    | none => (.ok read, { s with blobs := b })
    | some commit => ((commit hash).map (fun _ => read), { s with blobs := b })

/-- The bytes step of `PutWithMetadata`: write them, or drain the reader when they are there. -/
def storeContent (s : CASStore β) (hash : Bytes) (content : Option Reader) (io : Option Err) :
    Except Err Bytes × CASStore β :=
  match s.blobPresent hash with
  | .error e => (.error e, s)
  | .ok present =>
    match content with
    | none => (.ok [], s)
    | some r => if present then (drain r, s) else s.writeBlob hash r io

/-- The stored clock after a write that carries `new`: a longer clock resets the old one before
    the pointwise maximum is taken. -/
def mergeClock (old new : List UInt64) : List UInt64 :=
  let base := if old.length < new.length then List.replicate new.length 0 else old
  List.zipWith (fun a b => if b > a then b else a) base new ++ base.drop new.length

structure PutFields where
  vectorClock : List UInt64 := []
  shardKey : Bytes := []
  metadataReplicas : List Int32 := []

def putMeta (existing : Option ObjectMeta) (size : Int) (f : PutFields) : ObjectMeta :=
  let m : ObjectMeta :=
    match existing with
    | some m =>
      { m with
        refCount := m.refCount + 1
        vectorClock := if f.vectorClock = [] then m.vectorClock
          else mergeClock m.vectorClock f.vectorClock }
    | none =>
      { size := size, refCount := 1, vectorClock := f.vectorClock, shardKey := f.shardKey,
        metadataReplicas := f.metadataReplicas }
  { m with
    shardKey := if m.shardKey = [] ∧ f.shardKey ≠ [] then f.shardKey else m.shardKey
    metadataReplicas := if m.metadataReplicas = [] ∧ f.metadataReplicas ≠ [] then
      f.metadataReplicas else m.metadataReplicas }

/-- A refused metadata write: out of space keeps its error, anything else is an I/O error. -/
def metaWriteErr (e : Err) : Err := if e.is .enospc then e else metadataError

def putPath (paths : Bucket Bytes) (name remotePath : Bytes) : Except Err (Bucket Bytes) :=
  if remotePath = [] then .ok paths
  else do
    let normalized ← (normalizeVirtualPath remotePath).mapError
      (.wrap "invalid virtual path %q: %w" [.str remotePath])
    (paths.put name normalized).mapError metaWriteErr

/-- The metadata transaction of `PutWithMetadata`. -/
def putTx (now : Int) (name hash : Bytes) (size : Int) (remotePath : Bytes) (f : PutFields)
    (db : MetaDB) : Except Err MetaDB := do
  let ns ← orErr (db.ns.put name hash) metadataError
  let objects ←
    (db.objects.put hash (putMeta (db.objects.get hash) size f)).mapError metaWriteErr
  let modTimes ← (db.modTimes.put name now).mapError metaWriteErr
  if fileInfoLength < name.length then
    .error (.wrap "name exceeds maximum length: %w" [] (.sys .enametoolong))
  else do
    let paths ← putPath db.paths name remotePath
    .ok { db with
      ns := ns, objects := objects, tombstones := db.tombstones.del name, modTimes := modTimes,
      paths := paths }

def putWithMetadata (s : CASStore β) (io : Option Err) (now : Int) (name hash : Bytes) (size : Int)
    (remotePath : Bytes) (content : Option Reader) (f : PutFields) : Except Err Bytes × CASStore β :=
  if hasPathTraversalChars hash then
    (.error (.wrap "hash contains path traversal characters: %w" [] (.sys .einval)), s)
  else match s.storeContent hash content io with
    | (.error e, s') => (.error e, s')
    | (.ok read, s') =>
      match putTx now name hash size remotePath f s'.db with
      | .error e => (.error e, s')
      | .ok db => (.ok read, { s' with db := db })

def put (s : CASStore β) (io : Option Err) (now : Int) (name hash : Bytes) (size : Int)
    (remotePath : Bytes) (content : Option Reader) : Except Err Bytes × CASStore β :=
  s.putWithMetadata io now name hash size remotePath content {}

/-! ### Get -/

def getHashForName (s : CASStore β) (name : Bytes) : Except Err Bytes :=
  match s.db.tombstones.get name, s.db.ns.get name with
  | some _, _ => .error (.sys .enoent)
  | none, none => .error (.sys .enoent)
  | none, some h => .ok h

/-- A refused key leaves the mark out, and the caller ignores the error. -/
def quarantineMark (s : CASStore β) (hash : Bytes) : CASStore β :=
  match s.db.quarantine.put hash () with
  | .ok q => { s with db := { s.db with quarantine := q } }
  | .error _ => s

def quarantineClear (s : CASStore β) (hash : Bytes) : CASStore β :=
  { s with db := { s.db with quarantine := s.db.quarantine.del hash } }

def storeVerified (s : CASStore β) (hash : Bytes) (src : Reader) : Bool × CASStore β :=
  match src.fault with
  | some _ => (false, s)
  | none =>
    if hashBytes src.data = hash then
      match BlobStore.putBlob s.blobs hash ⟨src.data, none⟩ none with
      | (.ok _, b) => (true, { s with blobs := b })
      | (.error _, b) => (false, { s with blobs := b })
    else (false, s)

/-- The survivor loop of `fetchVerifiedToLocal`. -/
def fetchFrom (source : RebuildSource) (hash : Bytes) :
    List Int → CASStore β → Except Err Reader × CASStore β
  | [], s => (.error (.sys .enoent), s)
  | peer :: peers, s =>
    match source.fetch hash peer with
    | .error _ => fetchFrom source hash peers s
    | .ok rc =>
      match s.storeVerified hash rc with
      | (false, s') => fetchFrom source hash peers (s'.quarantineMark hash)
      | (true, s') =>
        match BlobStore.getBlob s'.blobs hash with
        | .error e => (.error e, s')
        | .ok f => (.ok f, s'.quarantineClear hash)

def fetchVerifiedToLocal (s : CASStore β) (hash : Bytes) : Except Err Reader × CASStore β :=
  match s.cfg.rebuildSource with
  | none => (.error (.sys .enoent), s)
  | some source =>
    match source.survivors hash with
    | .error e => (.error (.wrap "survivors query for %s: %w" [.str hash] e), s)
    | .ok peers => fetchFrom source hash peers s

/-- The tail of `openVerifiedBlob`: the survivor-set degraded read, when it is armed. -/
def openDegraded (s : CASStore β) (hash : Bytes) : Except Err Stream × CASStore β :=
  if s.cfg.degradedRead ∧ s.cfg.rebuildSource.isSome then
    match s.fetchVerifiedToLocal hash with
    | (.ok r, s') => (.ok ⟨r, none⟩, s')
    | (.error e, s') => (.error e, s')
  else (.error (.sys .enoent), s)

/-- The local copy unless it is missing or marked, else a survivor's. -/
def openVerifiedBlob (s : CASStore β) (hash : Bytes) : Except Err Stream × CASStore β :=
  let flagged := (s.db.quarantine.get hash).isSome
  match BlobStore.getBlob s.blobs hash with
  | .ok f =>
    if flagged then s.openDegraded hash
    else (.ok ⟨f, if s.cfg.verifyOnRead then some hash else none⟩, s)
  | .error e => if e = .sys .enoent ∨ e.isNotExist then s.openDegraded hash else (.error e, s)

/-- The metadata half of `Get`, also used by `GetMeta`. -/
def fileMetadata (db : MetaDB) (name hash : Bytes) : Except Err FileMetadata :=
  match db.objects.get hash with
  | none => .error (.wrap "metadata missing for hash %s: %w" [.str hash] (.sys .enoent))
  | some m =>
    if m.size < 0 then
      .error (.wrap "invalid size %d for hash %s: %w" [.num m.size, .str hash] (.sys .ebadmsg))
    else .ok ⟨name, hash, m.size, (db.paths.get name).getD [], (db.modTimes.get name).getD 0⟩

def get (s : CASStore β) (name : Bytes) : Except Err (Stream × FileMetadata) × CASStore β :=
  match s.getHashForName name with
  | .error e => (.error e, s)
  | .ok hash =>
    match s.openVerifiedBlob hash with
    | (.error e, s') => (.error e, s')
    | (.ok f, s') =>
      match fileMetadata s'.db name hash with
      | .error e => (.error e, s')
      | .ok m => (.ok (f, m), s')

/-! ### Delete -/

def dropRef (m : ObjectMeta) (at_ : Int) : ObjectMeta :=
  if m.refCount - 1 ≤ 0 then { m with refCount := 0, deletedAt := at_ }
  else { m with refCount := m.refCount - 1 }

/-- Take one reference from the hash a name maps to; the hash is orphaned when none is left. -/
def releaseRef (db : MetaDB) (name : Bytes) (at_ : Int) (refused : Err) :
    Except Err (Bucket ObjectMeta × Option Bytes) :=
  match db.ns.get name with
  | none => .ok (db.objects, none)
  | some hash =>
    match db.objects.get hash with
    | none => .ok (db.objects, none)
    | some m => do
      let objects ← orErr (db.objects.put hash (dropRef m at_)) refused
      .ok (objects, if m.refCount - 1 ≤ 0 then some hash else none)

/-- The transaction `Delete` and `ApplyTombstone` share: tombstone, reference, name. They differ
    in how refused writes are reported. -/
def removeTx (name : Bytes) (at_ : Int) (tombErr : Err → Err) (refused : Err) (db : MetaDB) :
    Except Err (MetaDB × Option Bytes) := do
  let tombstones ← (db.tombstones.put name at_).mapError tombErr
  let (objects, orphaned) ← releaseRef db name at_ refused
  .ok ({ db with
    tombstones := tombstones, objects := objects, ns := db.ns.del name,
    paths := db.paths.del name, modTimes := db.modTimes.del name }, orphaned)

def evict (s : CASStore β) (orphaned : Option Bytes) (io : Option Err) : CASStore β :=
  match orphaned with
  | none => s
  | some h =>
    match BlobStore.deleteBlob s.blobs h io with
    | (.error _, b) => { s with blobs := b }
    | (.ok _, b) => { s with blobs := b, db := { s.db with objects := s.db.objects.del h } }

def remove (s : CASStore β) (io : Option Err) (name : Bytes) (at_ : Int) (tombErr : Err → Err)
    (refused : Err) : Except Err Unit × CASStore β :=
  match removeTx name at_ tombErr refused s.db with
  | .error e => (.error e, s)
  | .ok (db, orphaned) => (.ok (), evict { s with db := db } orphaned io)

def delete (s : CASStore β) (io : Option Err) (now : Int) (name : Bytes) :
    Except Err Unit × CASStore β :=
  s.remove io name now (fun _ => metadataError) metadataError

end CASStore

end Momo
