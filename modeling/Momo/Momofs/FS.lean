import Momo.Momofs.Paths
import Momo.Schemes.Prog
import Momo.Storage.CAS

/-! @momo src/momofs/momofs.go | scheme:state passing over a content-addressed store

    The file system over a `CASStore`. A directory is a store object that holds the JSON manifest of
    its direct children, under a key made from the directory's path; a file is a store object under
    a key made from the file's path, its attributes in the manifest of its parent. -/

namespace Momo

def CASStore.list {β : Type} (s : CASStore β) : List FileMetadata :=
  (s.db.ns.map.entries.filter (fun e => (s.db.tombstones.get e.1).isNone)).map fun e =>
    ⟨e.1, e.2, ((s.db.objects.get e.2).map (·.size)).getD 0, (s.db.paths.get e.1).getD [],
      (s.db.modTimes.get e.1).getD 0⟩

namespace Momofs

inductive EntryType
  | file | dir
  deriving DecidableEq

structure Entry where
  name : Bytes
  type : EntryType
  mode : UInt32 := 0
  uid : UInt32 := 0
  gid : UInt32 := 0
  size : Int := 0
  mTime : Int := 0
  hash : Bytes := []
  /-- Set for native objects only, and no part of the JSON text. -/
  objName : Bytes := []
  deriving DecidableEq

structure DirManifest where
  version : Int
  entries : List Entry
  deriving DecidableEq

structure Entry.Plain (e : Entry) : Prop where
  name : ValidUTF8 e.name
  hash : ∀ x ∈ e.hash, x < 128
  objName : e.objName = []

class ManifestJSON where
  marshal : DirManifest → Bytes
  unmarshal : Bytes → Except Err DirManifest
  unmarshal_marshal : ∀ m, (∀ e ∈ m.entries, e.Plain) → unmarshal (marshal m) = .ok m

def manifestVersion : Int := 1

/-- `maxEntry`, and the limit `decodeManifest` reads to: 1 MiB. -/
def maxEntry : Nat := 1024 * 1024

def defaultMode : UInt32 := 0o644

def defaultDirMode : UInt32 := 0o755

/-- What a call hands to the store: a content, a manifest before its size is checked, and the error
    of a put or delete that failed. -/
inductive Sent
  | content (c : Bytes)
  | manifest (data : Bytes)
  | failed (e : Err)
  deriving DecidableEq

structure FS (β : Type) where
  store : CASStore β
  rootMode : UInt32 := defaultDirMode
  idxTTL : Int := 1000000000
  idxList : List FileMetadata := []
  idxAt : Option Int := none
  log : List Sent := []

/-- What the methods of `FS` are: an error keeps the state it was met in. -/
abbrev Call (β α : Type) := Prog (FS β) Err α

open Prog

section Store

variable {β : Type} [Sha256] [BlobStore β]

def storeGet (key : Bytes) : Call β (Stream × FileMetadata) := fun f =>
  ((f.store.get key).1, { f with store := (f.store.get key).2 })

def storePut (now : Int) (key hash : Bytes) (size : Int) (remotePath : Bytes)
    (content : Option Bytes) : Call β Unit := fun f =>
  let sent := (content.map Sent.content).toList
  match f.store.put none now key hash size remotePath (content.map (⟨·, none⟩)) with
  | (.ok _, s) => (.ok (), { f with store := s, log := sent ++ f.log })
  | (.error e, s) => (.error e, { f with store := s, log := .failed e :: (sent ++ f.log) })

def storeDelete (now : Int) (key : Bytes) : Call β Unit := fun f =>
  match f.store.delete none now key with
  | (.ok _, s) => (.ok (), { f with store := s })
  | (.error e, s) => (.error e, { f with store := s, log := .failed e :: f.log })

def noteManifest (data : Bytes) : Call β Unit := fun f =>
  (.ok (), { f with log := .manifest data :: f.log })

/-! ### Manifests -/

def saysENOENT (e : Err) : Bool := e.is .enoent

def emptyManifest : DirManifest := ⟨manifestVersion, []⟩

def noSuchEntry (p : Bytes) : Err := .wrap "momofs: no such entry %q: %w" [.str p] (.sys .enoent)

variable [ManifestJSON]

open ManifestJSON

/-- At most `maxEntry` bytes are read, and then the end of the stream, where a verified read reports
    a mismatch, is not reached. -/
def decodeManifest (rc : Stream) : Except Err DirManifest :=
  match rc.readAll with
  | (data, fault) =>
    match if data.length < maxEntry then fault else none with
    | some e => .error e
    | none =>
      match unmarshal (data.take maxEntry) with
      | .error e => .error (.wrap "momofs: corrupt directory manifest: %w" [] e)
      | .ok m =>
        if m.version ≠ manifestVersion then
          .error (.wrap "momofs: unsupported manifest version %d: %w" [.num m.version] (.sys .einval))
        else .ok m

def readManifest (dirPath : Bytes) : Call β DirManifest := do
  match ← attempt (storeGet (dirKey dirPath)) with
  | .ok (rc, _) => ofExcept (decodeManifest rc)
  | .error e => if dirPath = [slash] ∧ saysENOENT e then pure emptyManifest else fail e

def writeManifest (now : Int) (dirPath : Bytes) (m : DirManifest) : Call β Unit := do
  let data := marshal m
  noteManifest data
  if maxEntry < data.length then
    fail (.wrap "momofs: directory %s exceeds max manifest size: %w" [.str dirPath] (.sys .efbig))
  else storePut now (dirKey dirPath) (hashBytes data) data.length [] (some data)

def findEntry (m : DirManifest) (base : Bytes) : Option Entry :=
  m.entries.find? (fun e => e.name = base)

def removeEntry (entries : List Entry) (base : Bytes) : List Entry :=
  entries.filter (fun e => e.name ≠ base)

def entryIn (dirPath base : Bytes) : Call β Entry := do
  let m ← readManifest dirPath
  match findEntry m base with
  | some e => pure e
  | none => fail (noSuchEntry (pathJoin dirPath base))

/-! ### Native objects -/

def isNative (m : FileMetadata) : Bool :=
  ¬ (dirPrefix.isPrefixOf m.name ∨ filePrefix.isPrefixOf m.name)

def storeObjects (now : Int) : Call β (List FileMetadata) := fun f =>
  match f.idxAt with
  | some at_ =>
    if 0 < f.idxTTL ∧ now - at_ < f.idxTTL then (.ok f.idxList, f)
    else (.ok (f.store.list.filter isNative),
      { f with idxList := f.store.list.filter isNative, idxAt := some now })
  | none => (.ok (f.store.list.filter isNative),
      { f with idxList := f.store.list.filter isNative, idxAt := some now })

def remoteForm (p : Bytes) : Bytes := if [slash].isPrefixOf p then p.drop 1 else p

def metaToEntry (base : Bytes) (m : FileMetadata) : Entry :=
  { name := base, type := .file, mode := defaultMode, size := m.size, mTime := m.modTime,
    hash := m.hash, objName := m.name }

def storeMetaByPath (now : Int) (p : Bytes) : Call β (Option FileMetadata) := do
  let objs ← storeObjects now
  pure (objs.find? (fun m => m.remotePath = remoteForm p))

def storePathIsAncestorOfObject (now : Int) (p : Bytes) : Call β Bool := do
  let objs ← storeObjects now
  pure (objs.any (fun m => (remoteForm p ++ [slash]).isPrefixOf m.remotePath))

/-- One object of `storeChildren`: a direct file wins over a directory on the way to one. -/
def addChild (above : Bytes) (children : OMap Bytes Entry) (m : FileMetadata) : OMap Bytes Entry :=
  if m.remotePath = [] ∨ ¬ above.isPrefixOf m.remotePath then children
  else
    let rest := m.remotePath.drop above.length
    let seg := rest.takeWhile (fun c => c ≠ slash)
    let isSub := rest.contains slash
    if seg = [] then children
    else match children.get seg with
      | some existing =>
        if existing.type = .file ∨ isSub then children
        else children.put seg (metaToEntry seg m)
      | none =>
        children.put seg
          (if isSub then { name := seg, type := .dir, mode := defaultDirMode }
          else metaToEntry seg m)

def storeChildren (now : Int) (p : Bytes) : Call β (OMap Bytes Entry) := do
  let canon := remoteForm p
  let above := if canon = [] then [] else canon ++ [slash]
  let objs ← storeObjects now
  pure (objs.foldl (addChild above) OMap.empty)

/-! ### Reads -/

/-- The manifest first, then what natively written objects imply. -/
def lookup (now : Int) (p : Bytes) : Call β Entry := do
  let p ← ofExcept (normalizePath p)
  if p = [slash] then fun f =>
    (.ok { name := [slash], type := .dir, mode := f.rootMode, mTime := now }, f)
  else
    match ← attempt (entryIn (parentBase p).1 (parentBase p).2) with
    | .ok e => pure e
    | .error _ =>
      match ← storeMetaByPath now p with
      | some m => pure (metaToEntry (parentBase p).2 m)
      | none =>
        if ← storePathIsAncestorOfObject now p then
          pure { name := (parentBase p).2, type := .dir, mode := defaultDirMode }
        else fail (noSuchEntry p)

def readDir (now : Int) (p : Bytes) : Call β (List Entry) := do
  let p ← ofExcept (normalizePath p)
  let listed ← attempt (readManifest p)
  let own ← match listed with
    | .ok m => pure m.entries
    | .error e => if saysENOENT e then pure [] else fail e
  let children ← storeChildren now p
  let more := (children.entries.map Prod.snd).filter (fun e => e.name ∉ own.map Entry.name)
  pure ((own ++ more).insertionSort (fun a b => a.name ≤ b.name))

/-- `Open`: the stream of the file's object, and its entry with the object's hash. -/
def openFile (now : Int) (p : Bytes) : Call β (Stream × Entry) := do
  let e ← lookup now p
  if e.type ≠ .file then
    fail (.wrap "momofs: is a directory %q: %w" [.str p] (.sys .eisdir))
  else do
    let (rc, m) ← storeGet (if e.objName = [] then objKey p else e.objName)
    pure (rc, { e with hash := m.hash, objName := [] })

def eof : Err := .text "EOF"

/-- Skip `off` bytes of a stream and read up to `n` more. The end of the stream, where a fault
    shows, is met only when there are fewer. -/
def readFrom (rc : Stream) (off n : Nat) : Except Err Bytes :=
  match rc.readAll with
  | (data, fault) =>
    if off + n ≤ data.length ∨ off ≤ data.length ∧ n = 0 then .ok ((data.drop off).take n)
    else
      match fault with
      | some e => .error e
      | none => .ok ((data.drop off).take n)

def readAt (now : Int) (p : Bytes) (off : Int) (n : Nat) : Call β Bytes :=
  if off < 0 then fail (.wrap "momofs: negative offset: %w" [] (.sys .einval))
  else do
    let (rc, e) ← openFile now p
    if e.size ≤ off then fail eof else ofExcept (readFrom rc off.toNat n)

/-! ### Changes -/

def permissions (mode : UInt32) : UInt32 := mode &&& 0o7777

def setAttr (now : Int) (p : Bytes) (mode uid gid : Option UInt32) (mtime : Option Int) :
    Call β Entry := do
  let p ← ofExcept (normalizePath p)
  if p = [slash] then fun f =>
    let newMode := (mode.map permissions).getD f.rootMode
    (.ok { name := [slash], type := .dir, mode := newMode, mTime := now },
      { f with rootMode := newMode })
  else do
    let m ← readManifest (parentBase p).1
    match findEntry m (parentBase p).2 with
    | none => fail (noSuchEntry p)
    | some e => do
      let e' : Entry := { e with
        mode := (mode.map permissions).getD e.mode
        uid := uid.getD e.uid
        gid := gid.getD e.gid
        mTime := mtime.getD e.mTime }
      writeManifest now (parentBase p).1 { m with entries := m.entries.replace e e' }
      pure e'

def mkdir (now : Int) (p : Bytes) (mode : UInt32) : Call β Unit := do
  let p ← ofExcept (normalizePath p)
  if p = [slash] then fail (.wrap "momofs: root exists: %w" [] (.sys .eexist))
  else do
    let pm ← readManifest (parentBase p).1
    if (findEntry pm (parentBase p).2).isSome then
      fail (.wrap "momofs: entry exists %q: %w" [.str p] (.sys .eexist))
    else do
      writeManifest now (parentBase p).1 { pm with
        entries := pm.entries ++
          [{ name := (parentBase p).2, type := .dir, mode := permissions mode, mTime := now }] }
      writeManifest now p emptyManifest

/-- The entries after `Create`: the file's entry in place of an old one, else at the end. -/
def placeFile (entries : List Entry) (e : Entry) : List Entry :=
  match entries.find? (fun old => old.name = e.name) with
  | some old => entries.replace old { e with uid := old.uid, gid := old.gid }
  | none => entries ++ [e]

def create (now : Int) (p : Bytes) (mode : UInt32) (content : Reader) : Call β (Int × Bytes) := do
  let p ← ofExcept (normalizePath p)
  let pm ← readManifest (parentBase p).1
  if (findEntry pm (parentBase p).2).map Entry.type = some .dir then
    fail (.wrap "momofs: is a directory %q: %w" [.str p] (.sys .eisdir))
  else
    let r := content.limit (maxFileSize + 1)
    match r.fault with
    | some e => fail e
    | none =>
      if maxFileSize < r.data.length then fail (.wrap "momofs: file too large: %w" [] (.sys .efbig))
      else do
        let hash := hashBytes r.data
        storePut now (objKey p) hash r.data.length p (some r.data)
        let e : Entry :=
          { name := (parentBase p).2, type := .file, mode := permissions mode,
            size := r.data.length, mTime := now, hash := hash }
        writeManifest now (parentBase p).1 { pm with entries := placeFile pm.entries e }
        pure (r.data.length, hash)

def remove (now : Int) (p : Bytes) : Call β Unit := do
  let p ← ofExcept (normalizePath p)
  if p = [slash] then fail (.wrap "momofs: cannot remove root: %w" [] (.sys .ebusy))
  else do
    let m ← readManifest (parentBase p).1
    match findEntry m (parentBase p).2 with
    | none => fail (noSuchEntry p)
    | some e => do
      match e.type with
      | .dir => do
        let cm ← readManifest p
        if cm.entries ≠ [] then
          fail (.wrap "momofs: directory not empty %q: %w" [.str p] (.sys .enotempty))
        else storeDelete now (dirKey p)
      | .file => storeDelete now (objKey p)
      writeManifest now (parentBase p).1
        { m with entries := removeEntry m.entries (parentBase p).2 }

def link (now : Int) (src dst : Bytes) : Call β Unit := do
  let src ← ofExcept (normalizePath src)
  let dst ← ofExcept (normalizePath dst)
  let sm ← readManifest (parentBase src).1
  match findEntry sm (parentBase src).2 with
  | none => fail (noSuchEntry src)
  | some e =>
    if e.type ≠ .file then fail (.wrap "momofs: cannot link directory: %w" [] (.sys .eperm))
    else do
      let dm ← readManifest (parentBase dst).1
      if (findEntry dm (parentBase dst).2).isSome then
        fail (.wrap "momofs: entry exists %q: %w" [.str dst] (.sys .eexist))
      else do
        storePut now (objKey dst) e.hash e.size dst none
        writeManifest now (parentBase dst).1 { dm with
          entries := dm.entries ++ [{ e with name := (parentBase dst).2, objName := [] }] }

/-! ### Rename -/

def moveObject (now : Int) (oldPath newPath : Bytes) (e : Entry) : Call β Unit := do
  storePut now (objKey newPath) e.hash e.size newPath none
  storeDelete now (objKey oldPath)

def rewriteEntries (now : Int) (rewrite : Bytes → Bytes → Loop (FS β) Err Unit)
    (oldRoot newRoot : Bytes) : List Entry → Loop (FS β) Err Unit
  | [] => pure ()
  | e :: es => do
    let oldChild := pathJoin oldRoot e.name
    let newChild := pathJoin newRoot e.name
    match e.type with
    | .file => monadLift (moveObject (β := β) now oldChild newChild e)
    | .dir => rewrite oldChild newChild
    rewriteEntries now rewrite oldRoot newRoot es

def rewriteSubtree (now : Int) : Nat → Bytes → Bytes → Loop (FS β) Err Unit
  | 0, _, _ => Loop.diverge
  | fuel + 1, oldRoot, newRoot => do
    let srcMan ← monadLift (readManifest oldRoot : Call β DirManifest)
    let data := marshal srcMan
    monadLift (storePut (β := β) now (dirKey newRoot) (hashBytes data) data.length [] (some data))
    monadLift (storeDelete (β := β) now (dirKey oldRoot))
    rewriteEntries now (rewriteSubtree now fuel) oldRoot newRoot srcMan.entries

/-- The overwrite step of `Rename`: an entry at the destination gives its reference back, unless it
    is of the other type. A parent that cannot be read is not looked at. -/
def overwriteTarget (now : Int) (dst : Bytes) (type : EntryType) : Call β Unit := do
  match ← attempt (readManifest (parentBase dst).1) with
  | .error _ => pure ()
  | .ok dm =>
    match findEntry dm (parentBase dst).2 with
    | none => pure ()
    | some existing =>
      if existing.type ≠ type then fail (.wrap "momofs: rename type mismatch: %w" [] (.sys .einval))
      else
        match existing.type with
        | .file => storeDelete now (objKey dst)
        | .dir => storeDelete now (dirKey dst)

/-- The manifests at the end of `Rename`. -/
def moveEntry (now : Int) (src dst : Bytes) (sm : DirManifest) (moved : Entry) : Call β Unit :=
  let (sParent, sBase) := parentBase src
  let (dParent, dBase) := parentBase dst
  if dParent = sParent then do
    let m ← readManifest sParent
    writeManifest now sParent
      { m with entries := removeEntry (removeEntry m.entries sBase) dBase ++ [moved] }
  else do
    let dm ← readManifest dParent
    writeManifest now dParent { dm with entries := removeEntry dm.entries dBase ++ [moved] }
    writeManifest now sParent { sm with entries := removeEntry sm.entries sBase }

def rename (now : Int) (fuel : Nat) (src dst : Bytes) : Loop (FS β) Err Unit := do
  let src ← monadLift (ofExcept (normalizePath src) : Call β Bytes)
  let dst ← monadLift (ofExcept (normalizePath dst) : Call β Bytes)
  if src = [slash] ∨ dst = [slash] then
    monadLift (fail (.wrap "momofs: cannot rename root: %w" [] (.sys .einval)) : Call β Unit)
  else do
    let sm ← monadLift (readManifest (parentBase src).1 : Call β DirManifest)
    match findEntry sm (parentBase src).2 with
    | none => monadLift (fail (noSuchEntry src) : Call β Unit)
    | some e => do
      match e.type with
      | .dir => rewriteSubtree now fuel src dst
      | .file => pure ()
      monadLift (overwriteTarget (β := β) now dst e.type)
      match e.type with
      | .dir => pure ()
      | .file => monadLift (moveObject (β := β) now src dst e)
      monadLift (moveEntry (β := β) now src dst sm { e with name := (parentBase dst).2 })

end Store

end Momofs

end Momo
