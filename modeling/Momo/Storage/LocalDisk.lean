import Momo.Schemes.CrashFS
import Momo.Storage.CASSpec
import Momo.Storage.Durability

/-! @momo src/storage/local_blobstore.go, src/storage/durability.go
    scheme:system calls over a file system that can crash

    The local back end at the level of its system calls. A put is a list of calls, made one after
    the other until one fails. -/

namespace Momo

open CrashFS

/-- `LocalBlobStore` over a file system: the temporary file of the put that is under way (the
    drawn part of its name and its inode), and the number `os.CreateTemp` draws next. -/
structure LocalDisk where
  fs : FS Bytes UInt8 := {}
  temp : Option (Bytes × ℕ) := none
  random : Bytes := []
  syncEnabled : Bool := true

namespace LocalDisk

/-- The directory `blobs` below the base. -/
def blobsName : Bytes := [98, 108, 111, 98, 115]

/-- `blobPath` below the base. `filepath.Join` drops an empty element and a dot. -/
def blobPath (hash : Bytes) : List Bytes :=
  if hash = [] ∨ hash = dot then [blobsName] else blobsName :: (GroupCommit.blobDir hash ++ [hash])

/-- `blob-*.tmp` with what was drawn for the star. -/
def tempName (random : Bytes) : Bytes := [98, 108, 111, 98, 45] ++ random ++ [46, 116, 109, 112]

/-- The calls of `PutBlob`, with their operands. -/
inductive Call
  | statfs
  | mkdir (dir : List Bytes)
  | createTemp
  | write (content : Reader)
  | flush
  | fsync
  | close
  | rename (path : List Bytes)

def Call.kind : Call → LocalBlobStore.PutCall
  | .statfs => .statfs
  | .mkdir _ => .mkdirAll
  | .createTemp => .createTemp
  | .write _ => .write
  | .flush => .flush
  | .fsync => .fsync
  | .close => .close
  | .rename _ => .rename

def finishing (syncEnabled : Bool) : List Call :=
  .flush :: (if syncEnabled then [.fsync] else []) ++ [.close]

/-- What precedes it: the space check and `os.MkdirAll`, level by level. -/
def preparing (path : List Bytes) : List Call :=
  .statfs :: (path.dropLast.inits.tail.map .mkdir)

/-- The calls of `PutBlob`. -/
def calls (syncEnabled : Bool) (path : List Bytes) (content : Reader) : List Call :=
  preparing path ++ .createTemp :: .write content :: (finishing syncEnabled ++ [.rename path])

/-- A level of `os.MkdirAll`. -/
def mkdir (d : LocalDisk) (dir : List Bytes) : Except Errno LocalDisk :=
  match walk d.fs.live.names 0 dir.dropLast, dir.getLast? with
  | some (.dir parent), some name =>
    match d.fs.live.names parent name with
    | some (.dir _) => .ok d
    | some (.file _) => .error .enotdir
    | none => .ok { d with fs := d.fs.mkdir parent name }
  | _, _ => .error .enoent

def createTemp (d : LocalDisk) : Except Errno LocalDisk :=
  match d.fs.live.names 0 (tempName d.random) with
  | some _ => .error .eexist
  | none =>
    .ok { d with
      fs := d.fs.create 0 (tempName d.random)
      temp := some (d.random, d.fs.next) }

def writeTemp (d : LocalDisk) (content : Reader) : Except Errno LocalDisk :=
  match d.temp, content.fault with
  | some (_, inode), none => .ok { d with fs := d.fs.write inode content.data }
  | _, _ => .error .eio

def fsyncTemp (d : LocalDisk) : Except Errno LocalDisk :=
  match d.temp with
  | some (_, inode) => .ok { d with fs := d.fs.fsync inode }
  | none => .error .eio

/-- `os.Rename` of the temporary file; a directory in the way stays. -/
def renameTemp (d : LocalDisk) (path : List Bytes) : Except Errno LocalDisk :=
  match d.temp, walk d.fs.live.names 0 path.dropLast, path.getLast? with
  | some (random, inode), some (.dir parent), some name =>
    match d.fs.live.names parent name with
    | some (.dir _) => .error .eexist
    | _ => .ok { d with fs := d.fs.rename 0 (tempName random) parent name inode, temp := none }
  | _, _, _ => .error .enoent

def exec (d : LocalDisk) : Call → Except Errno LocalDisk
  | .statfs | .flush | .close => .ok d
  | .mkdir dir => d.mkdir dir
  | .createTemp => d.createTemp
  | .write content => d.writeTemp content
  | .fsync => d.fsyncTemp
  | .rename path => d.renameTemp path

/-- `os.Remove(tmpPath)` after a failed call. -/
def abort (d : LocalDisk) : LocalDisk :=
  match d.temp with
  | some (random, _) => { d with fs := d.fs.setEntry 0 (tempName random) none, temp := none }
  | none => d

def execAll (d : LocalDisk) : List Call → Except Err Unit × LocalDisk
  | [] => (.ok (), d)
  | c :: cs =>
    match d.exec c with
    | .error no => (.error (LocalBlobStore.putErr c.kind no), d.abort)
    | .ok d' => d'.execAll cs

def putBlob (d : LocalDisk) (hash : Bytes) (content : Reader) (io : Option Err) :
    Except Err Bytes × LocalDisk :=
  match io with
  | some e => (.error e, d)
  | none =>
    if hasPathTraversalChars hash then (.error LocalBlobStore.traversalErr, d)
    else
      let (res, d') := d.execAll (calls d.syncEnabled (blobPath hash) content)
      (res.map (fun _ => content.data), d')

/-- The errno of an open or a stat that finds nothing: a file in place of a directory is not a
    missing file. -/
def missing (d : LocalDisk) (path : List Bytes) : Errno :=
  if path.inits.any (fun p => p ≠ path && (walk d.fs.live.names 0 p matches some (.file _))) then
    .enotdir
  else .enoent

/-- Opening a directory succeeds, reading it does not. -/
def getBlob (d : LocalDisk) (hash : Bytes) : Except Err Reader :=
  if hasPathTraversalChars hash then .error LocalBlobStore.traversalErr
  else
    match walk d.fs.live.names 0 (blobPath hash) with
    | some (.file inode) => .ok ⟨d.fs.live.data inode, none⟩
    | some (.dir _) => .ok ⟨[], some (.path .eisdir)⟩
    | none =>
      if d.missing (blobPath hash) = .enoent then .error (.path .enoent)
      else .error (.wrap "storage error: failed to open blob: %w" [] (.sys .eio))

/-- `DeleteBlob`. A directory is removed by the same call; the ones a path leads to are not
    empty. -/
def deleteBlob (d : LocalDisk) (hash : Bytes) (io : Option Err) : Except Err Unit × LocalDisk :=
  if hasPathTraversalChars hash then (.error LocalBlobStore.traversalErr, d)
  else match io with
    | some e => (.error e, d)
    | none =>
      match walk d.fs.live.names 0 (blobPath hash).dropLast, (blobPath hash).getLast? with
      | some (.dir parent), some name =>
        match d.fs.live.names parent name with
        | some (.file _) => (.ok (), { d with fs := d.fs.setEntry parent name none })
        | some (.dir _) => (.error LocalBlobStore.deleteErr, d)
        | none => (.ok (), d)
      | _, _ =>
        if d.missing (blobPath hash) = .enoent then (.ok (), d)
        else (.error LocalBlobStore.deleteErr, d)

def blobExists (d : LocalDisk) (hash : Bytes) : Except Err Bool :=
  if hasPathTraversalChars hash then .error LocalBlobStore.traversalErr
  else match walk d.fs.live.names 0 (blobPath hash) with
    | some _ => .ok true
    | none =>
      if d.missing (blobPath hash) = .enoent then .ok false
      else .error (.wrap "storage error: failed to stat blob: %w" [] (.sys .eio))

instance : BlobStore LocalDisk where
  putBlob := putBlob
  getBlob := getBlob
  deleteBlob := deleteBlob
  blobExists := some blobExists

def syncBlob (d : LocalDisk) (hash : Bytes) : Except Err LocalDisk :=
  if hasPathTraversalChars hash then
    .error (.wrap "durability: invalid hash contains path traversal characters: %w" [] (.sys .einval))
  else match walk d.fs.live.names 0 (blobPath hash) with
    | some (.file inode) => .ok { d with fs := d.fs.fsync inode }
    | some (.dir inode) => .ok { d with fs := d.fs.fsyncDir inode }
    | none =>
      .error (.wrap "durability: open blob to sync %s: %w" [.str hash]
        (.path (d.missing (blobPath hash))))

/-! ### Names on a blob's path -/

section Names

variable [Sha256]

theorem blobPath_hashBytes (c : Bytes) :
    blobPath (hashBytes c) = blobsName :: (GroupCommit.blobDir (hashBytes c) ++ [hashBytes c]) := by
  have hlen := length_hashBytes c
  have hne : ¬ (hashBytes c = [] ∨ hashBytes c = dot) := by
    rintro (h | h) <;> rw [h] at hlen <;> exact absurd hlen (by decide)
  exact if_neg hne

theorem length_mem_dirs {c n : Bytes} (h : n ∈ blobsName :: GroupCommit.blobDir (hashBytes c)) :
    n = blobsName ∨ n.length = 2 := by
  have hlen := length_hashBytes c
  rw [GroupCommit.blobDir, if_neg (by omega)] at h
  simp only [List.mem_cons, List.not_mem_nil, or_false] at h
  rcases h with h | h | h | h
  · exact .inl h
  all_goals
    subst h
    refine .inr ?_
    simp only [List.length_take, List.length_drop, hlen]
    rfl

theorem hashBytes_notMem_dirs (x c : Bytes) :
    hashBytes x ∉ blobsName :: GroupCommit.blobDir (hashBytes c) := by
  intro h
  have hlen := length_hashBytes x
  rcases length_mem_dirs h with h | h
  · rw [h] at hlen
    exact absurd hlen (by decide)
  · omega

theorem hashBytes_notMem_blobPath {x c : Bytes} (h : hashBytes x ≠ hashBytes c) :
    hashBytes x ∉ blobPath (hashBytes c) := by
  rw [blobPath_hashBytes, ← List.cons_append, List.mem_append, List.mem_singleton]
  rintro (hd | he)
  · exact hashBytes_notMem_dirs x c hd
  · exact h he

theorem tempName_notMem_dirs (random c : Bytes) :
    tempName random ∉ blobsName :: GroupCommit.blobDir (hashBytes c) := by
  intro h
  rcases length_mem_dirs h with h | h
  · simp [tempName, blobsName] at h
  · simp [tempName] at h

theorem tempName_notMem_blobPath (random c : Bytes) :
    tempName random ∉ blobPath (hashBytes c) := by
  rw [blobPath_hashBytes, ← List.cons_append, List.mem_append, List.mem_singleton]
  rintro (hd | he)
  · exact tempName_notMem_dirs random c hd
  · have hdash : (45 : UInt8) ∈ hashBytes c := by
      rw [← he, tempName]
      simp
    obtain ⟨n, hn⟩ := mem_hexEncode hdash
    exact absurd hn (by revert n; decide)

theorem dropLast_blobPath (c : Bytes) :
    (blobPath (hashBytes c)).dropLast = blobsName :: GroupCommit.blobDir (hashBytes c) := by
  rw [blobPath_hashBytes, ← List.cons_append, List.dropLast_concat]

theorem getLast?_blobPath (c : Bytes) : (blobPath (hashBytes c)).getLast? = some (hashBytes c) := by
  rw [blobPath_hashBytes, ← List.cons_append, List.getLast?_concat]

end Names

end LocalDisk

end Momo
