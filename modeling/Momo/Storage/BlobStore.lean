import Momo.Storage.Meta

/-! @momo src/storage/blobstore.go, src/storage/local_blobstore.go
    scheme:interface, contract, instance

    `BlobStore` is the seam between the metadata layer and the bytes. Three layers here. -/

namespace Momo

/-- The `BlobStore` interface. `putBlob` returns what it read of the content. -/
class BlobStore (β : Type) where
  putBlob : β → (hash : Bytes) → (content : Reader) → (io : Option Err) → Except Err Bytes × β
  getBlob : β → (hash : Bytes) → Except Err Reader
  deleteBlob : β → (hash : Bytes) → (io : Option Err) → Except Err Unit × β
  /-- The optional `blobPresence` seam. -/
  blobExists : Option (β → (hash : Bytes) → Except Err Bool)

/-- A back end that is a map from hash to bytes: a write that fails and a delete that fails leave
    the map alone, and a read is decided by the map. -/
class MapBackend (β : Type) [BlobStore β] where
  view : β → Bytes → Option Bytes
  /-- What a read of an absent hash reports. -/
  missing : Bytes → Err
  missing_isNotExist : ∀ h, hasPathTraversalChars h = false → (missing h).isNotExist = true
  getBlob_eq : ∀ (b : β) h, BlobStore.getBlob b h =
    match view b h with
    | some c => .ok ⟨c, none⟩
    | none => .error (missing h)
  putBlob_ok : ∀ (b : β) h c, hasPathTraversalChars h = false →
    ∃ b', BlobStore.putBlob b h ⟨c, none⟩ none = (.ok c, b') ∧
      view b' = Function.update (view b) h (some c)
  putBlob_fail : ∀ (b : β) h r io,
    (io ≠ none ∨ r.fault ≠ none ∨ hasPathTraversalChars h = true) →
    ∃ e b', BlobStore.putBlob b h r io = (.error e, b') ∧ view b' = view b
  deleteBlob_ok : ∀ (b : β) h, hasPathTraversalChars h = false →
    ∃ b', BlobStore.deleteBlob b h none = (.ok (), b') ∧ view b' = Function.update (view b) h none
  deleteBlob_fail : ∀ (b : β) h io, (io ≠ none ∨ hasPathTraversalChars h = true) →
    ∃ e b', BlobStore.deleteBlob b h io = (.error e, b') ∧ view b' = view b
  blobExists_eq : ∀ f, BlobStore.blobExists = some f → ∀ (b : β) h,
    hasPathTraversalChars h = false → f b h = .ok (view b h).isSome

/-! ### The local file system -/

/-- The blob files under `<base>/blobs`, by the hash their path is made of. -/
structure LocalBlobStore where
  files : OMap Bytes Bytes := OMap.empty

namespace LocalBlobStore

/-- The system calls of `PutBlob`, in the order it makes them. -/
inductive PutCall
  | statfs | mkdirAll | createTemp | write | flush | fsync | close | rename
  deriving DecidableEq

def isPermission (no : Errno) : Bool := no = .eacces || no = .eperm

/-- How `PutBlob` reports the failure of each call. -/
def putErr (call : PutCall) (no : Errno) : Err :=
  let keep (p : Bool) (kept : Errno) : Errno := if p then kept else .eio
  match call with
  | .statfs => if no = .enospc then .sys .enospc else .wrap "statfs: %w" [] (.sys no)
  | .mkdirAll =>
    .wrap "storage error: failed to create tiered dir: %w" []
      (.sys (if isPermission no then .eacces else keep (no = .enospc) .enospc))
  | .createTemp =>
    .wrap "storage error: failed to create temp file: %w" []
      (.sys (if isPermission no then .eacces else keep (no = .enospc) .enospc))
  | .write => .wrap "storage error: failed to write blob: %v: %w" [] (.sys .eio)
  | .flush => .wrap "storage error: failed to flush blob: %w" [] (.sys (keep (no = .enospc) .enospc))
  | .fsync => .wrap "storage error: failed to fsync blob: %w" [] (.sys (keep (no = .enospc) .enospc))
  | .close => .wrap "storage error: failed to close blob: %w" [] (.sys .eio)
  | .rename =>
    .wrap "storage error: failed to commit blob: %w" [] (.sys (keep (isPermission no) .eacces))

/-- How `DeleteBlob` reports a failed remove. -/
def deleteErr : Err := .wrap "storage error: failed to delete blob: %w" [] (.sys .eio)

def traversalErr : Err :=
  .wrap "storage error: invalid hash contains path traversal characters: %w" [] (.sys .einval)

/-- Temp file, then rename over whatever was there. A failing call or a failing content reader
    leaves only the temp file, which is removed. -/
def putBlob (b : LocalBlobStore) (hash : Bytes) (content : Reader) (io : Option Err) :
    Except Err Bytes × LocalBlobStore :=
  match io with
  | some e => (.error e, b)
  | none =>
    if hasPathTraversalChars hash then (.error traversalErr, b)
    else match content.fault with
      | some _ => (.error (putErr .write .eio), b)
      | none => (.ok content.data, ⟨b.files.put hash content.data⟩)

/-- A missing file is reported as the path error of the open call. -/
def getBlob (b : LocalBlobStore) (hash : Bytes) : Except Err Reader :=
  if hasPathTraversalChars hash then .error traversalErr
  else match b.files.get hash with
    | some c => .ok ⟨c, none⟩
    | none => .error (.path .enoent)

/-- A missing file is silently ignored. -/
def deleteBlob (b : LocalBlobStore) (hash : Bytes) (io : Option Err) :
    Except Err Unit × LocalBlobStore :=
  if hasPathTraversalChars hash then (.error traversalErr, b)
  else match io with
    | some e => (.error e, b)
    | none => (.ok (), ⟨b.files.del hash⟩)

def blobExists (b : LocalBlobStore) (hash : Bytes) : Except Err Bool :=
  if hasPathTraversalChars hash then .error traversalErr else .ok (b.files.get hash).isSome

instance : BlobStore LocalBlobStore where
  putBlob := putBlob
  getBlob := getBlob
  deleteBlob := deleteBlob
  blobExists := some blobExists

def view (b : LocalBlobStore) (h : Bytes) : Option Bytes :=
  if hasPathTraversalChars h then none else b.files.get h

theorem view_put (b : LocalBlobStore) {h : Bytes} (c : Bytes) (hh : hasPathTraversalChars h = false) :
    view ⟨b.files.put h c⟩ = Function.update (view b) h (some c) := by
  funext h'
  by_cases he : h' = h
  · subst he; simp [view, hh]
  · rw [Function.update_of_ne he, view, view, OMap.get_put_ne _ _ he]

theorem view_del (b : LocalBlobStore) (h : Bytes) :
    view ⟨b.files.del h⟩ = Function.update (view b) h none := by
  funext h'
  by_cases he : h' = h
  · subst he; simp [view]
  · rw [Function.update_of_ne he, view, view, OMap.get_del_ne _ he]

instance : MapBackend LocalBlobStore where
  view := view
  missing h := if hasPathTraversalChars h then traversalErr else .path .enoent
  missing_isNotExist h hh := by rw [hh]; rfl
  getBlob_eq b h := by
    simp only [BlobStore.getBlob, getBlob, view]
    split_ifs
    · rfl
    · cases b.files.get h <;> rfl
  putBlob_ok b h c hh := by
    refine ⟨⟨b.files.put h c⟩, ?_, view_put b c hh⟩
    simp [BlobStore.putBlob, putBlob, hh]
  putBlob_fail b h r io hf := by
    cases io with
    | some e => exact ⟨e, b, rfl, rfl⟩
    | none =>
      cases hh : hasPathTraversalChars h with
      | true => exact ⟨traversalErr, b, by simp [BlobStore.putBlob, putBlob, hh], rfl⟩
      | false =>
        obtain ⟨e, he⟩ : ∃ e, r.fault = some e := Option.ne_none_iff_exists'.mp (by simpa [hh] using hf)
        exact ⟨putErr .write .eio, b, by simp [BlobStore.putBlob, putBlob, hh, he], rfl⟩
  deleteBlob_ok b h hh := by
    refine ⟨⟨b.files.del h⟩, ?_, view_del b h⟩
    simp [BlobStore.deleteBlob, deleteBlob, hh]
  deleteBlob_fail b h io hf := by
    cases hh : hasPathTraversalChars h with
    | true => exact ⟨traversalErr, b, by simp [BlobStore.deleteBlob, deleteBlob, hh], rfl⟩
    | false =>
      obtain ⟨e, rfl⟩ : ∃ e, io = some e := Option.ne_none_iff_exists'.mp (by simpa [hh] using hf)
      exact ⟨e, b, by simp [BlobStore.deleteBlob, deleteBlob, hh], rfl⟩
  blobExists_eq f hf b h hh := by
    obtain rfl : blobExists = f := Option.some.inj hf
    simp [blobExists, view, hh]

end LocalBlobStore

end Momo
