import Momo.Storage.CAS

/-! @momo src/storage/gc.go | scheme:state passing

    The background collector and the remote half of a delete.

      runGC           sweep orphaned blobs, then expired tombstones
      ApplyTombstone  a delete that happened on a peer, ignored when a tombstone at least as new
                      is already recorded -/

namespace Momo.CASStore

variable {β : Type} [BlobStore β]

def applyTombstone (s : CASStore β) (io : Option Err) (name : Bytes) (deletedAt : Int) :
    Except Err Unit × CASStore β :=
  let apply := s.remove io name deletedAt id (.wrap "metadata update error: %w" [] (.sys .eio))
  match s.db.tombstones.get name with
  | none => apply
  | some existingTs => if existingTs ≥ deletedAt then (.ok (), s) else apply

def sweepable (m : ObjectMeta) : Bool := m.encode.length = 24 ∧ m.refCount ≤ 0

/-- Records go in one transaction, then the bytes, whose failures are only logged. -/
def sweepOrphanedBlobs (s : CASStore β) (io : Bytes → Option Err) : CASStore β :=
  let orphaned := (s.db.objects.map.entries.filter (fun e => sweepable e.2)).map Prod.fst
  let db := { s.db with objects := s.db.objects.prune (fun _ m => !sweepable m) }
  let blobs := orphaned.foldl (fun b h => (BlobStore.deleteBlob b h (io h)).2) s.blobs
  { s with db := db, blobs := blobs }

def sweepExpiredTombstones (s : CASStore β) (now retention : Int) : CASStore β :=
  let cutoff := now - retention
  { s with db := { s.db with tombstones := s.db.tombstones.prune (fun _ t => cutoff ≤ t) } }

def runGC (s : CASStore β) (io : Bytes → Option Err) (now retention : Int) : CASStore β :=
  (s.sweepOrphanedBlobs io).sweepExpiredTombstones now retention

theorem sweepable_eq_false (m : ObjectMeta) : sweepable m = false := by
  have h := m.encode_length_ge
  simp only [sweepable, decide_eq_false_iff_not]
  omega

theorem sweepOrphanedBlobs_eq (s : CASStore β) (io : Bytes → Option Err) :
    s.sweepOrphanedBlobs io = s := by
  have hobj : s.db.objects.prune (fun _ m => !sweepable m) = s.db.objects := by
    apply Bucket.ext
    intro k
    rw [Bucket.get_prune]
    cases s.db.objects.get k <;> simp [sweepable_eq_false]
  have hnone : s.db.objects.map.entries.filter (fun e => sweepable e.2) = [] := by
    simp [sweepable_eq_false]
  simp only [sweepOrphanedBlobs, hobj, hnone, List.map_nil, List.foldl_nil]

end Momo.CASStore
