import Momo.Schemes.Run
import Momo.Storage.Books
import Momo.Storage.Versioning

/-! @momo src/storage/storage.go, src/storage/versioning.go, src/storage/lifecycle.go,
    src/transport/s3_versioning.go | scheme:frame over runs

    What operations on one name leave alone of another. Two names share nothing but the record and
    the bytes of a common hash. -/

namespace Momo.CASStore

inductive NameOp
  | put (hash : Bytes) (size : Int) (remotePath : Bytes) (content : Option Reader) (now : Int)
      (io : Option Err)
  | recordVersion (bucket hash : Bytes) (size : Int) (versionID : Bytes) (now : Int)
  | recordDeleteMarker (bucket versionID : Bytes) (now : Int)
  | deleteVersion (bucket versionID : Bytes) (now : Int) (bypass : Bool)
  /-- With the re-pointing of the name. -/
  | handleVersionedDelete (bucket versionID : Bytes) (now : Int) (bypass : Bool) (markerID : Bytes)
      (clock : Int)
  | expireObject (bucket : Bytes) (versioned : Bool) (markerID : Bytes) (now deleteAt : Int)
      (io : Option Err)
  | delete (now : Int) (io : Option Err)

/-! ### The condition -/

section Condition

variable {β : Type}

/-- Deleting `a` does not take the hash away that `b` reads. -/
def SparesName (s : CASStore β) (a b : Bytes) (io : Option Err) : Prop :=
  ∀ h ∈ orphanOf s.db a, DeleteOk io h → s.getHashForName b ≠ .ok h

instance (s : CASStore β) (a b : Bytes) (io : Option Err) : Decidable (s.SparesName a b io) :=
  inferInstanceAs (Decidable (∀ h ∈ orphanOf s.db a, DeleteOk io h → _ ≠ _))

/-- The condition on a step, seen from `b`. -/
def FrameSafe [BlobStore β] [MapBackend β] (a b : Bytes) (s : CASStore β) : NameOp → Prop
  | .put hash _ _ _ _ _ => s.getHashForName b = .ok hash → s.Holds hash
  | .expireObject _ _ _ _ _ io => s.SparesName a b io
  | .delete _ io => s.SparesName a b io
  | _ => True

instance [BlobStore β] [MapBackend β] (a b : Bytes) (s : CASStore β) (o : NameOp) :
    Decidable (FrameSafe a b s o) := by
  cases o <;> unfold FrameSafe <;> infer_instance

end Condition

section Frame

variable {β : Type} [BlobStore β]

def nameStep (a : Bytes) (s : CASStore β) : NameOp → CASStore β
  | .put hash size remotePath content now io => (s.put io now a hash size remotePath content).2
  | .recordVersion bucket hash size versionID now =>
    (s.recordVersion bucket a hash size versionID now).2
  | .recordDeleteMarker bucket versionID now => (s.recordDeleteMarker bucket a versionID now).2
  | .deleteVersion bucket versionID now bypass => (s.deleteVersion bucket a versionID now bypass).2
  | .handleVersionedDelete bucket versionID now bypass markerID clock =>
    (s.handleVersionedDelete bucket a versionID now bypass markerID clock).2
  | .expireObject bucket versioned markerID now deleteAt io =>
    (s.expireObject bucket a versioned markerID now deleteAt io).2
  | .delete now io => (s.delete io now a).2

variable [MapBackend β]

structure SameRead (b : Bytes) (s s' : CASStore β) : Prop where
  cfg : s'.cfg = s.cfg
  visible : s'.getHashForName b = s.getHashForName b
  path : s'.db.paths.get b = s.db.paths.get b
  modTime : s'.db.modTimes.get b = s.db.modTimes.get b
  mark : s'.db.quarantine = s.db.quarantine
  size : ∀ h, s.getHashForName b = .ok h →
    (s'.db.objects.get h).map ObjectMeta.size = (s.db.objects.get h).map ObjectMeta.size
  bytes : ∀ h, s.getHashForName b = .ok h → s'.bytes h = s.bytes h

namespace SameRead

variable {b : Bytes} {s s' s'' : CASStore β}

theorem trans (h₁ : SameRead b s s') (h₂ : SameRead b s' s'') : SameRead b s s'' where
  cfg := h₂.cfg.trans h₁.cfg
  visible := h₂.visible.trans h₁.visible
  path := h₂.path.trans h₁.path
  modTime := h₂.modTime.trans h₁.modTime
  mark := h₂.mark.trans h₁.mark
  size h hv := (h₂.size h (h₁.visible.trans hv)).trans (h₁.size h hv)
  bytes h hv := (h₂.bytes h (h₁.visible.trans hv)).trans (h₁.bytes h hv)

theorem get_eq [Sha256] (h : SameRead b s s') : (s'.get b).1 = (s.get b).1 := by
  cases hv : s.getHashForName b with
  | error e => rw [get_hidden s hv, get_hidden s' (h.visible.trans hv)]
  | ok hash =>
    rw [get_visible s hv, get_visible s' (h.visible.trans hv), h.cfg, h.mark, h.bytes hash hv,
      fileMetadata_congr (h.size hash hv) h.path h.modTime]

variable {a : Bytes}

theorem of_reshuffled (hne : b ≠ a) (hr : Reshuffled a s s') : SameRead b s s' := by
  have hns := hr.names b hne
  have hvis : s'.getHashForName b = s.getHashForName b := by
    rw [hr.shape]
    simp only [getHashForName, hns]
  rw [hr.shape] at hvis ⊢
  exact ⟨rfl, hvis, rfl, rfl, rfl, fun _ _ => rfl, fun _ _ => rfl⟩

variable {io : Option Err}

theorem of_removed {at_ : Int} (hne : b ≠ a) (hr : Removed s s' io a at_) (hs : s.SparesName a b io)
     :
    SameRead b s s' where
  cfg := hr.cfg
  visible := by
    simp only [getHashForName, hr.tombstones, hr.ns, Bucket.get_set_ne _ _ _ hne,
      Bucket.get_del_ne _ hne]
  path := by rw [hr.paths, Bucket.get_del_ne _ hne]
  modTime := by rw [hr.modTimes, Bucket.get_del_ne _ hne]
  mark := hr.quarantine
  size h hv := by
    have hkeep : ¬ (orphanOf s.db a = some h ∧ DeleteOk io h) := fun hc => hs h hc.1 hc.2 hv
    rw [hr.objects, if_neg hkeep]
    split_ifs
    · rw [Option.map_map]
      exact congrArg (Option.map · _) (funext fun m => dropRef_size m at_)
    · rfl
  bytes h hv := by
    have hkeep : ¬ (orphanOf s.db a = some h ∧ DeleteOk io h) := fun hc => hs h hc.1 hc.2 hv
    rw [hr.bytes, if_neg hkeep]

theorem of_delete (hne : b ≠ a) (now : Int) (hs : s.SparesName a b io) :
    SameRead b s (s.delete io now a).2 := by
  rcases s.delete_cases io now a with ⟨-, hdel⟩ | hr
  · rw [hdel]
    exact of_reshuffled hne (Reshuffled.refl a s)
  · exact of_removed hne hr hs

theorem of_expire (hne : b ≠ a) (bucket : Bytes) (versioned : Bool) (markerID : Bytes)
    (now deleteAt : Int) (hs : s.SparesName a b io) :
    SameRead b s (s.expireObject bucket a versioned markerID now deleteAt io).2 := by
  have hr := reshuffled_recordDeleteMarker s a bucket a markerID now
  have hns := s.recordDeleteMarker_ns bucket a markerID now
  unfold expireObject
  cases versioned with
  | false => exact of_delete hne deleteAt hs
  | true =>
    cases hm : s.recordDeleteMarker bucket a markerID now with
    | mk res s₁ =>
      rw [hm] at hr hns
      have hmark : SameRead b s s₁ := of_reshuffled hne hr
      cases res with
      | error e => exact hmark
      | ok _ =>
        refine hmark.trans (of_delete hne deleteAt ?_)
        intro h ho hd
        rw [hr.orphanOf_eq hns] at ho
        rw [hmark.visible]
        exact hs h ho hd

theorem bytesAfter_eq {hash h : Bytes} (content : Option Reader) (hh : h = hash → s.Holds hash) :
    s.bytesAfter hash content h = s.bytes h := by
  cases content with
  | none => rfl
  | some r =>
    rw [bytesAfter]
    split_ifs with hp
    · rfl
    · exact Function.update_of_ne (fun heq => hp (hh heq)) ..

theorem of_put (hne : b ≠ a) {hash : Bytes} (size : Int) (remotePath : Bytes)
    (content : Option Reader) (now : Int) (io : Option Err)
    (hs : s.getHashForName b = .ok hash → s.Holds hash) :
    SameRead b s (s.put io now a hash size remotePath content).2 := by
  have hkeep : ∀ h, s.getHashForName b = .ok h → s.bytesAfter hash content h = s.bytes h :=
    fun h hv => bytesAfter_eq content (fun heq => hs (heq ▸ hv))
  cases hput : s.put io now a hash size remotePath content with
  | mk res s' =>
    cases res with
    | error e =>
      obtain ⟨hcfg, hdb, hb⟩ := put_error hput
      refine ⟨hcfg, by simp only [getHashForName, hdb], by rw [hdb], by rw [hdb], by rw [hdb],
        fun _ _ => by rw [hdb], fun h hv => ?_⟩
      rcases hb with hb | hb
      · rw [hb]
      · rw [hb, hkeep h hv]
    | ok read =>
      obtain ⟨-, hw, -, hb⟩ := put_ok hput
      refine ⟨hw.cfg, ?_, putPath_get_ne hw.paths hne, ?_, hw.quarantine, fun h hv => ?_,
        fun h hv => by rw [hb, hkeep h hv]⟩
      · simp only [getHashForName, hw.tombstones, hw.ns, Bucket.get_set_ne _ _ _ hne,
          Bucket.get_del_ne _ hne]
      · rw [hw.modTimes, Bucket.get_set_ne _ _ _ hne]
      · rw [hw.objects]
        rcases eq_or_ne h hash with rfl | hneh
        · -- the record gains a reference and keeps its size
          obtain ⟨m, hm⟩ := Option.isSome_iff_exists.mp (hs hv).1
          rw [Bucket.get_set_self, hm, Option.map_some, putMeta_size]
          rfl
        · rw [Bucket.get_set_ne _ _ _ hneh]

end SameRead

theorem sameRead_step {a b : Bytes} (hne : b ≠ a) {s : CASStore β} {o : NameOp}
    (hs : FrameSafe a b s o) : SameRead b s (s.nameStep a o) := by
  cases o with
  | put hash size remotePath content now io =>
    exact SameRead.of_put hne size remotePath content now io hs
  | recordVersion bucket hash size versionID now =>
    obtain ⟨versions, hrec, -⟩ := s.recordVersion_spec bucket a hash size versionID now
    rw [nameStep, hrec]
    exact ⟨rfl, rfl, rfl, rfl, rfl, fun _ _ => rfl, fun _ _ => rfl⟩
  | recordDeleteMarker bucket versionID now =>
    exact SameRead.of_reshuffled hne (reshuffled_recordDeleteMarker ..)
  | deleteVersion bucket versionID now bypass =>
    exact SameRead.of_reshuffled hne (reshuffled_deleteVersion ..)
  | handleVersionedDelete bucket versionID now bypass markerID clock =>
    exact SameRead.of_reshuffled hne (reshuffled_handleVersionedDelete ..)
  | expireObject bucket versioned markerID now deleteAt io =>
    exact SameRead.of_expire hne bucket versioned markerID now deleteAt hs
  | delete now io => exact SameRead.of_delete hne now hs

/-- CORRECT: operations on `a` that take no hash away from `b` and put no bytes under a hash that
    `b` names and that is not held leave what `b` reads as it was, in every state. -/
theorem get_frame [Sha256] {a b : Bytes} (hne : b ≠ a) (s : CASStore β) (ops : List NameOp)
    (hg : Guarded (nameStep a) (FrameSafe a b) s ops) :
    ((run (nameStep a) s ops).get b).1 = (s.get b).1 := by
  have hstep : ∀ (t : CASStore β) (o : NameOp), SameRead b s t → FrameSafe a b t o →
      SameRead b s (t.nameStep a o) :=
    fun t o ht ho => ht.trans (sameRead_step hne ho)
  have hbase : SameRead b s s := ⟨rfl, rfl, rfl, rfl, rfl, fun _ _ => rfl, fun _ _ => rfl⟩
  exact (run_invariant (SameRead b s) hstep hbase hg).get_eq

end Frame

/-! ### Concrete runs on the local back end -/

section Runs

local instance frameSha : Sha256 := sampleSha

def oneName : CASStore LocalBlobStore :=
  (({ cfg := {}, blobs := {} } : CASStore LocalBlobStore).put none 1 [98] (hashBytes [120]) 1 []
    (some ⟨[120], none⟩)).2

/-- `a` gets the content of `b`, is versioned, expires, is put again and deleted: each delete finds
    the reference of `b` beside its own. -/
def countedRun : List NameOp :=
  [.put (hashBytes [120]) 1 [] (some ⟨[120], none⟩) 2 none,
    .recordVersion [117] (hashBytes [120]) 1 [49] 3, .expireObject [117] true [50] 4 4 none,
    .put (hashBytes [120]) 1 [] (some ⟨[120], none⟩) 5 none, .delete 6 none]

theorem get_after_countedRun :
    ((run (nameStep [97]) oneName countedRun).get [98]).1 = (oneName.get [98]).1 :=
  get_frame (by decide) oneName countedRun (by decide +kernel)

/-- The same with a revival: deleting the marker of the expiry points `a` at the hash again, without
    a reference, and the next `Delete` of `a` takes the reference of `b`. -/
def revivingRun : List NameOp :=
  [.put (hashBytes [120]) 1 [] (some ⟨[120], none⟩) 2 none,
    .recordVersion [117] (hashBytes [120]) 1 [49] 3, .expireObject [117] true [50] 4 4 none,
    .handleVersionedDelete [117] [50] 5 false [] 5, .delete 6 none]

theorem get_lost_after_revivingRun :
    (oneName.get [98]).1.map (fun r => r.1.readAll) = .ok ([120], none) ∧
    ((run (nameStep [97]) oneName revivingRun).get [98]).1 = .error (.sys .enoent) := by
  decide +kernel

end Runs

end Momo.CASStore
