import Momo.Schemes.Run
import Momo.Storage.VersionChain

/-! @momo src/storage/versioning.go | scheme:invariant over runs

    The latest record, twice. `putVersion` and `rePointLatest` keep a flag on one record of a chain;
    `latestVersionTx` ignores the flags and takes the newest time, then the greatest id. A chain is
    `Pointed` when the two agree. A write keeps that when the new record outranks the others, a
    replicated record when it outranks them and says so, or when it ranks below the flagged one. A
    clock that goes back, a tie against the order of the ids, and a replicated record that carries
    the wrong flag break it. -/

namespace Momo

/-! ### Chains -/

def Pointed (c : Bytes → Option VersionRecord) : Prop :=
  (∀ v, c v = none) ∨ ∃ best, IsBest c best ∧
    ∀ v r, c v = some r → (r.isLatest = true ↔ v = best.versionID)

section Chains

variable {c : Bytes → Option VersionRecord} {rec : VersionRecord}

/-- Step: a flagged record on top of records it outranks. -/
theorem pointed_push (hflag : rec.isLatest = true)
    (hnew : ∀ v r, c v = some r → v ≠ rec.versionID → r.rank ≤ rec.rank) :
    Pointed (push c rec) := by
  refine Or.inr ⟨rec, isBest_push hnew, fun v r' hr' => ?_⟩
  rcases push_eq_some.mp hr' with ⟨hv, rfl⟩ | ⟨hv, r, -, rfl⟩
  · exact ⟨fun _ => hv, fun _ => hflag⟩
  · exact ⟨fun h => (by cases h), fun h => absurd h hv⟩

theorem pointed_beside {best : VersionRecord} (hbest : IsBest c best)
    (hflags : ∀ v r, c v = some r → (r.isLatest = true ↔ v = best.versionID))
    (hne : best.versionID ≠ rec.versionID) (hrank : rec.rank ≤ best.rank) :
    Pointed (Function.update c rec.versionID (some rec.demoted)) := by
  refine Or.inr ⟨best, ⟨?_, fun v r' hr' => ?_⟩, fun v r' hr' => ?_⟩
  · rw [Function.update_of_ne hne]
    exact hbest.stored
  · rcases update_eq_some.mp hr' with ⟨-, hrec⟩ | ⟨-, hr⟩
    · cases hrec
      exact hrank
    · exact hbest.highest v r' hr
  · rcases update_eq_some.mp hr' with ⟨rfl, hrec⟩ | ⟨-, hr⟩
    · cases hrec
      exact ⟨fun h => (by cases h), fun h => absurd h.symm hne⟩
    · exact hflags v r' hr

theorem pointed_drop (hp : Pointed c) {id : Bytes} {r : VersionRecord} (hr : c id = some r)
    (hflag : r.isLatest = false) : Pointed (Function.update c id none) := by
  rcases hp with hnone | ⟨best, hbest, hflags⟩
  · rw [hnone id] at hr
    cases hr
  · have hne : best.versionID ≠ id := by
      intro h
      have hset := (hflags id r hr).mpr h.symm
      rw [hflag] at hset
      cases hset
    refine Or.inr ⟨best, ⟨?_, fun v r' hr' => ?_⟩, fun v r' hr' => ?_⟩
    · rw [Function.update_of_ne hne]
      exact hbest.stored
    · rcases update_eq_some.mp hr' with ⟨-, hno⟩ | ⟨-, hr⟩
      · cases hno
      · exact hbest.highest v r' hr
    · rcases update_eq_some.mp hr' with ⟨-, hno⟩ | ⟨-, hr⟩
      · cases hno
      · exact hflags v r' hr

theorem pointed_repoint (hnone : ∀ v r, c v = some r → r.isLatest = false) {best : VersionRecord}
    (hbest : IsBest c best) :
    Pointed (Function.update c best.versionID (some { best with isLatest := true })) := by
  refine Or.inr ⟨{ best with isLatest := true }, ⟨?_, fun v r' hr' => ?_⟩, fun v r' hr' => ?_⟩
  · exact Function.update_self ..
  · rcases update_eq_some.mp hr' with ⟨-, hrec⟩ | ⟨-, hr⟩
    · cases hrec
      exact le_refl _
    · exact hbest.highest v r' hr
  · rcases update_eq_some.mp hr' with ⟨hv, hrec⟩ | ⟨hv, hr⟩
    · cases hrec
      exact ⟨fun _ => hv, fun _ => rfl⟩
    · exact ⟨fun h => absurd h (by rw [hnone v r' hr]; simp), fun h => absurd h hv⟩

end Chains

/-! ### Tables -/

structure Flagged (versions : Bucket VersionRecord) : Prop where
  layout : Layout versions
  pointed : ∀ b k, Pointed (chain versions b k)

theorem flagged_empty : Flagged Bucket.empty where
  layout := layout_empty
  pointed _ _ := Or.inl (fun _ => rfl)

section Tables

variable {versions versions' : Bucket VersionRecord}

variable {b k : Bytes}

theorem Flagged.touch (hf : Flagged versions) {id : Bytes} (ht : Touched versions versions' b k id)
    (hp : Pointed (chain versions' b k)) : Flagged versions' := by
  refine ⟨ht.layout, fun b' k' => ?_⟩
  by_cases hsame : b' = b ∧ k' = k
  · obtain ⟨rfl, rfl⟩ := hsame
    exact hp
  rw [ht.others b' k' hsame]
  exact hf.pointed b' k'

def Newest (versions : Bucket VersionRecord) (bucket key : Bytes) (rec : VersionRecord) : Prop :=
  ∀ e ∈ versions.map.entries, versionPrefix bucket key <+: e.1 →
    e.2.versionID ≠ rec.versionID → rec.beats e.2 = true

instance (versions : Bucket VersionRecord) (bucket key : Bytes) (rec : VersionRecord) :
    Decidable (Newest versions bucket key rec) :=
  inferInstanceAs (Decidable (∀ e ∈ versions.map.entries, _ → _ → _ = _))

variable {rec : VersionRecord}

theorem Newest.rank_le (h : Newest versions b k rec) (hown : OwnIds (chain versions b k)) :
    ∀ v r, chain versions b k v = some r → v ≠ rec.versionID → r.rank ≤ rec.rank := by
  intro v r hr hv
  have hmem : (versionKey b k v, r) ∈ versions.map.entries := (OMap.mem_entries _).mpr hr
  have hbeats := h _ hmem ⟨v, rfl⟩ (by rw [hown v r hr]; exact hv)
  exact (VersionRecord.beats_iff.mp hbeats).le

theorem Flagged.putVersion (hf : Flagged versions) (op : String)
    (hfit : Fits versions b k rec.versionID) (hflag : rec.isLatest = true)
    (hnew : Newest versions b k rec) :
    ∃ versions', Momo.putVersion op versions b k rec = .ok versions' ∧ Flagged versions' := by
  obtain ⟨top, htop, hchain, ht⟩ := hf.layout.putVersion op hfit
  refine ⟨top, htop, hf.touch ht ?_⟩
  rw [hchain]
  exact pointed_push hflag (hnew.rank_le (hf.layout.ownIds b k))

/-- A replicated record finds its place: it is there already, or it is flagged and outranks the
    others and is not older than its own predecessor, or it ranks below another record that carries
    the flag and does not claim a place it would get by time. -/
def FindsPlace (versions : Bucket VersionRecord) (bucket key : Bytes) (rec : VersionRecord) : Prop :=
  versions.get (versionKey bucket key rec.versionID) = some rec ∨
    (rec.isLatest = true ∧ Newest versions bucket key rec ∧
      ∀ r ∈ versions.get (versionKey bucket key rec.versionID), r.timestamp ≤ rec.timestamp) ∨
    ∃ e ∈ versions.map.entries, versionPrefix bucket key <+: e.1 ∧ e.2.isLatest = true ∧
      e.2.versionID ≠ rec.versionID ∧ e.2.beats rec = true ∧
      (rec.isLatest = true → rec.timestamp < e.2.timestamp)

instance (versions : Bucket VersionRecord) (bucket key : Bytes) (rec : VersionRecord) :
    Decidable (FindsPlace versions bucket key rec) :=
  inferInstanceAs (Decidable (_ ∨ (_ ∧ _ ∧ ∀ r ∈ versions.get _, _) ∨ ∃ e ∈ _, _))

theorem pointed_replicated {c' : Bytes → Option VersionRecord} (hp : Pointed (chain versions b k))
    (hown : OwnIds (chain versions b k)) (hplace : FindsPlace versions b k rec)
    (hr : Replicated (chain versions b k) c' rec) : Pointed c' := by
  cases hr with
  | same hsame heq => exact heq ▸ hp
  | top hne hflag hnew heq =>
    rcases hplace with hsame | ⟨-, hbeats, -⟩ | ⟨e, he, ⟨v, hv⟩, -, -, -, hold⟩
    · exact absurd hsame hne
    · exact heq ▸ pointed_push hflag (hbeats.rank_le hown)
    · -- the flagged record is newer, so the record did not get to the top
      have hget : chain versions b k v = some e.2 := by
        rw [chain, show versionKey b k v = e.1 from hv]
        exact (OMap.mem_entries _).mp he
      exact absurd (hold hflag) (not_lt.mpr (hnew v e.2 hget))
  | beside hne hold heq =>
    rcases hplace with hsame | ⟨hflag, hbeats, hself⟩ | ⟨e, he, ⟨v, hv⟩, hset, hid, hbeat, -⟩
    · exact absurd hsame hne
    · -- no record is newer, so the record did get to the top
      obtain ⟨best, hbest, hlt⟩ := hold hflag
      refine absurd hlt (not_lt.mpr ?_)
      rcases eq_or_ne best.versionID rec.versionID with heq' | hne'
      · exact hself best (heq' ▸ hbest.stored)
      · exact timestamp_le_of_rank (hbeats.rank_le hown _ best hbest.stored hne')
    · have hget : chain versions b k v = some e.2 := by
        rw [chain, show versionKey b k v = e.1 from hv]
        exact (OMap.mem_entries _).mp he
      rcases hp with hnone | ⟨best, hbest, hflags⟩
      · rw [hnone v] at hget
        cases hget
      · obtain rfl := (hflags v e.2 hget).mp hset
        have hsame : best = e.2 := Option.some.inj (hbest.stored.symm.trans hget)
        rw [heq]
        refine pointed_beside hbest hflags (hsame ▸ hid) (hsame ▸ ?_)
        exact (VersionRecord.beats_iff.mp hbeat).le

theorem Flagged.applyReplicatedRecord (hf : Flagged versions) (op : String)
    (hfit : Fits versions b k rec.versionID) (hplace : FindsPlace versions b k rec) :
    ∃ versions', Momo.applyReplicatedRecord op versions b k rec = .ok versions' ∧
      Flagged versions' := by
  obtain ⟨out, hout, hrep, ht⟩ := hf.layout.applyReplicatedRecord op hfit
  exact ⟨out, hout, hf.touch ht
    (pointed_replicated (hf.pointed b k) (hf.layout.ownIds b k) hplace hrep)⟩

/-- Step: one record less, and the flag moved on if it carried it. -/
theorem Flagged.remove (hf : Flagged versions) {op : String} {id : Bytes} {deleted : VersionRecord}
    (hget : versions.get (versionKey b k id) = some deleted)
    (hre : rePointLatest op (versions.del (versionKey b k id)) b k deleted.isLatest = .ok versions')
     :
    Flagged versions' := by
  obtain ⟨out, hout, hdrop, ht⟩ := hf.layout.remove op hget
  rw [hre] at hout
  cases hout
  refine hf.touch ht ?_
  cases hdrop with
  | keep hflag heq =>
    rw [heq]
    rcases hflag with hflag | hnone
    · exact pointed_drop (hf.pointed b k) hget hflag
    · exact Or.inl hnone
  | repoint hflag best hbest heq =>
    rw [heq]
    refine pointed_repoint (fun v r hr => ?_) hbest
    -- the removed record carried the only flag
    rcases update_eq_some.mp hr with ⟨-, hno⟩ | ⟨hv, hr⟩
    · cases hno
    rcases hf.pointed b k with hnone | ⟨top, -, hflags⟩
    · rw [hnone v] at hr
      cases hr
    · have hid := (hflags id deleted hget).mp hflag
      have hset : r.isLatest ≠ true := fun h => hv (((hflags v r hr).mp h).trans hid.symm)
      simpa using hset

end Tables

/-! ### Runs -/

namespace CASStore

/-- The calls that write version records, with the ids and clock readings of the local ones. -/
inductive FlagOp
  | recordVersion (bucket key hash : Bytes) (size : Int) (versionID : Bytes) (now : Int)
  | recordDeleteMarker (bucket key versionID : Bytes) (now : Int)
  | putVersionRecord (bucket key : Bytes) (rec : VersionRecord)
  | deleteVersion (bucket key versionID : Bytes) (now : Int) (bypass : Bool)

variable {β : Type}

def flagStep (s : CASStore β) : FlagOp → CASStore β
  | .recordVersion bucket key hash size versionID now =>
    (s.recordVersion bucket key hash size versionID now).2
  | .recordDeleteMarker bucket key versionID now =>
    (s.recordDeleteMarker bucket key versionID now).2
  | .putVersionRecord bucket key rec => (s.putVersionRecord bucket key rec).2
  | .deleteVersion bucket key versionID now bypass =>
    (s.deleteVersion bucket key versionID now bypass).2

/-- The condition on a step. A local record fits and outranks the others of its object; a
    replicated one, unless it is refused, fits and finds its place; a deletion needs nothing. -/
def FlagSafe (s : CASStore β) : FlagOp → Prop
  | .recordVersion bucket key hash size versionID now =>
    Fits s.db.objectVersions bucket key versionID ∧
      Newest s.db.objectVersions bucket key
        { versionID := versionID, hash := hash, size := size, timestamp := now, isLatest := true }
  | .recordDeleteMarker bucket key versionID now =>
    Fits s.db.objectVersions bucket key versionID ∧
      Newest s.db.objectVersions bucket key
        { versionID := versionID, timestamp := now, isLatest := true, isDeleteMarker := true }
  | .putVersionRecord bucket key rec =>
    (bucket = [] ∨ key = [] ∨ rec.versionID = []) ∨
      Fits s.db.objectVersions bucket key rec.versionID ∧
        FindsPlace s.db.objectVersions bucket key rec
  | .deleteVersion _ _ _ _ _ => True

instance (s : CASStore β) (o : FlagOp) : Decidable (s.FlagSafe o) := by
  cases o <;> unfold FlagSafe <;> infer_instance

theorem flagged_step {s : CASStore β} {o : FlagOp} (hf : Flagged s.db.objectVersions)
    (hs : s.FlagSafe o) : Flagged (s.flagStep o).db.objectVersions := by
  cases o with
  | recordVersion bucket key hash size versionID now =>
    obtain ⟨versions, hput, hf'⟩ := hf.putVersion "CASStore.RecordVersion" hs.1 rfl hs.2
    rw [flagStep, recordVersion, hput]
    exact hf'
  | recordDeleteMarker bucket key versionID now =>
    obtain ⟨versions, hput, hf'⟩ := hf.putVersion "CASStore.RecordDeleteMarker" hs.1 rfl hs.2
    rw [flagStep, recordDeleteMarker, hput]
    exact hf'
  | putVersionRecord bucket key rec =>
    rw [flagStep, putVersionRecord]
    split_ifs with hempty
    · exact hf
    · obtain ⟨hfit, hplace⟩ := hs.resolve_left hempty
      obtain ⟨versions, happ, hf'⟩ :=
        hf.applyReplicatedRecord "CASStore.PutVersionRecord" hfit hplace
      rw [happ]
      exact hf'
  | deleteVersion bucket key versionID now bypass =>
    rw [flagStep]
    rcases deleteVersion_cases s bucket key versionID now bypass with
      ⟨e, hdel⟩ | ⟨deleted, versions, hget, -, hre, hdel⟩
    · rw [hdel]
      exact hf
    · rw [hdel]
      exact hf.remove hget hre

theorem latestVersion_flagged {s : CASStore β} (hf : Flagged s.db.objectVersions)
    {bucket key versionID : Bytes} {r : VersionRecord}
    (hr : s.db.objectVersions.get (versionKey bucket key versionID) = some r) :
    ∃ latest, s.latestVersion bucket key = .ok (some latest) ∧
      s.db.objectVersions.get (versionKey bucket key latest.versionID) = some latest ∧
      ∀ v r', s.db.objectVersions.get (versionKey bucket key v) = some r' →
        (r'.isLatest = true ↔ v = latest.versionID) := by
  obtain ⟨-, -, hclear⟩ := hf.layout.clear_of_chain hr
  have hown := hf.layout.ownIds bucket key
  rcases hf.pointed bucket key with hnone | ⟨best, hbest, hflags⟩
  · have hr' := hnone versionID
    rw [chain, hr] at hr'
    cases hr'
  rcases latestVersionTx_eq "CASStore.LatestVersion" hclear hown with
    ⟨-, hnone⟩ | ⟨latest, hlatest, hbest'⟩
  · have hstored := hbest.stored
    rw [hnone] at hstored
    cases hstored
  · obtain rfl := hbest.unique hbest'
    exact ⟨latest, hlatest, hbest.stored, hflags⟩

/-- CORRECT: in a run whose calls all meet the condition, from an empty version table, every object
    with a record has exactly one flagged record, and `LatestVersion` returns it. -/
theorem latestVersion_after_run (s : CASStore β) (hs : s.db.objectVersions = Bucket.empty)
    (ops : List FlagOp) (hg : Guarded flagStep FlagSafe s ops) (bucket key versionID : Bytes)
    (r : VersionRecord)
    (hr : (run flagStep s ops).db.objectVersions.get (versionKey bucket key versionID) = some r) :
    ∃ latest, (run flagStep s ops).latestVersion bucket key = .ok (some latest) ∧
      (run flagStep s ops).db.objectVersions.get (versionKey bucket key latest.versionID) =
        some latest ∧
      ∀ v r', (run flagStep s ops).db.objectVersions.get (versionKey bucket key v) = some r' →
        (r'.isLatest = true ↔ v = latest.versionID) := by
  have hstep : ∀ (t : CASStore β) (o : FlagOp), Flagged t.db.objectVersions → t.FlagSafe o →
      Flagged (t.flagStep o).db.objectVersions := fun t o ht ho => flagged_step ht ho
  have hbase : Flagged s.db.objectVersions := by
    rw [hs]
    exact flagged_empty
  exact latestVersion_flagged
    (run_invariant (fun t : CASStore β => Flagged t.db.objectVersions) hstep hbase hg) hr

/-! ### Concrete runs -/

def noVersions : CASStore LocalBlobStore := { cfg := {}, blobs := {} }

def orderedRun : List FlagOp :=
  [.recordVersion [98] [107] [1] 1 [49] 10, .recordVersion [98] [107] [2] 1 [50] 20,
    .putVersionRecord [98] [107]
      { versionID := [51], hash := [3], size := 1, timestamp := 15, isLatest := true },
    .deleteVersion [98] [107] [50] 30 false]

theorem latestVersion_after_orderedRun :
    ∃ latest, (run flagStep noVersions orderedRun).latestVersion [98] [107] = .ok (some latest) ∧
      latest = { versionID := [51], hash := [3], size := 1, timestamp := 15, isLatest := true } := by
  have hr : (run flagStep noVersions orderedRun).db.objectVersions.get (versionKey [98] [107] [51]) =
      some { versionID := [51], hash := [3], size := 1, timestamp := 15, isLatest := true } := by
    decide +kernel
  obtain ⟨latest, hlatest, hget, hflags⟩ := latestVersion_after_run noVersions rfl orderedRun
    (by decide +kernel) [98] [107] [51] _ hr
  refine ⟨latest, hlatest, ?_⟩
  rw [← (hflags [51] _ hr).mp rfl, hr] at hget
  exact (Option.some.inj hget).symm

def regressedRun : List FlagOp :=
  [.recordVersion [98] [107] [1] 1 [49] 20, .recordVersion [98] [107] [2] 1 [50] 10]

def strayRecord : VersionRecord :=
  { versionID := [49], hash := [1], size := 1, timestamp := 10, isLatest := false }

/-- After `regressedRun` the latest record is not the flagged one; after a single unflagged record
    of a peer nothing is flagged. -/
theorem latestVersion_unflagged :
    (run flagStep noVersions regressedRun).latestVersion [98] [107] =
      .ok (some { versionID := [49], hash := [1], size := 1, timestamp := 20, isLatest := false }) ∧
    (run flagStep noVersions regressedRun).db.objectVersions.get (versionKey [98] [107] [50]) =
      some { versionID := [50], hash := [2], size := 1, timestamp := 10, isLatest := true } ∧
    (run flagStep noVersions [.putVersionRecord [98] [107] strayRecord]).db.objectVersions.map.entries =
      [(versionKey [98] [107] [49], strayRecord)] := by
  decide +kernel

end CASStore

end Momo
