import Momo.Storage.VersionFlags
import Momo.Storage.VersionRuns

/-! @momo src/transport/s3_versioning.go, src/storage/versioning.go, src/storage/lifecycle.go
    scheme:invariant over gateway runs

    Does the plain name follow the chain? Three tables have to agree: the namespace, the tombstones
    and the versions. -/

namespace Momo.CASStore

/-! ### The condition -/

section Condition

variable {β : Type}

/-- A new version key fits, and the scan of `(bucket, key)` does not stumble over it. -/
def FitsFor (s : CASStore β) (bucket key b k id : Bytes) : Prop :=
  Fits s.db.objectVersions b k id ∧
    (versionPrefix bucket key ≤ versionKey b k id →
      (versionPrefix bucket key).length ≤ (versionKey b k id).length)

instance (s : CASStore β) (bucket key b k id : Bytes) : Decidable (s.FitsFor bucket key b k id) :=
  inferInstanceAs (Decidable (_ ∧ (_ → _)))

/-- What is left of the chain without one record goes with the name: nothing is left and the name is
    unmapped, or a marker is next, or a data version is next and no tombstone hides the name. -/
def LeavesNext (s : CASStore β) (bucket key id : Bytes) : Prop :=
  match latestVersionTx "CASStore.LatestVersion"
      (s.db.objectVersions.del (versionKey bucket key id)) bucket key with
  | .ok none => s.db.ns.get key = none
  | .ok (some next) => next.isDeleteMarker = true ∨ s.db.tombstones.get key = none
  | .error _ => True

instance (s : CASStore β) (bucket key id : Bytes) : Decidable (s.LeavesNext bucket key id) := by
  unfold LeavesNext
  split <;> infer_instance

/-- The condition on a step, for the object `(bucket, key)`. Plain deletes are not gateway
    operations of a versioned bucket. -/
def AgreeSafe (bucket key : Bytes) (s : CASStore β) : GatewayOp → Prop
  | .write b k _ _ size id now _ => 0 ≤ size ∧ s.FitsFor bucket key b k id ∧
      (k = key → b = bucket ∧ Newest s.db.objectVersions b k
        { versionID := id, timestamp := now, isLatest := true })
  | .versionedDelete b k id _ _ markerID clock =>
    if id = [] then s.FitsFor bucket key b k markerID ∧
      (k = key → b = bucket ∧ Newest s.db.objectVersions b k
        { versionID := markerID, timestamp := clock, isLatest := true, isDeleteMarker := true })
    else k = key → b = bucket ∧ s.LeavesNext b k id
  | .delete _ _ _ => False
  | .expire b name versioned markerID now _ io => s.SparesVersions name io ∧
      (versioned = true → s.FitsFor bucket key b name markerID) ∧
      (name = key → b = bucket ∧ versioned = true ∧ Newest s.db.objectVersions b name
        { versionID := markerID, timestamp := now, isLatest := true, isDeleteMarker := true })

instance (bucket key : Bytes) (s : CASStore β) : ∀ o, Decidable (AgreeSafe bucket key s o)
  | .write .. | .expire .. => inferInstanceAs (Decidable (_ ∧ _))
  | .versionedDelete .. => inferInstanceAs (Decidable (ite _ _ _))
  | .delete .. => inferInstanceAs (Decidable False)

end Condition

/-! ### Names -/

section Names

variable {β : Type}

structure Follows (bucket key : Bytes) (s : CASStore β) : Prop where
  layout : Layout s.db.objectVersions
  clear : Clear s.db.objectVersions (versionPrefix bucket key)
  keyOk : ∀ v r, chain s.db.objectVersions bucket key v = some r → r.isDeleteMarker = false →
    KeyOk key
  empty : (∀ v, chain s.db.objectVersions bucket key v = none) → s.db.ns.get key = none
  marker : ∀ r, IsBest (chain s.db.objectVersions bucket key) r → r.isDeleteMarker = true →
    s.db.ns.get key = none
  data : ∀ r, IsBest (chain s.db.objectVersions bucket key) r → r.isDeleteMarker = false →
    s.db.tombstones.get key = none ∧ s.db.ns.get key = some r.hash

variable {bucket key : Bytes} {s s' : CASStore β}

theorem Follows.congr (hf : Follows bucket key s)
    (hversions : s'.db.objectVersions = s.db.objectVersions)
    (hns : s'.db.ns.get key = s.db.ns.get key)
    (hts : s'.db.tombstones.get key = s.db.tombstones.get key) : Follows bucket key s' := by
  obtain ⟨hl, hc, hk, hempty, hmarker, hdata⟩ := hf
  rw [← hversions] at hl hc hk hempty hmarker hdata
  rw [← hns] at hempty hmarker hdata
  rw [← hts] at hdata
  exact ⟨hl, hc, hk, hempty, hmarker, hdata⟩

theorem Follows.other (hf : Follows bucket key s) {b k id : Bytes}
    (ht : Touched s.db.objectVersions s'.db.objectVersions b k id)
    (hlong : versionPrefix bucket key ≤ versionKey b k id →
      (versionPrefix bucket key).length ≤ (versionKey b k id).length) (hk : k ≠ key)
    (hns : s'.db.ns.get key = s.db.ns.get key)
    (hts : s'.db.tombstones.get key = s.db.tombstones.get key) : Follows bucket key s' := by
  have hchain := ht.others bucket key (fun h => hk h.2.symm)
  have hclear := ht.clear _ hf.clear hlong
  refine ⟨ht.layout, hclear, ?_, ?_, ?_, ?_⟩
  · rw [hchain]
    exact hf.keyOk
  · rw [hchain, hns]
    exact hf.empty
  · rw [hchain, hns]
    exact hf.marker
  · rw [hchain, hns, hts]
    exact hf.data

theorem Follows.of_empty (hl : Layout s.db.objectVersions)
    (hc : Clear s.db.objectVersions (versionPrefix bucket key))
    (hnone : ∀ v, chain s.db.objectVersions bucket key v = none) (hns : s.db.ns.get key = none) :
    Follows bucket key s := by
  refine ⟨hl, hc, fun v r hr => ?_, fun _ => hns, fun _ _ _ => hns, fun r hr => ?_⟩
  · rw [hnone v] at hr
    cases hr
  · have hstored := hr.stored
    rw [hnone] at hstored
    cases hstored

theorem Follows.of_best (hl : Layout s.db.objectVersions)
    (hc : Clear s.db.objectVersions (versionPrefix bucket key))
    (hk : ∀ v r, chain s.db.objectVersions bucket key v = some r → r.isDeleteMarker = false → KeyOk key)
    {best : VersionRecord} (hbest : IsBest (chain s.db.objectVersions bucket key) best)
    (hmarker : best.isDeleteMarker = true → s.db.ns.get key = none)
    (hdata : best.isDeleteMarker = false →
      s.db.tombstones.get key = none ∧ s.db.ns.get key = some best.hash) : Follows bucket key s := by
  refine ⟨hl, hc, hk, fun hnone => ?_, fun r hr => ?_, fun r hr => ?_⟩
  · have hstored := hbest.stored
    rw [hnone] at hstored
    cases hstored
  · rw [hbest.unique hr]
    exact hmarker
  · rw [hbest.unique hr]
    exact hdata

theorem Follows.pushed (hf : Follows bucket key s) {rec : VersionRecord}
    (ht : Touched s.db.objectVersions s'.db.objectVersions bucket key rec.versionID)
    (hchain : chain s'.db.objectVersions bucket key = push (chain s.db.objectVersions bucket key) rec)
    (hnew : Newest s.db.objectVersions bucket key rec)
    (hmarker : rec.isDeleteMarker = true → s'.db.ns.get key = none)
    (hdata : rec.isDeleteMarker = false → KeyOk key ∧ s'.db.tombstones.get key = none ∧
      s'.db.ns.get key = some rec.hash) : Follows bucket key s' := by
  have hbest : IsBest (chain s'.db.objectVersions bucket key) rec := by
    rw [hchain]
    exact isBest_push (hnew.rank_le (hf.layout.ownIds bucket key))
  have hclear := ht.clear _ hf.clear (fun _ => length_prefix_le bucket key rec.versionID)
  refine Follows.of_best ht.layout hclear (fun v r hr hd => ?_) hbest hmarker
    (fun hd => (hdata hd).2)
  rw [hchain] at hr
  rcases push_eq_some.mp hr with ⟨-, rfl⟩ | ⟨-, r₀, hr₀, rfl⟩
  · exact (hdata hd).1
  · exact hf.keyOk v r₀ hr₀ hd

theorem LeavesNext.spec (hf : Follows bucket key s) {id : Bytes} (h : s.LeavesNext bucket key id) :
    ((∀ v, Function.update (chain s.db.objectVersions bucket key) id none v = none) →
      s.db.ns.get key = none) ∧
    ∀ next, IsBest (Function.update (chain s.db.objectVersions bucket key) id none) next →
      next.isDeleteMarker = true ∨ s.db.tombstones.get key = none := by
  have hclear : Clear (s.db.objectVersions.del (versionKey bucket key id)) (versionPrefix bucket key) :=
    hf.clear.of_keys (fun K r hr => Or.inl ⟨r, Bucket.get_of_get_del hr⟩)
  have hlayout : Layout (s.db.objectVersions.del (versionKey bucket key id)) :=
    hf.layout.of_keys (fun K r hr => ⟨r, Bucket.get_of_get_del hr, rfl⟩)
  have hrest := latestVersionTx_eq "CASStore.LatestVersion" hclear (hlayout.ownIds bucket key)
  rw [chain_del] at hrest
  rcases hrest with ⟨htx, hnone⟩ | ⟨next, htx, hbest⟩
  · rw [LeavesNext, htx] at h
    refine ⟨fun _ => h, fun next hbest => ?_⟩
    have hstored := hbest.stored
    rw [hnone] at hstored
    cases hstored
  · rw [LeavesNext, htx] at h
    refine ⟨fun hnone => ?_, fun next' hbest' => ?_⟩
    · have hstored := hbest.stored
      rw [hnone] at hstored
      cases hstored
    · rw [hbest.unique hbest']
      exact h

theorem Follows.dropped (hf : Follows bucket key s) {id : Bytes} {deleted : VersionRecord}
    {versions : Bucket VersionRecord}
    (hd : Dropped (chain s.db.objectVersions bucket key) (chain versions bucket key) id deleted)
    (ht : Touched s.db.objectVersions versions bucket key id)
    (hhash : ∀ k r, s.db.objectVersions.get k = some r → r.isDeleteMarker = false → r.hash ≠ [])
    (hnext : s.LeavesNext bucket key id) :
    Follows bucket key ((s.withVersions versions).followLatest bucket key) := by
  obtain ⟨hnextNone, hnextBest⟩ := hnext.spec hf
  have hclear := ht.clear _ hf.clear (fun _ => length_prefix_le bucket key id)
  have hkeyOk : ∀ v r, chain versions bucket key v = some r → r.isDeleteMarker = false →
      KeyOk key := by
    intro v r hr hdata
    obtain ⟨r₀, hr₀, heq⟩ := hd.sub hr
    exact hf.keyOk v r₀ hr₀ ((VersionRecord.same_of_demoted heq).1 ▸ hdata)
  rcases latestVersionTx_eq "CASStore.LatestVersion" hclear (ht.layout.ownIds bucket key) with
    ⟨hlatest, hnone⟩ | ⟨latest, hlatest, hbest⟩
  · -- nothing is left, and the name stays as it is
    have hstay : (s.withVersions versions).followLatest bucket key = s.withVersions versions := by
      have hlatest' : (s.withVersions versions).latestVersion bucket key = .ok none := hlatest
      simp only [followLatest, hlatest']
    rw [hstay]
    exact Follows.of_empty ht.layout hclear hnone (hnextNone (hd.none_beside hnone))
  · have hlatest' : (s.withVersions versions).latestVersion bucket key = .ok (some latest) := hlatest
    obtain ⟨next, hbest₀, heq⟩ := hd.best hbest
    obtain ⟨hmark, -⟩ := VersionRecord.same_of_demoted heq
    cases hdm : latest.isDeleteMarker with
    | true =>
      have hstep : (s.withVersions versions).followLatest bucket key =
          { s with db := { s.db with objectVersions := versions, ns := s.db.ns.del key } } := by
        rw [followLatest, hlatest']
        simp only [hdm, if_true, repointNamespace, withVersions]
      rw [hstep]
      refine Follows.of_best ht.layout hclear hkeyOk hbest (fun _ => Bucket.get_del_self ..)
        (fun hdata => ?_)
      rw [hdm] at hdata
      cases hdata
    | false =>
      have hk := hkeyOk _ latest hbest.stored hdm
      have hne : latest.hash ≠ [] := by
        obtain ⟨r₀, hr₀, heq₀⟩ := hd.sub hbest.stored
        obtain ⟨hmark₀, hhash₀⟩ := VersionRecord.same_of_demoted heq₀
        rw [hhash₀]
        exact hhash _ r₀ hr₀ (hmark₀ ▸ hdm)
      have hstep : (s.withVersions versions).followLatest bucket key =
          { s with db := { s.db with
            objectVersions := versions, ns := s.db.ns.set key hk latest.hash } } := by
        rw [followLatest, hlatest']
        simp only [hdm, Bool.false_eq_true, if_false, repointNamespace, hne, withVersions,
          Bucket.put_of_keyOk _ hk]
      have htomb : s.db.tombstones.get key = none := by
        refine (hnextBest next hbest₀).resolve_left (fun h => ?_)
        rw [← hmark, hdm] at h
        cases h
      rw [hstep]
      refine Follows.of_best ht.layout hclear hkeyOk hbest (fun hdel => ?_)
        (fun _ => ⟨htomb, Bucket.get_set_self _ _ hk _⟩)
      rw [hdm] at hdel
      cases hdel

end Names

/-! ### Contents -/

section Contents

variable {β : Type} [BlobStore β] [MapBackend β]

/-- What a read needs beside the bytes: nothing is marked, sizes can be read, and the hash of every
    data version has a record. -/
structure Kept (s : CASStore β) : Prop where
  unmarked : ∀ h, s.db.quarantine.get h = none
  sized : ∀ h m, s.db.objects.get h = some m → 0 ≤ m.size
  recorded : ∀ k r, s.db.objectVersions.get k = some r → r.isDeleteMarker = false →
    ∃ m, s.db.objects.get r.hash = some m

variable {s s' : CASStore β}

omit [BlobStore β] [MapBackend β] in
theorem Kept.reshuffle {key : Bytes} (hk : Kept s) (hr : Reshuffled key s s') : Kept s' := by
  have hobjects : s'.db.objects = s.db.objects := by rw [hr.shape]
  have hmarks : s'.db.quarantine = s.db.quarantine := by rw [hr.shape]
  refine ⟨fun h => ?_, fun h m hm => ?_, fun k r hget hd => ?_⟩
  · rw [hmarks]
    exact hk.unmarked h
  · rw [hobjects] at hm
    exact hk.sized h m hm
  · obtain ⟨k₀, r₀, hget₀, hd₀, heq⟩ := hr.data k r hget hd
    rw [hobjects, heq]
    exact hk.recorded k₀ r₀ hget₀ hd₀

theorem Kept.removed {name : Bytes} {io : Option Err} {at_ : Int} (hk : Kept s)
    (hr : Removed s s' io name at_) (hs : s.SparesVersions name io) : Kept s' := by
  refine ⟨fun h => ?_, fun h m hm => ?_, fun k r hget hd => ?_⟩
  · rw [hr.quarantine]
    exact hk.unmarked h
  · rcases (hr.objects_cases hm).2 with ⟨-, m₀, hm₀, rfl⟩ | ⟨-, hm₀⟩
    · rw [dropRef_size]
      exact hk.sized h m₀ hm₀
    · exact hk.sized h m hm₀
  · rw [hr.objectVersions] at hget
    obtain ⟨m, hm⟩ := hk.recorded k r hget hd
    rw [hr.objects, if_neg (fun hc => hs.hash_ne hc hget hd rfl), hm]
    split_ifs
    · exact ⟨_, rfl⟩
    · exact ⟨m, rfl⟩

omit [BlobStore β] [MapBackend β] in
theorem Kept.written {now : Int} {name hash : Bytes} {size : Int} {remotePath : Bytes}
    {f : PutFields} (hk : Kept s) (hw : Written s s' now name hash size remotePath f)
    (hsize : 0 ≤ size) : Kept s' := by
  refine ⟨fun h => ?_, fun h m hm => ?_, fun k r hget hd => ?_⟩
  · rw [hw.quarantine]
    exact hk.unmarked h
  · rcases hw.objects_cases hm with ⟨rfl, rfl⟩ | ⟨-, hm₀⟩
    · rw [putMeta_size]
      cases ho : s.db.objects.get h with
      | none => exact hsize
      | some m₀ => exact hk.sized h m₀ ho
    · exact hk.sized h m hm₀
  · rw [hw.objectVersions] at hget
    obtain ⟨m, hm⟩ := hk.recorded k r hget hd
    rw [hw.objects, Bucket.get_set]
    split_ifs
    · exact ⟨_, rfl⟩
    · exact ⟨m, hm⟩

end Contents

/-! ### Steps -/

section Steps

variable [Sha256] {β : Type} [BlobStore β] [MapBackend β]

structure Agreeing (C : Bytes → Prop) (bucket key : Bytes) (s : CASStore β) : Prop where
  backed : VersionsBacked C s
  kept : Kept s
  follows : Follows bucket key s

variable {C : Bytes → Prop} {bucket key : Bytes} {s : CASStore β}

theorem VersionsBacked.hash_ne_nil (hb : VersionsBacked C s) :
    ∀ k r, s.db.objectVersions.get k = some r → r.isDeleteMarker = false → r.hash ≠ [] := by
  intro k r hr hd
  obtain ⟨c, -, -, hhash⟩ := hb.versions k r hr hd
  rw [← hhash]
  exact (keyOk_hashBytes c).1

theorem Agreeing.write (hi : Agreeing C bucket key s) {b k content remotePath : Bytes} {size : Int}
    {id : Bytes} {now : Int} {io : Option Err} (hC : C content)
    (hs : AgreeSafe bucket key s (.write b k content remotePath size id now io)) :
    Agreeing C bucket key (s.writeVersion b k content remotePath size id now io) := by
  obtain ⟨hsize, ⟨hfit, hlong⟩, hname⟩ := hs
  have hbacked := hi.backed.write hC b k remotePath size id now io
  unfold writeVersion at hbacked ⊢
  cases hput : s.put io now k (hashBytes content) size remotePath (some ⟨content, none⟩) with
  | mk res s₁ =>
    rw [hput] at hbacked
    cases res with
    | error e =>
      -- a refused put leaves the tables alone
      obtain ⟨-, hdb, -⟩ := put_error hput
      have hkept : Kept s₁ := by
        refine ⟨?_, ?_, ?_⟩ <;> rw [hdb]
        exacts [hi.kept.unmarked, hi.kept.sized, hi.kept.recorded]
      exact ⟨hbacked, hkept, hi.follows.congr (by rw [hdb]) (by rw [hdb]) (by rw [hdb])⟩
    | ok read =>
      obtain ⟨-, hw, -, -⟩ := put_ok hput
      have hsame := hw.objectVersions
      obtain ⟨versions, hpv, hchain, ht⟩ := @Layout.putVersion s.db.objectVersions b k
        ⟨id, hashBytes content, size, now, true, false⟩ hi.follows.layout "CASStore.RecordVersion" hfit
      have hrec : (s₁.recordVersion b k (hashBytes content) size id now).2 =
          s₁.withVersions versions := by
        rw [recordVersion, hsame, hpv]
        rfl
      simp only [hrec] at hbacked ⊢
      refine ⟨hbacked, ?_, ?_⟩
      · -- the new version points at the hash just recorded
        have hkept₁ := hi.kept.written hw hsize
        refine ⟨hkept₁.unmarked, hkept₁.sized, fun K r hr hd => ?_⟩
        rcases putVersion_derived hpv hr with rfl | ⟨r₀, hr₀, heq⟩
        · exact ⟨_, (congrArg (Bucket.get · _) hw.objects).trans (Bucket.get_set_self ..)⟩
        · obtain ⟨hmark, hhash⟩ := VersionRecord.same_of_demoted heq
          rw [hhash]
          exact hkept₁.recorded K r₀ (hsame ▸ hr₀) (hmark ▸ hd)
      · rcases eq_or_ne k key with rfl | hne
        · obtain ⟨rfl, hnew⟩ := hname rfl
          refine hi.follows.pushed ht hchain hnew (fun h => by cases h) (fun _ => ⟨hw.nameOk, ?_, ?_⟩)
          · exact (congrArg (Bucket.get · _) hw.tombstones).trans (Bucket.get_del_self ..)
          · exact (congrArg (Bucket.get · _) hw.ns).trans (Bucket.get_set_self ..)
        · refine hi.follows.other ht hlong hne ?_ ?_
          · exact (congrArg (Bucket.get · _) hw.ns).trans (Bucket.get_set_ne _ _ _ hne.symm)
          · exact (congrArg (Bucket.get · _) hw.tombstones).trans (Bucket.get_del_ne _ hne.symm)

omit [Sha256] [BlobStore β] [MapBackend β] in
theorem repointNamespace_other (s : CASStore β) (name hash : Bytes) :
    (s.repointNamespace name hash).2.db.objectVersions = s.db.objectVersions ∧
      (s.repointNamespace name hash).2.db.tombstones = s.db.tombstones ∧
      ∀ n, n ≠ name → (s.repointNamespace name hash).2.db.ns.get n = s.db.ns.get n := by
  unfold repointNamespace
  split_ifs
  · exact ⟨rfl, rfl, fun n hn => Bucket.get_del_ne _ hn⟩
  · cases hput : s.db.ns.put name hash with
    | error e => exact ⟨rfl, rfl, fun _ _ => rfl⟩
    | ok ns =>
      obtain ⟨hk, rfl⟩ := Bucket.put_eq_ok.mp hput
      exact ⟨rfl, rfl, fun n hn => Bucket.get_set_ne _ hk _ hn⟩

omit [Sha256] [BlobStore β] [MapBackend β] in
theorem followLatest_other (s : CASStore β) (b k : Bytes) :
    (s.followLatest b k).db.objectVersions = s.db.objectVersions ∧
      (s.followLatest b k).db.tombstones = s.db.tombstones ∧
      ∀ n, n ≠ k → (s.followLatest b k).db.ns.get n = s.db.ns.get n := by
  unfold followLatest
  split
  · exact s.repointNamespace_other k _
  · exact ⟨rfl, rfl, fun _ _ => rfl⟩

theorem Agreeing.versionedDelete (hi : Agreeing C bucket key s) {b k id : Bytes} {now : Int}
    {bypass : Bool} {markerID : Bytes} {clock : Int}
    (hs : AgreeSafe bucket key s (.versionedDelete b k id now bypass markerID clock)) :
    Agreeing C bucket key (s.handleVersionedDelete b k id now bypass markerID clock).2 := by
  have hr := reshuffled_handleVersionedDelete s b k id now bypass markerID clock
  refine ⟨hi.backed.reshuffle hr, hi.kept.reshuffle hr, ?_⟩
  simp only [AgreeSafe] at hs
  split_ifs at hs with hid
  · -- the marker goes on top and the mapping goes
    obtain ⟨⟨hfit, hlong⟩, hname⟩ := hs
    obtain ⟨versions, hpv, hchain, ht⟩ := @Layout.putVersion s.db.objectVersions b k
      ⟨markerID, [], 0, clock, true, true⟩ hi.follows.layout "CASStore.RecordDeleteMarker" hfit
    have hstate : (s.handleVersionedDelete b k id now bypass markerID clock).2 =
        { s with db := { s.db with ns := s.db.ns.del k, objectVersions := versions } } := by
      simp only [handleVersionedDelete, if_pos hid, repointNamespace, if_true, recordDeleteMarker,
        hpv, updateVersions, withVersions]
    rw [hstate]
    rcases eq_or_ne k key with rfl | hne
    · obtain ⟨rfl, hnew⟩ := hname rfl
      exact hi.follows.pushed ht hchain hnew (fun _ => Bucket.get_del_self ..)
        (fun h => by cases h)
    · exact hi.follows.other ht hlong hne (Bucket.get_del_ne _ hne.symm) rfl
  · rcases deleteVersion_cases s b k id now bypass with
      ⟨e, hdel⟩ | ⟨deleted, versions, hget, -, hre, hdel⟩
    · have hstate : (s.handleVersionedDelete b k id now bypass markerID clock).2 = s := by
        simp only [handleVersionedDelete, if_neg hid, hdel]
        split_ifs <;> rfl
      rw [hstate]
      exact hi.follows
    · have hstate : (s.handleVersionedDelete b k id now bypass markerID clock).2 =
          (s.withVersions versions).followLatest b k := by
        simp only [handleVersionedDelete, if_neg hid, hdel]
      rw [hstate]
      obtain ⟨out, hout, hdrop, ht⟩ := hi.follows.layout.remove "CASStore.DeleteVersion" hget
      rw [hre] at hout
      cases hout
      rcases eq_or_ne k key with rfl | hne
      · obtain ⟨rfl, hnext⟩ := hs rfl
        exact hi.follows.dropped hdrop ht hi.backed.hash_ne_nil hnext
      · obtain ⟨hversions, htomb, hns⟩ := (s.withVersions versions).followLatest_other b k
        have hlong := hi.follows.clear (versionKey b k id, deleted) ((OMap.mem_entries _).mpr hget)
        have hmid : Follows bucket key (s.withVersions versions) :=
          hi.follows.other ht hlong hne rfl rfl
        exact hmid.congr hversions (hns key hne.symm) (by rw [htomb])

theorem Agreeing.expire (hi : Agreeing C bucket key s) {b name : Bytes} {versioned : Bool}
    {markerID : Bytes} {now deleteAt : Int} {io : Option Err}
    (hs : AgreeSafe bucket key s (.expire b name versioned markerID now deleteAt io)) :
    Agreeing C bucket key (s.expireObject b name versioned markerID now deleteAt io).2 := by
  obtain ⟨hspares, hfits, hname⟩ := hs
  have hbacked := hi.backed.expire b versioned markerID now deleteAt hspares
  -- what the plain delete leaves of the other name's rows
  have hother : ∀ {t : CASStore β}, name ≠ key →
      (t.delete io deleteAt name).2.db.objectVersions = t.db.objectVersions ∧
      (t.delete io deleteAt name).2.db.ns.get key = t.db.ns.get key ∧
      (t.delete io deleteAt name).2.db.tombstones.get key = t.db.tombstones.get key := by
    intro t hne
    rcases t.delete_cases io deleteAt name with ⟨-, hdel⟩ | hr
    · rw [hdel]
      exact ⟨rfl, rfl, rfl⟩
    · rw [hr.ns, hr.tombstones]
      exact ⟨hr.objectVersions, Bucket.get_del_ne _ hne.symm, Bucket.get_set_ne _ _ _ hne.symm⟩
  have hkept : ∀ {t : CASStore β}, Kept t → t.SparesVersions name io →
      Kept (t.delete io deleteAt name).2 := by
    intro t ht hst
    rcases t.delete_cases io deleteAt name with ⟨-, hdel⟩ | hr
    · rw [hdel]
      exact ht
    · exact ht.removed hr hst
  cases versioned with
  | false =>
    refine ⟨hbacked, hkept hi.kept hspares, ?_⟩
    have hne : name ≠ key := fun h => by cases (hname h).2.1
    obtain ⟨hversions, hns, htomb⟩ := @hother s hne
    exact hi.follows.congr hversions hns htomb
  | true =>
    obtain ⟨hfit, hlong⟩ := hfits rfl
    obtain ⟨versions, hpv, hchain, ht⟩ := @Layout.putVersion s.db.objectVersions b name
      ⟨markerID, [], 0, now, true, true⟩ hi.follows.layout "CASStore.RecordDeleteMarker" hfit
    have hmark : s.recordDeleteMarker b name markerID now = (.ok (), s.withVersions versions) := by
      rw [recordDeleteMarker, hpv]
      rfl
    have hr := reshuffled_recordDeleteMarker s name b name markerID now
    have hstate : (s.expireObject b name true markerID now deleteAt io).2 =
        ((s.withVersions versions).delete io deleteAt name).2 := by
      simp only [expireObject, if_true, hmark]
    rw [hmark] at hr
    rw [hstate] at hbacked ⊢
    refine ⟨hbacked, hkept (hi.kept.reshuffle hr) (hspares.reshuffle hr rfl), ?_⟩
    rcases eq_or_ne name key with rfl | hne
    · obtain ⟨rfl, -, hnew⟩ := hname rfl
      rcases (s.withVersions versions).delete_cases io deleteAt name with ⟨hk, hdel⟩ | hrem
      · -- a name the database refuses was never mapped
        rw [hdel]
        refine hi.follows.pushed ht hchain hnew (fun _ => ?_) (fun h => by cases h)
        by_contra hmapped
        obtain ⟨h, hh⟩ := Option.ne_none_iff_exists'.mp hmapped
        exact hk (Bucket.keyOk_of_get hh)
      · have hversions : _ = versions := hrem.objectVersions
        rw [← hversions] at ht hchain
        refine hi.follows.pushed ht hchain hnew (fun _ => ?_) (fun h => by cases h)
        rw [hrem.ns]
        exact Bucket.get_del_self ..
    · obtain ⟨hversions, hns, htomb⟩ := @hother (s.withVersions versions) hne
      have hmid : Follows bucket key (s.withVersions versions) :=
        hi.follows.other ht hlong hne rfl rfl
      exact hmid.congr hversions hns htomb

theorem agreeing_step {o : GatewayOp} (hi : Agreeing C bucket key s)
    (hC : ∀ c, o.content = some c → C c) (hs : AgreeSafe bucket key s o) :
    Agreeing C bucket key (s.gatewayStep o) := by
  cases o with
  | write b k content remotePath size id now io => exact hi.write (hC content rfl) hs
  | versionedDelete b k id now bypass markerID clock => exact hi.versionedDelete hs
  | delete name now io => exact hs.elim
  | expire b name versioned markerID now deleteAt io => exact hi.expire hs

/-! ### Runs -/

theorem agreeing_fresh (C : Bytes → Prop) (bucket key : Bytes) (cfg : CASConfig) (b : β) :
    Agreeing C bucket key (fresh cfg b) where
  backed := ⟨fun _ _ h => (by cases h), fun _ _ h => (by cases h)⟩
  kept := ⟨fun _ => rfl, fun _ _ h => (by cases h), fun _ _ h => (by cases h)⟩
  follows := Follows.of_empty layout_empty (fun _ h => by cases h) (fun _ => rfl) rfl

theorem agreeing_run (cfg : CASConfig) (b : β) {ops : List GatewayOp}
    (hg : Guarded gatewayStep (AgreeSafe bucket key) (fresh cfg b) ops) :
    Agreeing (fun c => c ∈ contents ops) bucket key (run gatewayStep (fresh cfg b) ops) := by
  have hstep : ∀ (t : CASStore β) (o : GatewayOp),
      Agreeing (fun c => c ∈ contents ops) bucket key t → AgreeSafe bucket key t o ∧ o ∈ ops →
      Agreeing (fun c => c ∈ contents ops) bucket key (t.gatewayStep o) := by
    rintro t o hi ⟨hs, ho⟩
    exact agreeing_step hi (fun c hc => List.mem_filterMap.mpr ⟨o, ho, hc⟩) hs
  exact run_invariant _ hstep (agreeing_fresh _ bucket key cfg b) hg.and_mem

structure ReadsLatest (C : Bytes → Prop) (bucket key : Bytes) (s : CASStore β) : Prop where
  answers : ∃ latest, s.latestVersion bucket key = .ok latest
  none_left : s.latestVersion bucket key = .ok none → (s.get key).1 = .error (.sys .enoent)
  marker : ∀ latest, s.latestVersion bucket key = .ok (some latest) →
    latest.isDeleteMarker = true → (s.get key).1 = .error (.sys .enoent)
  data : ∀ latest, s.latestVersion bucket key = .ok (some latest) →
    latest.isDeleteMarker = false → ∃ c st m, C c ∧ hashBytes c = latest.hash ∧
      (s.get key).1 = .ok (st, m) ∧ st.readAll = (c, none) ∧ m.hash = latest.hash

theorem Agreeing.readsLatest (hi : Agreeing C bucket key s) : ReadsLatest C bucket key s := by
  have hunmapped : s.db.ns.get key = none → (s.get key).1 = .error (.sys .enoent) :=
    fun h => congrArg Prod.fst (get_unmapped s (Or.inr h))
  rcases latestVersionTx_eq "CASStore.LatestVersion" hi.follows.clear
    (hi.follows.layout.ownIds bucket key) with ⟨hlatest, hnone⟩ | ⟨latest, hlatest, hbest⟩
  · have hlatest' : s.latestVersion bucket key = .ok none := hlatest
    refine ⟨⟨_, hlatest'⟩, fun _ => hunmapped (hi.follows.empty hnone), fun r hr => ?_, fun r hr => ?_⟩
    all_goals
      rw [hlatest'] at hr
      cases hr
  · have hlatest' : s.latestVersion bucket key = .ok (some latest) := hlatest
    refine ⟨⟨_, hlatest'⟩, fun hr => ?_, fun r hr hdm => ?_, fun r hr hdm => ?_⟩
    all_goals
      rw [hlatest'] at hr
      cases hr
    · exact hunmapped (hi.follows.marker latest hbest hdm)
    · obtain ⟨htomb, hns⟩ := hi.follows.data latest hbest hdm
      obtain ⟨c, hC, hbytes, hhash⟩ := hi.backed.versions _ latest hbest.stored hdm
      obtain ⟨m, hm⟩ := hi.kept.recorded _ latest hbest.stored hdm
      have hget := get_mapped s htomb hns (hi.kept.unmarked _) hbytes hm (hi.kept.sized _ m hm)
      refine ⟨c, _, _, hC, hhash, congrArg Prod.fst hget, ?_, rfl⟩
      cases hv : s.cfg.verifyOnRead <;> simp [Stream.readAll, hhash]

/-- CORRECT: in a run whose operations all meet the condition for one object, the plain name reads
    the content of the latest version, and ENOENT when that is a delete marker or none is left. -/
theorem readsLatest_after_run (cfg : CASConfig) (b : β) (ops : List GatewayOp) (bucket key : Bytes)
    (hg : Guarded gatewayStep (AgreeSafe bucket key) (fresh cfg b) ops) :
    ReadsLatest (fun c => c ∈ contents ops) bucket key (run gatewayStep (fresh cfg b) ops) :=
  (agreeing_run cfg b hg).readsLatest

end Steps

/-! ### Concrete runs on the local back end -/

section Runs

local instance agreementSha : Sha256 := sampleSha

/-- An object is written twice, deleted with a marker, revived and rolled back to its first version;
    another object with the same content expires. -/
def alignedRun : List GatewayOp :=
  [.write [98] [107] [97] [] 1 [49] 1 none, .write [98] [108] [97] [] 1 [50] 2 none,
    .write [98] [107] [98] [] 1 [51] 3 none, .versionedDelete [98] [107] [] 4 false [52] 4,
    .versionedDelete [98] [107] [52] 5 false [] 5, .versionedDelete [98] [107] [51] 6 false [] 6,
    .expire [98] [108] true [53] 7 7 none]

theorem readsLatest_after_alignedRun :
    ∃ st m, ((gatewayRun alignedRun).get [107]).1 = .ok (st, m) ∧ st.readAll = ([97], none) := by
  have hg : Guarded gatewayStep (AgreeSafe [98] [107]) (fresh {} ({} : LocalBlobStore)) alignedRun := by
    decide +kernel
  have hlatest : (run gatewayStep (fresh {} ({} : LocalBlobStore)) alignedRun).latestVersion [98] [107] =
      .ok (some { firstVersion with isLatest := true }) := by decide +kernel
  have hreads := readsLatest_after_run {} ({} : LocalBlobStore) alignedRun [98] [107] hg
  obtain ⟨c, st, m, hc, hhash, hget, hread, -⟩ := hreads.data _ hlatest rfl
  have honly : ∀ c ∈ contents alignedRun, hashBytes c = hashBytes [97] → c = [97] := by
    decide +kernel
  obtain rfl := honly c hc hhash
  exact ⟨st, m, hget, hread⟩

/-- The only version of an object is deleted: no record is left, and the name still reads. -/
def lastVersionRun : List GatewayOp :=
  [.write [98] [107] [97] [] 1 [49] 1 none, .versionedDelete [98] [107] [49] 2 false [] 2]

/-- An expired object is revived: the latest record is a data version again, and the tombstone of the
    expiry still hides the name. A second object keeps the bytes alive. -/
def revivedRun : List GatewayOp :=
  [.write [98] [107] [97] [] 1 [49] 1 none, .write [98] [108] [97] [] 1 [50] 2 none,
    .expire [98] [107] true [51] 3 3 none, .versionedDelete [98] [107] [51] 4 false [] 4]

theorem readsLatest_fails :
    (gatewayRun lastVersionRun).latestVersion [98] [107] = .ok none ∧
    ((gatewayRun lastVersionRun).get [107]).1.map (fun r => r.1.readAll) = .ok ([97], none) ∧
    (gatewayRun revivedRun).latestVersion [98] [107] =
      .ok (some { firstVersion with isLatest := true }) ∧
    ((gatewayRun revivedRun).get [107]).1 = .error (.sys .enoent) := by
  decide +kernel

end Runs

end Momo.CASStore
