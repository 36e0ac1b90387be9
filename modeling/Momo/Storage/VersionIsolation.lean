import Momo.Storage.VersionFlags

/-! @momo src/storage/versioning.go | scheme:cursor scans over composite keys

    What a scan for one object meets in a table with other objects. The records of the object stand
    together; the loop stops at the key after them, and slices that key to the length of its prefix
    before it compares. -/

namespace Momo

/-! ### The key after an object's records -/

/-- The first stored key at or after `p` that does not begin with it. -/
def follower (versions : Bucket VersionRecord) (p : Bytes) : Option Bytes :=
  ((versions.map.entries.dropWhile (fun e => e.1 < p)).dropWhile (fun e => p <+: e.1)).head?.map
    Prod.fst

/-- The key after those with prefix `p`, if there is one, is not shorter than `p`. -/
def LongFollower (versions : Bucket VersionRecord) (p : Bytes) : Prop :=
  ∀ k, follower versions p = some k → p.length ≤ k.length

instance (versions : Bucket VersionRecord) (p : Bytes) : Decidable (LongFollower versions p) :=
  decidable_of_iff (∀ k ∈ follower versions p, p.length ≤ k.length) Iff.rfl

theorem scanFrom_eq_some_iff {p : Bytes} {l found : List (Bytes × VersionRecord)} :
    scanFrom p l = some found ↔ found = l.takeWhile (fun e => p <+: e.1) ∧
      ∀ e, (l.dropWhile (fun e => p <+: e.1)).head? = some e → p.length ≤ e.1.length := by
  induction l generalizing found with
  | nil => simp [scanFrom, eq_comm]
  | cons e l ih =>
    by_cases hp : p <+: e.1
    · have hlen : ¬ e.1.length < p.length := Nat.not_lt.mpr hp.length_le
      rw [scanFrom, if_neg hlen, if_pos (List.prefix_iff_eq_take.mp hp).symm,
        List.takeWhile_cons_of_pos (by simpa using hp), List.dropWhile_cons_of_pos (by simpa using hp)]
      constructor
      · intro h
        obtain ⟨tail, htail, rfl⟩ := Option.map_eq_some_iff.mp h
        obtain ⟨rfl, hend⟩ := ih.mp htail
        exact ⟨rfl, hend⟩
      · rintro ⟨rfl, hend⟩
        rw [ih.mpr ⟨rfl, hend⟩]
        rfl
    · have htake : ¬ e.1.take p.length = p := fun h => hp (List.prefix_iff_eq_take.mpr h.symm)
      rw [scanFrom, List.takeWhile_cons_of_neg (by simpa using hp),
        List.dropWhile_cons_of_neg (by simpa using hp), if_neg htake, List.head?_cons]
      split_ifs with hshort
      · exact ⟨(fun h => by cases h), fun h => absurd (h.2 e rfl) (Nat.not_le.mpr hshort)⟩
      · constructor
        · rintro h
          cases h
          exact ⟨rfl, fun e' he' => Option.some.inj he' ▸ Nat.not_lt.mp hshort⟩
        · rintro ⟨rfl, -⟩
          rfl

variable {versions : Bucket VersionRecord} {b k : Bytes}

theorem scanVersions_eq_some_iff {found : List (Bytes × VersionRecord)} :
    scanVersions versions b k = some found ↔
      found = versions.map.entries.filter (fun e => versionPrefix b k <+: e.1) ∧
        LongFollower versions (versionPrefix b k) := by
  rw [scanVersions, scanFrom_eq_some_iff, PrefixScan.takeWhile_seek versions.map.sorted]
  refine and_congr_right fun _ => ⟨fun h key hkey => ?_, fun h e he => ?_⟩
  · obtain ⟨e, he, rfl⟩ := Option.map_eq_some_iff.mp hkey
    exact h e he
  · exact h e.1 (by rw [follower, he, Option.map_some])

/-! ### Whose record a key is -/

/-- The key is one of exactly this bucket and key: they are what stands before its second NUL. -/
def OfObject (b k : Bytes) (K : Bytes) : Prop := objectPrefix K = versionPrefix b k

instance (b k K : Bytes) : Decidable (OfObject b k K) := inferInstanceAs (Decidable (_ = _))

def NamedTable (versions : Bucket VersionRecord) : Prop :=
  ∀ K r, versions.get K = some r → ∃ b k v, 0 ∉ b ∧ 0 ∉ k ∧ K = versionKey b k v

theorem NamedTable.prefix_of_object (hn : NamedTable versions) {e : Bytes × VersionRecord}
    (he : e ∈ versions.map.entries) (ho : OfObject b k e.1) : versionPrefix b k <+: e.1 := by
  obtain ⟨b', k', v, hb, hk, heq⟩ := hn e.1 e.2 ((OMap.mem_entries _).mp he)
  rw [OfObject, heq, objectPrefix_versionKey hb hk] at ho
  rw [← ho, heq]
  exact List.prefix_append _ _

variable {K : Bytes}

def Unshadowed (versions : Bucket VersionRecord) (b k : Bytes) : Prop :=
  ∀ e ∈ versions.map.entries, versionPrefix b k <+: e.1 → OfObject b k e.1

instance (versions : Bucket VersionRecord) (b k : Bytes) : Decidable (Unshadowed versions b k) :=
  inferInstanceAs (Decidable (∀ e ∈ versions.map.entries, _ → _))

def recordsOf (versions : Bucket VersionRecord) (b k : Bytes) : List (Bytes × VersionRecord) :=
  versions.map.entries.filter (fun e => OfObject b k e.1)

theorem NamedTable.filter_prefix (hn : NamedTable versions) (hu : Unshadowed versions b k) :
    versions.map.entries.filter (fun e => versionPrefix b k <+: e.1) = recordsOf versions b k :=
  List.filter_congr fun e he => decide_eq_decide.mpr ⟨hu e he, hn.prefix_of_object he⟩

/-! ### Tables that calls build -/

variable {versions' : Bucket VersionRecord}

theorem putVersion_keys {op : String} {rec : VersionRecord}
    (h : putVersion op versions b k rec = .ok versions') {r' : VersionRecord}
    (hr : versions'.get K = some r') :
    K = versionKey b k rec.versionID ∨ ∃ r, versions.get K = some r := by
  obtain ⟨found, -, hspec⟩ := putVersion_ok h
  rw [hspec K] at hr
  split_ifs at hr with hK
  · exact .inl hK
  · obtain ⟨r, hget, -⟩ := Option.map_eq_some_iff.mp hr
    exact .inr ⟨r, hget⟩
  · exact .inr ⟨r', hr⟩

theorem applyReplicatedRecord_keys {op : String} {rec : VersionRecord}
    (h : applyReplicatedRecord op versions b k rec = .ok versions') {r' : VersionRecord}
    (hr : versions'.get K = some r') :
    K = versionKey b k rec.versionID ∨ ∃ r, versions.get K = some r := by
  have hput : ∀ newest : Bool, (if newest then putVersion op versions b k rec
      else versions.put (versionKey b k rec.versionID) { rec with isLatest := false }) = .ok versions' →
      K = versionKey b k rec.versionID ∨ ∃ r, versions.get K = some r := by
    intro newest h
    split_ifs at h
    · exact putVersion_keys h hr
    · obtain ⟨hk, rfl⟩ := Bucket.put_eq_ok.mp h
      rw [Bucket.get_set] at hr
      split_ifs at hr with hK
      · exact .inl hK
      · exact .inr ⟨r', hr⟩
  rw [applyReplicatedRecord] at h
  split at h
  · cases h
    exact .inr ⟨r', hr⟩
  · dsimp only at h
    split at h
    · cases hl : latestVersionTx op versions b k with
      | error e =>
        rw [hl] at h
        cases h
      | ok latest =>
        rw [hl] at h
        exact hput _ h
    · exact hput false h

theorem NamedTable.insert (hn : NamedTable versions) {v : Bytes} (hb : 0 ∉ b) (hk : 0 ∉ k)
    (hkeys : ∀ K r', versions'.get K = some r' →
      K = versionKey b k v ∨ ∃ r, versions.get K = some r) : NamedTable versions' := by
  intro K r' hr'
  rcases hkeys K r' hr' with rfl | ⟨r, hr⟩
  · exact ⟨b, k, v, hb, hk, rfl⟩
  · exact hn K r hr

namespace CASStore

variable {β : Type}

def FlagOp.RecordsNulFree : FlagOp → Prop
  | .recordVersion bucket key _ _ _ _ => 0 ∉ bucket ∧ 0 ∉ key
  | .recordDeleteMarker bucket key _ _ => 0 ∉ bucket ∧ 0 ∉ key
  | .putVersionRecord bucket key _ => 0 ∉ bucket ∧ 0 ∉ key
  | .deleteVersion _ _ _ _ _ => False

instance : ∀ o : FlagOp, Decidable o.RecordsNulFree
  | .recordVersion .. | .recordDeleteMarker .. | .putVersionRecord .. =>
    inferInstanceAs (Decidable (_ ∧ _))
  | .deleteVersion .. => inferInstanceAs (Decidable False)

variable {s : CASStore β}

theorem namedTable_updateVersions {tx : Except Err (Bucket VersionRecord)}
    (hn : NamedTable s.db.objectVersions)
    (htx : ∀ versions, tx = .ok versions → NamedTable versions) :
    NamedTable (s.updateVersions tx).2.db.objectVersions := by
  cases tx with
  | error e => exact hn
  | ok versions => exact htx versions rfl

theorem namedTable_step {o : FlagOp} (hn : NamedTable s.db.objectVersions) (ho : o.RecordsNulFree) :
    NamedTable (s.flagStep o).db.objectVersions := by
  cases o with
  | recordVersion bucket key hash size versionID now =>
    exact namedTable_updateVersions hn fun versions h =>
      hn.insert ho.1 ho.2 fun K r' hr' => putVersion_keys h hr'
  | recordDeleteMarker bucket key versionID now =>
    exact namedTable_updateVersions hn fun versions h =>
      hn.insert ho.1 ho.2 fun K r' hr' => putVersion_keys h hr'
  | putVersionRecord bucket key rec =>
    rw [flagStep, putVersionRecord]
    split_ifs
    · exact hn
    · exact namedTable_updateVersions hn fun versions h =>
        hn.insert ho.1 ho.2 fun K r' hr' => applyReplicatedRecord_keys h hr'
  | deleteVersion bucket key versionID now bypass => exact ho.elim

theorem namedTable_run (hs : s.db.objectVersions = Bucket.empty) {ops : List FlagOp}
    (hops : ∀ o ∈ ops, o.RecordsNulFree) : NamedTable (run flagStep s ops).db.objectVersions := by
  have hbase : NamedTable s.db.objectVersions := by
    rw [hs]
    intro K r hr
    cases hr
  exact run_invariant (fun t : CASStore β => NamedTable t.db.objectVersions)
    (fun t o ht ho => namedTable_step ht ho) hbase
    (guarded_of_forall s hops)

/-! ### The calls on one object -/

/-- A call that writes succeeds, and changes no key that is not one of the object; the key of the
    record it was asked to write counts as one. -/
def WritesWithin (s : CASStore β) (b k id : Bytes) (outcome : Except Err Unit × CASStore β) : Prop :=
  outcome.1 = .ok () ∧ ∀ K, outcome.2.db.objectVersions.get K ≠ s.db.objectVersions.get K →
    OfObject b k K ∨ K = versionKey b k id

/-- The version calls on a bucket and key succeed, read only its records and modify only these. -/
structure Apart (s : CASStore β) (b k hash : Bytes) (size : Int) (id : Bytes) (now : Int) :
    Prop where
  reads : ∀ found, scanVersions s.db.objectVersions b k = some found → ∀ e ∈ found, OfObject b k e.1
  latest : s.latestVersion b k = .ok (bestVersion (recordsOf s.db.objectVersions b k))
  record : s.WritesWithin b k id (s.recordVersion b k hash size id now)
  marker : s.WritesWithin b k id (s.recordDeleteMarker b k id now)

theorem putVersion_isOk_iff {op : String} {versions : Bucket VersionRecord} {b k : Bytes}
    {rec : VersionRecord} :
    (∃ versions', putVersion op versions b k rec = .ok versions') ↔
      LongFollower versions (versionPrefix b k) ∧ KeyOk (versionKey b k rec.versionID) := by
  constructor
  · rintro ⟨versions', h⟩
    obtain ⟨found, hscan, -⟩ := putVersion_ok h
    refine ⟨(scanVersions_eq_some_iff.mp hscan).2, ?_⟩
    obtain ⟨hget, hsorted⟩ := scanVersions_spec hscan
    obtain ⟨mid, hdem, -⟩ := demote_spec found hget hsorted
    rw [putVersion, hscan] at h
    simp only [hdem, bind, Except.bind] at h
    exact (Bucket.put_eq_ok.mp h).1
  · rintro ⟨hlong, hk⟩
    have hscan := scanVersions_eq_some_iff.mpr ⟨rfl, hlong⟩
    obtain ⟨hget, hsorted⟩ := scanVersions_spec hscan
    obtain ⟨mid, hdem, -⟩ := demote_spec _ hget hsorted
    refine ⟨mid.set _ hk rec, ?_⟩
    rw [putVersion, hscan]
    simp only [hdem, bind, Except.bind, Bucket.put_of_keyOk _ hk]

theorem updateVersions_isOk_iff {tx : Except Err (Bucket VersionRecord)} :
    (s.updateVersions tx).1 = .ok () ↔ ∃ versions, tx = .ok versions := by
  cases tx with
  | error e => exact ⟨nofun, nofun⟩
  | ok versions => exact ⟨fun _ => ⟨versions, rfl⟩, fun _ => rfl⟩

theorem writesWithin_putVersion {op : String} {b k : Bytes} {rec : VersionRecord}
    (hlong : LongFollower s.db.objectVersions (versionPrefix b k))
    (hk : KeyOk (versionKey b k rec.versionID)) (hu : Unshadowed s.db.objectVersions b k) :
    s.WritesWithin b k rec.versionID
      (s.updateVersions (putVersion op s.db.objectVersions b k rec)) := by
  obtain ⟨versions, hput⟩ := putVersion_isOk_iff.mpr ⟨hlong, hk⟩
  obtain ⟨found, hscan, hspec⟩ := putVersion_ok hput
  obtain ⟨rfl, -⟩ := scanVersions_eq_some_iff.mp hscan
  rw [hput]
  refine ⟨rfl, fun K hK => ?_⟩
  have hget : (s.updateVersions (.ok versions)).2.db.objectVersions.get K = versions.get K := rfl
  rw [hget, hspec K] at hK
  split_ifs at hK with hnew hold
  · exact .inr hnew
  · obtain ⟨e, he, rfl⟩ := List.mem_map.mp hold
    obtain ⟨he, hp⟩ := List.mem_filter.mp he
    exact .inl (hu e he (by simpa using hp))
  · exact absurd rfl hK

/-- CORRECT: in every table that calls with names free of NULs build, and for every bucket and key,
    the version calls succeed and stay apart from the other objects exactly when the key after the
    object's records is not shorter than its prefix, bbolt takes the new key, and no other object's
    record has the prefix. -/
theorem versionCalls_apart_iff (s : CASStore β) (hs : s.db.objectVersions = Bucket.empty)
    (ops : List FlagOp) (hops : ∀ o ∈ ops, o.RecordsNulFree) (b k hash : Bytes) (size : Int)
    (id : Bytes) (now : Int) :
    (run flagStep s ops).Apart b k hash size id now ↔
      LongFollower (run flagStep s ops).db.objectVersions (versionPrefix b k) ∧
      KeyOk (versionKey b k id) ∧ Unshadowed (run flagStep s ops).db.objectVersions b k := by
  have hn := namedTable_run hs hops
  set t := run flagStep s ops
  constructor
  · intro h
    obtain ⟨versions, hput⟩ := updateVersions_isOk_iff.mp h.record.1
    obtain ⟨hlong, hk⟩ := putVersion_isOk_iff.mp ⟨versions, hput⟩
    refine ⟨hlong, hk, fun e he hp => ?_⟩
    exact h.reads _ (scanVersions_eq_some_iff.mpr ⟨rfl, hlong⟩) e
      (List.mem_filter.mpr ⟨he, by simpa using hp⟩)
  · rintro ⟨hlong, hk, hu⟩
    have hscan : scanVersions t.db.objectVersions b k = some (recordsOf t.db.objectVersions b k) :=
      scanVersions_eq_some_iff.mpr ⟨(hn.filter_prefix hu).symm, hlong⟩
    refine ⟨fun found hfound e he => ?_, ?_, writesWithin_putVersion hlong hk hu,
      writesWithin_putVersion hlong hk hu⟩
    · rw [hscan] at hfound
      cases hfound
      exact of_decide_eq_true (List.mem_filter.mp he).2
    · rw [latestVersion, latestVersionTx, hscan]

/-- One version of the object `k` in the bucket `b`. -/
def oneVersion : List FlagOp := [.recordVersion [98] [107] [1] 1 (List.replicate 36 49) 10]

theorem shortKey_apart :
    (run flagStep noVersions oneVersion).Apart [97] [120] [2] 1 (List.replicate 36 50) 20 :=
  (versionCalls_apart_iff noVersions rfl oneVersion (by decide) [97] [120] [2] 1
    (List.replicate 36 50) 20).mpr (by decide +kernel)

/-- Bucket `a` and a key of fifty bytes: the version of the other bucket's object is shorter than
    the prefix, and the calls fail. -/
theorem longKey_fails :
    (∀ o ∈ oneVersion, o.RecordsNulFree) ∧
    (run flagStep noVersions oneVersion).latestVersion [97] (List.replicate 50 120) =
      .error (scanPanic "CASStore.LatestVersion") ∧
    ((run flagStep noVersions oneVersion).recordVersion [97] (List.replicate 50 120) [2] 1
      (List.replicate 36 50) 20).1 = .error (scanPanic "CASStore.RecordVersion") ∧
    ((run flagStep noVersions oneVersion).recordDeleteMarker [97] (List.replicate 50 120)
      (List.replicate 36 50) 20).1 = .error (scanPanic "CASStore.RecordDeleteMarker") := by
  decide +kernel

end CASStore

end Momo
