import Momo.Storage.Refinement
import Momo.Storage.Versioning

/-! @momo src/storage/versioning.go, src/storage/storage.go, src/storage/lifecycle.go
    scheme:invariant over gateway runs

    Is a version that is still in the table still readable? The bytes of a hash go when the last
    reference to it goes, and version records hold no reference. So the question at every plain
    delete and every expiry is whether the hash that loses its last reference still has versions. -/

namespace Momo.CASStore

/-- What a gateway does with versioned objects, with the clocks, the ids drawn and the failures its
    calls meet. -/
inductive GatewayOp
  /-- `Put` of a content under its own digest, then `RecordVersion` if it succeeded. -/
  | write (bucket key content remotePath : Bytes) (size : Int) (versionID : Bytes) (now : Int)
      (io : Option Err)
  | versionedDelete (bucket key versionID : Bytes) (now : Int) (bypass : Bool) (markerID : Bytes)
      (clock : Int)
  | delete (name : Bytes) (now : Int) (io : Option Err)
  | expire (bucket name : Bytes) (versioned : Bool) (markerID : Bytes) (now deleteAt : Int)
      (io : Option Err)

def GatewayOp.content : GatewayOp → Option Bytes
  | .write _ _ content _ _ _ _ _ => some content
  | _ => none

/-! ### The condition -/

section Spares

variable {β : Type}

def SparesVersions (s : CASStore β) (name : Bytes) (io : Option Err) : Prop :=
  ∀ h ∈ orphanOf s.db name, DeleteOk io h →
    ∀ e ∈ s.db.objectVersions.map.entries, e.2.isDeleteMarker = false → e.2.hash ≠ h

instance (s : CASStore β) (name : Bytes) (io : Option Err) : Decidable (s.SparesVersions name io) :=
  inferInstanceAs (Decidable (∀ h ∈ orphanOf s.db name, DeleteOk io h → ∀ e ∈ _, _ → _))

theorem SparesVersions.hash_ne {s : CASStore β} {name : Bytes} {io : Option Err}
    (hs : s.SparesVersions name io) {h k : Bytes} {r : VersionRecord}
    (ho : orphanOf s.db name = some h ∧ DeleteOk io h) (hr : s.db.objectVersions.get k = some r)
    (hd : r.isDeleteMarker = false) : r.hash ≠ h :=
  hs h ho.1 ho.2 (k, r) ((OMap.mem_entries _).mpr hr) hd

theorem SparesVersions.reshuffle {key name : Bytes} {io : Option Err} {s s' : CASStore β}
    (hs : s.SparesVersions name io) (hr : Reshuffled key s s') (hn : s'.db.ns = s.db.ns) :
    s'.SparesVersions name io := by
  intro h ho hd e he hdata
  rw [hr.orphanOf_eq hn] at ho
  obtain ⟨k₀, r₀, hget₀, hd₀, heq⟩ := hr.data e.1 e.2 ((OMap.mem_entries _).mp he) hdata
  rw [heq]
  exact hs.hash_ne ⟨ho, hd⟩ hget₀ hd₀

end Spares

/-! ### Steps -/

section Gateway

variable [Sha256] {β : Type} [BlobStore β]

def writeVersion (s : CASStore β) (bucket key content remotePath : Bytes) (size : Int)
    (versionID : Bytes) (now : Int) (io : Option Err) : CASStore β :=
  match s.put io now key (hashBytes content) size remotePath (some ⟨content, none⟩) with
  | (.error _, s') => s'
  | (.ok _, s') => (s'.recordVersion bucket key (hashBytes content) size versionID now).2

def gatewayStep (s : CASStore β) : GatewayOp → CASStore β
  | .write bucket key content remotePath size versionID now io =>
    s.writeVersion bucket key content remotePath size versionID now io
  | .versionedDelete bucket key versionID now bypass markerID clock =>
    (s.handleVersionedDelete bucket key versionID now bypass markerID clock).2
  | .delete name now io => (s.delete io now name).2
  | .expire bucket name versioned markerID now deleteAt io =>
    (s.expireObject bucket name versioned markerID now deleteAt io).2

def GatewaySafe (s : CASStore β) : GatewayOp → Prop
  | .delete name _ io => s.SparesVersions name io
  | .expire _ name _ _ _ _ io => s.SparesVersions name io
  | _ => True

instance (s : CASStore β) (o : GatewayOp) : Decidable (s.GatewaySafe o) := by
  cases o <;> unfold GatewaySafe <;> infer_instance

variable [MapBackend β]

def Backed (C : Bytes → Prop) (s : CASStore β) (h : Bytes) : Prop :=
  ∃ c, C c ∧ s.bytes h = some c ∧ hashBytes c = h

structure VersionsBacked (C : Bytes → Prop) (s : CASStore β) : Prop where
  objects : ∀ h m, s.db.objects.get h = some m → Backed C s h
  versions : ∀ k r, s.db.objectVersions.get k = some r → r.isDeleteMarker = false →
    Backed C s r.hash

variable {C : Bytes → Prop}

variable {s : CASStore β}

theorem VersionsBacked.reshuffle {key : Bytes} {s' : CASStore β} (hi : VersionsBacked C s)
    (hr : Reshuffled key s s') : VersionsBacked C s' := by
  have hbytes : s'.bytes = s.bytes := by rw [hr.shape]
  have hobjects : s'.db.objects = s.db.objects := by rw [hr.shape]
  refine ⟨fun h m hm => ?_, fun k r hget hd => ?_⟩
  · rw [Backed, hbytes]
    exact hi.objects h m (hobjects ▸ hm)
  · obtain ⟨k₀, r₀, hget₀, hd₀, heq⟩ := hr.data k r hget hd
    rw [Backed, hbytes, heq]
    exact hi.versions k₀ r₀ hget₀ hd₀

theorem VersionsBacked.delete (hi : VersionsBacked C s) {name : Bytes} {io : Option Err} (now : Int)
    (hs : s.SparesVersions name io) : VersionsBacked C (s.delete io now name).2 := by
  rcases s.delete_cases io now name with ⟨-, hdel⟩ | hr
  · rw [hdel]
    exact hi
  have hkeep : ∀ h, ¬ (orphanOf s.db name = some h ∧ DeleteOk io h) → Backed C s h →
      Backed C (s.delete io now name).2 h := by
    intro h hne hb
    rw [Backed, hr.bytes, if_neg hne]
    exact hb
  refine ⟨fun h m hm => ?_, fun k r hget hd => ?_⟩
  · obtain ⟨hne, hcase⟩ := hr.objects_cases hm
    rcases hcase with ⟨-, m₀, hm₀, -⟩ | ⟨-, hm₀⟩
    · -- one reference less, but not the last one
      exact hkeep h hne (hi.objects h m₀ hm₀)
    · exact hkeep h hne (hi.objects h m hm₀)
  · rw [hr.objectVersions] at hget
    exact hkeep r.hash (fun hc => hs.hash_ne hc hget hd rfl) (hi.versions k r hget hd)

theorem Backed.after {s' : CASStore β} {c : Bytes} (hc : C c)
    (hb : s'.bytes = s.bytes ∨ s'.bytes = s.bytesAfter (hashBytes c) (some ⟨c, none⟩)) {h : Bytes}
    (hh : Backed C s h) : Backed C s' h := by
  rcases hb with hb | hb
  · rw [Backed, hb]
    exact hh
  · rw [Backed, hb, bytesAfter]
    split_ifs
    · exact hh
    · rcases eq_or_ne h (hashBytes c) with rfl | hne
      · exact ⟨c, hc, Function.update_self .., rfl⟩
      · rw [Function.update_of_ne hne]
        exact hh

theorem VersionsBacked.write (hi : VersionsBacked C s) {content : Bytes} (hc : C content)
    (bucket key remotePath : Bytes) (size : Int) (versionID : Bytes) (now : Int) (io : Option Err) :
    VersionsBacked C (s.writeVersion bucket key content remotePath size versionID now io) := by
  unfold writeVersion
  cases hput : s.put io now key (hashBytes content) size remotePath (some ⟨content, none⟩) with
  | mk res s' =>
    cases res with
    | error e =>
      obtain ⟨-, hdb, hb⟩ := put_error hput
      exact ⟨fun h m hm => (hi.objects h m (hdb ▸ hm)).after hc hb,
        fun k r hr hd => (hi.versions k r (hdb ▸ hr) hd).after hc hb⟩
    | ok read =>
      obtain ⟨-, hw, -, hb⟩ := put_ok hput
      have hnew : Backed C s' (hashBytes content) := by
        cases hm : s.db.objects.get (hashBytes content) with
        | some m => exact (hi.objects _ m hm).after hc (Or.inr hb)
        | none =>
          -- no record: the put wrote the content
          refine ⟨content, hc, ?_, rfl⟩
          rw [hb, bytesAfter, if_neg (fun hh => by simp [Holds, hm] at hh), Function.update_self]
      have hold : VersionsBacked C s' := by
        refine ⟨fun h m hm => ?_, fun k r hr hd => ?_⟩
        · rcases eq_or_ne h (hashBytes content) with rfl | hne
          · exact hnew
          · rw [hw.objects, Bucket.get_set_ne _ _ _ hne] at hm
            exact (hi.objects h m hm).after hc (Or.inr hb)
        · rw [hw.objectVersions] at hr
          exact (hi.versions k r hr hd).after hc (Or.inr hb)
      obtain ⟨versions, hrec, hspec⟩ :=
        s'.recordVersion_spec bucket key (hashBytes content) size versionID now
      simp only [hrec]
      refine ⟨hold.objects, fun k r hr hd => ?_⟩
      rcases hspec k r hr hd with heq | ⟨k₀, r₀, hr₀, hd₀, heq⟩
      · rw [heq]
        exact hnew
      · rw [heq]
        exact hold.versions k₀ r₀ hr₀ hd₀

theorem VersionsBacked.expire (hi : VersionsBacked C s) (bucket : Bytes) {name : Bytes}
    (versioned : Bool) (markerID : Bytes) (now deleteAt : Int) {io : Option Err}
    (hs : s.SparesVersions name io) :
    VersionsBacked C (s.expireObject bucket name versioned markerID now deleteAt io).2 := by
  have hr := reshuffled_recordDeleteMarker s name bucket name markerID now
  have hns := s.recordDeleteMarker_ns bucket name markerID now
  unfold expireObject
  cases versioned with
  | false => exact hi.delete deleteAt hs
  | true =>
    cases hm : s.recordDeleteMarker bucket name markerID now with
    | mk res s' =>
      rw [hm] at hr hns
      cases res with
      | error e => exact hi.reshuffle hr
      | ok _ => exact (hi.reshuffle hr).delete deleteAt (hs.reshuffle hr hns)

theorem versionsBacked_step {o : GatewayOp} (hi : VersionsBacked C s)
    (hC : ∀ c, o.content = some c → C c) (hs : s.GatewaySafe o) :
    VersionsBacked C (s.gatewayStep o) := by
  cases o with
  | write bucket key content remotePath size versionID now io =>
    exact hi.write (hC content rfl) ..
  | versionedDelete bucket key versionID now bypass markerID clock =>
    exact hi.reshuffle (reshuffled_handleVersionedDelete ..)
  | delete name now io => exact hi.delete now hs
  | expire bucket name versioned markerID now deleteAt io => exact hi.expire bucket _ _ _ _ hs

/-! ### Runs -/

def contents (ops : List GatewayOp) : List Bytes := ops.filterMap GatewayOp.content

theorem versionsBacked_run (cfg : CASConfig) (b : β) {ops : List GatewayOp}
    (hg : Guarded gatewayStep GatewaySafe (fresh cfg b) ops) :
    VersionsBacked (fun c => c ∈ contents ops) (run gatewayStep (fresh cfg b) ops) := by
  have hbase : VersionsBacked (fun c => c ∈ contents ops) (fresh cfg b) :=
    ⟨fun _ _ hm => (by cases hm), fun _ _ hr => (by cases hr)⟩
  have hstep : ∀ (s : CASStore β) (o : GatewayOp), VersionsBacked (fun c => c ∈ contents ops) s →
      s.GatewaySafe o ∧ o ∈ ops → VersionsBacked (fun c => c ∈ contents ops) (s.gatewayStep o) := by
    rintro s o hi ⟨hs, ho⟩
    exact versionsBacked_step hi (fun c hc => List.mem_filterMap.mpr ⟨o, ho, hc⟩) hs
  exact run_invariant _ hstep hbase (hg.and_mem)

omit [Sha256] in
theorem getVersionContent_eq {bucket key versionID c : Bytes} {r : VersionRecord}
    (hr : s.db.objectVersions.get (versionKey bucket key versionID) = some r)
    (hd : r.isDeleteMarker = false) (hc : s.bytes r.hash = some c) :
    s.getVersionContent bucket key versionID = .ok (⟨c, none⟩, r) := by
  have hview : MapBackend.view s.blobs r.hash = some c := hc
  simp [getVersionContent, getVersion, hr, hd, MapBackend.getBlob_eq, hview, Except.map]

/-- CORRECT: in a run whose plain deletes and expiries take away no hash that a data version points
    at, and whose contents do not collide, every data version still in the table reads as the one
    content of the run that has its hash. -/
theorem getVersionContent_after_run (cfg : CASConfig) (b : β) (ops : List GatewayOp)
    (hg : Guarded gatewayStep GatewaySafe (fresh cfg b) ops)
    (hfree : ∀ c ∈ contents ops, ∀ c' ∈ contents ops, hashBytes c = hashBytes c' → c = c')
    (bucket key versionID : Bytes) (r : VersionRecord)
    (hr : (run gatewayStep (fresh cfg b) ops).db.objectVersions.get
      (versionKey bucket key versionID) = some r) (hd : r.isDeleteMarker = false) :
    ∃ c ∈ contents ops, hashBytes c = r.hash ∧
      (∀ c' ∈ contents ops, hashBytes c' = r.hash → c' = c) ∧
      (run gatewayStep (fresh cfg b) ops).getVersionContent bucket key versionID =
        .ok (⟨c, none⟩, r) := by
  obtain ⟨c, hmem, hbytes, hhash⟩ := (versionsBacked_run cfg b hg).versions _ r hr hd
  refine ⟨c, hmem, hhash, fun c' hc' hhash' => ?_, getVersionContent_eq hr hd hbytes⟩
  exact hfree c' hc' c hmem (hhash'.trans hhash.symm)

end Gateway

/-! ### Concrete runs on the local back end -/

section Runs

local instance versionSha : Sha256 := sampleSha

def gatewayRun (ops : List GatewayOp) : CASStore LocalBlobStore := run gatewayStep (fresh {} {}) ops

/-- Two objects of one content; the first is delete-marked and then deleted, the second expires
    while the reference of the first is still counted. -/
def sparingRun : List GatewayOp :=
  [.write [98] [107] [97] [] 1 [49] 1 none, .write [98] [108] [97] [] 1 [50] 2 none,
    .versionedDelete [98] [107] [] 3 false [51] 3, .delete [107] 4 none,
    .expire [98] [108] true [52] 5 5 none]

def firstVersion : VersionRecord :=
  { versionID := [49], hash := hashBytes [97], size := 1, timestamp := 1, isLatest := false,
    isDeleteMarker := false }

theorem getVersionContent_after_sparingRun :
    (gatewayRun sparingRun).getVersionContent [98] [107] [49] = .ok (⟨[97], none⟩, firstVersion) := by
  have hg : Guarded gatewayStep GatewaySafe (fresh {} ({} : LocalBlobStore)) sparingRun := by
    decide +kernel
  have hr : (run gatewayStep (fresh {} ({} : LocalBlobStore)) sparingRun).db.objectVersions.get
      (versionKey [98] [107] [49]) = some firstVersion := by decide +kernel
  have hfree : ∀ c ∈ contents sparingRun, ∀ c' ∈ contents sparingRun,
      hashBytes c = hashBytes c' → c = c' := by decide +kernel
  obtain ⟨c, -, -, hc, hread⟩ := getVersionContent_after_run {} ({} : LocalBlobStore) sparingRun hg
    hfree [98] [107] [49] firstVersion hr rfl
  have hc97 : [97] = c := hc [97] (by decide +kernel) (by decide +kernel)
  rw [hc97]
  exact hread

/-- One versioned write and its expiry: the marker is written, the version is still in the table,
    and its bytes are gone with the last reference. The plain `Delete` has the same effect. -/
theorem getVersionContent_lost_by_expiry :
    (gatewayRun [.write [98] [107] [97] [] 1 [49] 1 none,
        .expire [98] [107] true [50] 2 2 none]).db.objectVersions.get (versionKey [98] [107] [49]) =
      some firstVersion ∧
    (gatewayRun [.write [98] [107] [97] [] 1 [49] 1 none,
        .expire [98] [107] true [50] 2 2 none]).getVersionContent [98] [107] [49] =
      .error (.path .enoent) ∧
    (gatewayRun [.write [98] [107] [97] [] 1 [49] 1 none,
        .delete [107] 2 none]).db.objectVersions.get (versionKey [98] [107] [49]) =
      some { firstVersion with isLatest := true } ∧
    (gatewayRun [.write [98] [107] [97] [] 1 [49] 1 none,
        .delete [107] 2 none]).getVersionContent [98] [107] [49] = .error (.path .enoent) := by
  decide +kernel

end Runs

end Momo.CASStore
