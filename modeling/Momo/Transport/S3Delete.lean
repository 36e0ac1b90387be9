import Momo.Storage.NameFrame
import Momo.Storage.VersionAgreement

/-! @momo src/transport/s3_communicator.go, src/transport/s3_versioning.go,
    src/storage/versioning.go | scheme:routing over the store's operations

    DELETE at the S3 gateway. `HandshakeServer` sends the request down one of these routes. -/

namespace Momo

/-! ### Records up to their place in the chain -/

section Demoted

def demotedEntry (e : Bytes × VersionRecord) : Bytes × VersionRecord := (e.1, e.2.demoted)

theorem OMap.map_place {K V W : Type} [LinearOrder K] (f : V → W) {k : K} {v x : V} :
    ∀ {l : List (K × V)}, l.Pairwise (fun a b => a.1 < b.1) → OMap.lookup k l = some x → f x = f v →
      (OMap.place k v l).map (fun e => (e.1, f e.2)) = l.map (fun e => (e.1, f e.2))
  | [], _, h, _ => by cases h
  | e :: l, hl, h, hf => by
    obtain ⟨hlt, hl⟩ := List.pairwise_cons.mp hl
    unfold OMap.lookup at h
    unfold OMap.place
    by_cases he : e.1 = k
    · rw [if_pos he] at h
      obtain rfl := Option.some.inj h
      rw [if_neg (by rw [he]; exact lt_irrefl k), if_pos he.symm]
      simp only [List.map_cons, he, hf]
    · rw [if_neg he] at h
      have hk : e.1 < k := by
        have hmem : (k, x) ∈ l := (OMap.mem_iff_lookup hl).mpr h
        exact hlt _ hmem
      rw [if_neg (not_lt.mpr hk.le), if_neg (Ne.symm he)]
      simp only [List.map_cons, OMap.map_place f hl h hf]

theorem scanFrom_demoted (start : Bytes) : ∀ l : List (Bytes × VersionRecord),
    scanFrom start (l.map demotedEntry) = (scanFrom start l).map (List.map demotedEntry)
  | [] => rfl
  | e :: l => by
    simp only [List.map_cons, scanFrom, demotedEntry, scanFrom_demoted start l]
    split_ifs
    · rfl
    · cases scanFrom start l <;> rfl
    · rfl

theorem scanVersions_demoted (versions : Bucket VersionRecord) (bucket key : Bytes) :
    (scanVersions versions bucket key).map (List.map demotedEntry) =
      scanFrom (versionPrefix bucket key)
        ((versions.map.entries.map demotedEntry).dropWhile
          (fun e => e.1 < versionPrefix bucket key)) := by
  rw [scanVersions, ← scanFrom_demoted, List.dropWhile_map]
  rfl

theorem bestVersion_demoted (found : List (Bytes × VersionRecord)) :
    bestVersion (found.map demotedEntry) = (bestVersion found).map VersionRecord.demoted := by
  have hfold : ∀ (l : List (Bytes × VersionRecord)) (acc : Option VersionRecord),
      (l.map demotedEntry).foldl bestStep (acc.map VersionRecord.demoted) =
        (l.foldl bestStep acc).map VersionRecord.demoted := by
    intro l
    induction l with
    | nil => exact fun acc => rfl
    | cons e l ih =>
      intro acc
      have hstep : bestStep (acc.map VersionRecord.demoted) (demotedEntry e) =
          (bestStep acc e).map VersionRecord.demoted := by
        cases acc with
        | none => rfl
        | some b =>
          have hbeats : e.2.demoted.beats b.demoted = e.2.beats b := rfl
          simp only [bestStep, Option.map_some, demotedEntry, hbeats]
          split_ifs <;> rfl
      rw [List.map_cons, List.foldl_cons, List.foldl_cons, hstep, ih]
  exact hfold found none

theorem latestVersionTx_demoted {op : String} (op' : String) {versions versions' : Bucket VersionRecord}
    {bucket key : Bytes} {next : VersionRecord}
    (hsame : versions'.map.entries.map demotedEntry = versions.map.entries.map demotedEntry)
    (h : latestVersionTx op versions bucket key = .ok (some next)) :
    ∃ next', latestVersionTx op' versions' bucket key = .ok (some next') ∧
      next'.demoted = next.demoted := by
  have hscan : (scanVersions versions' bucket key).map (List.map demotedEntry) =
      (scanVersions versions bucket key).map (List.map demotedEntry) := by
    rw [scanVersions_demoted, scanVersions_demoted, hsame]
  unfold latestVersionTx at h ⊢
  cases hfound : scanVersions versions bucket key with
  | none => rw [hfound] at h; cases h
  | some found =>
    rw [hfound] at h hscan
    have hbest := Except.ok.inj h
    cases hfound' : scanVersions versions' bucket key with
    | none => rw [hfound'] at hscan; cases hscan
    | some found' =>
      rw [hfound'] at hscan
      have hbest' : (bestVersion found').map VersionRecord.demoted = some next.demoted := by
        rw [← bestVersion_demoted, Option.some.inj hscan, bestVersion_demoted, hbest]
        rfl
      obtain ⟨next', hnext', heq⟩ := Option.map_eq_some_iff.mp hbest'
      exact ⟨next', by simp only [hnext'], heq⟩

theorem entries_flag {versions : Bucket VersionRecord} {k : Bytes} (hk : KeyOk k)
    {rec : VersionRecord} (h : (versions.get k).map VersionRecord.demoted = some rec.demoted) :
    (versions.set k hk { rec with isLatest := true }).map.entries.map demotedEntry =
      versions.map.entries.map demotedEntry := by
  obtain ⟨x, hx, heq⟩ := Option.map_eq_some_iff.mp h
  exact OMap.map_place VersionRecord.demoted versions.map.sorted hx heq

end Demoted

namespace S3

/-! ### The route of a DELETE -/

/-- The two values `SetBucketVersioning` accepts. -/
inductive VersioningStatus
  | Enabled
  | Suspended
  deriving DecidableEq

/-- What the gateway is configured with: the single bucket, or none in legacy flat mode, and whether
    the store offers versioning. -/
structure Gateway where
  configuredBucket : Bytes := []
  versioning : Bool := true

def validBucket (g : Gateway) (bucket : Bytes) : Bool :=
  g.configuredBucket = [] || bucket = g.configuredBucket

/-- A DELETE after `extractS3BucketAndKey`, with the query parameters and the header it looks at. -/
structure DeleteRequest where
  bucket : Bytes
  key : Bytes
  uploadId : Bytes := []
  versionId : Bytes := []
  bypass : Bool := false

/-- What a DELETE meets: failures of the view of the status, of the lease and of the back end, its
    two clocks, the id it draws for a marker. -/
structure DeleteEnv where
  viewFault : Option Err := none
  lease : Option Err := none
  io : Option Err := none
  now : Int := 0
  clock : Int := 0
  markerID : Bytes := []

inductive Reply
  | abortMultipart
  | bucketLevel
  | s3Error (status : ℕ) (code message : String)
  | noContent
  | versioned (r : CASStore.DeleteReply)
  deriving DecidableEq

def isVersioned (viewFault : Option Err) (status : Option VersioningStatus) : Except Err Bool :=
  match viewFault with
  | some e => .error e
  | none => .ok (status = some .Enabled)

section Handler

variable {β : Type} [BlobStore β]

def plainDelete (env : DeleteEnv) (s : CASStore β) (key : Bytes) : Reply × CASStore β :=
  match env.lease with
  | some _ =>
    (.s3Error 503 "ServiceUnavailable"
      "The request could not be completed because the resource is locked by another request.", s)
  | none =>
    match s.delete env.io env.clock key with
    | (.error _, s') =>
      (.s3Error 500 "InternalError" "The request failed due to an internal error.", s')
    | (.ok _, s') => (.noContent, s')

/-- The DELETE branch of `HandshakeServer`. -/
def handleDelete (g : Gateway) (env : DeleteEnv) (status : Option VersioningStatus) (s : CASStore β)
    (req : DeleteRequest) : Reply × CASStore β :=
  if req.uploadId ≠ [] ∧ req.key ≠ [] then (.abortMultipart, s)
  else if req.key = [] then (.bucketLevel, s)
  else if validBucket g req.bucket = false then
    (.s3Error 404 "NoSuchBucket" "The specified bucket does not exist.", s)
  else if g.versioning = false then
    if req.versionId ≠ [] then
      (.s3Error 501 "NotImplemented" "Versioning is not supported by this storage backend.", s)
    else plainDelete env s req.key
  else
    match isVersioned env.viewFault status with
    | .ok true =>
      let (r, s') := s.handleVersionedDelete req.bucket req.key req.versionId env.now req.bypass
        env.markerID env.clock
      (.versioned r, s')
    | _ => plainDelete env s req.key

end Handler

/-! ### One version, and nothing else -/

def mapped (latest : VersionRecord) : Option Bytes :=
  if latest.isDeleteMarker ∨ latest.hash = [] then none else some latest.hash

section Property

variable {β : Type} [BlobStore β] [MapBackend β]

/-- Between `s` and `s'`, nothing but the version `v` of an object went away, and the plain name shows
    what it showed or what the newest record says. -/
structure OnlyThatVersion (bucket key v : Bytes) (s : CASStore β) (reply : Reply) (s' : CASStore β) :
    Prop where
  /-- No other record is added, removed or changed, apart from its place in the chain. -/
  records : ∀ K, K ≠ versionKey bucket key v →
    (s'.db.objectVersions.get K).map VersionRecord.demoted =
      (s.db.objectVersions.get K).map VersionRecord.demoted
  /-- A version that is reported deleted is gone. -/
  gone : ∀ id marker, reply = .versioned (.noContent id marker) →
    s'.db.objectVersions.get (versionKey bucket key v) = none
  /-- The contents of the other versions are there. -/
  contents : ∀ K r, K ≠ versionKey bucket key v → s.db.objectVersions.get K = some r →
    r.isDeleteMarker = false → s'.bytes r.hash = s.bytes r.hash
  /-- Every object is there, unless it was that version and is reported deleted. -/
  objects : ∀ n h, s.getHashForName n = .ok h →
    (s'.getHashForName n = .ok h ∧ s'.bytes h = s.bytes h) ∨
      (n = key ∧ ∃ r, s.db.objectVersions.get (versionKey bucket key v) = some r ∧
        r.isDeleteMarker = false ∧ r.hash = h ∧ reply = .versioned (.noContent r.versionID false))
  name : s'.getHashForName key = s.getHashForName key ∨
    ∃ latest, s'.latestVersion bucket key = .ok (some latest) ∧ s'.db.ns.get key = mapped latest

theorem OnlyThatVersion.refl (bucket key v : Bytes) (s : CASStore β) {reply : Reply}
    (h : ∀ id marker, reply ≠ .versioned (.noContent id marker)) :
    OnlyThatVersion bucket key v s reply s where
  records _ _ := rfl
  gone id marker he := absurd he (h id marker)
  contents _ _ _ _ _ := rfl
  objects _ _ hv := .inl ⟨hv, rfl⟩
  name := .inl rfl

/-- Removing the version whose record is `r` is harmless when `next` is the newest record left:
    either `next` has to be flagged and cannot be, and the request fails; or `next` stands under its
    own key when it has to be flagged, and the plain name shows the version, the content of `next`,
    or nothing. -/
def NextOk (s : CASStore β) (bucket key v : Bytes) (r next : VersionRecord) : Prop :=
  (r.isLatest = true ∧ next.isLatest = false ∧ ¬ KeyOk (versionKey bucket key next.versionID)) ∨
  ((r.isLatest = true → next.isLatest = false →
      ((s.db.objectVersions.del (versionKey bucket key v)).get
        (versionKey bucket key next.versionID)).map VersionRecord.demoted = some next.demoted) ∧
    ∀ h, s.getHashForName key = .ok h →
      mapped next = some h ∨ (r.isDeleteMarker = false ∧ r.hash = h))

/-- The versioned route is harmless: so is removing the version, if it is there and not locked. -/
def VersionedOk (s : CASStore β) (bucket key v : Bytes) (now : Int) (bypass : Bool) : Prop :=
  ∀ r, s.db.objectVersions.get (versionKey bucket key v) = some r →
    (r.isDeleteMarker = true ∨ lockDenies s.db.lockState bucket key v now bypass = false) →
    ∀ next, latestVersionTx "CASStore.DeleteVersion"
        (s.db.objectVersions.del (versionKey bucket key v)) bucket key = .ok (some next) →
      NextOk s bucket key v r next

/-- The plain route is harmless: the lease or the key is refused; or the plain name shows nothing,
    and if deleting it releases bytes, no other version points at them and no other name shows
    them. -/
def PlainOk (s : CASStore β) (bucket key v : Bytes) (lease io : Option Err) : Prop :=
  lease ≠ none ∨ ¬ KeyOk key ∨
    ((∀ h, s.getHashForName key ≠ .ok h) ∧
      ∀ h, CASStore.orphanOf s.db key = some h → CASStore.DeleteOk io h → s.bytes h ≠ none →
        (∀ K r, K ≠ versionKey bucket key v → s.db.objectVersions.get K = some r →
          r.isDeleteMarker = false → r.hash ≠ h) ∧
        ∀ n, n ≠ key → s.getHashForName n ≠ .ok h)

def Harmless (g : Gateway) (env : DeleteEnv) (status : Option VersioningStatus) (s : CASStore β)
    (req : DeleteRequest) : Prop :=
  req.uploadId = [] → req.key ≠ [] → validBucket g req.bucket = true → g.versioning = true →
    if isVersioned env.viewFault status = .ok true then
      VersionedOk s req.bucket req.key req.versionId env.now req.bypass
    else PlainOk s req.bucket req.key req.versionId env.lease env.io

end Property

/-! ### The versioned route -/

section Versioned

variable {β : Type} [BlobStore β] [MapBackend β] {s : CASStore β} {bucket key v : Bytes}

omit [BlobStore β] [MapBackend β] in
theorem followLatest_eq {latest : VersionRecord}
    (h : s.latestVersion bucket key = .ok (some latest)) (hk : KeyOk key) :
    ∃ ns, s.followLatest bucket key = { s with db := { s.db with ns := ns } } ∧
      ns.get key = mapped latest ∧ ∀ n, n ≠ key → ns.get n = s.db.ns.get n := by
  simp only [CASStore.followLatest, h, CASStore.repointNamespace]
  by_cases hgone : latest.isDeleteMarker = true ∨ latest.hash = []
  · have hempty : (if latest.isDeleteMarker = true then [] else latest.hash) = [] := by
      rcases hgone with hm | hh
      · rw [if_pos hm]
      · rw [hh, ite_self]
    refine ⟨s.db.ns.del key, by rw [if_pos hempty], ?_, fun n hn => Bucket.get_del_ne _ hn⟩
    rw [mapped, if_pos hgone, Bucket.get_del_self]
  · obtain ⟨hm, hh⟩ := not_or.mp hgone
    rw [if_neg hm, if_neg hh, Bucket.put_of_keyOk _ hk]
    refine ⟨s.db.ns.set key hk latest.hash, rfl, ?_, fun n hn => Bucket.get_set_ne _ hk _ hn⟩
    rw [mapped, if_neg hgone, Bucket.get_set_self]

omit [BlobStore β] [MapBackend β] in
theorem followLatest_idle
    (h : ¬ KeyOk key ∨ ∀ latest, s.latestVersion bucket key ≠ .ok (some latest)) :
    ∃ ns, s.followLatest bucket key = { s with db := { s.db with ns := ns } } ∧
      ∀ n, ns.get n = s.db.ns.get n := by
  unfold CASStore.followLatest
  split
  · next latest hlatest =>
    have hk : ¬ KeyOk key := h.resolve_right (fun hno => hno latest hlatest)
    have hnone : s.db.ns.get key = none := by
      cases hget : s.db.ns.get key with
      | none => rfl
      | some x => exact absurd (Bucket.keyOk_of_get hget) hk
    unfold CASStore.repointNamespace
    generalize (if latest.isDeleteMarker = true then [] else latest.hash) = target
    split_ifs
    · refine ⟨s.db.ns.del key, rfl, fun n => ?_⟩
      rw [Bucket.get_del]
      split_ifs with hn
      · rw [hn, hnone]
      · rfl
    · simp only [Bucket.put, dif_neg hk]
      exact ⟨s.db.ns, rfl, fun _ => rfl⟩
  · exact ⟨s.db.ns, rfl, fun _ => rfl⟩

variable {r : VersionRecord} {now : Int} {bypass : Bool}

omit [BlobStore β] [MapBackend β] in
theorem deleteVersion_found (hr : s.db.objectVersions.get (versionKey bucket key v) = some r)
    (hun : r.isDeleteMarker = true ∨ lockDenies s.db.lockState bucket key v now bypass = false) :
    s.deleteVersion bucket key v now bypass =
      match rePointLatest "CASStore.DeleteVersion"
        (s.db.objectVersions.del (versionKey bucket key v)) bucket key r.isLatest with
      | .error e => (.error e, s)
      | .ok versions => (.ok r, s.withVersions versions) := by
  have hopen : ¬ (!r.isDeleteMarker && lockDenies s.db.lockState bucket key v now bypass) = true := by
    rcases hun with h | h <;> simp [h]
  simp only [CASStore.deleteVersion, hr, if_neg hopen, CASStore.updateVersions]
  cases rePointLatest "CASStore.DeleteVersion"
    (s.db.objectVersions.del (versionKey bucket key v)) bucket key r.isLatest <;> rfl

variable {versions : Bucket VersionRecord} {next : VersionRecord}

theorem rePointLatest_of_next {op : String} {bucket key : Bytes}
    (h : latestVersionTx op versions bucket key = .ok (some next)) (wasLatest : Bool) :
    rePointLatest op versions bucket key wasLatest =
      if wasLatest = true ∧ next.isLatest = false then
        versions.put (versionKey bucket key next.versionID) { next with isLatest := true }
      else .ok versions := by
  unfold rePointLatest
  rw [h]
  cases wasLatest <;> cases hl : next.isLatest <;> simp [bind, Except.bind, hl]

theorem onlyThatVersion_of_follow (hr : s.db.objectVersions.get (versionKey bucket key v) = some r)
    (hrec : ∀ K, K ≠ versionKey bucket key v →
      (versions.get K).map VersionRecord.demoted =
        (s.db.objectVersions.get K).map VersionRecord.demoted)
    (hgone : versions.get (versionKey bucket key v) = none)
    (hname : ∀ latest, latestVersionTx "CASStore.LatestVersion" versions bucket key =
        .ok (some latest) → ∀ h, s.getHashForName key = .ok h →
      mapped latest = some h ∨ (r.isDeleteMarker = false ∧ r.hash = h)) :
    OnlyThatVersion bucket key v s (.versioned (.noContent r.versionID r.isDeleteMarker))
      ((s.withVersions versions).followLatest bucket key) := by
  -- the name either stays or follows the newest record; nothing else of the store moves
  obtain ⟨ns, hstore, hother, hkey⟩ : ∃ ns, (s.withVersions versions).followLatest bucket key =
      { s with db := { s.db with objectVersions := versions, ns := ns } } ∧
      (∀ n, n ≠ key → ns.get n = s.db.ns.get n) ∧
      (ns.get key = s.db.ns.get key ∨
        ∃ latest, latestVersionTx "CASStore.LatestVersion" versions bucket key = .ok (some latest) ∧
          ns.get key = mapped latest) := by
    by_cases hidle : ¬ KeyOk key ∨
        ∀ latest, (s.withVersions versions).latestVersion bucket key ≠ .ok (some latest)
    · obtain ⟨ns, hns, hsame⟩ := followLatest_idle hidle
      exact ⟨ns, hns, fun n _ => hsame n, .inl (hsame key)⟩
    · obtain ⟨hk, hsome⟩ := not_or.mp hidle
      push Not at hsome
      obtain ⟨latest, hlatest⟩ := hsome
      obtain ⟨ns, hns, hmapped, hsame⟩ := followLatest_eq hlatest (not_not.mp hk)
      exact ⟨ns, hns, hsame, .inr ⟨latest, hlatest, hmapped⟩⟩
  rw [hstore]
  have hshown : ∀ n, ns.get n = s.db.ns.get n →
      CASStore.getHashForName
        { s with db := { s.db with objectVersions := versions, ns := ns } } n =
        s.getHashForName n := by
    intro n hn
    simp only [CASStore.getHashForName, hn]
  refine ⟨hrec, fun _ _ _ => hgone, fun _ _ _ _ _ => rfl, fun n h hv => ?_, ?_⟩
  · by_cases hn : n = key
    · subst hn
      rcases hkey with hsame | ⟨latest, hlatest, hmapped⟩
      · exact .inl ⟨(hshown n hsame).trans hv, rfl⟩
      · rcases hname latest hlatest h hv with hm | ⟨hdata, hhash⟩
        · refine .inl ⟨CASStore.getHashForName_eq_ok.mpr ⟨?_, hmapped.trans hm⟩, rfl⟩
          exact (CASStore.getHashForName_eq_ok.mp hv).1
        · exact .inr ⟨rfl, r, hr, hdata, hhash, by rw [hdata]⟩
    · exact .inl ⟨(hshown n (hother n hn)).trans hv, rfl⟩
  · rcases hkey with hsame | ⟨latest, hlatest, hmapped⟩
    · exact .inl (hshown key hsame)
    · exact .inr ⟨latest, hlatest, hmapped⟩

theorem onlyThatVersion_of_error (status : ℕ) (code message : String) :
    OnlyThatVersion bucket key v s (.versioned (.s3Error status code message)) s :=
  .refl bucket key v s (by simp)

omit [BlobStore β] [MapBackend β] in
theorem handleVersionedDelete_error {e : Err} (now : Int) (bypass : Bool) (markerID : Bytes)
    (clock : Int) (hv : v ≠ []) (h : s.deleteVersion bucket key v now bypass = (.error e, s)) :
    ∃ status code message, s.handleVersionedDelete bucket key v now bypass markerID clock =
      (.s3Error status code message, s) := by
  simp only [CASStore.handleVersionedDelete, if_neg hv, h]
  split_ifs <;> exact ⟨_, _, _, rfl⟩

omit [BlobStore β] [MapBackend β] in
theorem handleVersionedDelete_ok {s' : CASStore β} {clock : Int} {markerID : Bytes} (hv : v ≠ [])
    (h : s.deleteVersion bucket key v now bypass = (.ok r, s')) :
    s.handleVersionedDelete bucket key v now bypass markerID clock =
      (.noContent r.versionID r.isDeleteMarker, s'.followLatest bucket key) := by
  simp only [CASStore.handleVersionedDelete, if_neg hv, h]

theorem get_del_map {V : Bytes} :
    ∀ K, K ≠ V → ((versions.del V).get K).map VersionRecord.demoted =
      (versions.get K).map VersionRecord.demoted :=
  fun K hK => by rw [Bucket.get_del_ne _ hK]

theorem follow_iff (hr : s.db.objectVersions.get (versionKey bucket key v) = some r)
    (hrec : ∀ K, K ≠ versionKey bucket key v →
      (versions.get K).map VersionRecord.demoted =
        (s.db.objectVersions.get K).map VersionRecord.demoted)
    (hgone : versions.get (versionKey bucket key v) = none) {next' : VersionRecord}
    (hlatest : latestVersionTx "CASStore.LatestVersion" versions bucket key = .ok (some next'))
    (hnext : next'.demoted = next.demoted) :
    OnlyThatVersion bucket key v s (.versioned (.noContent r.versionID r.isDeleteMarker))
        ((s.withVersions versions).followLatest bucket key) ↔
      ∀ h, s.getHashForName key = .ok h →
        mapped next = some h ∨ (r.isDeleteMarker = false ∧ r.hash = h) := by
  obtain ⟨hmark, hhash⟩ := VersionRecord.same_of_demoted hnext
  have hmapped : mapped next' = mapped next := by rw [mapped, mapped, hmark, hhash]
  constructor
  · intro hp h hv
    rcases hp.objects key h hv with ⟨hv', -⟩ | ⟨-, r', hr', hdata, hh, -⟩
    · have hk : KeyOk key := Bucket.keyOk_of_get (CASStore.getHashForName_eq_ok.mp hv).2
      obtain ⟨ns, hns, hmap, -⟩ := followLatest_eq (s := s.withVersions versions) hlatest hk
      rw [hns] at hv'
      have hget := (CASStore.getHashForName_eq_ok.mp hv').2
      exact .inl (by rw [← hmapped, ← hmap]; exact hget)
    · obtain rfl := Option.some.inj (hr.symm.trans hr')
      exact .inr ⟨hdata, hh⟩
  · intro hname
    refine onlyThatVersion_of_follow hr hrec hgone (fun latest hl h hv => ?_)
    obtain rfl : next' = latest := Option.some.inj (Except.ok.inj (hlatest.symm.trans hl))
    rw [hmapped]
    exact hname h hv

theorem latestVersionTx_ok_iff (op op' : String) {bucket key : Bytes} {best : Option VersionRecord}
     :
    latestVersionTx op versions bucket key = .ok best ↔
      latestVersionTx op' versions bucket key = .ok best := by
  unfold latestVersionTx
  cases scanVersions versions bucket key <;> simp

theorem own_of_onlyThatVersion {reply : CASStore.DeleteReply} {s' : CASStore β}
    (hk : KeyOk (versionKey bucket key next.versionID))
    (hversions : versions = (s.db.objectVersions.del (versionKey bucket key v)).set
      (versionKey bucket key next.versionID) hk { next with isLatest := true })
    (hs' : s'.db.objectVersions = versions)
    (hreply : reply = .noContent r.versionID r.isDeleteMarker)
    (hp : OnlyThatVersion bucket key v s (.versioned reply) s') :
    ((s.db.objectVersions.del (versionKey bucket key v)).get
      (versionKey bucket key next.versionID)).map VersionRecord.demoted = some next.demoted := by
  have hput : s'.db.objectVersions.get (versionKey bucket key next.versionID) =
      some { next with isLatest := true } := by
    rw [hs', hversions, Bucket.get_set_self]
  have hne : versionKey bucket key next.versionID ≠ versionKey bucket key v := by
    intro he
    have hgone := hp.gone _ _ (by rw [hreply])
    rw [← he, hput] at hgone
    cases hgone
  rw [Bucket.get_del_ne _ hne, ← hp.records _ hne, hput]
  rfl

theorem handleVersionedDelete_found_iff (hv : v ≠ []) {clock : Int} {markerID : Bytes}
    (hr : s.db.objectVersions.get (versionKey bucket key v) = some r)
    (hun : r.isDeleteMarker = true ∨ lockDenies s.db.lockState bucket key v now bypass = false) :
    OnlyThatVersion bucket key v s
        (.versioned (s.handleVersionedDelete bucket key v now bypass markerID clock).1)
        (s.handleVersionedDelete bucket key v now bypass markerID clock).2 ↔
      ∀ next, latestVersionTx "CASStore.DeleteVersion"
          (s.db.objectVersions.del (versionKey bucket key v)) bucket key = .ok (some next) →
        NextOk s bucket key v r next := by
  have hdel := deleteVersion_found hr hun
  have hgone : (s.db.objectVersions.del (versionKey bucket key v)).get
      (versionKey bucket key v) = none := Bucket.get_del_self _ _
  -- without a newest record left nothing is flagged and the name stays
  have hidle : (∀ next, latestVersionTx "CASStore.DeleteVersion"
      (s.db.objectVersions.del (versionKey bucket key v)) bucket key ≠ .ok (some next)) →
      OnlyThatVersion bucket key v s (.versioned (.noContent r.versionID r.isDeleteMarker))
        ((s.withVersions (s.db.objectVersions.del (versionKey bucket key v))).followLatest
          bucket key) := by
    intro hno
    refine onlyThatVersion_of_follow hr get_del_map hgone (fun latest hl => ?_)
    exact absurd ((latestVersionTx_ok_iff _ _).mp hl) (hno latest)
  cases hlatest : latestVersionTx "CASStore.DeleteVersion"
      (s.db.objectVersions.del (versionKey bucket key v)) bucket key with
  | error e =>
    refine ⟨fun _ next h => (by cases h), fun _ => ?_⟩
    cases hflag : r.isLatest with
    | true =>
      rw [hflag, rePointLatest, hlatest] at hdel
      obtain ⟨st, code, msg, hreply⟩ :=
        handleVersionedDelete_error now bypass markerID clock hv hdel
      rw [hreply]
      exact onlyThatVersion_of_error st code msg
    | false =>
      rw [hflag, rePointLatest] at hdel
      rw [handleVersionedDelete_ok hv hdel]
      exact hidle (fun next h => by rw [hlatest] at h; cases h)
  | ok best =>
    cases best with
    | none =>
      refine ⟨fun _ next h => (by cases h), fun _ => ?_⟩
      have hre : rePointLatest "CASStore.DeleteVersion"
          (s.db.objectVersions.del (versionKey bucket key v)) bucket key r.isLatest =
          .ok (s.db.objectVersions.del (versionKey bucket key v)) := by
        rw [rePointLatest, hlatest]
        cases r.isLatest <;> rfl
      rw [hre] at hdel
      rw [handleVersionedDelete_ok hv hdel]
      exact hidle (fun next h => by rw [hlatest] at h; cases h)
    | some next =>
      have hnext : (∀ next', (Except.ok (some next) : Except Err _) = .ok (some next') →
          NextOk s bucket key v r next') ↔ NextOk s bucket key v r next :=
        ⟨fun h => h next rfl, fun h next' he => by
          obtain rfl := Option.some.inj (Except.ok.inj he)
          exact h⟩
      rw [hnext]
      rw [rePointLatest_of_next hlatest] at hdel
      by_cases hpromote : r.isLatest = true ∧ next.isLatest = false
      · rw [if_pos hpromote] at hdel
        by_cases hk : KeyOk (versionKey bucket key next.versionID)
        · -- the newest record left is flagged
          rw [Bucket.put_of_keyOk _ hk] at hdel
          rw [handleVersionedDelete_ok hv hdel]
          by_cases hown : ((s.db.objectVersions.del (versionKey bucket key v)).get
              (versionKey bucket key next.versionID)).map VersionRecord.demoted = some next.demoted
          · have hne : versionKey bucket key next.versionID ≠ versionKey bucket key v := by
              intro he
              rw [he, hgone] at hown
              cases hown
            obtain ⟨next', hlatest', heq⟩ := latestVersionTx_demoted
              "CASStore.LatestVersion" (entries_flag hk hown) hlatest
            rw [follow_iff hr ?_ ?_ hlatest' heq]
            · constructor
              · exact fun h => .inr ⟨fun _ _ => hown, h⟩
              · rintro (⟨-, -, hbad⟩ | ⟨-, h⟩)
                · exact absurd hk hbad
                · exact h
            · intro K hK
              rw [Bucket.get_set]
              split_ifs with he
              · rw [← Bucket.get_del_ne _ hK, he, hown]
                rfl
              · exact get_del_map K hK
            · rw [Bucket.get_set_ne _ _ _ hne.symm, hgone]
          · constructor
            · intro hp
              exact absurd (own_of_onlyThatVersion hk rfl (CASStore.followLatest_other _ _ _).1 rfl hp) hown
            · rintro (⟨-, -, hbad⟩ | ⟨h, -⟩)
              · exact absurd hk hbad
              · exact absurd (h hpromote.1 hpromote.2) hown
        · have hput : (s.db.objectVersions.del (versionKey bucket key v)).put
              (versionKey bucket key next.versionID) { next with isLatest := true } =
              .error (.text (if versionKey bucket key next.versionID = [] then "key required"
                else "key too large")) := by
            rw [Bucket.put, dif_neg hk]
          rw [hput] at hdel
          obtain ⟨st, code, msg, hreply⟩ :=
            handleVersionedDelete_error now bypass markerID clock hv hdel
          rw [hreply]
          exact ⟨fun _ => .inl ⟨hpromote.1, hpromote.2, hk⟩,
            fun _ => onlyThatVersion_of_error st code msg⟩
      · rw [if_neg hpromote] at hdel
        rw [handleVersionedDelete_ok hv hdel,
          follow_iff hr get_del_map hgone ((latestVersionTx_ok_iff _ _).mp hlatest) rfl]
        constructor
        · exact fun h => .inr ⟨fun h1 h2 => absurd ⟨h1, h2⟩ hpromote, h⟩
        · rintro (⟨h1, h2, -⟩ | ⟨-, h⟩)
          · exact absurd ⟨h1, h2⟩ hpromote
          · exact h

theorem handleVersionedDelete_iff (hv : v ≠ []) (now clock : Int) (bypass : Bool)
    (markerID : Bytes) :
    OnlyThatVersion bucket key v s
        (.versioned (s.handleVersionedDelete bucket key v now bypass markerID clock).1)
        (s.handleVersionedDelete bucket key v now bypass markerID clock).2 ↔
      VersionedOk s bucket key v now bypass := by
  -- a failed deletion changes nothing, and then the condition must not ask for anything
  have hfail : ∀ {e : Err}, s.deleteVersion bucket key v now bypass = (.error e, s) →
      VersionedOk s bucket key v now bypass →
      (OnlyThatVersion bucket key v s
        (.versioned (s.handleVersionedDelete bucket key v now bypass markerID clock).1)
        (s.handleVersionedDelete bucket key v now bypass markerID clock).2 ↔
      VersionedOk s bucket key v now bypass) := by
    intro e he hok
    obtain ⟨st, code, msg, hreply⟩ :=
      handleVersionedDelete_error now bypass markerID clock hv he
    rw [hreply]
    exact ⟨fun _ => hok, fun _ => onlyThatVersion_of_error st code msg⟩
  cases hr : s.db.objectVersions.get (versionKey bucket key v) with
  | none =>
    refine hfail (e := .sys .enoent) (by simp only [CASStore.deleteVersion, hr]) ?_
    intro r hr'
    rw [hr] at hr'
    cases hr'
  | some r =>
    by_cases hun : r.isDeleteMarker = true ∨
        lockDenies s.db.lockState bucket key v now bypass = false
    · rw [handleVersionedDelete_found_iff hv hr hun]
      constructor
      · intro h r' hr' _ next hnext
        obtain rfl := Option.some.inj (hr.symm.trans hr')
        exact h next hnext
      · intro h next hnext
        exact h r hr hun next hnext
    · refine hfail (e := .sys .eacces) ?_ ?_
      · obtain ⟨hm, hl⟩ := not_or.mp hun
        simp [CASStore.deleteVersion, hr, hm, hl]
      · intro r' hr' hun'
        obtain rfl := Option.some.inj (hr.symm.trans hr')
        exact absurd hun' hun

end Versioned

/-! ### The plain route -/

section Plain

variable {β : Type} [BlobStore β] [MapBackend β] {s : CASStore β} {bucket key v : Bytes}

omit [BlobStore β] [MapBackend β] in
theorem getHashForName_error {n : Bytes} {e : Err} (h : s.getHashForName n = .error e) :
    e = .sys .enoent := by
  unfold CASStore.getHashForName at h
  split at h <;> cases h <;> rfl

theorem plainDelete_cases (env : DeleteEnv) (s : CASStore β) (key : Bytes) :
    (∀ r, (plainDelete env s key).1 ≠ .versioned r) ∧
      (((env.lease ≠ none ∨ ¬ KeyOk key) ∧ (plainDelete env s key).2 = s) ∨
        (env.lease = none ∧ CASStore.Removed s (plainDelete env s key).2 env.io key env.clock)) := by
  have hcases := s.delete_cases env.io env.clock key
  unfold plainDelete
  cases env.lease with
  | some e => exact ⟨fun r => by simp, .inl ⟨.inl (by simp), rfl⟩⟩
  | none =>
    generalize s.delete env.io env.clock key = out at hcases
    obtain ⟨result, s'⟩ := out
    cases result <;>
      exact ⟨fun r => by simp, hcases.imp (fun h => ⟨.inr h.1, h.2⟩) (fun h => ⟨rfl, h⟩)⟩

theorem onlyThatVersion_removed_iff {s' : CASStore β} {io : Option Err} {at_ : Int} {reply : Reply}
    (hr : CASStore.Removed s s' io key at_) (hreply : ∀ r, reply ≠ .versioned r) :
    OnlyThatVersion bucket key v s reply s' ↔
      (∀ h, s.getHashForName key ≠ .ok h) ∧
        ∀ h, CASStore.orphanOf s.db key = some h → CASStore.DeleteOk io h → s.bytes h ≠ none →
          (∀ K r, K ≠ versionKey bucket key v → s.db.objectVersions.get K = some r →
            r.isDeleteMarker = false → r.hash ≠ h) ∧
          ∀ n, n ≠ key → s.getHashForName n ≠ .ok h := by
  have hkey : ∀ h, s'.getHashForName key ≠ .ok h := by
    intro h hshown
    have htomb := (CASStore.getHashForName_eq_ok.mp hshown).1
    rw [hr.tombstones, Bucket.get_set_self] at htomb
    cases htomb
  have hother : ∀ n, n ≠ key → s'.getHashForName n = s.getHashForName n := by
    intro n hn
    unfold CASStore.getHashForName
    rw [hr.tombstones, hr.ns, Bucket.get_set_ne _ _ _ hn, Bucket.get_del_ne _ hn]
  constructor
  · intro hp
    -- what is shown before stays with its bytes, since no version is reported deleted
    have hstay : ∀ n h, s.getHashForName n = .ok h →
        s'.getHashForName n = .ok h ∧ s'.bytes h = s.bytes h := by
      intro n h hshown
      rcases hp.objects n h hshown with hsame | ⟨-, r, -, -, -, he⟩
      · exact hsame
      · exact absurd he (hreply _)
    refine ⟨fun h hshown => hkey h (hstay key h hshown).1, ?_⟩
    intro h horphan hok hbytes
    have hlost : s'.bytes h = none := by rw [hr.bytes, if_pos ⟨horphan, hok⟩]
    constructor
    · rintro K r hK hrec hdata rfl
      exact hbytes ((hp.contents K r hK hrec hdata).symm.trans hlost)
    · intro n _ hshown
      exact hbytes ((hstay n h hshown).2.symm.trans hlost)
  · rintro ⟨hnone, hspare⟩
    -- a hash that loses its bytes had none, or nobody needs it
    have hbytes : ∀ h, (s.bytes h ≠ none → ¬ (CASStore.orphanOf s.db key = some h ∧
        CASStore.DeleteOk io h)) → s'.bytes h = s.bytes h := by
      intro h hneed
      rw [hr.bytes]
      split_ifs with hlost
      · cases hb : s.bytes h with
        | none => rfl
        | some c => exact absurd hlost (hneed (by rw [hb]; simp))
      · rfl
    refine ⟨fun K _ => by rw [hr.objectVersions], fun _ _ he => absurd he (hreply _), ?_, ?_, ?_⟩
    · intro K r hK hrec hdata
      refine hbytes _ (fun hb hlost => ?_)
      exact (hspare _ hlost.1 hlost.2 hb).1 K r hK hrec hdata rfl
    · intro n h hshown
      have hn : n ≠ key := fun he => hnone h (he ▸ hshown)
      refine .inl ⟨(hother n hn).trans hshown, hbytes h (fun hb hlost => ?_)⟩
      exact (hspare h hlost.1 hlost.2 hb).2 n hn hshown
    · left
      cases hbefore : s.getHashForName key with
      | ok h => exact absurd hbefore (hnone h)
      | error e =>
        cases hafter : s'.getHashForName key with
        | ok h => exact absurd hafter (hkey h)
        | error e' => rw [getHashForName_error hbefore, getHashForName_error hafter]

theorem plainDelete_iff (env : DeleteEnv) :
    OnlyThatVersion bucket key v s (plainDelete env s key).1 (plainDelete env s key).2 ↔
      PlainOk s bucket key v env.lease env.io := by
  obtain ⟨hreply, ⟨hrefused, hstay⟩ | ⟨hlease, hr⟩⟩ := plainDelete_cases env s key
  · rw [hstay]
    constructor
    · intro _
      rcases hrefused with hlease | hk
      · exact .inl hlease
      · exact .inr (.inl hk)
    · exact fun _ => .refl bucket key v s (fun _ _ => hreply _)
  · rw [onlyThatVersion_removed_iff hr hreply]
    constructor
    · exact fun h => .inr (.inr h)
    · rintro (h | h | h)
      · exact absurd hlease h
      · exact absurd hr.nameOk h
      · exact h

end Plain

/-! ### Every DELETE for one version -/

section Request

variable {β : Type} [BlobStore β] [MapBackend β]

/-- CORRECT: a DELETE with a `versionId` touches that version alone exactly when its route is
    harmless in the state it meets. -/
theorem handleDelete_onlyThatVersion_iff (g : Gateway) (env : DeleteEnv)
    (status : Option VersioningStatus) (s : CASStore β) (req : DeleteRequest)
    (hv : req.versionId ≠ []) :
    OnlyThatVersion req.bucket req.key req.versionId s (handleDelete g env status s req).1
        (handleDelete g env status s req).2 ↔
      Harmless g env status s req := by
  unfold handleDelete Harmless
  by_cases hup : req.uploadId = []
  · by_cases hkey : req.key = []
    · rw [if_neg (fun h => h.1 hup), if_pos hkey]
      exact ⟨fun _ _ h => absurd hkey h, fun _ => .refl _ _ _ s (fun _ _ => by simp)⟩
    · rw [if_neg (fun h => h.1 hup), if_neg hkey]
      cases hb : validBucket g req.bucket with
      | false =>
        exact ⟨fun _ _ _ h => (by cases h), fun _ => .refl _ _ _ s (fun _ _ => by simp)⟩
      | true =>
        cases hver : g.versioning with
        | false =>
          rw [if_neg (by simp), if_pos rfl, if_pos hv]
          exact ⟨fun _ _ _ _ h => (by cases h), fun _ => .refl _ _ _ s (fun _ _ => by simp)⟩
        | true =>
          rw [if_neg (by simp), if_neg (by simp)]
          simp only [hup, ne_eq, hkey, not_false_eq_true, forall_const]
          cases hstatus : isVersioned env.viewFault status with
          | error e =>
            rw [if_neg (by simp)]
            exact plainDelete_iff env
          | ok enabled =>
            cases enabled with
            | true =>
              rw [if_pos rfl]
              exact handleVersionedDelete_iff hv env.now env.clock req.bypass env.markerID
            | false =>
              rw [if_neg (by simp)]
              exact plainDelete_iff env
  · by_cases hkey : req.key = []
    · rw [if_neg (fun h => h.2 hkey), if_pos hkey]
      exact ⟨fun _ _ h => absurd hkey h, fun _ => .refl _ _ _ s (fun _ _ => by simp)⟩
    · rw [if_pos ⟨hup, hkey⟩]
      exact ⟨fun _ h => absurd h hup, fun _ => .refl _ _ _ s (fun _ _ => by simp)⟩

end Request

section Runs

local instance deleteSha : Sha256 := sampleSha

/-- Object `k` of bucket `b`, written twice while the bucket was versioned. -/
def twoVersions : CASStore LocalBlobStore :=
  CASStore.gatewayRun [.write [98] [107] [97] [] 1 [49] 1 none, .write [98] [107] [98] [] 1 [50] 2 none]

def neverVersioned : CASStore LocalBlobStore :=
  ((CASStore.fresh {} {}).put none 1 [107] (hashBytes [97]) 1 [] (some ⟨[97], none⟩)).2

def writtenSuspended : CASStore LocalBlobStore :=
  (twoVersions.put none 3 [107] (hashBytes [99]) 1 [] (some ⟨[99], none⟩)).2

def deleteFirst : DeleteRequest where
  bucket := [98]
  key := [107]
  versionId := [49]

theorem deleteFirst_onlyThatVersion :
    OnlyThatVersion [98] [107] [49] twoVersions
      (handleDelete {} {} (some .Enabled) twoVersions deleteFirst).1
      (handleDelete {} {} (some .Enabled) twoVersions deleteFirst).2 := by
  refine (handleDelete_onlyThatVersion_iff {} {} (some .Enabled) twoVersions deleteFirst
    (by decide)).mpr ?_
  intro _ _ _ _
  rw [if_pos (by rfl)]
  have hrec : twoVersions.db.objectVersions.get (versionKey [98] [107] [49]) =
      some ⟨[49], hashBytes [97], 1, 1, false, false⟩ := by decide +kernel
  have hlatest : latestVersionTx "CASStore.DeleteVersion"
      (twoVersions.db.objectVersions.del (versionKey [98] [107] [49])) [98] [107] =
      .ok (some ⟨[50], hashBytes [98], 1, 2, true, false⟩) := by decide +kernel
  have hshown : twoVersions.getHashForName [107] = .ok (hashBytes [98]) := by decide +kernel
  intro r hr _ next hnext
  obtain rfl := Option.some.inj (hrec.symm.trans hr)
  obtain rfl := Option.some.inj (Except.ok.inj (hlatest.symm.trans hnext))
  refine .inr ⟨fun h => (by cases h), fun h hh => .inl ?_⟩
  obtain rfl := Except.ok.inj (hshown.symm.trans hh)
  decide +kernel

/-- The request loses the object the name shows: it is gone from the name, and it is not the version
    the request was for. -/
def LosesObject (status : Option VersioningStatus) (s : CASStore LocalBlobStore) (h : Bytes) : Prop :=
  s.getHashForName [107] = .ok h ∧
    (s.db.objectVersions.get (versionKey [98] [107] [49])).map VersionRecord.hash ≠ some h ∧
    (handleDelete {} {} status s deleteFirst).2.getHashForName [107] ≠ .ok h

instance (status : Option VersioningStatus) (s : CASStore LocalBlobStore) (h : Bytes) :
    Decidable (LosesObject status s h) :=
  inferInstanceAs (Decidable (_ ∧ _ ∧ _))

theorem LosesObject.not_onlyThatVersion {status : Option VersioningStatus}
    {s : CASStore LocalBlobStore} {h : Bytes} (hl : LosesObject status s h) :
    ¬ OnlyThatVersion [98] [107] [49] s (handleDelete {} {} status s deleteFirst).1
      (handleDelete {} {} status s deleteFirst).2 := by
  obtain ⟨hshown, hother, hgone⟩ := hl
  intro hp
  rcases hp.objects [107] h hshown with ⟨hstay, -⟩ | ⟨-, r, hr, -, hhash, -⟩
  · exact hgone hstay
  · exact hother (by rw [hr, Option.map_some, hhash])

theorem deleteFirst_removes_object :
    (LosesObject none neverVersioned (hashBytes [97]) ∧
      LosesObject (some .Suspended) writtenSuspended (hashBytes [99]) ∧
      LosesObject (some .Enabled) writtenSuspended (hashBytes [99])) ∧
    ¬ OnlyThatVersion [98] [107] [49] neverVersioned
      (handleDelete {} {} none neverVersioned deleteFirst).1
      (handleDelete {} {} none neverVersioned deleteFirst).2 ∧
    ¬ OnlyThatVersion [98] [107] [49] writtenSuspended
      (handleDelete {} {} (some .Suspended) writtenSuspended deleteFirst).1
      (handleDelete {} {} (some .Suspended) writtenSuspended deleteFirst).2 ∧
    ¬ OnlyThatVersion [98] [107] [49] writtenSuspended
      (handleDelete {} {} (some .Enabled) writtenSuspended deleteFirst).1
      (handleDelete {} {} (some .Enabled) writtenSuspended deleteFirst).2 := by
  have hloses : LosesObject none neverVersioned (hashBytes [97]) ∧
      LosesObject (some .Suspended) writtenSuspended (hashBytes [99]) ∧
      LosesObject (some .Enabled) writtenSuspended (hashBytes [99]) := by decide +kernel
  exact ⟨hloses, hloses.1.not_onlyThatVersion, hloses.2.1.not_onlyThatVersion,
    hloses.2.2.not_onlyThatVersion⟩

end Runs

end S3

end Momo
