import Momo.Storage.CASSpec

/-! @momo src/storage/versioning.go, src/storage/objectlock.go, src/storage/lifecycle.go,
    src/transport/s3_versioning.go | scheme:cursor scans over composite keys

    Versions of the objects of a bucket. A version record points at a content hash; the table is
    keyed by bucket, key and version id, joined by NUL bytes, and the records of one object are
    found by a cursor that starts at their common prefix. The scan slices every key it meets to the
    length of the prefix: a shorter key makes it panic, which the callers recover into an error. -/

namespace Momo

/-! ### Keys and scans -/

def versionPrefix (bucket key : Bytes) : Bytes := bucket ++ 0 :: key ++ [0]

def versionKey (bucket key versionID : Bytes) : Bytes := versionPrefix bucket key ++ versionID

/-- The cursor loop from its starting point on; `none` is the panic on a short key. -/
def scanFrom (start : Bytes) :
    List (Bytes × VersionRecord) → Option (List (Bytes × VersionRecord))
  | [] => some []
  | e :: rest =>
    if e.1.length < start.length then none
    else if e.1.take start.length = start then (scanFrom start rest).map (fun found => e :: found)
    else some []

def scanVersions (versions : Bucket VersionRecord) (bucket key : Bytes) :
    Option (List (Bytes × VersionRecord)) :=
  scanFrom (versionPrefix bucket key)
    (versions.map.entries.dropWhile (fun e => e.1 < versionPrefix bucket key))

def scanPanic (op : String) : Err := recovered op "runtime error: slice bounds out of range"

/-- The loop of `putVersion`: every latest record of the object is demoted. -/
def demote : List (Bytes × VersionRecord) → Bucket VersionRecord →
    Except Err (Bucket VersionRecord)
  | [], versions => .ok versions
  | e :: rest, versions =>
    if e.2.isLatest then do
      let versions ← versions.put e.1 { e.2 with isLatest := false }
      demote rest versions
    else demote rest versions

def putVersion (op : String) (versions : Bucket VersionRecord) (bucket key : Bytes)
    (rec : VersionRecord) : Except Err (Bucket VersionRecord) :=
  match scanVersions versions bucket key with
  | none => .error (scanPanic op)
  | some found => do
    let versions ← demote found versions
    versions.put (versionKey bucket key rec.versionID) rec

def VersionRecord.beats (r best : VersionRecord) : Bool :=
  best.timestamp < r.timestamp || (r.timestamp = best.timestamp && best.versionID < r.versionID)

def bestVersion (found : List (Bytes × VersionRecord)) : Option VersionRecord :=
  found.foldl (fun best e =>
    match best with
    | none => some e.2
    | some b => if e.2.beats b then some e.2 else some b) none

def latestVersionTx (op : String) (versions : Bucket VersionRecord) (bucket key : Bytes) :
    Except Err (Option VersionRecord) :=
  match scanVersions versions bucket key with
  | none => .error (scanPanic op)
  | some found => .ok (bestVersion found)

def rePointLatest (op : String) (versions : Bucket VersionRecord) (bucket key : Bytes)
    (wasLatest : Bool) : Except Err (Bucket VersionRecord) :=
  if wasLatest then do
    match ← latestVersionTx op versions bucket key with
    | none => .ok versions
    | some next =>
      if next.isLatest then .ok versions
      else versions.put (versionKey bucket key next.versionID) { next with isLatest := true }
  else .ok versions

/-- Idempotent by id; a record that claims to be the latest moves the chain only when it is at least
    as new as the newest one here. -/
def applyReplicatedRecord (op : String) (versions : Bucket VersionRecord) (bucket key : Bytes)
    (rec : VersionRecord) : Except Err (Bucket VersionRecord) :=
  if versions.get (versionKey bucket key rec.versionID) = some rec then .ok versions
  else do
    let newest ←
      if rec.isLatest then do
        let latest ← latestVersionTx op versions bucket key
        pure (latest.all (fun l => l.timestamp ≤ rec.timestamp))
      else pure false
    if newest then putVersion op versions bucket key rec
    else versions.put (versionKey bucket key rec.versionID) { rec with isLatest := false }

/-! ### Locks -/

def ObjectLockState.lockedAt (l : ObjectLockState) (now : Int) : Bool :=
  if l.legalHoldOn then true
  else if l.mode = .unset then false
  else now < l.retainUntil

def lockDenies (locks : Bucket ObjectLockState) (bucket key versionID : Bytes) (now : Int)
    (bypass : Bool) : Bool :=
  match locks.get (versionKey bucket key versionID) with
  | none => false
  | some state =>
    if state.lockedAt now then !(bypass && state.mode = .GOVERNANCE && !state.legalHoldOn) else false

/-! ### What the transactions do to the table -/

def VersionRecord.demoted (r : VersionRecord) : VersionRecord := { r with isLatest := false }

theorem VersionRecord.same_of_demoted {r r' : VersionRecord} (h : r'.demoted = r.demoted) :
    r'.isDeleteMarker = r.isDeleteMarker ∧ r'.hash = r.hash := by
  have hmark := congrArg VersionRecord.isDeleteMarker h
  have hhash := congrArg VersionRecord.hash h
  exact ⟨hmark, hhash⟩

/-- Every record of the second table is one of the first, up to its place in the chain. -/
def Derived (versions versions' : Bucket VersionRecord) : Prop :=
  ∀ k r', versions'.get k = some r' → ∃ k₀ r, versions.get k₀ = some r ∧ r'.demoted = r.demoted

theorem Derived.refl (versions : Bucket VersionRecord) : Derived versions versions :=
  fun k r h => ⟨k, r, h, rfl⟩

theorem Derived.trans {v₁ v₂ v₃ : Bucket VersionRecord} (h₁ : Derived v₁ v₂) (h₂ : Derived v₂ v₃) :
    Derived v₁ v₃ := by
  intro k r₃ hr₃
  obtain ⟨k₂, r₂, hr₂, he₂⟩ := h₂ k r₃ hr₃
  obtain ⟨k₁, r₁, hr₁, he₁⟩ := h₁ k₂ r₂ hr₂
  exact ⟨k₁, r₁, hr₁, he₂.trans he₁⟩

theorem derived_del (versions : Bucket VersionRecord) (k : Bytes) :
    Derived versions (versions.del k) := by
  intro k' r hr
  exact ⟨k', r, Bucket.get_of_get_del hr, rfl⟩

theorem scanFrom_sublist {start : Bytes} (l : List (Bytes × VersionRecord)) :
    ∀ {found : List (Bytes × VersionRecord)}, scanFrom start l = some found → found.Sublist l := by
  induction l with
  | nil =>
    intro found h
    cases h
    exact List.Sublist.refl _
  | cons e rest ih =>
    intro found h
    rw [scanFrom] at h
    split_ifs at h
    · obtain ⟨tail, htail, rfl⟩ := Option.map_eq_some_iff.mp h
      exact (ih htail).cons_cons e
    · cases h
      exact List.nil_sublist _

variable {versions : Bucket VersionRecord} {bucket key : Bytes}

theorem scanVersions_spec {found : List (Bytes × VersionRecord)}
    (h : scanVersions versions bucket key = some found) :
    (∀ e ∈ found, versions.get e.1 = some e.2) ∧ found.Pairwise (fun a b => a.1 < b.1) := by
  have hsub : found.Sublist versions.map.entries :=
    (scanFrom_sublist _ h).trans (List.dropWhile_sublist _)
  refine ⟨fun e he => ?_, versions.map.sorted.sublist hsub⟩
  exact (OMap.mem_entries versions.map).mp (hsub.subset he)

theorem demote_spec (found : List (Bytes × VersionRecord)) :
    ∀ {versions : Bucket VersionRecord}, (∀ e ∈ found, versions.get e.1 = some e.2) →
      found.Pairwise (fun a b => a.1 < b.1) →
      ∃ versions', demote found versions = .ok versions' ∧
        ∀ k, versions'.get k =
          if k ∈ found.map Prod.fst then (versions.get k).map VersionRecord.demoted
          else versions.get k := by
  induction found with
  | nil =>
    intro versions _ _
    exact ⟨versions, rfl, fun k => by simp⟩
  | cons e rest ih =>
    intro versions hget hsorted
    obtain ⟨hlt, hsorted⟩ := List.pairwise_cons.mp hsorted
    have he := hget e (List.mem_cons_self ..)
    have hrest : ∀ e' ∈ rest, versions.get e'.1 = some e'.2 :=
      fun e' he' => hget e' (List.mem_cons_of_mem _ he')
    have hin : e.1 ∈ (e :: rest).map Prod.fst := List.mem_cons_self ..
    have hnot : e.1 ∉ rest.map Prod.fst := by
      intro hc
      obtain ⟨e', he', heq⟩ := List.mem_map.mp hc
      exact absurd (hlt e' he') (by rw [heq]; exact lt_irrefl _)
    rw [demote]
    cases hl : e.2.isLatest with
    | false =>
      -- a record that is not the latest is left as it is
      simp only [Bool.false_eq_true, if_false]
      obtain ⟨versions', hdem, hspec⟩ := ih hrest hsorted
      refine ⟨versions', hdem, fun k => ?_⟩
      rw [hspec k]
      rcases eq_or_ne k e.1 with rfl | hne
      · have hsame : e.2.demoted = e.2 := by rw [VersionRecord.demoted, ← hl]
        rw [if_neg hnot, if_pos hin, he, Option.map_some, hsame]
      · simp only [List.map_cons, List.mem_cons, hne, false_or]
    | true =>
      have hk := Bucket.keyOk_of_get he
      have hget' : ∀ e' ∈ rest, (versions.set e.1 hk e.2.demoted).get e'.1 = some e'.2 := by
        intro e' he'
        rw [Bucket.get_set_ne _ _ _ (hlt e' he').ne']
        exact hrest e' he'
      obtain ⟨versions', hdem, hspec⟩ := ih hget' hsorted
      refine ⟨versions', ?_, fun k => ?_⟩
      · rw [if_pos rfl, Bucket.put_of_keyOk _ hk]
        exact hdem
      · rw [hspec k]
        rcases eq_or_ne k e.1 with rfl | hne
        · rw [if_neg hnot, if_pos hin, Bucket.get_set_self, he, Option.map_some]
        · simp only [List.map_cons, List.mem_cons, hne, false_or, Bucket.get_set_ne _ _ _ hne]

variable {op : String} {versions' : Bucket VersionRecord}

theorem putVersion_ok {rec : VersionRecord}
    (h : putVersion op versions bucket key rec = .ok versions') :
    ∃ found, scanVersions versions bucket key = some found ∧
      ∀ k, versions'.get k =
        if k = versionKey bucket key rec.versionID then some rec
        else if k ∈ found.map Prod.fst then (versions.get k).map VersionRecord.demoted
        else versions.get k := by
  unfold putVersion at h
  cases hscan : scanVersions versions bucket key with
  | none =>
    rw [hscan] at h
    cases h
  | some found =>
    obtain ⟨hget, hsorted⟩ := scanVersions_spec hscan
    obtain ⟨mid, hdem, hspec⟩ := demote_spec found hget hsorted
    rw [hscan] at h
    simp only [hdem, bind, Except.bind] at h
    obtain ⟨hk, rfl⟩ := Bucket.put_eq_ok.mp h
    exact ⟨found, rfl, fun k => by rw [Bucket.get_set, hspec k]⟩

theorem putVersion_derived {rec : VersionRecord}
    (h : putVersion op versions bucket key rec = .ok versions') {k : Bytes} {r' : VersionRecord}
    (hr : versions'.get k = some r') :
    r' = rec ∨ ∃ r, versions.get k = some r ∧ r'.demoted = r.demoted := by
  obtain ⟨found, -, hspec⟩ := putVersion_ok h
  rw [hspec k] at hr
  split_ifs at hr
  · exact Or.inl (Option.some.inj hr).symm
  · obtain ⟨r, hget, rfl⟩ := Option.map_eq_some_iff.mp hr
    exact Or.inr ⟨r, hget, rfl⟩
  · exact Or.inr ⟨r', hr, rfl⟩

def VersionRecord.rank (r : VersionRecord) : ℤ ×ₗ Bytes := toLex (r.timestamp, r.versionID)

theorem VersionRecord.beats_iff {r b : VersionRecord} : r.beats b = true ↔ b.rank < r.rank := by
  rw [VersionRecord.beats, VersionRecord.rank, VersionRecord.rank, Prod.Lex.toLex_lt_toLex,
    Bool.or_eq_true, Bool.and_eq_true, decide_eq_true_iff, decide_eq_true_iff, decide_eq_true_iff,
    @eq_comm _ r.timestamp]

def bestStep (best : Option VersionRecord) (e : Bytes × VersionRecord) : Option VersionRecord :=
  match best with
  | none => some e.2
  | some b => if e.2.beats b then some e.2 else some b

theorem bestStep_spec (best : Option VersionRecord) (e : Bytes × VersionRecord) :
    ∃ r, bestStep best e = some r ∧ (best = some r ∨ r = e.2) ∧
      (∀ b, best = some b → b.rank ≤ r.rank) ∧ e.2.rank ≤ r.rank := by
  cases best with
  | none => exact ⟨e.2, rfl, Or.inr rfl, fun b hb => (by cases hb), le_refl _⟩
  | some b =>
    by_cases hb : e.2.beats b = true
    · refine ⟨e.2, if_pos hb, Or.inr rfl, fun b' hb' => ?_, le_refl _⟩
      cases hb'
      exact (VersionRecord.beats_iff.mp hb).le
    · refine ⟨b, if_neg hb, Or.inl rfl, fun b' hb' => (by cases hb'; exact le_refl _), ?_⟩
      exact not_lt.mp (fun hlt => hb (VersionRecord.beats_iff.mpr hlt))

theorem bestStep_fold (l : List (Bytes × VersionRecord)) : ∀ b : VersionRecord,
    ∃ r, l.foldl bestStep (some b) = some r ∧ (b = r ∨ ∃ k, (k, r) ∈ l) ∧ b.rank ≤ r.rank ∧
      ∀ e ∈ l, e.2.rank ≤ r.rank := by
  induction l with
  | nil => exact fun b => ⟨b, rfl, Or.inl rfl, le_refl _, fun e he => by cases he⟩
  | cons e rest ih =>
    intro b
    obtain ⟨r₁, hacc, hmem, hb, he⟩ := bestStep_spec (some b) e
    obtain ⟨r, hfold, hin, hle, hall⟩ := ih r₁
    refine ⟨r, by rw [List.foldl_cons, hacc, hfold], ?_, (hb b rfl).trans hle, fun e' he' => ?_⟩
    · rcases hin with rfl | ⟨k, hk⟩
      · rcases hmem with hb | rfl
        · exact Or.inl (Option.some.inj hb)
        · exact Or.inr ⟨e.1, List.mem_cons_self ..⟩
      · exact Or.inr ⟨k, List.mem_cons_of_mem _ hk⟩
    · rcases List.mem_cons.mp he' with rfl | hmem'
      · exact he.trans hle
      · exact hall e' hmem'

theorem bestVersion_spec (found : List (Bytes × VersionRecord)) :
    (bestVersion found = none ∧ found = []) ∨
      ∃ r k, bestVersion found = some r ∧ (k, r) ∈ found ∧ ∀ e ∈ found, e.2.rank ≤ r.rank := by
  cases found with
  | nil => exact Or.inl ⟨rfl, rfl⟩
  | cons e rest =>
    obtain ⟨r, hfold, hin, hle, hall⟩ := bestStep_fold rest e.2
    have hbest : bestVersion (e :: rest) = some r := hfold
    have hmax : ∀ e' ∈ e :: rest, e'.2.rank ≤ r.rank := by
      intro e' he'
      rcases List.mem_cons.mp he' with rfl | hmem
      · exact hle
      · exact hall e' hmem
    rcases hin with rfl | ⟨k, hk⟩
    · exact Or.inr ⟨e.2, e.1, hbest, List.mem_cons_self .., hmax⟩
    · exact Or.inr ⟨r, k, hbest, List.mem_cons_of_mem _ hk, hmax⟩

theorem scanFrom_prefix {start : Bytes} (l : List (Bytes × VersionRecord)) :
    ∀ {found : List (Bytes × VersionRecord)}, scanFrom start l = some found →
      ∀ e ∈ found, start <+: e.1 := by
  induction l with
  | nil =>
    intro found h
    cases h
    exact fun e he => by cases he
  | cons e rest ih =>
    intro found h
    rw [scanFrom] at h
    split_ifs at h with hshort hpre
    · obtain ⟨tail, htail, rfl⟩ := Option.map_eq_some_iff.mp h
      intro e' he'
      rcases List.mem_cons.mp he' with rfl | hmem
      · exact List.prefix_iff_eq_take.mpr hpre.symm
      · exact ih htail e' hmem
    · cases h
      exact fun e he => by cases he

theorem rePointLatest_cases {wasLatest : Bool}
    (h : rePointLatest op versions bucket key wasLatest = .ok versions') :
    versions' = versions ∨ ∃ v next, ∃ hk : KeyOk (versionKey bucket key next.versionID),
      versions.get (versionKey bucket key v) = some next ∧
      versions' = versions.set _ hk { next with isLatest := true } := by
  unfold rePointLatest latestVersionTx at h
  split_ifs at h
  · cases hscan : scanVersions versions bucket key with
    | none =>
      rw [hscan] at h
      cases h
    | some found =>
      rw [hscan] at h
      simp only [bind, Except.bind] at h
      rcases bestVersion_spec found with ⟨hnone, -⟩ | ⟨next, K, hbest, hmem, -⟩
      · rw [hnone] at h
        cases h
        exact Or.inl rfl
      · rw [hbest] at h
        simp only at h
        split_ifs at h
        · cases h
          exact Or.inl rfl
        · obtain ⟨hk, rfl⟩ := Bucket.put_eq_ok.mp h
          obtain ⟨v, hv⟩ := scanFrom_prefix _ hscan _ hmem
          have hget := (scanVersions_spec hscan).1 _ hmem
          exact Or.inr ⟨v, next, hk, by rw [show versionKey bucket key v = K from hv]; exact hget, rfl⟩
  · cases h
    exact Or.inl rfl

theorem rePointLatest_derived {wasLatest : Bool}
    (h : rePointLatest op versions bucket key wasLatest = .ok versions') :
    Derived versions versions' := by
  rcases rePointLatest_cases h with rfl | ⟨v, next, hk, hget, rfl⟩
  · exact Derived.refl _
  · intro K r hr
    rw [Bucket.get_set] at hr
    split_ifs at hr
    · cases hr
      exact ⟨_, next, hget, rfl⟩
    · exact ⟨K, r, hr, rfl⟩

namespace CASStore

variable {β : Type}

/-! ### The operations of a store -/

def withVersions (s : CASStore β) (versions : Bucket VersionRecord) : CASStore β :=
  { s with db := { s.db with objectVersions := versions } }

def updateVersions (s : CASStore β) (tx : Except Err (Bucket VersionRecord)) :
    Except Err Unit × CASStore β :=
  match tx with
  | .error e => (.error e, s)
  | .ok versions => (.ok (), s.withVersions versions)

def recordVersion (s : CASStore β) (bucket key hash : Bytes) (size : Int) (versionID : Bytes)
    (now : Int) : Except Err Unit × CASStore β :=
  s.updateVersions (putVersion "CASStore.RecordVersion" s.db.objectVersions bucket key
    { versionID := versionID, hash := hash, size := size, timestamp := now, isLatest := true })

def recordDeleteMarker (s : CASStore β) (bucket key : Bytes) (versionID : Bytes) (now : Int) :
    Except Err Unit × CASStore β :=
  s.updateVersions (putVersion "CASStore.RecordDeleteMarker" s.db.objectVersions bucket key
    { versionID := versionID, timestamp := now, isLatest := true, isDeleteMarker := true })

def putVersionRecord (s : CASStore β) (bucket key : Bytes) (rec : VersionRecord) :
    Except Err Unit × CASStore β :=
  if bucket = [] ∨ key = [] ∨ rec.versionID = [] then (.error (.sys .einval), s)
  else s.updateVersions
    (applyReplicatedRecord "CASStore.PutVersionRecord" s.db.objectVersions bucket key rec)

def latestVersion (s : CASStore β) (bucket key : Bytes) : Except Err (Option VersionRecord) :=
  latestVersionTx "CASStore.LatestVersion" s.db.objectVersions bucket key

def getVersion (s : CASStore β) (bucket key versionID : Bytes) : Except Err VersionRecord :=
  match s.db.objectVersions.get (versionKey bucket key versionID) with
  | none => .error (.sys .enoent)
  | some rec => .ok rec

def deleteVersion (s : CASStore β) (bucket key versionID : Bytes) (now : Int) (bypass : Bool) :
    Except Err VersionRecord × CASStore β :=
  match s.db.objectVersions.get (versionKey bucket key versionID) with
  | none => (.error (.sys .enoent), s)
  | some deleted =>
    if !deleted.isDeleteMarker && lockDenies s.db.lockState bucket key versionID now bypass then
      (.error (.sys .eacces), s)
    else
      match s.updateVersions (rePointLatest "CASStore.DeleteVersion"
          (s.db.objectVersions.del (versionKey bucket key versionID)) bucket key
          deleted.isLatest) with
      | (.error e, s') => (.error e, s')
      | (.ok _, s') => (.ok deleted, s')

def getVersionContent [BlobStore β] (s : CASStore β) (bucket key versionID : Bytes) :
    Except Err (Reader × VersionRecord) :=
  match s.getVersion bucket key versionID with
  | .error e => .error e
  | .ok rec =>
    if rec.isDeleteMarker then .error (.sys .enoent)
    else (BlobStore.getBlob s.blobs rec.hash).map (fun rc => (rc, rec))

def repointNamespace (s : CASStore β) (name hash : Bytes) : Except Err Unit × CASStore β :=
  if hash = [] then (.ok (), { s with db := { s.db with ns := s.db.ns.del name } })
  else match s.db.ns.put name hash with
    | .error e => (.error e, s)
    | .ok ns => (.ok (), { s with db := { s.db with ns := ns } })

def expireObject [BlobStore β] (s : CASStore β) (bucket name : Bytes) (versioned : Bool)
    (versionID : Bytes) (now deleteAt : Int) (io : Option Err) : Except Err Unit × CASStore β :=
  if versioned then
    match s.recordDeleteMarker bucket name versionID now with
    | (.error e, s') => (.error e, s')
    | (.ok _, s') => s'.delete io deleteAt name
  else s.delete io deleteAt name

/-! ### The gateway's delete -/

/-- The answers of `handleVersionedDelete`. -/
inductive DeleteReply
  | noContent (versionID : Bytes) (deleteMarker : Bool)
  | s3Error (status : ℕ) (code message : String)
  deriving DecidableEq

def followLatest (s : CASStore β) (bucket key : Bytes) : CASStore β :=
  match s.latestVersion bucket key with
  | .ok (some latest) => (s.repointNamespace key (if latest.isDeleteMarker then [] else latest.hash)).2
  | _ => s

def handleVersionedDelete (s : CASStore β) (bucket key versionID : Bytes) (now : Int)
    (bypass : Bool) (markerID : Bytes) (clock : Int) : DeleteReply × CASStore β :=
  if versionID = [] then
    match s.repointNamespace key [] with
    | (.error _, s') => (.s3Error 500 "InternalError" "Failed to delete object.", s')
    | (.ok _, s') =>
      match s'.recordDeleteMarker bucket key markerID clock with
      | (.error _, s'') => (.s3Error 500 "InternalError" "Failed to create delete marker.", s'')
      | (.ok _, s'') => (.noContent markerID true, s'')
  else
    match s.deleteVersion bucket key versionID now bypass with
    | (.error e, s') =>
      if e = .sys .enoent then
        (.s3Error 404 "NoSuchVersion" "The specified version does not exist.", s')
      else if e = .sys .eacces then
        (.s3Error 403 "AccessDenied" "The specified version is protected by an object lock.", s')
      else (.s3Error 500 "InternalError" "Failed to delete the specified version.", s')
    | (.ok deleted, s') =>
      (.noContent deleted.versionID deleted.isDeleteMarker, s'.followLatest bucket key)

/-! ### What the operations do to a store -/

def DataDerived (versions versions' : Bucket VersionRecord) : Prop :=
  ∀ k r', versions'.get k = some r' → r'.isDeleteMarker = false →
    ∃ k₀ r, versions.get k₀ = some r ∧ r.isDeleteMarker = false ∧ r'.hash = r.hash

theorem DataDerived.of_derived {versions versions' : Bucket VersionRecord}
    (h : Derived versions versions') : DataDerived versions versions' := by
  intro k r' hr hdata
  obtain ⟨k₀, r, hr₀, heq⟩ := h k r' hr
  obtain ⟨hmark, hhash⟩ := VersionRecord.same_of_demoted heq
  exact ⟨k₀, r, hr₀, hmark ▸ hdata, hhash⟩

/-- An operation that touches only the version table and the mapping of one name, and adds no data
    record. -/
structure Reshuffled (key : Bytes) (s s' : CASStore β) : Prop where
  shape : s' = { s with db := { s.db with ns := s'.db.ns, objectVersions := s'.db.objectVersions } }
  names : ∀ n, n ≠ key → s'.db.ns.get n = s.db.ns.get n
  data : DataDerived s.db.objectVersions s'.db.objectVersions

theorem Reshuffled.refl (key : Bytes) (s : CASStore β) : Reshuffled key s s :=
  ⟨rfl, fun _ _ => rfl, .of_derived (Derived.refl _)⟩

theorem Reshuffled.trans {key : Bytes} {s s' s'' : CASStore β} (h₁ : Reshuffled key s s')
    (h₂ : Reshuffled key s' s'') : Reshuffled key s s'' := by
  refine ⟨?_, fun n hn => (h₂.names n hn).trans (h₁.names n hn), fun k r hr hd => ?_⟩
  · rw [h₂.shape, h₁.shape]
  · obtain ⟨k', r', hr', hd', he'⟩ := h₂.data k r hr hd
    obtain ⟨k₀, r₀, hr₀, hd₀, he₀⟩ := h₁.data k' r' hr' hd'
    exact ⟨k₀, r₀, hr₀, hd₀, he'.trans he₀⟩

theorem Reshuffled.orphanOf_eq {key name : Bytes} {s s' : CASStore β} (hr : Reshuffled key s s')
    (hn : s'.db.ns = s.db.ns) : orphanOf s'.db name = orphanOf s.db name := by
  rw [hr.shape]
  simp only [orphanOf, hn]

theorem reshuffled_withVersions {key : Bytes} {s : CASStore β} {versions : Bucket VersionRecord}
    (h : DataDerived s.db.objectVersions versions) : Reshuffled key s (s.withVersions versions) :=
  ⟨rfl, fun _ _ => rfl, h⟩

theorem recordDeleteMarker_ns (s : CASStore β) (bucket key versionID : Bytes) (now : Int) :
    (s.recordDeleteMarker bucket key versionID now).2.db.ns = s.db.ns := by
  unfold recordDeleteMarker updateVersions
  split <;> rfl

theorem reshuffled_recordDeleteMarker (s : CASStore β) (name bucket key versionID : Bytes)
    (now : Int) : Reshuffled name s (s.recordDeleteMarker bucket key versionID now).2 := by
  unfold recordDeleteMarker updateVersions
  split
  · exact Reshuffled.refl _ s
  · rename_i versions hput
    refine reshuffled_withVersions (fun k r' hr hdata => ?_)
    rcases putVersion_derived hput hr with rfl | ⟨r, hget, heq⟩
    · cases hdata
    · obtain ⟨hmark, hhash⟩ := VersionRecord.same_of_demoted heq
      exact ⟨k, r, hget, hmark ▸ hdata, hhash⟩

theorem deleteVersion_cases (s : CASStore β) (bucket key versionID : Bytes) (now : Int)
    (bypass : Bool) :
    (∃ e, s.deleteVersion bucket key versionID now bypass = (.error e, s)) ∨
      ∃ deleted versions,
        s.db.objectVersions.get (versionKey bucket key versionID) = some deleted ∧
        (deleted.isDeleteMarker = true ∨
          lockDenies s.db.lockState bucket key versionID now bypass = false) ∧
        rePointLatest "CASStore.DeleteVersion"
          (s.db.objectVersions.del (versionKey bucket key versionID)) bucket key
          deleted.isLatest = .ok versions ∧
        s.deleteVersion bucket key versionID now bypass = (.ok deleted, s.withVersions versions) := by
  unfold deleteVersion updateVersions
  cases hget : s.db.objectVersions.get (versionKey bucket key versionID) with
  | none => exact Or.inl ⟨_, rfl⟩
  | some deleted =>
    simp only
    split_ifs with hdenied
    · exact Or.inl ⟨_, rfl⟩
    · cases hre : rePointLatest "CASStore.DeleteVersion"
          (s.db.objectVersions.del (versionKey bucket key versionID)) bucket key
          deleted.isLatest with
      | error e => exact Or.inl ⟨e, rfl⟩
      | ok versions =>
        refine Or.inr ⟨deleted, versions, rfl, ?_, hre, rfl⟩
        cases hmark : deleted.isDeleteMarker with
        | true => exact Or.inl rfl
        | false =>
          rw [hmark] at hdenied
          exact Or.inr (by simpa using hdenied)

theorem reshuffled_deleteVersion (s : CASStore β) (name bucket key versionID : Bytes) (now : Int)
    (bypass : Bool) : Reshuffled name s (s.deleteVersion bucket key versionID now bypass).2 := by
  rcases deleteVersion_cases s bucket key versionID now bypass with
    ⟨e, hdel⟩ | ⟨deleted, versions, -, -, hre, hdel⟩
  · rw [hdel]
    exact Reshuffled.refl _ s
  · rw [hdel]
    exact reshuffled_withVersions
      (DataDerived.of_derived ((derived_del _ _).trans (rePointLatest_derived hre)))

theorem reshuffled_repointNamespace (s : CASStore β) (name hash : Bytes) :
    Reshuffled name s (s.repointNamespace name hash).2 := by
  unfold repointNamespace
  split_ifs
  · exact ⟨rfl, fun n hn => Bucket.get_del_ne _ hn, .of_derived (Derived.refl _)⟩
  · split
    · exact Reshuffled.refl _ s
    · rename_i ns hput
      obtain ⟨hk, rfl⟩ := Bucket.put_eq_ok.mp hput
      exact ⟨rfl, fun n hn => Bucket.get_set_ne _ hk _ hn, .of_derived (Derived.refl _)⟩

theorem reshuffled_handleVersionedDelete (s : CASStore β) (bucket key versionID : Bytes) (now : Int)
    (bypass : Bool) (markerID : Bytes) (clock : Int) :
    Reshuffled key s
      (s.handleVersionedDelete bucket key versionID now bypass markerID clock).2 := by
  unfold handleVersionedDelete
  split_ifs
  · have hns := reshuffled_repointNamespace s key []
    split <;> rename_i s' hrep <;> rw [hrep] at hns
    · exact hns
    · have hmark := reshuffled_recordDeleteMarker s' key bucket key markerID clock
      split <;> rename_i s'' hrec <;> rw [hrec] at hmark
      · exact hns.trans hmark
      · exact hns.trans hmark
  · have hdel := reshuffled_deleteVersion s key bucket key versionID now bypass
    split <;> rename_i s' hd <;> rw [hd] at hdel
    · split_ifs <;> exact hdel
    · refine hdel.trans ?_
      unfold followLatest
      split
      · exact reshuffled_repointNamespace s' key _
      · exact Reshuffled.refl _ s'

theorem recordVersion_spec (s : CASStore β) (bucket key hash : Bytes) (size : Int)
    (versionID : Bytes) (now : Int) :
    ∃ versions, (s.recordVersion bucket key hash size versionID now).2 = s.withVersions versions ∧
      ∀ k r', versions.get k = some r' → r'.isDeleteMarker = false → r'.hash = hash ∨
        ∃ k₀ r, s.db.objectVersions.get k₀ = some r ∧ r.isDeleteMarker = false ∧
          r'.hash = r.hash := by
  unfold recordVersion updateVersions
  split
  · exact ⟨s.db.objectVersions, rfl, fun k r hr hd => Or.inr ⟨k, r, hr, hd, rfl⟩⟩
  · rename_i versions hput
    refine ⟨versions, rfl, fun k r' hr hdata => ?_⟩
    rcases putVersion_derived hput hr with rfl | ⟨r, hget, heq⟩
    · exact Or.inl rfl
    · obtain ⟨hmark, hhash⟩ := VersionRecord.same_of_demoted heq
      exact Or.inr ⟨k, r, hget, hmark ▸ hdata, hhash⟩

end CASStore

end Momo
