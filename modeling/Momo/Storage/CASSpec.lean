import Momo.Storage.GC

/-! @momo src/storage/storage.go | scheme:one specification per operation

    What each store operation does, read off once and used everywhere after: `Written` for a
    successful put, `put_error` for a failed one, `Removed` for `Delete` and `ApplyTombstone`.
    Everything is stated over a back end that is a map, through `bytes`. -/

namespace Momo.CASStore

variable {β : Type} [BlobStore β] [MapBackend β]

abbrev bytes (s : CASStore β) (h : Bytes) : Option Bytes := MapBackend.view s.blobs h

def Intact [Sha256] (s : CASStore β) (h : Bytes) : Prop :=
  ∃ c, s.bytes h = some c ∧ hashBytes c = h

/-! ### Put -/

def Holds (s : CASStore β) (h : Bytes) : Prop :=
  (s.db.objects.get h).isSome ∧
    ((BlobStore.blobExists : Option (β → Bytes → Except Err Bool)).isNone ∨ (s.bytes h).isSome)

instance (s : CASStore β) (h : Bytes) : Decidable (s.Holds h) := inferInstanceAs (Decidable (_ ∧ _))

variable {h : Bytes}

theorem blobPresent_eq (s : CASStore β) (hh : hasPathTraversalChars h = false) :
    s.blobPresent h = .ok (decide (s.Holds h)) := by
  unfold blobPresent hasInternal Holds
  by_cases hobj : (s.db.objects.get h).isSome = true
  · rcases Option.eq_none_or_eq_some (BlobStore.blobExists (β := β)) with hf | ⟨f, hf⟩
    · simp [hobj, hf]
    · simp [hobj, hf, MapBackend.blobExists_eq f hf s.blobs h hh, Except.mapError]
  · simp [hobj]

theorem storeContent_eq (s : CASStore β) (hh : hasPathTraversalChars h = false)
    (content : Option Reader) (io : Option Err) :
    s.storeContent h content io =
      match content with
      | none => (.ok [], s)
      | some r => if s.Holds h then (drain r, s) else s.writeBlob h r io := by
  unfold storeContent
  rw [blobPresent_eq s hh]
  cases content <;> simp

def BarrierOk (cfg : CASConfig) : Prop :=
  ∀ commit, cfg.durability = some commit → ∀ h, commit h = .ok ()

theorem writeBlob_of_ok (s : CASStore β) (hh : hasPathTraversalChars h = false)
    (hb : BarrierOk s.cfg) (c : Bytes) :
    ∃ b, s.writeBlob h ⟨c, none⟩ none = (.ok c, { s with blobs := b }) ∧
      MapBackend.view b = Function.update s.bytes h (some c) := by
  obtain ⟨b, hput, hview⟩ := MapBackend.putBlob_ok s.blobs h c hh
  refine ⟨b, ?_, hview⟩
  simp only [writeBlob, hput]
  cases hd : s.cfg.durability with
  | none => rfl
  | some commit => simp only [hb commit hd h]; rfl

theorem writeBlob_cases (s : CASStore β) (hh : hasPathTraversalChars h = false) (r : Reader)
    (io : Option Err) :
    ∃ res b, s.writeBlob h r io = (res, { s with blobs := b }) ∧
      ((∃ e, res = .error e ∧ MapBackend.view b = s.bytes) ∨
        (io = none ∧ r.fault = none ∧ (∀ read, res = .ok read → read = r.data) ∧
          MapBackend.view b = Function.update s.bytes h (some r.data))) := by
  by_cases hf : io ≠ none ∨ r.fault ≠ none ∨ hasPathTraversalChars h = true
  · obtain ⟨e, b, hput, hview⟩ := MapBackend.putBlob_fail s.blobs h r io hf
    exact ⟨.error e, b, by simp only [writeBlob, hput], Or.inl ⟨e, rfl, hview⟩⟩
  · push Not at hf
    obtain ⟨rfl, hrf, -⟩ := hf
    obtain ⟨c, rf⟩ := r
    obtain rfl : rf = none := hrf
    obtain ⟨b, hput, hview⟩ := MapBackend.putBlob_ok s.blobs h c hh
    cases hd : s.cfg.durability with
    | none =>
      refine ⟨.ok c, b, by simp only [writeBlob, hput, hd], Or.inr ⟨rfl, rfl, ?_, hview⟩⟩
      intro read hread
      exact (Except.ok.inj hread).symm
    | some commit =>
      refine ⟨(commit h).map (fun _ => c), b, by simp only [writeBlob, hput, hd],
        Or.inr ⟨rfl, rfl, ?_, hview⟩⟩
      intro read hread
      cases hc : commit h with
      | error e => rw [hc] at hread; cases hread
      | ok u => rw [hc] at hread; exact (Except.ok.inj hread).symm

theorem mapError_eq_ok {α : Type} {x : Except Err α} {f : Err → Err} {a : α} :
    x.mapError f = .ok a ↔ x = .ok a := by
  cases x <;> simp [Except.mapError]

theorem bind_eq_ok {α γ : Type} {x : Except Err α} {f : α → Except Err γ} {c : γ} :
    (x >>= f) = .ok c ↔ ∃ a, x = .ok a ∧ f a = .ok c := by
  cases x <;> simp [bind, Except.bind]

structure Written (s s' : CASStore β) (now : Int) (name hash : Bytes) (size : Int)
    (remotePath : Bytes) (f : PutFields) : Prop where
  cfg : s'.cfg = s.cfg
  nameOk : KeyOk name
  nameLen : name.length ≤ fileInfoLength
  hashOk : KeyOk hash
  ns : s'.db.ns = s.db.ns.set name nameOk hash
  objects : s'.db.objects = s.db.objects.set hash hashOk (putMeta (s.db.objects.get hash) size f)
  tombstones : s'.db.tombstones = s.db.tombstones.del name
  modTimes : s'.db.modTimes = s.db.modTimes.set name nameOk now
  paths : putPath s.db.paths name remotePath = .ok s'.db.paths
  quarantine : s'.db.quarantine = s.db.quarantine
  objectVersions : s'.db.objectVersions = s.db.objectVersions
  lockState : s'.db.lockState = s.db.lockState

variable {now size : Int} {name hash remotePath : Bytes} {f : PutFields} {db : MetaDB}

theorem putTx_eq_ok {db' : MetaDB} :
    putTx now name hash size remotePath f db = .ok db' ↔
      ∃ (hn : KeyOk name) (hh : KeyOk hash) (paths : Bucket Bytes),
        name.length ≤ fileInfoLength ∧ putPath db.paths name remotePath = .ok paths ∧
        db' = { db with
          ns := db.ns.set name hn hash
          objects := db.objects.set hash hh (putMeta (db.objects.get hash) size f)
          tombstones := db.tombstones.del name
          modTimes := db.modTimes.set name hn now
          paths := paths } := by
  unfold putTx
  simp only [bind_eq_ok, orErr_eq_ok, mapError_eq_ok, Bucket.put_eq_ok]
  constructor
  · rintro ⟨_, ⟨hn, rfl⟩, _, ⟨hh, rfl⟩, _, ⟨_, rfl⟩, h⟩
    split_ifs at h with hlen
    obtain ⟨paths, hpaths, hdb⟩ := bind_eq_ok.mp h
    exact ⟨hn, hh, paths, not_lt.mp hlen, hpaths, (Except.ok.inj hdb).symm⟩
  · rintro ⟨hn, hh, paths, hlen, hpaths, rfl⟩
    refine ⟨_, ⟨hn, rfl⟩, _, ⟨hh, rfl⟩, _, ⟨hn, rfl⟩, ?_⟩
    rw [if_neg (not_lt.mpr hlen)]
    exact bind_eq_ok.mpr ⟨paths, hpaths, rfl⟩

omit [BlobStore β] [MapBackend β] in
theorem putPath_isOk (paths : Bucket Bytes) (hn : KeyOk name) (remotePath : Bytes) :
    (∃ paths', putPath paths name remotePath = .ok paths') ↔
      remotePath = [] ∨ (normalizeVirtualPath remotePath).isOk = true := by
  unfold putPath
  split_ifs with he
  · simp [he]
  · cases hnv : normalizeVirtualPath remotePath with
    | error e => simp [he, Except.mapError, bind, Except.bind, Except.isOk, Except.toBool]
    | ok q =>
      simp [Except.mapError, bind, Except.bind, Bucket.put_of_keyOk _ hn, Except.isOk,
        Except.toBool]

omit [BlobStore β] [MapBackend β] in
theorem putPath_get_ne {paths paths' : Bucket Bytes} {n : Bytes}
    (h : putPath paths name remotePath = .ok paths') (hne : n ≠ name) :
    paths'.get n = paths.get n := by
  unfold putPath at h
  split_ifs at h
  · rw [Except.ok.inj h]
  · obtain ⟨q, -, hq⟩ := bind_eq_ok.mp h
    obtain ⟨hk, rfl⟩ := Bucket.put_eq_ok.mp (mapError_eq_ok.mp hq)
    exact Bucket.get_set_ne _ hk _ hne

def bytesAfter (s : CASStore β) (hash : Bytes) : Option Reader → Bytes → Option Bytes
  | none => s.bytes
  | some r => if s.Holds hash then s.bytes else Function.update s.bytes hash (some r.data)

theorem storeContent_cases (s : CASStore β) (hh : hasPathTraversalChars h = false)
    (content : Option Reader) (io : Option Err) :
    ∃ res b, s.storeContent h content io = (res, { s with blobs := b }) ∧
      ((∃ e, res = .error e ∧ MapBackend.view b = s.bytes) ∨
        ((∀ r, content = some r → r.fault = none ∧ ∀ read, res = .ok read → read = r.data) ∧
          MapBackend.view b = s.bytesAfter h content)) := by
  rw [storeContent_eq s hh]
  cases content with
  | none => exact ⟨.ok [], s.blobs, rfl, Or.inr ⟨by simp, rfl⟩⟩
  | some r =>
    by_cases hp : s.Holds h
    · refine ⟨drain r, s.blobs, by simp only [if_pos hp], ?_⟩
      cases hf : r.fault with
      | some e => exact Or.inl ⟨_, by rw [drain, hf], rfl⟩
      | none =>
        refine Or.inr ⟨?_, by rw [bytesAfter, if_pos hp]⟩
        rintro r' ⟨⟩
        refine ⟨hf, fun read hread => ?_⟩
        rw [drain, hf] at hread
        exact (Except.ok.inj hread).symm
    · obtain ⟨res, b, hw, hcase⟩ := writeBlob_cases s hh r io
      refine ⟨res, b, by simp only [if_neg hp, hw], hcase.imp_right ?_⟩
      rintro ⟨-, hf, hread, hview⟩
      refine ⟨?_, by rw [bytesAfter, if_neg hp]; exact hview⟩
      rintro r' ⟨⟩
      exact ⟨hf, hread⟩

variable {s s' : CASStore β}

theorem put_ok {io : Option Err} {read : Bytes} {content : Option Reader}
    (h : s.putWithMetadata io now name hash size remotePath content f = (.ok read, s')) :
    hasPathTraversalChars hash = false ∧ Written s s' now name hash size remotePath f ∧
      (∀ r, content = some r → r.fault = none ∧ read = r.data) ∧
      s'.bytes = s.bytesAfter hash content := by
  unfold putWithMetadata at h
  cases hh : hasPathTraversalChars hash with
  | true => simp [hh] at h
  | false =>
    obtain ⟨res, b, hstep, hcase⟩ := storeContent_cases s hh content io
    simp only [hh, Bool.false_eq_true, if_false, hstep] at h
    cases res with
    | error e => simp at h
    | ok c =>
      rcases hcase with ⟨e, he, -⟩ | ⟨hread, hview⟩
      · cases he
      simp only at h
      split at h
      · simp at h
      · rename_i db' htx
        obtain ⟨hc, rfl⟩ := Prod.mk.inj h
        obtain rfl := Except.ok.inj hc
        obtain ⟨hn, hk, paths, hlen, hpaths, rfl⟩ := putTx_eq_ok.mp htx
        exact ⟨rfl, ⟨rfl, hn, hlen, hk, rfl, rfl, rfl, rfl, hpaths, rfl, rfl, rfl⟩,
          fun r hr => ⟨(hread r hr).1, (hread r hr).2 c rfl⟩, hview⟩

theorem put_error {io : Option Err} {content : Option Reader} {e : Err}
    (h : s.putWithMetadata io now name hash size remotePath content f = (.error e, s')) :
    s'.cfg = s.cfg ∧ s'.db = s.db ∧ (s'.bytes = s.bytes ∨ s'.bytes = s.bytesAfter hash content) := by
  unfold putWithMetadata at h
  cases hh : hasPathTraversalChars hash with
  | true =>
    simp only [hh, if_true] at h
    obtain ⟨-, rfl⟩ := Prod.mk.inj h
    exact ⟨rfl, rfl, Or.inl rfl⟩
  | false =>
    obtain ⟨res, b, hstep, hcase⟩ := storeContent_cases s hh content io
    have hb : MapBackend.view b = s.bytes ∨ MapBackend.view b = s.bytesAfter hash content :=
      hcase.imp (fun ⟨_, _, hv⟩ => hv) And.right
    simp only [hh, Bool.false_eq_true, if_false, hstep] at h
    have hs' : s' = { s with blobs := b } := by
      cases res with
      | error e' => exact (Prod.mk.inj h).2.symm
      | ok c =>
        simp only at h
        split at h
        · exact (Prod.mk.inj h).2.symm
        · simp at h
    subst hs'
    exact ⟨rfl, rfl, hb⟩

theorem put_succeeds (now : Int) (size : Int) (c : Bytes) (f : PutFields) {paths : Bucket Bytes}
    (hh : hasPathTraversalChars hash = false) (hb : BarrierOk s.cfg) (hn : name ≠ [])
    (hlen : name.length ≤ fileInfoLength) (hk : KeyOk hash)
    (hpaths : putPath s.db.paths name remotePath = .ok paths) :
    ∃ s', s.putWithMetadata none now name hash size remotePath (some ⟨c, none⟩) f = (.ok c, s') := by
  have hnk : KeyOk name := ⟨hn, hlen.trans (by decide)⟩
  have hstep : ∃ b, s.storeContent hash (some ⟨c, none⟩) none = (.ok c, { s with blobs := b }) := by
    rw [storeContent_eq s hh]
    by_cases hp : s.Holds hash
    · exact ⟨s.blobs, by simp only [if_pos hp]; rfl⟩
    · obtain ⟨b, hw, -⟩ := writeBlob_of_ok s hh hb c
      exact ⟨b, by simp only [if_neg hp, hw]⟩
  obtain ⟨b, hstep⟩ := hstep
  obtain ⟨db', htx⟩ : ∃ db', putTx now name hash size remotePath f s.db = .ok db' :=
    ⟨_, putTx_eq_ok.mpr ⟨hnk, hk, paths, hlen, hpaths, rfl⟩⟩
  exact ⟨{ s with blobs := b, db := db' }, by
    simp only [putWithMetadata, hh, Bool.false_eq_true, if_false, hstep, htx]⟩

/-! ### Get -/

omit [MapBackend β] in
theorem get_unmapped [Sha256] (s : CASStore β)
    (h : s.db.tombstones.get name ≠ none ∨ s.db.ns.get name = none) :
    s.get name = (.error (.sys .enoent), s) := by
  have hname : s.getHashForName name = .error (.sys .enoent) := by
    unfold getHashForName
    cases ht : s.db.tombstones.get name with
    | some t => rfl
    | none => rw [h.resolve_left (by simp [ht])]
  simp only [get, hname]

theorem get_mapped [Sha256] (s : CASStore β) {c : Bytes} {m : ObjectMeta}
    (ht : s.db.tombstones.get name = none) (hns : s.db.ns.get name = some hash)
    (hq : s.db.quarantine.get hash = none) (hc : s.bytes hash = some c)
    (hm : s.db.objects.get hash = some m) (hsize : 0 ≤ m.size) :
    s.get name =
      (.ok (⟨⟨c, none⟩, if s.cfg.verifyOnRead then some hash else none⟩,
        ⟨name, hash, m.size, (s.db.paths.get name).getD [], (s.db.modTimes.get name).getD 0⟩), s) := by
  have hname : s.getHashForName name = .ok hash := by simp only [getHashForName, ht, hns]
  have hopen : s.openVerifiedBlob hash =
      (.ok ⟨⟨c, none⟩, if s.cfg.verifyOnRead then some hash else none⟩, s) := by
    unfold openVerifiedBlob
    rw [MapBackend.getBlob_eq]
    simp only [show MapBackend.view s.blobs hash = some c from hc, hq]
    rfl
  simp only [get, hname, hopen, fileMetadata, hm, if_neg (not_lt.mpr hsize)]

def localStream (cfg : CASConfig) (h c : Bytes) : Stream :=
  ⟨⟨c, none⟩, if cfg.verifyOnRead then some h else none⟩

def verifiedAnswer [Sha256] (h : Bytes) (answer : Except Err Reader) : Option Bytes :=
  match answer with
  | .error _ => none
  | .ok rc => if rc.fault = none ∧ hashBytes rc.data = h then some rc.data else none

def survivorRead [Sha256] (source : RebuildSource) (h : Bytes) : Except Err Reader :=
  match source.survivors h with
  | .error e => .error (.wrap "survivors query for %s: %w" [.str h] e)
  | .ok peers =>
    match peers.findSome? (fun peer => verifiedAnswer h (source.fetch h peer)) with
    | some c => .ok ⟨c, none⟩
    | none => .error (.sys .enoent)

def fallback [Sha256] (cfg : CASConfig) (h : Bytes) : Except Err Stream :=
  match cfg.degradedRead, cfg.rebuildSource with
  | true, some source => (survivorRead source h).map (⟨·, none⟩)
  | _, _ => .error (.sys .enoent)

/-- What a read of a hash returns, from the mark and the local bytes. An error other than absence
    is passed on. -/
def readBlob [Sha256] (β : Type) [BlobStore β] [MapBackend β] (cfg : CASConfig) (flagged : Bool)
    (h : Bytes) (b : Option Bytes) : Except Err Stream :=
  match b with
  | some c => if flagged then fallback cfg h else .ok (localStream cfg h c)
  | none =>
    let e := MapBackend.missing β h
    if e = .sys .enoent ∨ e.isNotExist then fallback cfg h else .error e

omit [BlobStore β] [MapBackend β] in
theorem readBlob_none [Sha256] [BlobStore β] [MapBackend β] (cfg : CASConfig) (flagged : Bool)
    (hh : hasPathTraversalChars h = false) : readBlob β cfg flagged h none = fallback cfg h :=
  if_pos (Or.inr (MapBackend.missing_isNotExist h hh))

/-- What the read of a hash does to the store: marks come and go, and the bytes of the hash may be
    replaced by bytes that match it. -/
structure Opened [Sha256] (s s' : CASStore β) (h : Bytes) : Prop where
  cfg : s'.cfg = s.cfg
  db : ∃ q, s'.db = { s.db with quarantine := q }
  bytes_ne : ∀ h', h' ≠ h → s'.bytes h' = s.bytes h'
  bytes_eq : s'.bytes h = s.bytes h ∨ ∃ c, s'.bytes h = some c ∧ hashBytes c = h

theorem Opened.refl [Sha256] (s : CASStore β) (h : Bytes) : Opened s s h :=
  ⟨rfl, ⟨_, rfl⟩, fun _ _ => rfl, Or.inl rfl⟩

theorem Opened.trans [Sha256] {s'' : CASStore β} (h1 : Opened s s' h) (h2 : Opened s' s'' h) :
    Opened s s'' h := by
  obtain ⟨q1, hq1⟩ := h1.db
  obtain ⟨q2, hq2⟩ := h2.db
  refine ⟨h2.cfg.trans h1.cfg, ⟨q2, by rw [hq2, hq1]⟩,
    fun h' hne => (h2.bytes_ne h' hne).trans (h1.bytes_ne h' hne), ?_⟩
  rcases h2.bytes_eq with he | hgood
  · rw [he]
    exact h1.bytes_eq
  · exact Or.inr hgood

theorem opened_quarantineMark [Sha256] (s : CASStore β) (h : Bytes) :
    Opened s (s.quarantineMark h) h := by
  unfold quarantineMark
  split
  · exact ⟨rfl, ⟨_, rfl⟩, fun _ _ => rfl, Or.inl rfl⟩
  · exact Opened.refl s h

theorem storeVerified_spec [Sha256] (s : CASStore β) (h : Bytes) (rc : Reader) :
    match verifiedAnswer h (.ok rc) with
    | none => s.storeVerified h rc = (false, s)
    | some c => ∃ s', s.storeVerified h rc = (true, s') ∧ Opened s s' h ∧ s'.bytes h = some c := by
  obtain ⟨data, fault⟩ := rc
  cases fault with
  | some e => simp [verifiedAnswer, storeVerified]
  | none =>
    by_cases hd : hashBytes data = h
    · have hh : hasPathTraversalChars h = false := hd ▸ hasPathTraversalChars_hashBytes data
      obtain ⟨b, hput, hview⟩ := MapBackend.putBlob_ok s.blobs h data hh
      have hbytes : MapBackend.view b h = some data := by rw [hview, Function.update_self]
      simp only [verifiedAnswer, storeVerified, hd, and_self, if_true, hput]
      refine ⟨_, rfl, ⟨rfl, ⟨_, rfl⟩, fun h' hne => ?_, Or.inr ⟨data, hbytes, hd⟩⟩, hbytes⟩
      exact (congrFun hview h').trans (Function.update_of_ne hne ..)
    · simp [verifiedAnswer, storeVerified, hd]

theorem fetchFrom_spec [Sha256] (source : RebuildSource) (h : Bytes) (peers : List Int)
    (s : CASStore β) :
    (fetchFrom source h peers s).1 =
      (match peers.findSome? (fun peer => verifiedAnswer h (source.fetch h peer)) with
        | some c => .ok ⟨c, none⟩
        | none => .error (.sys .enoent)) ∧
    Opened s (fetchFrom source h peers s).2 h := by
  induction peers generalizing s with
  | nil => exact ⟨rfl, Opened.refl s h⟩
  | cons peer peers ih =>
    rw [fetchFrom, List.findSome?_cons]
    cases hf : source.fetch h peer with
    | error e => exact ih s
    | ok rc =>
      have hspec := storeVerified_spec s h rc
      simp only
      cases hv : verifiedAnswer h (.ok rc) with
      | none =>
        simp only [hv] at hspec
        simp only [hspec]
        obtain ⟨hres, hopen⟩ := ih (s.quarantineMark h)
        exact ⟨hres, (opened_quarantineMark s h).trans hopen⟩
      | some c =>
        simp only [hv] at hspec
        obtain ⟨s', hstore, hopen, hbytes⟩ := hspec
        simp only [hstore, MapBackend.getBlob_eq, hbytes]
        exact ⟨trivial, hopen.trans ⟨rfl, ⟨_, rfl⟩, fun _ _ => rfl, Or.inl rfl⟩⟩

theorem openDegraded_spec [Sha256] (s : CASStore β) (h : Bytes) :
    (s.openDegraded h).1 = fallback s.cfg h ∧ Opened s (s.openDegraded h).2 h := by
  unfold openDegraded fallback fetchVerifiedToLocal survivorRead
  cases hd : s.cfg.degradedRead with
  | false => simpa using Opened.refl s h
  | true =>
    cases hsrc : s.cfg.rebuildSource with
    | none => simpa using Opened.refl s h
    | some source =>
      simp only [Option.isSome_some, and_self, if_true]
      cases hsurv : source.survivors h with
      | error e => exact ⟨rfl, Opened.refl s h⟩
      | ok peers =>
        obtain ⟨hres, hopen⟩ := fetchFrom_spec source h peers s
        simp only
        generalize fetchFrom source h peers s = out at hres hopen
        obtain ⟨r, s'⟩ := out
        simp only at hres hopen
        rw [← hres]
        cases r with
        | error e => exact ⟨rfl, hopen⟩
        | ok rc => exact ⟨rfl, hopen⟩

theorem fetchFrom_intact [Sha256] (source : RebuildSource) (h : Bytes) (peers : List Int)
    (s : CASStore β) {r : Reader} (hok : (fetchFrom source h peers s).1 = .ok r) :
    (fetchFrom source h peers s).2.Intact h := by
  induction peers generalizing s with
  | nil => cases hok
  | cons peer peers ih =>
    rw [fetchFrom] at hok ⊢
    cases hf : source.fetch h peer with
    | error e =>
      simp only [hf] at hok ⊢
      exact ih s hok
    | ok rc =>
      have hspec := storeVerified_spec s h rc
      simp only [hf] at hok ⊢
      cases hv : verifiedAnswer h (.ok rc) with
      | none =>
        simp only [hv] at hspec
        simp only [hspec] at hok ⊢
        exact ih _ hok
      | some c =>
        simp only [hv] at hspec
        obtain ⟨s', hstore, hopen, hbytes⟩ := hspec
        simp only [hstore, MapBackend.getBlob_eq, hbytes] at hok ⊢
        refine ⟨c, hbytes, ?_⟩
        simp only [verifiedAnswer] at hv
        split_ifs at hv with hgood
        obtain rfl := Option.some.inj hv
        exact hgood.2

theorem openDegraded_intact [Sha256] (s : CASStore β) {st : Stream}
    (hok : (s.openDegraded h).1 = .ok st) : (s.openDegraded h).2.Intact h := by
  unfold openDegraded fetchVerifiedToLocal at hok ⊢
  split_ifs at hok ⊢
  cases hsrc : s.cfg.rebuildSource with
  | none =>
    simp only [hsrc] at hok
    cases hok
  | some source =>
    simp only [hsrc] at hok ⊢
    cases hsurv : source.survivors h with
    | error e =>
      simp only [hsurv] at hok
      cases hok
    | ok peers =>
      have hfetch := fun r => fetchFrom_intact source h peers s (r := r)
      simp only [hsurv] at hok ⊢
      generalize fetchFrom source h peers s = out at hok hfetch
      obtain ⟨res, s'⟩ := out
      cases res with
      | error e => cases hok
      | ok r => exact hfetch r rfl

theorem openVerifiedBlob_ok [Sha256] (s : CASStore β) {st : Stream}
    (hok : (s.openVerifiedBlob h).1 = .ok st) :
    ((s.openVerifiedBlob h).2 = s ∧ s.bytes h ≠ none ∧ s.db.quarantine.get h = none) ∨
      ((s.db.quarantine.get h ≠ none ∨ s.bytes h = none) ∧ (s.openVerifiedBlob h).2.Intact h) := by
  have hdeg := fun st => @openDegraded_intact β _ _ h _ s st
  unfold openVerifiedBlob at hok ⊢
  rw [MapBackend.getBlob_eq, show MapBackend.view s.blobs h = s.bytes h from rfl] at hok ⊢
  cases hb : s.bytes h with
  | none =>
    simp only [hb] at hok ⊢
    split_ifs at hok ⊢
    exact Or.inr ⟨Or.inr trivial, hdeg st hok⟩
  | some c =>
    simp only [hb] at hok ⊢
    cases hq : s.db.quarantine.get h with
    | none => simp
    | some mark =>
      simp only [hq, Option.isSome_some, if_true] at hok ⊢
      exact Or.inr ⟨Or.inl (Option.some_ne_none mark), hdeg st hok⟩

theorem openVerifiedBlob_spec [Sha256] (s : CASStore β) (h : Bytes) :
    (s.openVerifiedBlob h).1 =
      readBlob β s.cfg (s.db.quarantine.get h).isSome h (s.bytes h) ∧
    Opened s (s.openVerifiedBlob h).2 h := by
  have hdeg := openDegraded_spec s h
  unfold openVerifiedBlob readBlob
  rw [MapBackend.getBlob_eq, show MapBackend.view s.blobs h = s.bytes h from rfl]
  cases hb : s.bytes h with
  | none =>
    simp only
    split_ifs
    · exact hdeg
    · exact ⟨rfl, Opened.refl s h⟩
  | some c =>
    cases (s.db.quarantine.get h).isSome with
    | true => exact hdeg
    | false => exact ⟨rfl, Opened.refl s h⟩

omit [BlobStore β] [MapBackend β] in
theorem fileMetadata_congr {db' : MetaDB}
    (hobj : (db'.objects.get h).map ObjectMeta.size = (db.objects.get h).map ObjectMeta.size)
    (hpath : db'.paths.get name = db.paths.get name)
    (hmod : db'.modTimes.get name = db.modTimes.get name) :
    fileMetadata db' name h = fileMetadata db name h := by
  unfold fileMetadata
  rw [hpath, hmod]
  cases ho : db.objects.get h with
  | none =>
    rw [ho, Option.map_none, Option.map_eq_none_iff] at hobj
    rw [hobj]
  | some m =>
    rw [ho, Option.map_some] at hobj
    obtain ⟨m', hm', hsize⟩ := Option.map_eq_some_iff.mp hobj
    rw [hm']
    simp only [hsize]

theorem get_visible [Sha256] (s : CASStore β) (hvis : s.getHashForName name = .ok h) :
    (s.get name).1 =
      (readBlob β s.cfg (s.db.quarantine.get h).isSome h (s.bytes h)).bind
        (fun f => (fileMetadata s.db name h).map (f, ·)) := by
  obtain ⟨hres, hopen⟩ := openVerifiedBlob_spec s h
  obtain ⟨q, hdb⟩ := hopen.db
  simp only [get, hvis]
  generalize s.openVerifiedBlob h = out at hres hdb
  obtain ⟨r, s'⟩ := out
  simp only at hres hdb
  rw [← hres]
  cases r with
  | error e => rfl
  | ok f =>
    simp only [hdb, fileMetadata, Except.bind]
    cases s.db.objects.get h with
    | none => rfl
    | some m =>
      simp only
      split_ifs <;> rfl

omit [BlobStore β] [MapBackend β] in
theorem getHashForName_eq_ok :
    s.getHashForName name = .ok h ↔
      s.db.tombstones.get name = none ∧ s.db.ns.get name = some h := by
  unfold getHashForName
  cases s.db.tombstones.get name <;> cases s.db.ns.get name <;> simp

omit [MapBackend β] in
theorem get_hidden [Sha256] (s : CASStore β) {e : Err} (h : s.getHashForName name = .error e) :
    (s.get name).1 = .error (.sys .enoent) := by
  refine congrArg Prod.fst (get_unmapped s ?_)
  unfold getHashForName at h
  cases ht : s.db.tombstones.get name with
  | some t => exact Or.inl (Option.some_ne_none t)
  | none =>
    cases hns : s.db.ns.get name with
    | none => exact Or.inr rfl
    | some hash =>
      rw [ht, hns] at h
      cases h

/-! ### Delete -/

/-- The hash that loses its last reference when `name` goes. -/
def orphanOf (db : MetaDB) (name : Bytes) : Option Bytes :=
  (db.ns.get name).filter (fun h => (db.objects.get h).any (fun m => m.refCount ≤ 1))

def DeleteOk (io : Option Err) (h : Bytes) : Prop := io = none ∧ hasPathTraversalChars h = false

instance (io : Option Err) (h : Bytes) : Decidable (DeleteOk io h) :=
  inferInstanceAs (Decidable (_ ∧ _))

/-- What a removal of `name` leaves behind. -/
structure Removed (s s' : CASStore β) (io : Option Err) (name : Bytes) (at_ : Int) : Prop where
  cfg : s'.cfg = s.cfg
  nameOk : KeyOk name
  ns : s'.db.ns = s.db.ns.del name
  tombstones : s'.db.tombstones = s.db.tombstones.set name nameOk at_
  paths : s'.db.paths = s.db.paths.del name
  modTimes : s'.db.modTimes = s.db.modTimes.del name
  quarantine : s'.db.quarantine = s.db.quarantine
  objectVersions : s'.db.objectVersions = s.db.objectVersions
  lockState : s'.db.lockState = s.db.lockState
  objects : ∀ h, s'.db.objects.get h =
    if orphanOf s.db name = some h ∧ DeleteOk io h then none
    else if s.db.ns.get name = some h then (s.db.objects.get h).map (dropRef · at_)
    else s.db.objects.get h
  bytes : ∀ h, s'.bytes h = if orphanOf s.db name = some h ∧ DeleteOk io h then none else s.bytes h

omit [BlobStore β] [MapBackend β] in
theorem orphanOf_eq_some :
    orphanOf db name = some h ↔
      db.ns.get name = some h ∧ ∃ m, db.objects.get h = some m ∧ m.refCount ≤ 1 := by
  simp [orphanOf, Option.filter_eq_some_iff, Option.any_eq_true]

theorem releaseRef_spec (db : MetaDB) (name : Bytes) (at_ : Int) (refused : Err) :
    ∃ objects, releaseRef db name at_ refused = .ok (objects, orphanOf db name) ∧
      ∀ h, objects.get h =
        if db.ns.get name = some h then (db.objects.get h).map (dropRef · at_)
        else db.objects.get h := by
  unfold releaseRef orphanOf
  cases hns : db.ns.get name with
  | none => exact ⟨db.objects, rfl, fun h => by simp⟩
  | some hash =>
    cases hobj : db.objects.get hash with
    | none =>
      refine ⟨db.objects, by simp [Option.filter, hobj], fun h => ?_⟩
      by_cases he : hash = h
      · subst he; simp [hobj]
      · rw [if_neg (by simpa using he)]
    | some m =>
      have hk : KeyOk hash := Bucket.keyOk_of_get hobj
      refine ⟨db.objects.set hash hk (dropRef m at_), ?_, fun h => ?_⟩
      · simp only [Bucket.put_of_keyOk _ hk, orErr_ok]
        by_cases hm : m.refCount ≤ 1
        · have : m.refCount - 1 ≤ 0 := by omega
          simp [bind, Except.bind, Option.filter, hobj, hm, this]
        · have : ¬ m.refCount - 1 ≤ 0 := by omega
          simp [bind, Except.bind, Option.filter, hobj, hm, this]
      · rw [Bucket.get_set]
        by_cases he : h = hash
        · subst he; simp [hobj]
        · rw [if_neg he, if_neg (by simpa using Ne.symm he)]

theorem evict_spec (s : CASStore β) (orphaned : Option Bytes) (io : Option Err) :
    (s.evict orphaned io).cfg = s.cfg ∧
    (∃ objects, (s.evict orphaned io).db = { s.db with objects := objects } ∧
      ∀ h, objects.get h =
        if orphaned = some h ∧ DeleteOk io h then none else s.db.objects.get h) ∧
    ∀ h, (s.evict orphaned io).bytes h =
      if orphaned = some h ∧ DeleteOk io h then none else s.bytes h := by
  cases orphaned with
  | none => exact ⟨rfl, ⟨s.db.objects, rfl, by simp⟩, by simp [evict]⟩
  | some o =>
    by_cases hok : DeleteOk io o
    · obtain ⟨rfl, hh⟩ := hok
      obtain ⟨b, hdel, hview⟩ := MapBackend.deleteBlob_ok s.blobs o hh
      have hev : s.evict (some o) none =
          { s with blobs := b, db := { s.db with objects := s.db.objects.del o } } := by
        simp only [evict, hdel]
      rw [hev]
      refine ⟨rfl, ⟨_, rfl, fun h => ?_⟩, fun h => ?_⟩
      · rw [Bucket.get_del]
        by_cases he : h = o
        · subst he; simp [DeleteOk, hh]
        · rw [if_neg he, if_neg (by simpa using fun ho => absurd ho.symm he)]
      · by_cases he : h = o
        · subst he; simp [bytes, hview, DeleteOk, hh]
        · rw [if_neg (by simpa using fun ho => absurd ho.symm he), bytes, hview,
            Function.update_of_ne he]
    · have hfail : io ≠ none ∨ hasPathTraversalChars o = true := by
        by_contra hc
        push Not at hc
        exact hok ⟨hc.1, by simpa using hc.2⟩
      obtain ⟨e, b, hdel, hview⟩ := MapBackend.deleteBlob_fail s.blobs o io hfail
      have hno : ∀ h, ¬ (some o = some h ∧ DeleteOk io h) := by
        rintro h ⟨⟨⟩, hc⟩; exact hok hc
      have hev : s.evict (some o) io = { s with blobs := b } := by simp only [evict, hdel]
      rw [hev]
      exact ⟨rfl, ⟨s.db.objects, rfl, fun h => by rw [if_neg (hno h)]⟩,
        fun h => by rw [if_neg (hno h), bytes, hview]⟩

theorem remove_ok (s : CASStore β) (io : Option Err) (at_ : Int) (te : Err → Err) (re : Err)
    (hn : KeyOk name) :
    ∃ s', s.remove io name at_ te re = (.ok (), s') ∧ Removed s s' io name at_ := by
  obtain ⟨objects, hrel, hobj⟩ := releaseRef_spec s.db name at_ re
  have htx : removeTx name at_ te re s.db = .ok ({ s.db with
      tombstones := s.db.tombstones.set name hn at_, objects := objects, ns := s.db.ns.del name,
      paths := s.db.paths.del name, modTimes := s.db.modTimes.del name }, orphanOf s.db name) := by
    simp [removeTx, Bucket.put_of_keyOk _ hn, hrel, Except.mapError, bind, Except.bind]
  simp only [remove, htx]
  set s1 : CASStore β := { s with db := { s.db with
    tombstones := s.db.tombstones.set name hn at_, objects := objects, ns := s.db.ns.del name,
    paths := s.db.paths.del name, modTimes := s.db.modTimes.del name } } with hs1
  obtain ⟨hcfg, ⟨objects', hdb, hobj'⟩, hbytes⟩ := evict_spec s1 (orphanOf s.db name) io
  refine ⟨_, rfl, ⟨hcfg, hn, ?_, ?_, ?_, ?_, ?_, ?_, ?_, fun h => ?_, hbytes⟩⟩
  all_goals rw [hdb]
  rw [hobj' h]
  exact if_congr Iff.rfl rfl (hobj h)

omit [MapBackend β] in
theorem remove_refused (s : CASStore β) (io : Option Err) (at_ : Int) (te : Err → Err) (re : Err)
    (hn : ¬ KeyOk name) : ∃ e, s.remove io name at_ te re = (.error e, s) := by
  simp only [remove, removeTx, Bucket.put, dif_neg hn]
  exact ⟨_, rfl⟩

theorem delete_cases (s : CASStore β) (io : Option Err) (now : Int) (name : Bytes) :
    (¬ KeyOk name ∧ (s.delete io now name).2 = s) ∨ Removed s (s.delete io now name).2 io name now := by
  by_cases hn : KeyOk name
  · obtain ⟨s', hdel, hr⟩ := remove_ok s io now (fun _ => metadataError) metadataError hn
    rw [delete, hdel]
    exact Or.inr hr
  · obtain ⟨e, hdel⟩ := remove_refused s io now (fun _ => metadataError) metadataError hn
    rw [delete, hdel]
    exact Or.inl ⟨hn, rfl⟩

/-! ### Counting names and references -/

def namesOn (ns : Bucket Bytes) (h : Bytes) : ℕ := ns.map.count (fun _ h' => h' = h)

theorem namesOn_set_le (ns : Bucket Bytes) (hash : Bytes) (hk : KeyOk name) (h : Bytes) :
    namesOn (ns.set name hk hash) h ≤ namesOn ns h + if hash = h then 1 else 0 := by
  have hput := OMap.count_put ns.map (fun _ h' => decide (h' = h)) name hash
  simp only [decide_eq_true_eq] at hput
  calc namesOn (ns.set name hk hash) h
      ≤ namesOn (ns.set name hk hash) h + ns.map.hit (fun _ h' => decide (h' = h)) name :=
        Nat.le_add_right _ _
    _ = namesOn ns h + if hash = h then 1 else 0 := hput

theorem namesOn_del (ns : Bucket Bytes) (name h : Bytes) :
    namesOn (ns.del name) h + (if ns.get name = some h then 1 else 0) = namesOn ns h := by
  have hdel := OMap.count_del ns.map (fun _ h' => decide (h' = h)) name
  have hhit : ns.map.hit (fun _ h' => decide (h' = h)) name =
      if ns.get name = some h then 1 else 0 := by
    unfold OMap.hit
    rw [show ns.map.get name = ns.get name from rfl]
    cases ns.get name <;> simp
  rw [hhit] at hdel
  exact hdel

theorem namesOn_pos {ns : Bucket Bytes} {n : Bytes} (hn : ns.get n = some h) : 0 < namesOn ns h :=
  OMap.count_pos_of_get hn (by simp)

theorem namesOn_eq_zero {ns : Bucket Bytes} (hn : ∀ n, ns.get n ≠ some h) : namesOn ns h = 0 :=
  OMap.count_eq_zero (fun n h' hget => by
    simp only [decide_eq_false_iff_not]
    rintro rfl
    exact hn n hget)

theorem dropRef_size (m : ObjectMeta) (at_ : Int) : (dropRef m at_).size = m.size := by
  unfold dropRef
  split_ifs <;> rfl

theorem putMeta_refCount (ex : Option ObjectMeta) (size : Int) (f : PutFields) :
    (putMeta ex size f).refCount = (ex.elim 0 ObjectMeta.refCount) + 1 := by
  cases ex <;> rfl

theorem putMeta_size (ex : Option ObjectMeta) (size : Int) (f : PutFields) :
    (putMeta ex size f).size = ex.elim size ObjectMeta.size := by
  cases ex <;> rfl

end Momo.CASStore
