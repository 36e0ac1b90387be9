import Momo.Schemes.Run
import Momo.Storage.VersionChain

/-! @momo src/server/version_replication.go, src/p2p/metadata_rpc.go, src/storage/versioning.go
    scheme:convergence of a last-writer-wins table

    Version records of several nodes. A node that records a version or a marker publishes the
    record; a published record is handed to the other nodes in any order and any number of times
    (`fanOut`, `handleReplicateVersion`). The run remembers what was published and what each node
    has made itself or been handed. -/

namespace Momo.Replication

structure Message where
  bucket : Bytes
  key : Bytes
  record : VersionRecord
  deriving DecidableEq

structure Cluster (ι β : Type) where
  stores : ι → CASStore β
  published : List Message := []
  known : ι → List Message := fun _ => []

/-- Local records, with the ids they draw and the clocks they read, and deliveries of a published
    record, by its number. -/
inductive Op (ι : Type)
  | recordVersion (i : ι) (bucket key hash : Bytes) (size : Int) (versionID : Bytes) (now : Int)
  | recordDeleteMarker (i : ι) (bucket key versionID : Bytes) (now : Int)
  | deliver (j : ι) (n : ℕ)

section Steps

variable {ι β : Type} [DecidableEq ι]

def publish (c : Cluster ι β) (i : ι) (m : Message) (out : Except Err Unit × CASStore β) :
    Cluster ι β :=
  match out with
  | (.error _, s) => { c with stores := Function.update c.stores i s }
  | (.ok _, s) =>
    { stores := Function.update c.stores i s
      published := c.published ++ [m]
      known := Function.update c.known i (m :: c.known i) }

def handleReplicateVersion (c : Cluster ι β) (j : ι) (m : Message) : Cluster ι β :=
  { c with
    stores := Function.update c.stores j ((c.stores j).putVersionRecord m.bucket m.key m.record).2
    known := Function.update c.known j (m :: c.known j) }

def step (c : Cluster ι β) : Op ι → Cluster ι β
  | .recordVersion i bucket key hash size versionID now =>
    publish c i ⟨bucket, key, ⟨versionID, hash, size, now, true, false⟩⟩
      ((c.stores i).recordVersion bucket key hash size versionID now)
  | .recordDeleteMarker i bucket key versionID now =>
    publish c i ⟨bucket, key, ⟨versionID, [], 0, now, true, true⟩⟩
      ((c.stores i).recordDeleteMarker bucket key versionID now)
  | .deliver j n =>
    match c.published[n]? with
    | none => c
    | some m => handleReplicateVersion c j m

/-- A local record that stays in order: its key fits and is no empty one, no published record of the
    object has its id or its time, and it is newer than what the node has of the object. -/
structure InOrder (c : Cluster ι β) (i : ι) (m : Message) : Prop where
  fits : Fits (c.stores i).db.objectVersions m.bucket m.key m.record.versionID
  named : m.bucket ≠ [] ∧ m.key ≠ [] ∧ m.record.versionID ≠ []
  fresh : ∀ m' ∈ c.published, m'.bucket = m.bucket → m'.key = m.key →
    m'.record.versionID ≠ m.record.versionID ∧ m'.record.timestamp ≠ m.record.timestamp
  newer : ∀ m' ∈ c.known i, m'.bucket = m.bucket → m'.key = m.key →
    m'.record.timestamp < m.record.timestamp

instance (c : Cluster ι β) (i : ι) (m : Message) : Decidable (InOrder c i m) :=
  decidable_of_iff (Fits (c.stores i).db.objectVersions m.bucket m.key m.record.versionID ∧
      (m.bucket ≠ [] ∧ m.key ≠ [] ∧ m.record.versionID ≠ []) ∧
      (∀ m' ∈ c.published, m'.bucket = m.bucket → m'.key = m.key →
        m'.record.versionID ≠ m.record.versionID ∧ m'.record.timestamp ≠ m.record.timestamp) ∧
      ∀ m' ∈ c.known i, m'.bucket = m.bucket → m'.key = m.key →
        m'.record.timestamp < m.record.timestamp)
    ⟨fun h => ⟨h.1, h.2.1, h.2.2.1, h.2.2.2⟩, fun h => ⟨h.fits, h.named, h.fresh, h.newer⟩⟩

def Safe (c : Cluster ι β) : Op ι → Prop
  | .recordVersion i bucket key hash size versionID now =>
    InOrder c i ⟨bucket, key, ⟨versionID, hash, size, now, true, false⟩⟩
  | .recordDeleteMarker i bucket key versionID now =>
    InOrder c i ⟨bucket, key, ⟨versionID, [], 0, now, true, true⟩⟩
  | .deliver j n => ∀ m ∈ c.published[n]?,
    Fits (c.stores j).db.objectVersions m.bucket m.key m.record.versionID

instance (c : Cluster ι β) (o : Op ι) : Decidable (Safe c o) := by
  cases o <;> unfold Safe <;> infer_instance

end Steps

/-! ### Merged tables -/

def Latest (ms : List Message) (m : Message) : Prop :=
  ∀ m' ∈ ms, m'.bucket = m.bucket → m'.key = m.key → m'.record.timestamp ≤ m.record.timestamp

instance (ms : List Message) (m : Message) : Decidable (Latest ms m) :=
  inferInstanceAs (Decidable (∀ m' ∈ ms, _ → _ → _ ≤ _))

def placed (ms : List Message) (m : Message) : VersionRecord :=
  { m.record with isLatest := decide (Latest ms m) }

variable {ms : List Message} {m : Message}

theorem placed_congr {ms' : List Message} (h : Latest ms' m ↔ Latest ms m) :
    placed ms' m = placed ms m := by
  rw [placed, placed, decide_eq_decide.mpr h]

theorem placed_latest (h : Latest ms m) (hflag : m.record.isLatest = true) :
    placed ms m = m.record := by
  rw [placed, decide_eq_true h, ← hflag]

theorem placed_old (h : ¬ Latest ms m) : placed ms m = m.record.demoted := by
  rw [placed, decide_eq_false h, VersionRecord.demoted]

def Of (m : Message) (b k : Bytes) : Prop := m.bucket = b ∧ m.key = k

structure Merged (ms : List Message) (versions : Bucket VersionRecord) : Prop where
  layout : Layout versions
  records : ∀ b k v r, chain versions b k v = some r ↔
    ∃ m ∈ ms, Of m b k ∧ m.record.versionID = v ∧ r = placed ms m

theorem merged_empty : Merged [] Bucket.empty where
  layout := layout_empty
  records b k v r := by simp [chain]

theorem Merged.congr {ms' : List Message} {versions : Bucket VersionRecord} (h : Merged ms versions)
    (hmem : ∀ m, m ∈ ms' ↔ m ∈ ms) : Merged ms' versions := by
  have hplaced : ∀ m, placed ms' m = placed ms m := by
    intro m
    refine placed_congr ?_
    simp only [Latest, hmem]
  refine ⟨h.layout, fun b k v r => ?_⟩
  rw [h.records]
  simp only [hmem, hplaced]

theorem Merged.unique {versions versions' : Bucket VersionRecord} (h : Merged ms versions)
    (h' : Merged ms versions') : versions' = versions := by
  have hsub : ∀ {t t' : Bucket VersionRecord}, Merged ms t → Merged ms t' →
      ∀ K r, t.get K = some r → t'.get K = some r := by
    intro t t' ht ht' K r hr
    obtain ⟨b, k, -, rfl⟩ := ht.layout.keyed K r hr
    exact (ht'.records b k _ r).mpr ((ht.records b k _ r).mp hr)
  exact Bucket.ext (fun K => Option.ext (fun r => ⟨hsub h' h K r, hsub h h' K r⟩))

/-! ### One record more -/

section Insert

variable {ms : List Message} {m : Message} {versions versions' : Bucket VersionRecord}

theorem latest_cons_other {m' : Message} (h : ¬ Of m m'.bucket m'.key) :
    Latest (m :: ms) m' ↔ Latest ms m' := by
  constructor
  · exact fun hl x hx => hl x (List.mem_cons_of_mem _ hx)
  · intro hl x hx hb hk
    rcases List.mem_cons.mp hx with rfl | hx
    · exact absurd ⟨hb, hk⟩ h
    · exact hl x hx hb hk

theorem Merged.touch (h : Merged ms versions)
    (ht : Touched versions versions' m.bucket m.key m.record.versionID)
    (hchain : ∀ v r, chain versions' m.bucket m.key v = some r ↔
      ∃ m' ∈ m :: ms, Of m' m.bucket m.key ∧ m'.record.versionID = v ∧ r = placed (m :: ms) m') :
    Merged (m :: ms) versions' := by
  refine ⟨ht.layout, fun b k v r => ?_⟩
  by_cases hsame : b = m.bucket ∧ k = m.key
  · obtain ⟨rfl, rfl⟩ := hsame
    exact hchain v r
  rw [ht.others b k hsame, h.records]
  constructor
  · rintro ⟨m', hm', hof, hid, hr⟩
    have hother : ¬ Of m m'.bucket m'.key := by
      rintro ⟨hb, hk⟩
      exact hsame ⟨hof.1.symm.trans hb.symm, hof.2.symm.trans hk.symm⟩
    exact ⟨m', List.mem_cons_of_mem _ hm', hof, hid,
      hr.trans (placed_congr (latest_cons_other hother)).symm⟩
  · rintro ⟨m', hm', hof, hid, hr⟩
    rcases List.mem_cons.mp hm' with rfl | hm'
    · exact absurd ⟨hof.1.symm, hof.2.symm⟩ hsame
    · have hother : ¬ Of m m'.bucket m'.key := by
        rintro ⟨hb, hk⟩
        exact hsame ⟨hof.1.symm.trans hb.symm, hof.2.symm.trans hk.symm⟩
      exact ⟨m', hm', hof, hid, hr.trans (placed_congr (latest_cons_other hother))⟩

theorem Merged.top (h : Merged ms versions) (hflag : m.record.isLatest = true)
    (hnewer : ∀ m' ∈ ms, Of m' m.bucket m.key → m'.record.versionID ≠ m.record.versionID ∧
      m'.record.timestamp < m.record.timestamp)
    (ht : Touched versions versions' m.bucket m.key m.record.versionID)
    (hpush : chain versions' m.bucket m.key = push (chain versions m.bucket m.key) m.record) :
    Merged (m :: ms) versions' := by
  have hlatest : Latest (m :: ms) m := by
    intro m' hm' hb hk
    rcases List.mem_cons.mp hm' with rfl | hm'
    · exact le_refl _
    · exact (hnewer m' hm' ⟨hb, hk⟩).2.le
  have hold : ∀ m' ∈ ms, Of m' m.bucket m.key → placed (m :: ms) m' = m'.record.demoted := by
    intro m' hm' hof
    refine placed_old (fun hl => ?_)
    have hle := hl m (List.mem_cons_self ..) hof.1.symm hof.2.symm
    exact absurd (hnewer m' hm' hof).2 (not_lt.mpr hle)
  refine h.touch ht (fun v r => ?_)
  rw [hpush, push_eq_some]
  constructor
  · rintro (⟨rfl, rfl⟩ | ⟨hv, r₀, hr₀, rfl⟩)
    · exact ⟨m, List.mem_cons_self .., ⟨rfl, rfl⟩, rfl, (placed_latest hlatest hflag).symm⟩
    · obtain ⟨m', hm', hof, hid, rfl⟩ := (h.records _ _ v r₀).mp hr₀
      refine ⟨m', List.mem_cons_of_mem _ hm', hof, hid, ?_⟩
      rw [hold m' hm' hof]
      rfl
  · rintro ⟨m', hm', hof, hid, rfl⟩
    rcases List.mem_cons.mp hm' with rfl | hm'
    · exact Or.inl ⟨hid.symm, placed_latest hlatest hflag⟩
    · refine Or.inr ⟨fun heq => (hnewer m' hm' hof).1 (hid.trans heq), placed ms m', ?_, ?_⟩
      · exact (h.records _ _ v _).mpr ⟨m', hm', hof, hid, rfl⟩
      · rw [hold m' hm' hof]
        rfl

theorem Merged.beside (h : Merged ms versions)
    (hids : ∀ m' ∈ ms, Of m' m.bucket m.key → m'.record.versionID ≠ m.record.versionID)
    {top : Message} (htop : top ∈ ms) (hof : Of top m.bucket m.key)
    (holder : m.record.timestamp < top.record.timestamp)
    (ht : Touched versions versions' m.bucket m.key m.record.versionID)
    (hupdate : chain versions' m.bucket m.key =
      Function.update (chain versions m.bucket m.key) m.record.versionID (some m.record.demoted)) :
    Merged (m :: ms) versions' := by
  have hplaced : placed (m :: ms) m = m.record.demoted := by
    refine placed_old (fun hl => ?_)
    exact absurd holder (not_lt.mpr (hl top (List.mem_cons_of_mem _ htop) hof.1 hof.2))
  -- the record is not newer than the newest one before
  have hsame : ∀ m' ∈ ms, Of m' m.bucket m.key → placed (m :: ms) m' = placed ms m' := by
    intro m' hm' hof'
    refine placed_congr ⟨fun hl x hx => hl x (List.mem_cons_of_mem _ hx), fun hl x hx hb hk => ?_⟩
    rcases List.mem_cons.mp hx with rfl | hx
    · have hle := hl top htop (hof.1.trans hof'.1.symm) (hof.2.trans hof'.2.symm)
      exact holder.le.trans hle
    · exact hl x hx hb hk
  refine h.touch ht (fun v r => ?_)
  rw [hupdate, update_eq_some]
  constructor
  · rintro (⟨rfl, hr⟩ | ⟨hv, hr⟩)
    · exact ⟨m, List.mem_cons_self .., ⟨rfl, rfl⟩, rfl, by rw [hplaced]; exact (Option.some.inj hr).symm⟩
    · obtain ⟨m', hm', hof', hid, rfl⟩ := (h.records _ _ v r).mp hr
      exact ⟨m', List.mem_cons_of_mem _ hm', hof', hid, (hsame m' hm' hof').symm⟩
  · rintro ⟨m', hm', hof', hid, rfl⟩
    rcases List.mem_cons.mp hm' with rfl | hm'
    · exact Or.inl ⟨hid.symm, congrArg some hplaced.symm⟩
    · refine Or.inr ⟨fun heq => hids m' hm' hof' (hid.trans heq), ?_⟩
      rw [hsame m' hm' hof']
      exact (h.records _ _ v _).mpr ⟨m', hm', hof', hid, rfl⟩

theorem Merged.again (h : Merged ms versions) (hm : m ∈ ms)
    (ht : Touched versions versions' m.bucket m.key m.record.versionID)
    (hsame : chain versions' m.bucket m.key = chain versions m.bucket m.key) :
    Merged (m :: ms) versions' := by
  have hmem : ∀ x, x ∈ m :: ms ↔ x ∈ ms := by
    intro x
    rw [List.mem_cons, or_iff_right_iff_imp]
    rintro rfl
    exact hm
  refine h.touch ht (fun v r => ?_)
  rw [hsame]
  exact (h.congr hmem).records m.bucket m.key v r

end Insert

/-! ### Runs -/

/-- Published records are flagged, no name is empty, and records of one object differ in id and
    time. -/
structure Ordered (ps : List Message) : Prop where
  flagged : ∀ m ∈ ps, m.record.isLatest = true
  named : ∀ m ∈ ps, m.bucket ≠ [] ∧ m.key ≠ [] ∧ m.record.versionID ≠ []
  distinct : ∀ m ∈ ps, ∀ m' ∈ ps, Of m' m.bucket m.key →
    m'.record.versionID = m.record.versionID ∨ m'.record.timestamp = m.record.timestamp → m' = m

structure Converging {ι β : Type} (c : Cluster ι β) : Prop where
  ordered : Ordered c.published
  known : ∀ i, ∀ m ∈ c.known i, m ∈ c.published
  merged : ∀ i, Merged (c.known i) (c.stores i).db.objectVersions

section Runs

variable {ι β : Type} [DecidableEq ι] {c : Cluster ι β}

variable {ps : List Message} {m : Message}

theorem Merged.replicated {ms : List Message} (ho : Ordered ps) (hsub : ∀ m ∈ ms, m ∈ ps)
    (hm : m ∈ ps) {versions versions' : Bucket VersionRecord} (h : Merged ms versions)
    (ht : Touched versions versions' m.bucket m.key m.record.versionID)
    (hr : Replicated (chain versions m.bucket m.key) (chain versions' m.bucket m.key) m.record) :
    Merged (m :: ms) versions' := by
  -- records of the chain are placed messages, and keep their times
  have htimes : ∀ m' ∈ ms, Of m' m.bucket m.key →
      chain versions m.bucket m.key m'.record.versionID = some (placed ms m') :=
    fun m' hm' hof => (h.records _ _ _ _).mpr ⟨m', hm', hof, rfl, rfl⟩
  have hbest : ∀ r, IsBest (chain versions m.bucket m.key) r →
      ∃ top ∈ ms, Of top m.bucket m.key ∧ top.record.timestamp = r.timestamp := by
    intro r hr
    obtain ⟨top, htop, hof, -, rfl⟩ := (h.records _ _ _ r).mp hr.stored
    exact ⟨top, htop, hof, rfl⟩
  by_cases hin : m ∈ ms
  · have hself := htimes m hin ⟨rfl, rfl⟩
    cases hr with
    | same hsame heq => exact h.again hin ht heq
    | top hne hflag hnew heq =>
      -- the newest record is stored as it was published
      have hlatest : Latest ms m := fun m' hm' hb hk =>
        hnew _ (placed ms m') (htimes m' hm' ⟨hb, hk⟩)
      rw [placed_latest hlatest hflag] at hself
      exact absurd hself hne
    | beside hne hold heq =>
      obtain ⟨r, hr, hlt⟩ := hold (ho.flagged m hm)
      obtain ⟨top, htop, hof, hts⟩ := hbest r hr
      have hnot : ¬ Latest ms m := fun hl =>
        absurd (hts ▸ hlt) (not_lt.mpr (hl top htop hof.1 hof.2))
      rw [placed_old hnot] at hself
      refine h.again hin ht ?_
      rw [heq, ← hself, Function.update_eq_self]
  · have hids : ∀ m' ∈ ms, Of m' m.bucket m.key → m'.record.versionID ≠ m.record.versionID := by
      intro m' hm' hof hid
      exact hin (ho.distinct m hm m' (hsub m' hm') hof (Or.inl hid) ▸ hm')
    cases hr with
    | same hsame heq =>
      obtain ⟨m', hm', hof, hid, -⟩ := (h.records _ _ _ _).mp hsame
      exact absurd hid (hids m' hm' hof)
    | top hne hflag hnew heq =>
      refine h.top hflag (fun m' hm' hof => ⟨hids m' hm' hof, ?_⟩) ht heq
      refine lt_of_le_of_ne (hnew _ (placed ms m') (htimes m' hm' hof)) (fun hts => hin ?_)
      exact ho.distinct m hm m' (hsub m' hm') hof (Or.inr hts) ▸ hm'
    | beside hne hold heq =>
      obtain ⟨r, hr, hlt⟩ := hold (ho.flagged m hm)
      obtain ⟨top, htop, hof, hts⟩ := hbest r hr
      exact h.beside hids htop hof (hts ▸ hlt) ht heq

theorem Ordered.append (ho : Ordered ps) (hflag : m.record.isLatest = true)
    (hnamed : m.bucket ≠ [] ∧ m.key ≠ [] ∧ m.record.versionID ≠ [])
    (hfresh : ∀ m' ∈ ps, m'.bucket = m.bucket → m'.key = m.key →
      m'.record.versionID ≠ m.record.versionID ∧ m'.record.timestamp ≠ m.record.timestamp) :
    Ordered (ps ++ [m]) := by
  refine ⟨fun x hx => ?_, fun x hx => ?_, fun x hx y hy hof heq => ?_⟩
  · rcases List.mem_append.mp hx with hold | hnew
    · exact ho.flagged x hold
    · rw [List.mem_singleton.mp hnew]
      exact hflag
  · rcases List.mem_append.mp hx with hold | hnew
    · exact ho.named x hold
    · rw [List.mem_singleton.mp hnew]
      exact hnamed
  · rcases List.mem_append.mp hx with hxo | hxn <;> rcases List.mem_append.mp hy with hyo | hyn
    · exact ho.distinct x hxo y hyo hof heq
    · rw [List.mem_singleton.mp hyn] at hof heq
      obtain ⟨hid, hts⟩ := hfresh x hxo hof.1.symm hof.2.symm
      rcases heq with h | h
      · exact absurd h.symm hid
      · exact absurd h.symm hts
    · rw [List.mem_singleton.mp hxn] at hof heq
      obtain ⟨hid, hts⟩ := hfresh y hyo hof.1 hof.2
      rcases heq with h | h
      · exact absurd h hid
      · exact absurd h hts
    · rw [List.mem_singleton.mp hxn, List.mem_singleton.mp hyn]

theorem Converging.learn (hc : Converging c) {i : ι} (ho : Ordered ps)
    (hsub : ∀ x ∈ c.published, x ∈ ps) (hm : m ∈ ps) {versions : Bucket VersionRecord}
    (hmerged : Merged (m :: c.known i) versions) :
    Converging ({ stores := Function.update c.stores i ((c.stores i).withVersions versions)
                  published := ps
                  known := Function.update c.known i (m :: c.known i) } : Cluster ι β) := by
  refine ⟨ho, fun j x hx => ?_, fun j => ?_⟩
  · rcases eq_or_ne j i with rfl | hne
    · simp only [Function.update_self] at hx
      rcases List.mem_cons.mp hx with rfl | hx
      · exact hm
      · exact hsub x (hc.known j x hx)
    · simp only [Function.update_of_ne hne] at hx
      exact hsub x (hc.known j x hx)
  · rcases eq_or_ne j i with rfl | hne
    · simp only [Function.update_self]
      exact hmerged
    · simp only [Function.update_of_ne hne]
      exact hc.merged j

theorem Converging.publish (hc : Converging c) {i : ι} (hm : InOrder c i m)
    (hflag : m.record.isLatest = true) {op : String} {out : Except Err Unit × CASStore β}
    (hout : out = (c.stores i).updateVersions
      (putVersion op (c.stores i).db.objectVersions m.bucket m.key m.record)) :
    Converging (publish c i m out) := by
  obtain ⟨versions, hput, hchain, ht⟩ := (hc.merged i).layout.putVersion op hm.fits
  have hsome : out = (.ok (), (c.stores i).withVersions versions) := by
    rw [hout, hput]
    rfl
  have hmerged : Merged (m :: c.known i) versions := by
    refine (hc.merged i).top hflag (fun m' hm' hof => ⟨?_, hm.newer m' hm' hof.1 hof.2⟩) ht hchain
    exact (hm.fresh m' (hc.known i m' hm') hof.1 hof.2).1
  rw [hsome]
  exact hc.learn (hc.ordered.append hflag hm.named hm.fresh)
    (fun x hx => List.mem_append_left _ hx)
    (List.mem_append_right _ (List.mem_singleton_self _)) hmerged

theorem Converging.deliver (hc : Converging c) {j : ι} (hm : m ∈ c.published)
    (hfit : Fits (c.stores j).db.objectVersions m.bucket m.key m.record.versionID) :
    Converging (handleReplicateVersion c j m) := by
  obtain ⟨versions, happ, hrep, ht⟩ :=
    (hc.merged j).layout.applyReplicatedRecord "CASStore.PutVersionRecord" hfit
  obtain ⟨hb, hk, hv⟩ := hc.ordered.named m hm
  have hstore : ((c.stores j).putVersionRecord m.bucket m.key m.record).2 =
      (c.stores j).withVersions versions := by
    rw [CASStore.putVersionRecord, if_neg (by simp [hb, hk, hv]), happ]
    rfl
  rw [handleReplicateVersion, hstore]
  exact hc.learn hc.ordered (fun x hx => hx) hm
    ((hc.merged j).replicated hc.ordered (hc.known j) hm ht hrep)

theorem converging_step {o : Op ι} (hc : Converging c) (hs : Safe c o) : Converging (step c o) := by
  cases o with
  | recordVersion i bucket key hash size versionID now => exact hc.publish hs rfl rfl
  | recordDeleteMarker i bucket key versionID now => exact hc.publish hs rfl rfl
  | deliver j n =>
    rw [step]
    cases hn : c.published[n]? with
    | none => exact hc
    | some m => exact hc.deliver (List.mem_of_getElem? hn) (hs m hn)

/-- CORRECT: in a run whose steps all meet the condition, from nodes without versions, nodes that
    know every published record have identical version tables. -/
theorem tables_equal_after_run (stores : ι → CASStore β)
    (hstores : ∀ i, (stores i).db.objectVersions = Bucket.empty) (ops : List (Op ι))
    (hg : Guarded step Safe ({ stores := stores } : Cluster ι β) ops)
    (hall : ∀ i, ∀ m ∈ (run step ({ stores := stores } : Cluster ι β) ops).published,
      m ∈ (run step ({ stores := stores } : Cluster ι β) ops).known i) (i j : ι) :
    ((run step ({ stores := stores } : Cluster ι β) ops).stores i).db.objectVersions =
      ((run step ({ stores := stores } : Cluster ι β) ops).stores j).db.objectVersions := by
  have hbase : Converging ({ stores := stores } : Cluster ι β) := by
    refine ⟨⟨?_, ?_, ?_⟩, ?_, fun i => ?_⟩
    · exact fun m hm => by cases hm
    · exact fun m hm => by cases hm
    · exact fun m hm => by cases hm
    · exact fun i m hm => by cases hm
    · rw [hstores i]
      exact merged_empty
  have hstep : ∀ (c : Cluster ι β) (o : Op ι), Converging c → Safe c o → Converging (step c o) :=
    fun c o hc ho => converging_step hc ho
  have hend := run_invariant Converging hstep hbase hg
  have hsame : ∀ i, Merged (run step ({ stores := stores } : Cluster ι β) ops).published
      ((run step ({ stores := stores } : Cluster ι β) ops).stores i).db.objectVersions :=
    fun i => (hend.merged i).congr (fun m => ⟨hall i m, hend.known i m⟩)
  exact (hsame j).unique (hsame i)

end Runs

/-! ### Concrete runs of two nodes -/

def twoNodes : Cluster (Fin 2) LocalBlobStore := { stores := fun _ => { cfg := {}, blobs := {} } }

/-- Each node writes once, the second one after it has seen the first record; deliveries come twice
    and late. -/
def skewFreeRun : List (Op (Fin 2)) :=
  [.recordVersion 0 [98] [107] [1] 1 [49] 10, .deliver 1 0,
    .recordDeleteMarker 1 [98] [107] [50] 20, .deliver 1 0, .deliver 0 1, .deliver 0 0, .deliver 0 1]

theorem tables_equal_after_skewFreeRun :
    ((run step twoNodes skewFreeRun).stores 0).db.objectVersions =
      ((run step twoNodes skewFreeRun).stores 1).db.objectVersions :=
  tables_equal_after_run _ (fun _ => rfl) skewFreeRun (by decide +kernel) (by decide +kernel) 0 1

def tieRun : List (Op (Fin 2)) :=
  [.recordVersion 0 [98] [107] [1] 1 [49] 10, .recordVersion 1 [98] [107] [2] 1 [50] 10,
    .deliver 0 1, .deliver 1 0]

def skewedRun : List (Op (Fin 2)) :=
  [.recordVersion 0 [98] [107] [1] 1 [49] 20, .deliver 1 0,
    .recordVersion 1 [98] [107] [2] 1 [50] 10, .deliver 0 1]

theorem tables_differ :
    (∀ i, ∀ m ∈ (run step twoNodes tieRun).published, m ∈ (run step twoNodes tieRun).known i) ∧
    (((run step twoNodes tieRun).stores 0).db.objectVersions.get
      (versionKey [98] [107] [49])).map VersionRecord.isLatest = some false ∧
    (((run step twoNodes tieRun).stores 1).db.objectVersions.get
      (versionKey [98] [107] [49])).map VersionRecord.isLatest = some true ∧
    (∀ i, ∀ m ∈ (run step twoNodes skewedRun).published,
      m ∈ (run step twoNodes skewedRun).known i) ∧
    (((run step twoNodes skewedRun).stores 0).db.objectVersions.get
      (versionKey [98] [107] [49])).map VersionRecord.isLatest = some true ∧
    (((run step twoNodes skewedRun).stores 1).db.objectVersions.get
      (versionKey [98] [107] [49])).map VersionRecord.isLatest = some false := by
  decide +kernel

end Momo.Replication
