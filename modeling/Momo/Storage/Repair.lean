import Momo.Storage.Backends
import Momo.Storage.CAS

/-! @momo src/storage/rebuild.go | scheme:verify, store, read again

    The repair path. Bytes a survivor serves are hashed while they are copied to a temporary file,
    stored under the hash when they match, and then read again from the back end:

      Survivors → Fetch → storeVerified → PutBlob → GetBlob → caller or Restore -/

namespace Momo

structure RebuildConfig where
  target : Int := 3
  source : Option RebuildSource := none

/-- How far a repair gets: nothing to do, no bytes to restore from, or a stream for `Restore`. -/
inductive RepairOutcome
  | healthy | failed | handed (stream : Reader)
  deriving DecidableEq

namespace CASStore

section Repair

variable [Sha256] {β : Type} [BlobStore β]

def localCopyVerified (s : CASStore β) (hash : Bytes) : Bool :=
  match BlobStore.getBlob s.blobs hash with
  | .error _ => false
  | .ok rc => rc.fault = none ∧ hashBytes rc.data = hash

def repairFetch (s : CASStore β) (hash : Bytes) : RepairOutcome × CASStore β :=
  match s.fetchVerifiedToLocal hash with
  | (.error _, s') => (.failed, s')
  | (.ok rc, s') => (.handed rc, s')

/-- `repairBlob` up to its call of `Restore`. -/
def repairStream (s : CASStore β) (cfg : RebuildConfig) (hash : Bytes) :
    RepairOutcome × CASStore β :=
  match cfg.source with
  | none => (.healthy, s)
  | some src =>
    if cfg.target ≤ 0 then (.healthy, s)
    else match src.survivors hash with
      | .error _ => (.failed, s)
      | .ok survivors =>
        let localOK := s.localCopyVerified hash
        let flagged := (s.db.quarantine.get hash).isSome
        let verified : Int := survivors.length + if localOK then 1 else 0
        if flagged = false ∧ cfg.target ≤ verified then (.healthy, s)
        else if localOK then
          match BlobStore.getBlob s.blobs hash with
          | .ok f => (.handed f, s)
          | .error _ => s.repairFetch hash
        else s.repairFetch hash

/-- The mark goes once `Restore` has succeeded. -/
def repairBlob (s : CASStore β) (cfg : RebuildConfig) (hash : Bytes)
    (restore : Reader → Except Err Unit) : CASStore β :=
  match s.repairStream cfg hash with
  | (.handed stream, s') =>
    match restore stream with
    | .ok _ => s'.quarantineClear hash
    | .error _ => s'
  | (_, s') => s'

/-! ### What the repair path hands out -/

variable [BlobContract β]

/-- Where a fetched stream comes from: the old blob if the back end keeps it, else bytes that were
    verified. -/
def Fetched (s : CASStore β) (h : Bytes) (r : Reader) : Prop :=
  (BlobContract.keeps s.blobs h = true ∧ BlobStore.getBlob s.blobs h = .ok r) ∨
    (BlobContract.keeps s.blobs h = false ∧ r.fault = none ∧ hashBytes r.data = h)

/-- Two stores that a fetch of `h` cannot tell apart. -/
def SameBlob (s s' : CASStore β) (h : Bytes) : Prop :=
  BlobStore.getBlob s'.blobs h = BlobStore.getBlob s.blobs h ∧
    BlobContract.keeps s'.blobs h = BlobContract.keeps s.blobs h

omit [Sha256] in
theorem sameBlob_quarantineMark (s : CASStore β) (h : Bytes) : SameBlob s (s.quarantineMark h) h := by
  unfold quarantineMark
  split <;> exact ⟨rfl, rfl⟩

theorem storeVerified_cases (s : CASStore β) (h : Bytes) (rc : Reader) :
    (∃ s', s.storeVerified h rc = (false, s') ∧ SameBlob s s' h) ∨
      ∃ s', s.storeVerified h rc = (true, s') ∧
        ∀ r, BlobStore.getBlob s'.blobs h = .ok r → s.Fetched h r := by
  obtain ⟨data, fault⟩ := rc
  unfold storeVerified
  cases fault with
  | some e => exact Or.inl ⟨s, rfl, rfl, rfl⟩
  | none =>
    simp only
    split_ifs with hd
    · cases hput : BlobStore.putBlob s.blobs h ⟨data, none⟩ none with
      | mk res b =>
        cases res with
        | error e => exact Or.inl ⟨_, rfl, BlobContract.put_failed _ _ _ _ _ hput⟩
        | ok read =>
          refine Or.inr ⟨_, rfl, fun r hr => ?_⟩
          cases hkeep : BlobContract.keeps s.blobs h with
          | true =>
            have hsame := BlobContract.put_kept _ _ _ _ _ hput hkeep
            exact Or.inl ⟨hkeep, hsame.symm.trans hr⟩
          | false =>
            obtain rfl := BlobContract.put_stored _ _ _ _ _ hput hkeep r hr
            exact Or.inr ⟨hkeep, rfl, hd⟩
    · exact Or.inl ⟨s, rfl, rfl, rfl⟩

variable {s s' : CASStore β} {h : Bytes} {r : Reader}

theorem Fetched.congr (hsame : SameBlob s s' h) (hr : s'.Fetched h r) : s.Fetched h r := by
  unfold Fetched at hr ⊢
  rw [← hsame.1, ← hsame.2]
  exact hr

theorem fetched_of_fetchFrom (source : RebuildSource) (h : Bytes) (peers : List Int)
    (hok : fetchFrom source h peers s = (.ok r, s')) : s.Fetched h r := by
  induction peers generalizing s with
  | nil => cases hok
  | cons peer peers ih =>
    rw [fetchFrom] at hok
    cases hf : source.fetch h peer with
    | error e =>
      simp only [hf] at hok
      exact ih hok
    | ok rc =>
      simp only [hf] at hok
      rcases storeVerified_cases s h rc with ⟨t, hstore, hsame⟩ | ⟨t, hstore, hread⟩
      · -- the answer was no good: the mark changes no bytes, and the next peer is asked
        simp only [hstore] at hok
        have hmark := sameBlob_quarantineMark t h
        exact Fetched.congr ⟨hmark.1.trans hsame.1, hmark.2.trans hsame.2⟩ (ih hok)
      · simp only [hstore] at hok
        cases hget : BlobStore.getBlob t.blobs h with
        | error e =>
          simp only [hget] at hok
          cases hok
        | ok f =>
          simp only [hget] at hok
          cases hok
          exact hread r hget

theorem fetched_of_fetchVerifiedToLocal (hok : s.fetchVerifiedToLocal h = (.ok r, s')) :
    s.Fetched h r := by
  unfold fetchVerifiedToLocal at hok
  split at hok
  · cases hok
  · split at hok
    · cases hok
    · exact fetched_of_fetchFrom _ h _ hok

theorem openVerifiedBlob_cases {st : Stream} (hok : s.openVerifiedBlob h = (.ok st, s')) :
    (BlobStore.getBlob s.blobs h = .ok st.src ∧ s.db.quarantine.get h = none ∧
        st.expected = if s.cfg.verifyOnRead then some h else none) ∨
      ((∀ r, BlobStore.getBlob s.blobs h = .ok r → s.db.quarantine.get h ≠ none) ∧
        s.Fetched h st.src ∧ st.expected = none) := by
  have hdegraded : s.openDegraded h = (.ok st, s') → s.Fetched h st.src ∧ st.expected = none := by
    intro hdeg
    unfold openDegraded at hdeg
    split_ifs at hdeg
    · cases hfetch : s.fetchVerifiedToLocal h with
      | mk res t =>
        rw [hfetch] at hdeg
        cases res with
        | error e => cases hdeg
        | ok r =>
          cases hdeg
          exact ⟨fetched_of_fetchVerifiedToLocal hfetch, rfl⟩
    · cases hdeg
  unfold openVerifiedBlob at hok
  dsimp only at hok
  cases hget : BlobStore.getBlob s.blobs h with
  | error e =>
    rw [hget] at hok
    simp only at hok
    split_ifs at hok
    · exact Or.inr ⟨fun r hr => (by cases hr), hdegraded hok⟩
    · cases hok
  | ok f =>
    rw [hget] at hok
    simp only at hok
    cases hq : s.db.quarantine.get h with
    | none =>
      rw [hq] at hok
      cases hok
      exact Or.inl ⟨rfl, rfl, rfl⟩
    | some mark =>
      rw [hq] at hok
      exact Or.inr ⟨fun r _ => (by simp), hdegraded hok⟩

theorem repairStream_cases {cfg : RebuildConfig} (hok : s.repairStream cfg h = (.handed r, s')) :
    (BlobStore.getBlob s.blobs h = .ok r ∧ hashBytes r.data = h) ∨ s.Fetched h r := by
  have hfetch : s.repairFetch h = (.handed r, s') → s.Fetched h r := by
    intro hrep
    unfold repairFetch at hrep
    split at hrep
    · cases hrep
    · rename_i rc t hrc
      cases hrep
      exact fetched_of_fetchVerifiedToLocal hrc
  unfold repairStream at hok
  split at hok
  · cases hok
  split_ifs at hok
  · cases hok
  split at hok
  · cases hok
  dsimp only at hok
  cases hlocal : s.localCopyVerified h with
  | false =>
    simp only [hlocal, Bool.false_eq_true, if_false] at hok
    split_ifs at hok with hhealthy
    · cases hok
    · exact Or.inr (hfetch hok)
  | true =>
    simp only [hlocal, if_true] at hok
    unfold localCopyVerified at hlocal
    split_ifs at hok with hhealthy
    · cases hok
    · cases hget : BlobStore.getBlob s.blobs h with
      | error e =>
        rw [hget] at hlocal
        cases hlocal
      | ok f =>
        rw [hget] at hok hlocal
        cases hok
        exact Or.inl ⟨rfl, (of_decide_eq_true hlocal).2⟩

/-! ### When what is handed out is good -/

def RepairSound (s : CASStore β) (h : Bytes) : Prop :=
  BlobContract.keeps s.blobs h = true →
    ∀ r, BlobStore.getBlob s.blobs h = .ok r → hashBytes r.data = h

def OpenSound (s : CASStore β) (h : Bytes) : Prop :=
  s.db.quarantine.get h = none ∨ BlobContract.keeps s.blobs h = true →
    ∀ r, BlobStore.getBlob s.blobs h = .ok r → hashBytes r.data = h

/-- For a read to a clean end only what is not checked on the way has to match: an unmarked local copy
    when reads are not verified, and the blob that is kept in place of a marked one. -/
def CleanSound (s : CASStore β) (h : Bytes) : Prop :=
  (if s.db.quarantine.get h = none then s.cfg.verifyOnRead = false
    else BlobContract.keeps s.blobs h = true) →
    ∀ r, BlobStore.getBlob s.blobs h = .ok r → r.fault = none → hashBytes r.data = h

omit [Sha256] [BlobContract β] in
theorem asked_of_getBlob (P : Reader → Prop) {src : Reader}
    (hget : BlobStore.getBlob s.blobs h = .ok src) {cond : Prop} (hcond : cond) :
    P src ↔ (cond → ∀ r, BlobStore.getBlob s.blobs h = .ok r → P r) := by
  constructor
  · rintro hP - r hr
    rw [hget] at hr
    cases hr
    exact hP
  · exact fun hall => hall hcond src hget

theorem Fetched.sound_iff (hr : s.Fetched h r) : hashBytes r.data = h ↔ s.RepairSound h := by
  rcases hr with ⟨hkeep, hget⟩ | ⟨hnew, -, hgood⟩
  · exact asked_of_getBlob (hashBytes ·.data = h) hget hkeep
  · refine iff_of_true hgood (fun hkeep => ?_)
    rw [hnew] at hkeep
    cases hkeep

theorem readAll_unchecked (r : Reader) :
    (∀ d, (Stream.mk r none).readAll = (d, none) → hashBytes d = h) ↔
      (r.fault = none → hashBytes r.data = h) := by
  obtain ⟨data, fault⟩ := r
  cases fault <;> simp [Stream.readAll]

theorem readAll_checked (r : Reader) {d : Bytes}
    (hread : (Stream.mk r (some h)).readAll = (d, none)) : hashBytes d = h := by
  obtain ⟨data, fault⟩ := r
  cases fault with
  | some e => simp [Stream.readAll] at hread
  | none =>
    simp only [Stream.readAll, Prod.mk.injEq] at hread
    obtain ⟨rfl, hcheck⟩ := hread
    split_ifs at hcheck with hd
    exact hd

theorem cleanSound_iff {st : Stream} (hok : s.openVerifiedBlob h = (.ok st, s')) :
    (∀ d, st.readAll = (d, none) → hashBytes d = h) ↔ s.CleanSound h := by
  obtain ⟨src, expected⟩ := st
  unfold CleanSound
  rcases openVerifiedBlob_cases hok with ⟨hget, hunmarked, rfl⟩ | ⟨hmarked, hfetched, rfl⟩
  · rw [if_pos hunmarked]
    cases hv : s.cfg.verifyOnRead with
    | true => exact iff_of_true (fun d hd => readAll_checked src hd) (fun h => by cases h)
    | false =>
      rw [if_neg (by simp), readAll_unchecked]
      exact asked_of_getBlob (fun r => r.fault = none → hashBytes r.data = h) hget rfl
  · rw [readAll_unchecked]
    rcases hfetched with ⟨hkeep, hget⟩ | ⟨hnew, -, hgood⟩
    · rw [if_neg (hmarked src hget)]
      exact asked_of_getBlob (fun r => r.fault = none → hashBytes r.data = h) hget hkeep
    · refine iff_of_true (fun _ => hgood) (fun hcond r hr _ => ?_)
      rw [if_neg (hmarked r hr), hnew] at hcond
      cases hcond

/-- CORRECT: over every back end of the contract and whatever the survivors answer, a stream of the
    repair path has the requested hash exactly when the store is sound for it: one the fetch
    returned, one a read returned (whole, or read to a clean end), and one a repair handed to
    `Restore`. -/
theorem repair_path_iff (s : CASStore β) (h : Bytes) :
    (∀ r s', s.fetchVerifiedToLocal h = (.ok r, s') →
      (hashBytes r.data = h ↔ s.RepairSound h)) ∧
    (∀ st s', s.openVerifiedBlob h = (.ok st, s') →
      (hashBytes st.src.data = h ↔ s.OpenSound h) ∧
      ((∀ d, st.readAll = (d, none) → hashBytes d = h) ↔ s.CleanSound h)) ∧
    (∀ cfg r s', s.repairStream cfg h = (.handed r, s') →
      (hashBytes r.data = h ↔ s.RepairSound h)) := by
  refine ⟨fun r s' hok => (fetched_of_fetchVerifiedToLocal hok).sound_iff, fun st s' hok => ?_,
    fun cfg r s' hok => ?_⟩
  · refine ⟨?_, cleanSound_iff hok⟩
    rcases openVerifiedBlob_cases hok with ⟨hget, hunmarked, -⟩ | ⟨hmarked, hfetched, -⟩
    · exact asked_of_getBlob (hashBytes ·.data = h) hget (Or.inl hunmarked)
    · rw [hfetched.sound_iff]
      constructor
      · rintro hsound (hnone | hkeep) r hr
        · exact absurd hnone (hmarked r hr)
        · exact hsound hkeep r hr
      · exact fun hsound hkeep r hr => hsound (Or.inr hkeep) r hr
  · rcases repairStream_cases hok with ⟨hget, hgood⟩ | hfetched
    · refine iff_of_true hgood (fun _ r' hr' => ?_)
      rw [hget] at hr'
      cases hr'
      exact hgood
    · exact hfetched.sound_iff

end Repair

/-! ### Concrete runs -/

section Runs

local instance repairSha : Sha256 := sampleSha

/-- A survivor that serves the bytes of `a` for every hash. -/
def honestSurvivor : RebuildSource := ⟨fun _ => .ok [1], fun _ _ => .ok ⟨[97], none⟩⟩

/-- Degraded reads from `honestSurvivor`. -/
def degradedConfig : CASConfig := { degradedRead := true, rebuildSource := some honestSurvivor }

def markedDb : MetaDB :=
  { quarantine := Bucket.empty.set (hashBytes [97]) (keyOk_hashBytes _) () }

def emptyMarked : CASStore LocalBlobStore := { cfg := degradedConfig, db := markedDb, blobs := {} }

theorem repair_path_of_honestSurvivor :
    (∃ r s', emptyMarked.fetchVerifiedToLocal (hashBytes [97]) = (.ok r, s') ∧
      hashBytes r.data = hashBytes [97]) ∧
    (∃ st s', emptyMarked.openVerifiedBlob (hashBytes [97]) = (.ok st, s') ∧
      hashBytes st.src.data = hashBytes [97]) ∧
    (∃ r s', emptyMarked.repairStream ⟨2, some honestSurvivor⟩ (hashBytes [97]) = (.handed r, s') ∧
      hashBytes r.data = hashBytes [97]) := by
  have hsound : emptyMarked.RepairSound (hashBytes [97]) := fun hkeep => by cases hkeep
  have hopen : emptyMarked.OpenSound (hashBytes [97]) := fun _ r hr => by
    have hnone : BlobStore.getBlob emptyMarked.blobs (hashBytes [97]) = .error (.path .enoent) := by
      decide +kernel
    rw [hnone] at hr
    cases hr
  obtain ⟨hfetch, hread, hrepair⟩ := repair_path_iff emptyMarked (hashBytes [97])
  have h₁ : (emptyMarked.fetchVerifiedToLocal (hashBytes [97])).1 = .ok ⟨[97], none⟩ := by
    decide +kernel
  have h₂ : (emptyMarked.openVerifiedBlob (hashBytes [97])).1 = .ok ⟨⟨[97], none⟩, none⟩ := by
    decide +kernel
  have h₃ : (emptyMarked.repairStream ⟨2, some honestSurvivor⟩ (hashBytes [97])).1 =
      .handed ⟨[97], none⟩ := by decide +kernel
  exact ⟨⟨_, _, Prod.fst_eq_iff.mp h₁, (hfetch _ _ (Prod.fst_eq_iff.mp h₁)).mpr hsound⟩,
    ⟨_, _, Prod.fst_eq_iff.mp h₂, (hread _ _ (Prod.fst_eq_iff.mp h₂)).1.mpr hopen⟩,
    ⟨_, _, Prod.fst_eq_iff.mp h₃, (hrepair _ _ _ (Prod.fst_eq_iff.mp h₃)).mpr hsound⟩⟩

def rottenDevice : RawBlobStore :=
  { (RawBlobStore.putBlob {} (hashBytes [97]) ⟨[97], none⟩).2 with device := [98] }

def rottenMarked : CASStore RawBlobStore :=
  { cfg := degradedConfig, db := markedDb, blobs := rottenDevice }

/-- The survivor's bytes are verified and then not stored: the fetch, the read and the repair all
    hand out the rotten bytes, the read to a clean end, and the mark is gone. -/
theorem repair_path_hands_out_rot :
    (rottenMarked.fetchVerifiedToLocal (hashBytes [97])).1 = .ok ⟨[98], none⟩ ∧
    (rottenMarked.openVerifiedBlob (hashBytes [97])).1.map Stream.readAll = .ok ([98], none) ∧
    (rottenMarked.repairStream ⟨2, some honestSurvivor⟩ (hashBytes [97])).1 = .handed ⟨[98], none⟩ ∧
    (rottenMarked.openVerifiedBlob (hashBytes [97])).2.db.quarantine.get (hashBytes [97]) = none ∧
    hashBytes [98] ≠ hashBytes [97] := by
  decide +kernel

end Runs

end CASStore

end Momo
