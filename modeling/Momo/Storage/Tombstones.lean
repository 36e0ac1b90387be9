import Momo.Storage.NameFrame
import Momo.Storage.Refinement

/-! @momo src/storage/gc.go, src/storage/storage.go | scheme:invariant over runs

    Deletes that arrive from peers, against the writes they meet. `ApplyTombstone` compares its
    time with a recorded tombstone only; a write erases the tombstone, and its own time is never
    looked at, so an older remote delete removes a newer write. -/

namespace Momo.CASStore

inductive NameCall
  | put (io : Option Err) (now : Int) (hash : Bytes) (size : Int) (remotePath : Bytes)
      (content : Option Reader)
  | delete (io : Option Err) (now : Int)
  | applyTombstone (io : Option Err) (deletedAt : Int)

/-- A store, the time of the name's latest write with the store it left, and the deletion times. -/
structure Tracked (β : Type) where
  store : CASStore β
  latest : Option (Int × CASStore β) := none
  deletions : List Int := []

section Tracking
variable {β : Type} [BlobStore β]

def trackedStep (name : Bytes) (t : Tracked β) : NameCall → Tracked β
  | .put io now hash size remotePath content =>
    match t.store.put io now name hash size remotePath content with
    | (.ok _, s) => { t with store := s, latest := some (now, s) }
    | (.error _, s) => { t with store := s }
  | .delete io now => { t with store := (t.store.delete io now name).2, deletions := now :: t.deletions }
  | .applyTombstone io deletedAt =>
    { t with
      store := (t.store.applyTombstone io name deletedAt).2, deletions := deletedAt :: t.deletions }

def InOrder (name : Bytes) (t : Tracked β) : NameCall → Prop
  | .put .. => True
  | .delete _ at_ => ∀ m ∈ t.store.db.modTimes.get name, m ≤ at_
  | .applyTombstone _ at_ => ∀ m ∈ t.store.db.modTimes.get name, m ≤ at_

instance (name : Bytes) (t : Tracked β) (c : NameCall) : Decidable (InOrder name t c) := by
  cases c <;> unfold InOrder <;> infer_instance

variable [MapBackend β]

/-- Nothing went since `s₁`; bytes may have come where a record had none. -/
structure Still (s₁ s : CASStore β) : Prop where
  cfg : s.cfg = s₁.cfg
  db : s.db = s₁.db
  bytes : ∀ h, (s₁.db.objects.get h).isSome → s.bytes h = s₁.bytes h ∨ s₁.bytes h = none

variable {s₁ s s' : CASStore β} {name : Bytes}

theorem Still.get_isOk [Sha256] (h : Still s₁ s) (hok : (s₁.get name).1.isOk) : (s.get name).1.isOk := by
  cases hv : s₁.getHashForName name with
  | error e => rw [get_hidden s₁ hv] at hok; cases hok
  | ok hash =>
    have hv' : s.getHashForName name = .ok hash := by rw [← hv, getHashForName, h.db]; rfl
    rw [get_visible s₁ hv] at hok
    rw [get_visible s hv', h.cfg, h.db]
    cases hmeta : fileMetadata s₁.db name hash with
    | error e => rw [hmeta] at hok; revert hok; cases readBlob β s₁.cfg _ hash _ <;> (intro h; cases h)
    | ok m =>
      have hrec : (s₁.db.objects.get hash).isSome := by
        cases hobj : s₁.db.objects.get hash with
        | none => rw [fileMetadata, hobj] at hmeta; cases hmeta
        | some _ => rfl
      rcases h.bytes hash hrec with hb | hb
      · rw [hb, ← hmeta]; exact hok
      · -- a read that found no bytes was served by a fetch, which is still there
        rw [hb, hmeta] at hok
        cases hs : s.bytes hash with
        | none => exact hok
        | some c =>
          by_cases hmark : (s₁.db.quarantine.get hash).isSome
          · simp only [readBlob] at hok ⊢
            split_ifs at hok with hmiss
            · rw [if_pos hmark]; exact hok
            · cases hok
          · simp only [readBlob, if_neg hmark]; rfl

theorem Still.of_put_error {io : Option Err} {now size : Int} {hash remotePath : Bytes}
    {content : Option Reader} {e : Err} (h : Still s₁ s)
    (hput : s.put io now name hash size remotePath content = (.error e, s')) : Still s₁ s' := by
  obtain ⟨hcfg, hdb, hb⟩ := put_error hput
  refine ⟨hcfg.trans h.cfg, hdb.trans h.db, fun x hx => ?_⟩
  rcases h.bytes x hx with hsame | hnone
  swap
  · exact .inr hnone
  rcases hb with hb | hb
  · exact .inl (hb ▸ hsame)
  cases hx₁ : s₁.bytes x with
  | none => exact .inr rfl
  | some c =>
    -- bytes that a record names are not written again
    have hholds : x = hash → s.Holds hash := by
      rintro rfl
      exact ⟨h.db ▸ hx, .inr (by rw [hsame, hx₁]; rfl)⟩
    exact .inl (by rw [hb, SameRead.bytesAfter_eq content hholds, hsame, hx₁])

def LatestKept (name : Bytes) (t : Tracked β) : Prop :=
  ∀ now s₁, t.latest = some (now, s₁) → (∀ d ∈ t.deletions, d < now) →
    t.store.db.modTimes.get name = some now ∧ Still s₁ t.store

theorem newest_of_deletion {t : Tracked β} {at_ : Int} (ht : LatestKept name t)
    (ho : ∀ m ∈ t.store.db.modTimes.get name, m ≤ at_) (s : CASStore β) :
    LatestKept name { t with store := s, deletions := at_ :: t.deletions } := by
  intro now s₁ hl hd
  obtain ⟨hat, hold⟩ := List.forall_mem_cons.mp hd
  exact absurd (ho now (ht now s₁ hl hold).1) (not_le.mpr hat)

/-- Step: the two deletes differ only in what they do to the store. -/
theorem trackedStep_newest {t : Tracked β} {c : NameCall} (ht : LatestKept name t) (hc : InOrder name t c) :
    LatestKept name (trackedStep name t c) := by
  cases c with
  | delete io at_ => exact newest_of_deletion ht hc _
  | applyTombstone io at_ => exact newest_of_deletion ht hc _
  | put io now hash size remotePath content =>
    cases hput : t.store.put io now name hash size remotePath content with
    | mk res s =>
      cases res with
      | ok read =>
        simp only [trackedStep, hput]
        rintro now' s₁ ⟨⟩ -
        exact ⟨by rw [(put_ok hput).2.1.modTimes, Bucket.get_set_self], rfl, rfl, fun _ _ => .inl rfl⟩
      | error e =>
        simp only [trackedStep, hput]
        intro now' s₁ hl hd
        obtain ⟨hmod, hstill⟩ := ht now' s₁ hl hd
        exact ⟨by rw [(put_error hput).2.1, hmod], hstill.of_put_error hput⟩

/-- Correct: in a run whose deletes are never older than the write they meet, a name whose latest
    write is newer than every deletion time reads as it did after that write. -/
theorem newer_write_readable [Sha256] (name : Bytes) (s₀ : CASStore β) (calls : List NameCall)
    (hg : Guarded (trackedStep name) (InOrder name) ⟨s₀, none, []⟩ calls) {now : Int} {s₁ : CASStore β}
    (hl : (run (trackedStep name) ⟨s₀, none, []⟩ calls).latest = some (now, s₁))
    (hd : ∀ d ∈ (run (trackedStep name) ⟨s₀, none, []⟩ calls).deletions, d < now)
    (hok : (s₁.get name).1.isOk) :
    ((run (trackedStep name) ⟨s₀, none, []⟩ calls).store.get name).1.isOk :=
  (run_invariant (LatestKept name) (fun _ _ => trackedStep_newest) (fun _ _ h => by cases h) hg
    now s₁ hl hd).2.get_isOk hok

end Tracking

local instance tombstoneSha : Sha256 := sampleSha

/-- A write at `now`, with a delete that a peer made at 5 and sends before or after it. -/
def tombstoneRun (calls : List NameCall) : Tracked LocalBlobStore :=
  run (trackedStep [97]) ⟨fresh {} {}, none, []⟩ calls

def writeAtTen : NameCall := .put none 10 (hashBytes [97]) 1 [] (some ⟨[97], none⟩)

theorem older_delete_removes : (tombstoneRun [writeAtTen, .applyTombstone none 5]).deletions = [5] ∧
    (tombstoneRun [writeAtTen, .applyTombstone none 5]).latest.map
      (fun l => (l.1, (l.2.get [97]).1.isOk)) = some (10, true) ∧
    ((tombstoneRun [writeAtTen, .applyTombstone none 5]).store.get [97]).1 = .error (.sys .enoent) := by
  decide +kernel

theorem write_after_delete_reads :
    ((tombstoneRun [.applyTombstone none 5, writeAtTen]).store.get [97]).1.isOk := by
  have hlatest : (tombstoneRun [.applyTombstone none 5, writeAtTen]).latest.map
      (fun l => (l.1, (l.2.get [97]).1.isOk)) = some (10, true) := by decide +kernel
  obtain ⟨⟨now, s₁⟩, hl, heq⟩ := Option.map_eq_some_iff.mp hlatest
  obtain ⟨rfl, hok⟩ := Prod.mk.inj heq
  have hg : Guarded (trackedStep [97]) (InOrder [97]) ⟨fresh {} ({} : LocalBlobStore), none, []⟩
      [.applyTombstone none 5, writeAtTen] := by decide +kernel
  have hd : ∀ d ∈ (tombstoneRun [.applyTombstone none 5, writeAtTen]).deletions, d < 10 := by
    decide +kernel
  exact newer_write_readable [97] _ _ hg hl hd hok

end Momo.CASStore
