import Momo.Storage.Meta
import Momo.Schemes.ByteFile
import Momo.Schemes.Run

/-! @momo src/storage/raw_blobstore.go | scheme:bump allocator, invariant over runs

    `RawBlobStore` gives each blob a contiguous region of one device, past every region handed out
    before, and keeps hash → (offset, length) in a database. The next free offset is only in memory;
    a restart takes it from the largest end in the table. -/

namespace Momo

structure RawAlloc where
  offset : Nat
  length : Nat
  deriving DecidableEq

structure RawBlobStore where
  device : Bytes := []
  alloc : Bucket RawAlloc := Bucket.empty
  nextOffset : Nat := 0

namespace RawBlobStore

def maxInt64 : Nat := 2 ^ 63 - 1

/-- What one entry adds to the scan of `NewRawBlobStore`. -/
def scanEnd (a : RawAlloc) : Nat :=
  if 0 < a.offset ∧ 0 < a.length ∧ a.offset + a.length ≤ maxInt64 then a.offset + a.length else 0

/-- `Close`, then `NewRawBlobStore` on the same device and table. -/
def reopen (s : RawBlobStore) : RawBlobStore :=
  { s with nextOffset := s.alloc.map.maxOver (fun _ a => scanEnd a) }

def traversalErr : Err :=
  .wrap "raw: invalid hash contains path traversal characters: %w" [] (.sys .einval)

/-- A hash in the table is left alone without reading the content; otherwise at most `MaxFileSize +
    1` bytes go to the device before the size is judged. -/
def putBlob (s : RawBlobStore) (hash : Bytes) (content : Reader) : Except Err Unit × RawBlobStore :=
  if hasPathTraversalChars hash then (.error traversalErr, s)
  else if (s.alloc.get hash).isSome then (.ok (), s)
  else if maxInt64 - maxFileSize < s.nextOffset then
    (.error (.wrap "raw: offset %d would overflow with MaxFileSize %d: %w"
      [.num s.nextOffset, .num maxFileSize] (.sys .eio)), s)
  else
    let limited := content.limit (maxFileSize + 1)
    let s' := { s with device := writeAt 0 s.device s.nextOffset limited.data }
    match limited.fault with
    | some _ => (.error (.wrap "raw: failed to read content: %w" [] (.sys .eio)), s')
    | none =>
      let totalWritten := limited.data.length
      if maxFileSize < totalWritten then
        (.error (.wrap "raw: blob exceeds MaxFileSize (%d bytes): %w" [.num maxFileSize]
          (.sys .efbig)), s')
      else if maxInt64 - totalWritten < s.nextOffset then
        (.error (.wrap "raw: offset overflow: %d + %d exceeds MaxInt64: %w"
          [.num s.nextOffset, .num totalWritten] (.sys .eio)), s')
      else match s.alloc.put hash ⟨s.nextOffset, totalWritten⟩ with
        | .error _ => (.error (.wrap "raw: failed to record allocation: %w" [] (.sys .eio)), s')
        | .ok alloc =>
          (.ok (), { s' with alloc := alloc, nextOffset := s.nextOffset + totalWritten })

/-- A section of the device; a length of 0 is refused like an oversized one. -/
def getBlob (s : RawBlobStore) (hash : Bytes) : Except Err Reader :=
  if hasPathTraversalChars hash then .error traversalErr
  else match s.alloc.get hash with
    | none => .error (.sys .enoent)
    | some a =>
      if a.length ≤ 0 ∨ maxFileSize < a.length then
        .error (.wrap "raw: invalid blob length %d in alloc table: %w" [.num a.length] (.sys .eio))
      else .ok ⟨(s.device.drop a.offset).take a.length, none⟩

def deleteBlob (s : RawBlobStore) (hash : Bytes) : Except Err Unit × RawBlobStore :=
  if hasPathTraversalChars hash then (.error traversalErr, s)
  else (.ok (), { s with alloc := s.alloc.del hash })

/-! ### Runs -/

inductive Op
  | put (hash : Bytes) (content : Reader)
  | get (hash : Bytes)
  | delete (hash : Bytes)
  | reopen

structure Traced where
  store : RawBlobStore
  live : Bytes → Option Bytes

def step (t : Traced) : Op → Traced
  | .put hash content =>
    match t.store.putBlob hash content with
    | (.ok _, s) =>
      ⟨s, if (t.store.alloc.get hash).isSome then t.live
        else Function.update t.live hash (some content.data)⟩
    | (.error _, s) => ⟨s, t.live⟩
  | .get _ => t
  | .delete hash =>
    match t.store.deleteBlob hash with
    | (.ok _, s) => ⟨s, Function.update t.live hash none⟩
    | (.error _, s) => ⟨s, t.live⟩
  | .reopen => ⟨t.store.reopen, t.live⟩

structure Held (s : RawBlobStore) (h : Bytes) (a : RawAlloc) (c : Bytes) : Prop where
  hashOk : hasPathTraversalChars h = false
  length : a.length = c.length
  nonempty : c ≠ []
  bounded : c.length ≤ maxFileSize
  inRange : a.offset + a.length ≤ maxInt64
  below : a.offset + a.length ≤ s.nextOffset
  data : HasAt s.device a.offset c

structure Inv (s : RawBlobStore) (live : Bytes → Option Bytes) : Prop where
  dead : ∀ h, live h = none → s.alloc.get h = none
  held : ∀ h c, live h = some c → ∃ a, s.alloc.get h = some a ∧ Held s h a c
  apart : ∀ h h' a a', s.alloc.get h = some a → s.alloc.get h' = some a' → h ≠ h' →
    Disjoint2 a.offset a.length a'.offset a'.length

variable {s : RawBlobStore} {live : Bytes → Option Bytes} {h : Bytes}

theorem Inv.of_alloc (hi : Inv s live) {a : RawAlloc} (ha : s.alloc.get h = some a) :
    ∃ c, live h = some c ∧ Held s h a c := by
  cases hl : live h with
  | none => rw [hi.dead h hl] at ha; cases ha
  | some c =>
    obtain ⟨a', ha', hheld⟩ := hi.held h c hl
    obtain rfl : a = a' := Option.some.inj (ha ▸ ha')
    exact ⟨c, rfl, hheld⟩

variable {c : Bytes}

theorem Inv.getBlob (hi : Inv s live) (hl : live h = some c) : s.getBlob h = .ok ⟨c, none⟩ := by
  obtain ⟨a, ha, hheld⟩ := hi.held h c hl
  have hpos : 0 < c.length := List.length_pos_iff.mpr hheld.nonempty
  have hno : ¬ (c.length ≤ 0 ∨ maxFileSize < c.length) := by
    have := hheld.bounded
    omega
  have hread := hheld.data.readAt
  rw [readAt, if_neg (by omega), if_pos (hheld.data.le_length hheld.nonempty)] at hread
  simp only [RawBlobStore.getBlob, hheld.hashOk, ha, hheld.length, if_neg hno,
    Option.some.inj hread, Bool.false_eq_true, if_false]

theorem Held.writeAt {a : RawAlloc} (hh : Held s h a c) (d : Bytes) :
    HasAt (Momo.writeAt 0 s.device s.nextOffset d) a.offset c :=
  hh.data.writeAt 0 (Or.inl (by rw [← hh.length]; exact hh.below))

theorem inv_write (hi : Inv s live) (d : Bytes) :
    Inv { s with device := Momo.writeAt 0 s.device s.nextOffset d } live := by
  refine ⟨hi.dead, fun h c hl => ?_, hi.apart⟩
  obtain ⟨a, ha, hh⟩ := hi.held h c hl
  exact ⟨a, ha, hh.hashOk, hh.length, hh.nonempty, hh.bounded, hh.inRange, hh.below, hh.writeAt d⟩

theorem inv_alloc (hi : Inv s live) {hash : Bytes} (hk : KeyOk hash)
    (hh : hasPathTraversalChars hash = false) (hne : c ≠ []) (hmax : c.length ≤ maxFileSize)
    (hoff : s.nextOffset + c.length ≤ maxInt64) :
    Inv { s with
        device := Momo.writeAt 0 s.device s.nextOffset c
        alloc := s.alloc.set hash hk ⟨s.nextOffset, c.length⟩
        nextOffset := s.nextOffset + c.length }
      (Function.update live hash (some c)) := by
  refine ⟨fun h hl => ?_, fun h c' hl => ?_, fun h h' a a' ha ha' hne' => ?_⟩
  · by_cases he : h = hash
    · subst he; simp at hl
    · rw [Function.update_of_ne he] at hl
      rw [Bucket.get_set_ne _ _ _ he]
      exact hi.dead h hl
  · by_cases he : h = hash
    · subst he
      rw [Function.update_self] at hl
      obtain rfl := Option.some.inj hl
      exact ⟨_, Bucket.get_set_self _ _ hk _, hh, rfl, hne, hmax, hoff, le_rfl,
        hasAt_writeAt 0 _ _ _⟩
    · rw [Function.update_of_ne he] at hl
      obtain ⟨a, ha, hheld⟩ := hi.held h c' hl
      exact ⟨a, by rw [Bucket.get_set_ne _ _ _ he]; exact ha, hheld.hashOk, hheld.length,
        hheld.nonempty, hheld.bounded, hheld.inRange, hheld.below.trans (Nat.le_add_right _ _),
        hheld.writeAt c⟩
  · -- an older entry ends at or before the old bump pointer, where the new one starts
    have hold : ∀ h a, s.alloc.get h = some a → a.offset + a.length ≤ s.nextOffset := by
      intro h a ha
      obtain ⟨_, -, hheld⟩ := hi.of_alloc ha
      exact hheld.below
    simp only [Bucket.get_set] at ha ha'
    split_ifs at ha ha' with h1 h2 h2
    · exact absurd (h1.trans h2.symm) hne'
    · obtain rfl := Option.some.inj ha
      exact Or.inr (hold h' a' ha')
    · obtain rfl := Option.some.inj ha'
      exact Or.inl (hold h a ha)
    · exact hi.apart h h' a a' ha ha' hne'

/-- A put that creates an entry does so with bytes; a reopen that finds a blob at offset 0 also
    finds one past it. -/
def Safe (t : Traced) : Op → Prop
  | .put hash content =>
    hasPathTraversalChars hash = false → (t.store.alloc.get hash).isSome = false → KeyOk hash →
      content.fault = none → content.data ≠ []
  | .reopen =>
    (∃ e ∈ t.store.alloc.map.entries, e.2.offset = 0) →
      ∃ e ∈ t.store.alloc.map.entries, e.2.offset ≠ 0
  | _ => True

instance (t : Traced) (o : Op) : Decidable (Safe t o) := by
  cases o <;> unfold Safe <;> infer_instance

theorem limit_whole {r : Reader} {n : Nat} (hf : (r.limit (n + 1)).fault = none)
    (hlen : (r.limit (n + 1)).data.length ≤ n) :
    (r.limit (n + 1)).data = r.data ∧ r.fault = none := by
  have hn : ((n : Int) + 1).toNat = n + 1 := by omega
  simp only [Reader.limit, hn, List.length_take] at hf hlen ⊢
  have hshort : r.data.length < n + 1 := by omega
  rw [if_pos (by exact_mod_cast hshort)] at hf
  exact ⟨List.take_of_length_le (by omega), hf⟩

theorem inv_put {s' : RawBlobStore} (hi : Inv s live) {hash : Bytes} {content : Reader}
    {res : Except Err Unit} (ho : Safe ⟨s, live⟩ (.put hash content))
    (hput : s.putBlob hash content = (res, s')) :
    (∀ e, res = .error e → Inv s' live) ∧
      (res = .ok () → Inv s' (if (s.alloc.get hash).isSome then live
        else Function.update live hash (some content.data))) := by
  unfold putBlob at hput
  split_ifs at hput with hh hex hoff
  · obtain ⟨rfl, rfl⟩ := Prod.mk.inj hput
    exact ⟨fun _ _ => hi, fun h => (by cases h)⟩
  · obtain ⟨rfl, rfl⟩ := Prod.mk.inj hput
    exact ⟨fun _ h => (by cases h), fun _ => by rw [if_pos hex]; exact hi⟩
  · obtain ⟨rfl, rfl⟩ := Prod.mk.inj hput
    exact ⟨fun _ _ => hi, fun h => (by cases h)⟩
  have hw := inv_write hi (content.limit (maxFileSize + 1)).data
  simp only at hput
  split at hput
  · obtain ⟨rfl, rfl⟩ := Prod.mk.inj hput
    exact ⟨fun _ _ => hw, fun h => (by cases h)⟩
  rename_i hf
  split_ifs at hput with hbig hover
  · obtain ⟨rfl, rfl⟩ := Prod.mk.inj hput
    exact ⟨fun _ _ => hw, fun h => (by cases h)⟩
  · obtain ⟨rfl, rfl⟩ := Prod.mk.inj hput
    exact ⟨fun _ _ => hw, fun h => (by cases h)⟩
  split at hput
  · obtain ⟨rfl, rfl⟩ := Prod.mk.inj hput
    exact ⟨fun _ _ => hw, fun h => (by cases h)⟩
  · rename_i alloc halloc
    obtain ⟨rfl, rfl⟩ := Prod.mk.inj hput
    obtain ⟨hk, rfl⟩ := Bucket.put_eq_ok.mp halloc
    obtain ⟨hdata, hfault⟩ := limit_whole hf (not_lt.mp hbig)
    rw [Bool.not_eq_true] at hh hex
    refine ⟨fun _ h => (by cases h), fun _ => ?_⟩
    rw [if_neg (by rw [hex]; simp)]
    have hlen : content.data.length ≤ maxFileSize := by
      have := not_lt.mp hbig
      rwa [hdata] at this
    have hbound : s.nextOffset + content.data.length ≤ maxInt64 := by
      have : maxFileSize ≤ maxInt64 := by decide
      omega
    rw [hdata]
    exact inv_alloc hi hk hh (ho hh hex hk hfault) hlen hbound

theorem inv_delete (hi : Inv s live) (hash : Bytes) :
    Inv { s with alloc := s.alloc.del hash } (Function.update live hash none) := by
  refine ⟨fun h hl => ?_, fun h c hl => ?_, fun h h' a a' ha ha' hne => ?_⟩
  · by_cases he : h = hash
    · subst he; exact Bucket.get_del_self ..
    · rw [Function.update_of_ne he] at hl
      rw [Bucket.get_del_ne _ he]
      exact hi.dead h hl
  · by_cases he : h = hash
    · subst he; simp at hl
    · rw [Function.update_of_ne he] at hl
      obtain ⟨a, ha, hheld⟩ := hi.held h c hl
      exact ⟨a, by rw [Bucket.get_del_ne _ he]; exact ha, hheld.hashOk, hheld.length,
        hheld.nonempty, hheld.bounded, hheld.inRange, hheld.below, hheld.data⟩
  · exact hi.apart h h' a a' (Bucket.get_of_get_del ha) (Bucket.get_of_get_del ha') hne

theorem inv_reopen (hi : Inv s live) (ho : Safe ⟨s, live⟩ .reopen) : Inv s.reopen live := by
  have hscan : ∀ h a, s.alloc.get h = some a → 0 < a.offset →
      a.offset + a.length ≤ s.alloc.map.maxOver (fun _ a => scanEnd a) := by
    intro h a ha hpos
    obtain ⟨c, -, hheld⟩ := hi.of_alloc ha
    have hlen : 0 < a.length := by
      rw [hheld.length]; exact List.length_pos_iff.mpr hheld.nonempty
    have hle := OMap.le_maxOver (fun (_ : Bytes) a => scanEnd a) ha
    rwa [scanEnd, if_pos ⟨hpos, hlen, hheld.inRange⟩] at hle
  refine ⟨hi.dead, fun h c hl => ?_, hi.apart⟩
  obtain ⟨a, ha, hheld⟩ := hi.held h c hl
  refine ⟨a, ha, hheld.hashOk, hheld.length, hheld.nonempty, hheld.bounded, hheld.inRange, ?_,
    hheld.data⟩
  rcases Nat.eq_zero_or_pos a.offset with hz | hpos
  · -- the blob at offset 0 ends where some blob past it starts
    obtain ⟨⟨h', a'⟩, hmem, hne⟩ := ho ⟨(h, a), (OMap.mem_entries _).mpr ha, hz⟩
    have ha' : s.alloc.get h' = some a' := (OMap.mem_entries _).mp hmem
    simp only at hne
    have hdiff : h ≠ h' := by
      rintro rfl
      obtain rfl : a = a' := Option.some.inj (ha ▸ ha')
      exact hne hz
    have hle := hscan h' a' ha' (Nat.pos_of_ne_zero hne)
    have hdis := hi.apart h h' a a' ha ha' hdiff
    simp only [Disjoint2] at hdis
    simp only [reopen]
    omega
  · exact hscan h a ha hpos

theorem inv_step {t : Traced} (o : Op) (hi : Inv t.store t.live) (ho : Safe t o) :
    Inv (step t o).store (step t o).live := by
  cases o with
  | put hash content =>
    obtain ⟨⟨res, s'⟩, hput⟩ : ∃ r, t.store.putBlob hash content = r := ⟨_, rfl⟩
    obtain ⟨herr, hok⟩ := inv_put hi ho hput
    simp only [step, hput]
    cases res with
    | error e => exact herr e rfl
    | ok u => exact hok rfl
  | get hash => exact hi
  | delete hash =>
    simp only [step, deleteBlob]
    split_ifs
    · exact hi
    · exact inv_delete hi hash
  | reopen => exact inv_reopen hi ho

def start (device : Bytes) : Traced := ⟨{ device := device }, fun _ => none⟩

theorem inv_start (device : Bytes) : Inv (start device).store (start device).live :=
  ⟨fun _ _ => rfl, fun _ _ h => (by cases h), fun _ _ _ _ h => (by cases h)⟩

/-- CORRECT: in every run of safe calls on a device with an empty table, the live entries are apart
    and end at or before the bump pointer, and each reads back the content it was created with. -/
theorem raw_after_run (device : Bytes) {ops : List Op} (hg : Guarded step Safe (start device) ops) :
    (∀ h h' a a', (run step (start device) ops).store.alloc.get h = some a →
      (run step (start device) ops).store.alloc.get h' = some a' → h ≠ h' →
      Disjoint2 a.offset a.length a'.offset a'.length) ∧
    (∀ h a, (run step (start device) ops).store.alloc.get h = some a →
      a.offset + a.length ≤ (run step (start device) ops).store.nextOffset ∧
      ∃ c, (run step (start device) ops).live h = some c ∧
        (run step (start device) ops).store.getBlob h = .ok ⟨c, none⟩) := by
  have hi : Inv (run step (start device) ops).store (run step (start device) ops).live :=
    run_invariant (fun t => Inv t.store t.live) (fun t o hi ho => inv_step o hi ho)
      (inv_start device) hg
  refine ⟨hi.apart, fun h a ha => ?_⟩
  obtain ⟨c, hl, hheld⟩ := hi.of_alloc ha
  exact ⟨hheld.below, c, hl, hi.getBlob hl⟩

def twoPuts : List Op :=
  [.put [97] ⟨[1, 2], none⟩, .put [98] ⟨[3], none⟩, .reopen, .delete [97], .put [97] ⟨[4], none⟩]

theorem raw_after_twoPuts :
    Guarded step Safe (start []) twoPuts ∧
    ∀ h a, (run step (start []) twoPuts).store.alloc.get h = some a →
      ∃ c, (run step (start []) twoPuts).live h = some c ∧
        (run step (start []) twoPuts).store.getBlob h = .ok ⟨c, none⟩ := by
  have hg : Guarded step Safe (start []) twoPuts := by decide +kernel
  exact ⟨hg, fun h a ha => ((raw_after_run [] hg).2 h a ha).2⟩

def reusedRun : Traced :=
  run step (start []) [.put [97] ⟨[1, 2], none⟩, .reopen, .put [98] ⟨[3, 4], none⟩]

def emptyRun : Traced := run step (start []) [.put [97] ⟨[], none⟩]

/-- The two ways the promise fails: overlapping entries after a reopen, where the first blob reads
    the second one's bytes, and an empty blob that cannot be read. -/
theorem raw_overlap_and_empty :
    reusedRun.store.alloc.get [97] = some ⟨0, 2⟩ ∧ reusedRun.store.alloc.get [98] = some ⟨0, 2⟩ ∧
    ¬ Disjoint2 0 2 0 2 ∧
    reusedRun.live [97] = some [1, 2] ∧ reusedRun.store.getBlob [97] = .ok ⟨[3, 4], none⟩ ∧
    emptyRun.live [97] = some [] ∧
    emptyRun.store.getBlob [97] =
      .error (.wrap "raw: invalid blob length %d in alloc table: %w" [.num 0] (.sys .eio)) := by
  decide +kernel

end RawBlobStore

end Momo
