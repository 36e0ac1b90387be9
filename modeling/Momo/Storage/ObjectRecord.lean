import Momo.Common.Strconv
import Momo.Schemes.Framing
import Momo.Storage.Refinement

/-! @momo src/storage/storage.go | scheme:record codec, merge over runs

    The record of a content hash, as its bytes and over writes. `decodeObjectMeta` tells three formats
    apart, the oldest one by trying to read the whole record as a decimal numeral; a record made of
    ASCII digits throughout is taken for one. And a write that carries a longer vector clock starts
    the stored one anew before it takes the maximum. -/

namespace Momo

open Framing

/-! ### The bytes of a record -/

def int64At (b : Bytes) : Int := Int.bmod (beGet b) (2 ^ 64)

def truncated (what : String) : Err := .wrap ("truncated " ++ what ++ ": %w") [] (.sys .ebadmsg)

def readSections (m : ObjectMeta) : Prog Bytes Err ObjectMeta := do
  let vcLen ← number (truncated "vector clock length") 4
  let clock ← many (fun _ => number (truncated "vector clock data") 8) 0 vcLen
  let skLen ← number (truncated "shard key length") 4
  let shardKey ← take (truncated "shard key data") skLen
  let mrLen ← number (truncated "replica count") 4
  let replicas ← many (fun _ => number (truncated "replica data") 4) 0 mrLen
  return { m with
    vectorClock := clock.map UInt64.ofNat
    shardKey := shardKey
    metadataReplicas := replicas.map fun v => (UInt32.ofNat v).toInt32 }

def decodeObjectMeta (val : Bytes) : Except Err ObjectMeta :=
  let m : ObjectMeta :=
    { size := int64At (val.take 8), refCount := int64At ((val.drop 8).take 8)
      deletedAt := int64At ((val.drop 16).take 8) }
  if val.length = 24 then .ok m
  else
    match parseInt decimalDigit 10 64 val with
    | some size => .ok { size := size, refCount := 1 }
    | none =>
      if val.length < 24 then
        .error (.wrap "object metadata too short (%d bytes): %w" [.num val.length] (.sys .ebadmsg))
      else (readSections m (val.drop 24)).1

/-- The words are `int64` values, and the lengths fit their fields. -/
structure ObjectMeta.Sized (m : ObjectMeta) : Prop where
  size : -2 ^ 63 ≤ m.size ∧ m.size < 2 ^ 63
  refCount : -2 ^ 63 ≤ m.refCount ∧ m.refCount < 2 ^ 63
  deletedAt : -2 ^ 63 ≤ m.deletedAt ∧ m.deletedAt < 2 ^ 63
  vectorClock : m.vectorClock.length < 2 ^ 32
  shardKey : m.shardKey.length < 2 ^ 32
  metadataReplicas : m.metadataReplicas.length < 2 ^ 32

theorem bmod_int64 {x : Int} (h : -2 ^ 63 ≤ x ∧ x < 2 ^ 63) : Int.bmod (x % 2 ^ 64) (2 ^ 64) = x := by
  rw [show (2 : Int) ^ 64 = ((2 ^ 64 : ℕ) : Int) by norm_num, Int.emod_bmod]
  exact Int.bmod_eq_of_le (by norm_num; omega) (by norm_num; omega)

theorem int64At_bePut {x : Int} (h : -2 ^ 63 ≤ x ∧ x < 2 ^ 63) :
    int64At (bePut 8 (int64Bits x)) = x := by
  have hpow : (256 : ℕ) ^ 8 = 2 ^ 64 := by norm_num
  have hbits : (((x % 2 ^ 64).toNat % 2 ^ 64 : ℕ) : Int) = x % 2 ^ 64 := by omega
  calc int64At (bePut 8 (int64Bits x))
      = Int.bmod (((x % 2 ^ 64).toNat % 256 ^ 8 : ℕ) : Int) (2 ^ 64) :=
        congrArg (fun n : ℕ => Int.bmod n (2 ^ 64)) (beGet_bePut 8 _)
    _ = x := by rw [hpow, hbits, bmod_int64 h]

def ObjectMeta.sections (m : ObjectMeta) : Bytes :=
  bePut 4 m.vectorClock.length ++ (m.vectorClock.flatMap (fun v => bePut 8 v.toNat) ++
    (bePut 4 m.shardKey.length ++ (m.shardKey ++ (bePut 4 m.metadataReplicas.length ++
      m.metadataReplicas.flatMap fun v => bePut 4 v.toUInt32.toNat))))

theorem ObjectMeta.encode_eq (m : ObjectMeta) : m.encode = bePut 8 (int64Bits m.size) ++
    (bePut 8 (int64Bits m.refCount) ++ (bePut 8 (int64Bits m.deletedAt) ++ m.sections)) := by
  simp only [encode, sections, List.append_assoc]

theorem readSections_sections {m words : ObjectMeta} (h : m.Sized) :
    readSections words m.sections = (.ok { words with
      vectorClock := m.vectorClock, shardKey := m.shardKey, metadataReplicas := m.metadataReplicas }, []) := by
  have hclock : (m.vectorClock.map UInt64.toNat).map UInt64.ofNat = m.vectorClock := by
    rw [List.map_map]
    exact (List.map_congr_left fun v _ => UInt64.ofNat_toNat).trans (List.map_id _)
  have hreplicas : (m.metadataReplicas.map fun v => v.toUInt32.toNat).map
      (fun v => (UInt32.ofNat v).toInt32) = m.metadataReplicas := by
    rw [List.map_map]
    refine (List.map_congr_left fun v _ => ?_).trans (List.map_id _)
    change (UInt32.ofNat v.toUInt32.toNat).toInt32 = v
    rw [UInt32.ofNat_toNat]
    rfl
  have hend := @many_flatMap Err _ _ [] (fun _ => number (truncated "replica data") 4)
    (fun v : Int32 => bePut 4 v.toUInt32.toNat) _ m.metadataReplicas
    (fun _ v _ rest => number_bePut v.toUInt32.toNat_lt) 0
  rw [List.append_nil] at hend
  rw [readSections, ObjectMeta.sections, Prog.bind_of_ok (number_bePut h.vectorClock),
    Prog.bind_of_ok (many_flatMap (fun _ v _ rest => number_bePut v.toNat_lt) 0),
    Prog.bind_of_ok (number_bePut h.shardKey), Prog.bind_of_ok (take_append rfl),
    Prog.bind_of_ok (number_bePut h.metadataReplicas), Prog.bind_of_ok hend, hclock, hreplicas]
  rfl

theorem parseInt_eq_none_of_zero {s : Bytes} (h : 0 ∈ s.drop 1) : parseInt decimalDigit 10 64 s = none := by
  rcases hp : parseInt decimalDigit 10 64 s with _ | v
  · rfl
  · simp only [parseInt] at hp
    split_ifs at hp with hsign
    all_goals
      obtain ⟨n, hn, -⟩ := Option.bind_eq_some_iff.mp hp
      exact absurd (digitsValue_digit hn 0 (by first | exact h | exact List.mem_of_mem_drop h))
        (by decide)

theorem drop_two {x y : Bytes} (z : Bytes) (hx : x.length = 8) (hy : y.length = 8) :
    (x ++ (y ++ z)).drop 16 = z := by
  rw [show 16 = 8 + 8 from rfl, ← List.drop_drop, List.drop_left' hx, List.drop_left' hy]

theorem drop_three {w x y : Bytes} (z : Bytes) (hw : w.length = 8) (hx : x.length = 8)
    (hy : y.length = 8) : (w ++ (x ++ (y ++ z))).drop 24 = z := by
  rw [show 24 = 8 + 16 from rfl, ← List.drop_drop, List.drop_left' hw, drop_two z hx hy]

theorem decodeObjectMeta_encode {m : ObjectMeta} (h : m.Sized)
    (hp : parseInt decimalDigit 10 64 m.encode = none) : decodeObjectMeta m.encode = .ok m := by
  have hlen := m.encode_length_ge
  have hword : ∀ n : ℕ, (bePut 8 n).length = 8 := fun n => length_bePut 8 n
  simp only [decodeObjectMeta, if_neg (show ¬ m.encode.length = 24 by omega), hp,
    if_neg (show ¬ m.encode.length < 24 by omega)]
  simp only [m.encode_eq, List.take_left' (hword _), List.drop_left' (hword _),
    drop_two _ (hword _) (hword _), drop_three _ (hword _) (hword _) (hword _), int64At_bePut h.size,
    int64At_bePut h.refCount, int64At_bePut h.deletedAt, readSections_sections h]

theorem decodeObjectMeta_numeral {m : ObjectMeta} {v : Int}
    (hp : parseInt decimalDigit 10 64 m.encode = some v) : decodeObjectMeta m.encode ≠ .ok m := by
  intro hdec
  have hlen := m.encode_length_ge
  simp only [decodeObjectMeta, if_neg (show ¬ m.encode.length = 24 by omega), hp,
    Except.ok.injEq] at hdec
  have hone : m.refCount = 1 := by rw [← hdec]
  rw [m.encode_eq, hone, parseInt_eq_none_of_zero] at hp
  · cases hp
  · rw [List.drop_append_of_le_length (by rw [length_bePut]; decide)]
    exact List.mem_append_right _ (List.mem_append_left _ (by decide))

/-- A record with `k` values in each section, spelled in the digit zero. -/
def zeros (k : ℕ) : ObjectMeta :=
  ⟨0x3030303030303030, 0x3030303030303030, 0x3030303030303030, List.replicate k 0x3030303030303030,
    List.replicate k 48, List.replicate k 0x30303030⟩

theorem flatMap_replicate {α : Type} (k w : ℕ) (a : α) (enc : α → Bytes)
    (h : enc a = List.replicate w 48) :
    (List.replicate k a).flatMap enc = List.replicate (k * w) 48 := by
  rw [List.flatMap_replicate, h, List.flatten_replicate_replicate]

theorem parseInt_zeros (n : ℕ) : parseInt decimalDigit 10 64 (List.replicate (n + 1) 48) = some 0 := by
  have hvalue : ∀ n, digitsValue decimalDigit 10 0 (List.replicate n 48) = some 0 := fun n => by
    induction n with
    | zero => rfl
    | succ n ih => exact ih
  rw [parseInt_digits (by decide) (by decide) (by simp) (hvalue _)]
  rfl

theorem encode_zeros {k : ℕ} (hk : bePut 4 k = List.replicate 4 48) :
    ∃ n, (zeros k).encode = List.replicate (n + 1) 48 := by
  have hword : bePut 8 (int64Bits 0x3030303030303030) = List.replicate 8 48 := by decide
  refine ⟨35 + (k * 8 + (k + k * 4)), ?_⟩
  simp only [zeros, ObjectMeta.encode, List.length_replicate, hk, hword,
    flatMap_replicate k 8 0x3030303030303030 (fun v : UInt64 => bePut 8 v.toNat) (by decide),
    flatMap_replicate k 4 0x30303030 (fun v : Int32 => bePut 4 v.toUInt32.toNat) (by decide),
    ← List.replicate_add]
  congr 1
  omega

namespace CASStore

def clockAt (clock : List UInt64) (i : ℕ) : ℕ := (clock[i]?.map UInt64.toNat).getD 0

def greatest (clocks : List (List UInt64)) (i : ℕ) : ℕ := clocks.foldr (fun c => max (clockAt c i)) 0

structure HashPut where
  io : Option Err := none
  now : Int := 0
  name : Bytes
  size : Int := 0
  remotePath : Bytes := []
  content : Option Reader := none
  fields : PutFields

structure Clocked (β : Type) where
  store : CASStore β
  given : List (List UInt64) := []

section Clocks
variable {β : Type} [BlobStore β] [MapBackend β] {hash : Bytes} {t : Clocked β} {c : HashPut}

def clockedStep (hash : Bytes) (t : Clocked β) (c : HashPut) : Clocked β :=
  match t.store.putWithMetadata c.io c.now c.name hash c.size c.remotePath c.content c.fields with
  | (.ok _, s) => ⟨s, c.fields.vectorClock :: t.given⟩
  | (.error _, s) => ⟨s, t.given⟩

/-- The stored record reads back from its bytes, and the new clock is no longer than the stored one
    or nowhere behind it. -/
def Mergeable (hash : Bytes) (t : Clocked β) (c : HashPut) : Prop :=
  ∀ m, t.store.db.objects.get hash = some m → decodeObjectMeta m.encode = .ok m ∧
    (c.fields.vectorClock.length ≤ m.vectorClock.length ∨
      ∀ i < m.vectorClock.length, clockAt m.vectorClock i ≤ clockAt c.fields.vectorClock i)

@[simp] theorem clockAt_nil (i : ℕ) : clockAt [] i = 0 := by simp [clockAt]

theorem clockAt_beyond {clock : List UInt64} {i : ℕ} (h : clock.length ≤ i) : clockAt clock i = 0 := by
  simp [clockAt, List.getElem?_eq_none h]

theorem clockAt_zipWith (new base : List UInt64) (i : ℕ) (h : new.length ≤ base.length) :
    clockAt (List.zipWith (fun a b => if b > a then b else a) base new ++ base.drop new.length) i =
      max (clockAt base i) (clockAt new i) := by
  induction new generalizing base i with
  | nil => simp
  | cons b new ih =>
    cases base with
    | nil => simp at h
    | cons a base =>
      cases i with
      | zero =>
        simp only [clockAt, List.zipWith_cons_cons, List.cons_append, List.getElem?_cons_zero,
          Option.map_some, Option.getD_some, gt_iff_lt, UInt64.lt_iff_toNat_lt]
        split_ifs <;> omega
      | succ i => exact ih base i (by simpa using h)

theorem clockAt_mergeClock {old new : List UInt64} (h : new.length ≤ old.length ∨
    ∀ i < old.length, clockAt old i ≤ clockAt new i) (i : ℕ) :
    clockAt (mergeClock old new) i = max (clockAt old i) (clockAt new i) := by
  unfold mergeClock
  by_cases hlong : old.length < new.length
  · have hbehind : clockAt old i ≤ clockAt new i := by
      by_cases hi : i < old.length
      · exact h.resolve_left (by omega) i hi
      · simp [clockAt_beyond (not_lt.mp hi)]
    have hzero : clockAt (List.replicate new.length 0) i = 0 := by
      simp only [clockAt, List.getElem?_replicate]
      split_ifs <;> rfl
    simp only [if_pos hlong, clockAt_zipWith new _ i (by simp : _ ≤ (List.replicate new.length _).length),
      hzero, max_eq_right hbehind, Nat.zero_max]
  · simp only [if_neg hlong, clockAt_zipWith new old i (by omega)]

theorem clockedStep_greatest (h : ∀ m, t.store.db.objects.get hash = some m →
      ∀ i, clockAt m.vectorClock i = greatest t.given i)
    (hnone : t.store.db.objects.get hash = none → t.given = []) (hc : Mergeable hash t c) :
    (∀ m, (clockedStep hash t c).store.db.objects.get hash = some m →
      ∀ i, clockAt m.vectorClock i = greatest (clockedStep hash t c).given i) ∧
    ((clockedStep hash t c).store.db.objects.get hash = none → (clockedStep hash t c).given = []) := by
  unfold clockedStep
  obtain ⟨⟨res, s⟩, hput⟩ : ∃ r, t.store.putWithMetadata c.io c.now c.name hash c.size c.remotePath
    c.content c.fields = r := ⟨_, rfl⟩
  rw [hput]
  cases res with
  | error e => simpa only [(put_error hput).2.1] using ⟨h, hnone⟩
  | ok read =>
    obtain ⟨-, hw, -⟩ := put_ok hput
    simp only [hw.objects, Bucket.get_set_self, reduceCtorEq, false_implies, and_true, Option.some.injEq,
      forall_eq']
    intro i
    cases hm : t.store.db.objects.get hash with
    | none => simp [putMeta, greatest, hnone hm]
    | some m =>
      show clockAt (if _ then _ else _) i = max _ (greatest t.given i)
      rw [← h m hm i]
      split_ifs with hempty
      · simp [hempty]
      · rw [clockAt_mergeClock (hc m hm).2, max_comm]

end Clocks

def twoPuts (first second : List UInt64) : List HashPut :=
  [⟨none, 0, [97], 0, [], none, ⟨first, [], []⟩⟩, ⟨none, 0, [98], 0, [], none, ⟨second, [], []⟩⟩]

def clocked (puts : List HashPut) : Clocked LocalBlobStore :=
  run (clockedStep [104]) ⟨fresh {} {}, []⟩ puts

end CASStore

end Momo
