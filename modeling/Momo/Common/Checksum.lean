import Momo.Common.Base

/-! @momo src/common/checksum.go | scheme:one digest per name, fed once per mention

    The additive checksums of a stream. A set keeps one hasher per algorithm and the algorithms in
    the order they were named; every write goes to the hasher of each name in that order, so an
    algorithm that is named twice sees every write twice. -/

namespace Momo

inductive ChecksumAlgorithm
  | crc32c | crc32 | sha1 | sha256
  deriving DecidableEq

/-- The base64 texts of the digests. -/
class ChecksumDigest where
  digest : ChecksumAlgorithm → Bytes → Bytes

/-- `ChecksumRef`; the algorithm is `none` for a text that is none of the four. -/
structure ChecksumRef where
  algorithm : Option ChecksumAlgorithm
  value : Bytes

structure ChecksumSet where
  hashers : ChecksumAlgorithm → Option Bytes := fun _ => none
  order : List ChecksumAlgorithm := []

namespace ChecksumSet

def newChecksumSet (algos : List (Option ChecksumAlgorithm)) : ChecksumSet :=
  algos.foldl (fun s algo => match algo with
    | some a => ⟨Function.update s.hashers a (some []), s.order ++ [a]⟩
    | none => s) {}

def write (s : ChecksumSet) (p : Bytes) : ChecksumSet :=
  { s with hashers := s.order.foldl (fun h a => Function.update h a ((h a).map (· ++ p))) s.hashers }

section Verify

variable [ChecksumDigest]

open ChecksumDigest

def results (s : ChecksumSet) (a : ChecksumAlgorithm) : Option Bytes :=
  if a ∈ s.order then (s.hashers a).map (digest a) else none

def verified (s : ChecksumSet) (expected : List ChecksumRef) : Bool :=
  expected.all fun cs => cs.algorithm.bind s.results = some cs.value

/-- `VerifyStream` of a reader that delivers these pieces, and then its end or an error. -/
def verifyStream (pieces : List Bytes) (fault : Option Err) (expected : List ChecksumRef) :
    Except Err Unit :=
  if expected = [] then .ok ()
  else
    let s := newChecksumSet (expected.map ChecksumRef.algorithm)
    if s.order = [] then .ok ()
    else
      match fault with
      | some e => .error (.wrap "failed to checksum stream: %w" [] e)
      | none =>
        if (pieces.foldl write s).verified expected then .ok ()
        else .error (.text "integrity checksum mismatch: bad message")

/-! ### What a hasher has seen -/

def seen (n : ℕ) (pieces : List Bytes) : Bytes := pieces.flatMap fun p => (List.replicate n p).flatten

omit [ChecksumDigest] in
theorem write_hashers (p : Bytes) (a : ChecksumAlgorithm) (order : List ChecksumAlgorithm) :
    ∀ h : ChecksumAlgorithm → Option Bytes,
      order.foldl (fun h a => Function.update h a ((h a).map (· ++ p))) h a =
        (h a).map (· ++ (List.replicate (order.count a) p).flatten) := by
  induction order with
  | nil => simp
  | cons b order ih =>
    intro h
    rw [List.foldl_cons, ih]
    by_cases hb : b = a
    · subst hb
      rw [Function.update_self, List.count_cons_self, List.replicate_succ, Option.map_map]
      simp [Function.comp_def]
    · rw [Function.update_of_ne (Ne.symm hb), List.count_cons_of_ne hb]

omit [ChecksumDigest] in
theorem pieces_hashers (a : ChecksumAlgorithm) (pieces : List Bytes) (s : ChecksumSet) :
    (pieces.foldl write s).order = s.order ∧
      (pieces.foldl write s).hashers a = (s.hashers a).map (· ++ seen (s.order.count a) pieces) := by
  induction pieces generalizing s with
  | nil => simp [seen]
  | cons p pieces ih =>
    obtain ⟨horder, hhash⟩ := ih (s.write p)
    refine ⟨horder, ?_⟩
    have hstep : (s.write p).hashers a = _ := write_hashers p a s.order s.hashers
    rw [List.foldl_cons, hhash, hstep, Option.map_map]
    simp [seen, write, Function.comp_def]

omit [ChecksumDigest] in
theorem newChecksumSet_spec (algos : List (Option ChecksumAlgorithm)) :
    (newChecksumSet algos).order = algos.filterMap id ∧
      ∀ a, a ∈ (newChecksumSet algos).order → (newChecksumSet algos).hashers a = some [] := by
  unfold newChecksumSet
  induction algos using List.reverseRecOn with
  | nil => simp
  | append_singleton algos algo ih =>
    rw [List.foldl_append]
    cases algo with
    | none => simpa using ih
    | some a =>
      refine ⟨by simp [ih.1], fun b hb => ?_⟩
      by_cases hba : b = a
      · simp [hba]
      · simpa [Function.update_of_ne hba] using ih.2 b (by simpa [hba] using hb)

def mentions (refs : List ChecksumRef) (a : ChecksumAlgorithm) : ℕ :=
  (refs.filterMap ChecksumRef.algorithm).count a

/-- The references are the digests of what `fed` says each algorithm was fed. -/
def Right (refs : List ChecksumRef) (fed : ChecksumAlgorithm → Bytes) : Prop :=
  ∀ r ∈ refs, ∀ a, r.algorithm = some a → digest a (fed a) = r.value

theorem verifyStream_iff {refs : List ChecksumRef} (hknown : ∀ r ∈ refs, r.algorithm ≠ none)
    (pieces : List Bytes) :
    verifyStream pieces none refs = .ok () ↔ Right refs fun a => seen (mentions refs a) pieces := by
  obtain ⟨horder, hfresh⟩ := newChecksumSet_spec (refs.map ChecksumRef.algorithm)
  rw [List.filterMap_map, Function.id_comp] at horder
  unfold verifyStream
  dsimp only
  generalize newChecksumSet (refs.map ChecksumRef.algorithm) = s at horder hfresh
  have hresult : ∀ r ∈ refs, ∀ a, r.algorithm = some a →
      (pieces.foldl write s).results a = some (digest a (seen (mentions refs a) pieces)) := by
    intro r hr a ha
    obtain ⟨hkept, hhash⟩ := pieces_hashers a pieces s
    have hmem : a ∈ s.order := horder ▸ List.mem_filterMap.mpr ⟨r, hr, ha⟩
    rw [results, hkept, if_pos hmem, hhash, hfresh a hmem, horder]
    rfl
  have hverified : (pieces.foldl write s).verified refs = true ↔
      Right refs fun a => seen (mentions refs a) pieces := by
    rw [verified, List.all_eq_true]
    constructor
    · intro h r hr a ha
      simpa [ha, hresult r hr a ha] using h r hr
    · intro h r hr
      obtain ⟨a, ha⟩ := Option.ne_none_iff_exists'.mp (hknown r hr)
      simp [ha, hresult r hr a ha, h r hr a ha]
  rw [← hverified]
  cases refs with
  | nil => simp [verified]
  | cons r refs =>
    obtain ⟨a, ha⟩ := Option.ne_none_iff_exists'.mp (hknown r List.mem_cons_self)
    rw [if_neg (List.cons_ne_nil _ _), if_neg (by simp [horder, ha])]
    split_ifs with hv <;> simp [hv]

/-- CORRECT: the verdict is that on the whole content exactly when, for references that are right for
    the content or for what the hashers saw, the two have one digest under each algorithm named. -/
theorem verifyStream_exact_iff {refs : List ChecksumRef} (hknown : ∀ r ∈ refs, r.algorithm ≠ none)
    (pieces : List Bytes) :
    (verifyStream pieces none refs = .ok () ↔ Right refs fun _ => pieces.flatten) ↔
      (Right refs (fun _ => pieces.flatten) ∨ Right refs (fun a => seen (mentions refs a) pieces) →
        ∀ r ∈ refs, ∀ a, r.algorithm = some a →
          digest a (seen (mentions refs a) pieces) = digest a pieces.flatten) := by
  rw [verifyStream_iff hknown]
  constructor
  · intro h hright r hr a ha
    have hboth : Right refs (fun a => seen (mentions refs a) pieces) ∧
        Right refs (fun _ => pieces.flatten) := by tauto
    rw [hboth.1 r hr a ha, hboth.2 r hr a ha]
  · intro h
    constructor
    · intro hseen r hr a ha
      rw [← h (Or.inr hseen) r hr a ha]
      exact hseen r hr a ha
    · intro hwhole r hr a ha
      rw [h (Or.inl hwhole) r hr a ha]
      exact hwhole r hr a ha

end Verify

section Runs

local instance plainDigest : ChecksumDigest := ⟨fun _ data => data⟩

theorem named_once_verified :
    verifyStream [[1], [2]] none [⟨some .sha1, [1, 2]⟩, ⟨some .crc32, [1, 2]⟩] = .ok () ↔
      Right [⟨some .sha1, [1, 2]⟩, ⟨some .crc32, [1, 2]⟩] fun _ => [[1], [2]].flatten := by
  refine (verifyStream_exact_iff (by simp) _).mpr fun _ r hr a ha => ?_
  simp only [List.mem_cons, List.not_mem_nil, or_false] at hr
  rcases hr with rfl | rfl <;> cases ha <;> decide

theorem named_twice_refused :
    verifyStream [[1]] none [⟨some .crc32c, [1]⟩] = .ok () ∧
      verifyStream [[1]] none [⟨some .crc32c, [1]⟩, ⟨some .crc32c, [1]⟩] ≠ .ok () := by
  decide

end Runs

end ChecksumSet

end Momo
