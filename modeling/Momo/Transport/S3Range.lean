import Momo.Common.Path
import Momo.Common.Strconv

/-! @momo src/transport/s3_communicator.go | scheme:bounded against unbounded numerals

    The `Range` header of a GET. The rules are about unbounded numbers; `parseS3Range` reads them
    with `strconv.ParseInt(s, 10, 63)`, whose signed range of 63 bits ends before `2^62`. -/

namespace Momo.S3Range

/-! ### The code -/

/-- The results of `parseS3Range`. -/
structure Answer where
  start : ℤ := 0
  stop : ℤ := 0
  serveRange : Bool := false
  unsatisfiable : Bool := false
  deriving DecidableEq

def Answer.ignore : Answer := {}

def Answer.refuse : Answer := { unsatisfiable := true }

def Answer.serve (start stop : ℤ) : Answer := { start, stop, serveRange := true }

def parsePosition (s : Bytes) : Option ℤ :=
  if s = [] then none
  else (parseInt decimalDigit 10 63 s).bind fun v => if v < 0 then none else some v

def bytesUnit : Bytes := lit "bytes="

/-- The case distinction of `parseS3Range` over the two ends of the range. -/
def spanOf (startStr endStr : Bytes) (size : ℤ) : Answer :=
  if startStr = [] ∧ endStr = [] then .refuse
  else if startStr = [] then
    match parsePosition endStr with
    | none => .refuse
    | some n =>
      if n = 0 ∨ size = 0 then .refuse
      else
        let n := if n > size then size else n
        .serve (size - n) (size - 1)
  else if endStr = [] then
    match parsePosition startStr with
    | none => .refuse
    | some s => if size = 0 ∨ s ≥ size then .refuse else .serve s (size - 1)
  else
    match parsePosition startStr, parsePosition endStr with
    | some s, some e =>
      if s ≥ size ∨ s > e then .refuse
      else .serve s (if e ≥ size then size - 1 else e)
    | _, _ => .refuse

def parseS3Range (rangeHeader : Bytes) (size : ℤ) : Answer :=
  let hv := trimSpace rangeHeader
  if ¬ bytesUnit <+: hv then .ignore
  else
    let spec := hv.drop bytesUnit.length
    if 44 ∈ spec then .ignore
    else if 45 ∉ spec then .ignore
    else
      let idx := spec.idxOf 45
      spanOf (trimSpace (spec.take idx)) (trimSpace (spec.drop (idx + 1))) size

/-! ### The rules -/

structure Numeral where
  text : Bytes
  ne : text ≠ []
  digits : ∀ c ∈ text, (decimalDigit c).isSome

def Numeral.value (a : Numeral) : ℕ := (digitsValue decimalDigit 10 0 a.text).getD 0

inductive ByteRange
  | span (first last : Numeral)
  | onwards (first : Numeral)
  | suffix (length : Numeral)

namespace ByteRange

def header : ByteRange → Bytes
  | span a b => bytesUnit ++ (a.text ++ 45 :: b.text)
  | onwards a => bytesUnit ++ (a.text ++ [45])
  | suffix n => bytesUnit ++ 45 :: n.text

def Selects (size : ℕ) : ByteRange → ℕ → Prop
  | span a b, i => i < size ∧ a.value ≤ i ∧ i ≤ b.value
  | onwards a, i => i < size ∧ a.value ≤ i
  | suffix n, i => i < size ∧ size ≤ i + n.value

/-- Every numeral of the range can be read: it is below `2^62`. -/
def Readable : ByteRange → Prop
  | span a b => a.value < 2 ^ 62 ∧ b.value < 2 ^ 62
  | onwards a => a.value < 2 ^ 62
  | suffix n => n.value < 2 ^ 62

/-- What the rules ask of an answer: a range that selects a byte is served as the span of the bytes
    it selects, and it is reported unsatisfiable only if it selects none. -/
def Meets (r : ByteRange) (size : ℕ) (answer : Answer) : Prop :=
  ((∃ i, r.Selects size i) → answer.serveRange = true ∧ answer.unsatisfiable = false ∧
    0 ≤ answer.start ∧ answer.start ≤ answer.stop ∧ answer.stop < size ∧
    ∀ i : ℕ, answer.start ≤ i ∧ i ≤ answer.stop ↔ r.Selects size i) ∧
  (answer.unsatisfiable = true → ¬ ∃ i, r.Selects size i)

end ByteRange

/-! ### Reading the header -/

theorem Numeral.digitsValue_eq (a : Numeral) :
    digitsValue decimalDigit 10 0 a.text = some a.value := by
  obtain ⟨n, hn⟩ := @exists_digitsValue _ 10 0 _ a.digits
  rw [Numeral.value, hn, Option.getD_some]

theorem Numeral.visible (a : Numeral) : ∀ c ∈ a.text, 32 < c.toNat ∧ c.toNat < 128 := by
  intro c hc
  have hd := a.digits c hc
  rw [decimalDigit] at hd
  split at hd
  · rename_i hrange
    simp only [UInt8.le_iff_toNat_le, UInt8.reduceToNat] at hrange
    omega
  · cases hd

theorem parsePosition_text (a : Numeral) :
    parsePosition a.text = if a.value < 2 ^ 62 then some (a.value : ℤ) else none := by
  rw [parsePosition, if_neg a.ne, parseInt_digits (by decide) (by decide) a.ne a.digitsValue_eq]
  split_ifs with h
  · have hpos : ¬ (a.value : ℤ) < 0 := by omega
    rw [Option.bind_some, if_neg hpos]
  · rfl

theorem parseS3Range_cut {startStr endStr : Bytes} (size : ℤ)
    (hstart : ∀ c ∈ startStr, (decimalDigit c).isSome) (hend : ∀ c ∈ endStr, (decimalDigit c).isSome)
    (htrim : trimSpace startStr = startStr) (htrim' : trimSpace endStr = endStr)
    (hv : trimSpace (bytesUnit ++ (startStr ++ 45 :: endStr)) =
      bytesUnit ++ (startStr ++ 45 :: endStr)) :
    parseS3Range (bytesUnit ++ (startStr ++ 45 :: endStr)) size = spanOf startStr endStr size := by
  have hminus : (45 : UInt8) ∉ startStr := notMem_of_digit hstart (by decide)
  have hcomma : (44 : UInt8) ∉ startStr ++ 45 :: endStr := by
    rw [List.mem_append, List.mem_cons]
    rintro (h | h | h)
    · exact notMem_of_digit hstart (by decide) h
    · exact absurd h (by decide)
    · exact notMem_of_digit hend (by decide) h
  have hidx : (startStr ++ 45 :: endStr).idxOf 45 = startStr.length := by
    rw [List.idxOf_append_of_notMem hminus, List.idxOf_cons_self, Nat.add_zero]
  have hmem : ¬ (45 : UInt8) ∉ startStr ++ 45 :: endStr := by simp
  have hafter : (startStr ++ 45 :: endStr).drop (startStr.length + 1) = endStr := by simp
  rw [parseS3Range, hv]
  simp only [List.prefix_append, not_true_eq_false, if_false, List.drop_left, if_neg hcomma,
    if_neg hmem, hidx, List.take_left, hafter, htrim, htrim']

namespace ByteRange

def ends : ByteRange → Bytes × Bytes
  | span a b => (a.text, b.text)
  | onwards a => (a.text, [])
  | suffix n => ([], n.text)

theorem header_eq (r : ByteRange) : r.header = bytesUnit ++ (r.ends.1 ++ 45 :: r.ends.2) := by
  cases r <;> rfl

theorem ends_digits (r : ByteRange) :
    (∀ c ∈ r.ends.1, (decimalDigit c).isSome) ∧ (∀ c ∈ r.ends.2, (decimalDigit c).isSome) := by
  cases r with
  | span a b => exact ⟨a.digits, b.digits⟩
  | onwards a => exact ⟨a.digits, fun c hc => nomatch hc⟩
  | suffix n => exact ⟨fun c hc => (nomatch hc), n.digits⟩

theorem visible_of_digits {s : Bytes} (h : ∀ c ∈ s, (decimalDigit c).isSome) :
    ∀ c ∈ s, 32 < c.toNat ∧ c.toNat < 128 := by
  rcases s with _ | ⟨b, s⟩
  · intro c hc
    cases hc
  · exact Numeral.visible ⟨b :: s, List.cons_ne_nil _ _, h⟩

theorem parseS3Range_header (r : ByteRange) (size : ℤ) :
    parseS3Range r.header size = spanOf r.ends.1 r.ends.2 size := by
  obtain ⟨hstart, hend⟩ := r.ends_digits
  have hunit : ∀ c ∈ bytesUnit, 32 < c.toNat ∧ c.toNat < 128 := by decide +kernel
  rw [header_eq]
  refine parseS3Range_cut size hstart hend (trimSpace_visible (visible_of_digits hstart))
    (trimSpace_visible (visible_of_digits hend)) (trimSpace_visible fun c hc => ?_)
  rcases List.mem_append.mp hc with hc | hc
  · exact hunit c hc
  rcases List.mem_append.mp hc with hc | hc
  · exact visible_of_digits hstart c hc
  rcases List.mem_cons.mp hc with rfl | hc
  · decide
  · exact visible_of_digits hend c hc

/-! ### The answer -/

variable {r : ByteRange}

theorem meets_refuse {size : ℕ} : r.Meets size .refuse ↔ ¬ ∃ i, r.Selects size i :=
  ⟨fun h => h.2 rfl, fun h => ⟨fun hi => absurd hi h, fun _ => h⟩⟩

theorem meets_serve {size start stop : ℕ} (hle : start ≤ stop) (hlt : stop < size)
    (hsel : ∀ i, start ≤ i ∧ i ≤ stop ↔ r.Selects size i) : r.Meets size (.serve start stop) := by
  refine ⟨fun _ => ⟨rfl, rfl, Int.natCast_nonneg _, Int.ofNat_le.mpr hle, Int.ofNat_lt.mpr hlt,
    fun i => ?_⟩, nofun⟩
  rw [← hsel i]
  exact and_congr Int.ofNat_le Int.ofNat_le

theorem spanOf_unreadable (size : ℤ) (h : ¬ r.Readable) :
    spanOf r.ends.1 r.ends.2 size = .refuse := by
  cases r with
  | span a b =>
    have h : ¬ (a.value < 2 ^ 62 ∧ b.value < 2 ^ 62) := h
    simp only [ends, spanOf, a.ne, b.ne, false_and, if_false, parsePosition_text]
    split_ifs
    · exact absurd ⟨‹_›, ‹_›⟩ h
    all_goals rfl
  | onwards a =>
    have h : ¬ a.value < 2 ^ 62 := h
    simp only [ends, spanOf, a.ne, false_and, if_false, if_true, parsePosition_text, if_neg h]
  | suffix n =>
    have h : ¬ n.value < 2 ^ 62 := h
    simp only [ends, spanOf, n.ne, and_false, if_false, if_true, parsePosition_text, if_neg h]

theorem spanOf_readable (size : ℕ) (h : r.Readable) :
    r.Meets size (spanOf r.ends.1 r.ends.2 size) := by
  cases r with
  | span a b =>
    simp only [ends, spanOf, a.ne, b.ne, false_and, if_false, parsePosition_text, if_pos h.1,
      if_pos h.2]
    split_ifs with hnone hclip
    · refine meets_refuse.mpr ?_
      rintro ⟨i, hi, ha, hb⟩
      omega
    · have hsize : ((size - 1 : ℕ) : ℤ) = size - 1 := by omega
      rw [← hsize]
      exact meets_serve (by omega) (by omega) fun i => by simp only [Selects]; omega
    · exact meets_serve (by omega) (by omega) fun i => by simp only [Selects]; omega
  | onwards a =>
    have h : a.value < 2 ^ 62 := h
    simp only [ends, spanOf, a.ne, false_and, if_false, if_true, parsePosition_text, if_pos h]
    split_ifs with hnone
    · refine meets_refuse.mpr ?_
      rintro ⟨i, hi, ha⟩
      omega
    · have hsize : ((size - 1 : ℕ) : ℤ) = size - 1 := by omega
      rw [← hsize]
      exact meets_serve (by omega) (by omega) fun i => by simp only [Selects]; omega
  | suffix n =>
    have h : n.value < 2 ^ 62 := h
    simp only [ends, spanOf, n.ne, and_false, if_false, if_true, parsePosition_text, if_pos h]
    split_ifs with hnone hclip
    · refine meets_refuse.mpr ?_
      rintro ⟨i, hi, hn⟩
      omega
    · have hsize : ((size - 1 : ℕ) : ℤ) = size - 1 := by omega
      rw [← hsize, Int.sub_self]
      exact @meets_serve _ _ 0 _ (by omega) (by omega) fun i => by simp only [Selects]; omega
    · have hsize : ((size - 1 : ℕ) : ℤ) = size - 1 := by omega
      have hstart : ((size - n.value : ℕ) : ℤ) = size - n.value := by omega
      rw [← hsize, ← hstart]
      exact meets_serve (by omega) (by omega) fun i => by simp only [Selects]; omega

/-- CORRECT: the answer to a range is the one of the rules exactly when its numerals can be read, or
    no byte is selected. -/
theorem parseS3Range_meets_iff (r : ByteRange) (size : ℕ) :
    r.Meets size (parseS3Range r.header size) ↔ r.Readable ∨ ¬ ∃ i, r.Selects size i := by
  rw [parseS3Range_header]
  by_cases hread : r.Readable
  · exact iff_of_true (spanOf_readable size hread) (.inl hread)
  · rw [spanOf_unreadable _ hread, meets_refuse]
    exact (or_iff_right hread).symm

/-- The whole of an object of one byte, with the greatest 64-bit position as its last one. -/
def wholeObject : ByteRange :=
  span ⟨lit "0", by decide +kernel, by decide +kernel⟩
    ⟨lit "9223372036854775807", by decide +kernel, by decide +kernel⟩

theorem whole_object_refused :
    wholeObject.header = lit "bytes=0-9223372036854775807" ∧ wholeObject.Selects 1 0 ∧
      parseS3Range wholeObject.header 1 = .refuse ∧
      ¬ wholeObject.Meets 1 (parseS3Range wholeObject.header 1) := by
  have hsel : wholeObject.Selects 1 0 := by
    refine ⟨by decide, ?_, Nat.zero_le _⟩
    decide +kernel
  have hanswer : parseS3Range wholeObject.header 1 = .refuse := by decide +kernel
  refine ⟨by decide +kernel, hsel, hanswer, ?_⟩
  rw [hanswer]
  exact fun h => meets_refuse.mp h ⟨0, hsel⟩

end ByteRange

end Momo.S3Range
