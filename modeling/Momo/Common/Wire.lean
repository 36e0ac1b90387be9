import Momo.Common.Strconv
import Momo.Schemes.Decimal

/-! @momo src/common/string.go, src/common/parse.go | scheme:fixed-width fields

    Fields of a handshake frame. A text field is NUL-padded to its width; a number field is the
    decimal text of an `int64`, NUL-padded as well. -/

namespace Momo

def padString (input : Bytes) (length : ℕ) : Option Bytes :=
  if input.length > length then none
  else some (input ++ List.replicate (length - input.length) 0)

variable {input : Bytes} {length : ℕ}

theorem padString_eq (h : input.length ≤ length) :
    padString input length = some (input ++ List.replicate (length - input.length) 0) :=
  if_neg (by omega)

theorem padString_full (h : input.length = length) : padString input length = some input := by
  rw [padString_eq h.le, h, Nat.sub_self, List.replicate_zero, List.append_nil]

theorem length_padString {padded : Bytes} (h : padString input length = some padded) :
    padded.length = length := by
  rw [padString] at h
  split_ifs at h with hlen
  cases h
  simp only [List.length_append, List.length_replicate]
  omega

/-! ### Numbers -/

def appendInt (val : Int64) : Bytes :=
  if val.toInt < 0 then 45 :: decimal 20 val.toInt.natAbs else decimal 20 val.toInt.natAbs

/-- `common.WritePaddedInt` into a destination of at least `width` bytes: the field it fills. -/
def writePaddedInt (val : Int64) (width : ℕ) : Except Err Bytes :=
  if (appendInt val).length > width then .error (.sys .einval)
  else .ok (appendInt val ++ List.replicate (width - (appendInt val).length) 0)

/-- The `cutoff` of `SafeParseInt`: the greatest `int64`. -/
def parseCutoff : ℕ := 2 ^ 63 - 1

/-- One round of the digit loop of `SafeParseInt`, for the number text `text`. -/
def parseDigit (neg : Bool) (text : Bytes) (acc : ℕ) (c : UInt8) : Except Err ℕ :=
  if c < 48 ∨ 57 < c then
    .error (.wrap "parse int %q: %w: invalid syntax" [.str text] (.sys .einval))
  else
    let v := c.toNat - 48
    if acc > parseCutoff / 10 ∨ (acc = parseCutoff / 10 ∧ v > parseCutoff % 10) then
      -- the one numeral beyond the cutoff that is still an int64: the least one
      if neg ∧ acc = parseCutoff / 10 ∧ v = parseCutoff % 10 + 1 then .ok (2 ^ 63)
      else .error (.wrap "parse int %q: %w: value out of range" [.str text] (.sys .einval))
    else .ok (acc * 10 + v)

def safeParseInt (b : Bytes) : Except Err Int64 :=
  let text := b.takeWhile (· ≠ 0)
  let syntaxErr : Err := .wrap "parse int %q: %w: invalid syntax" [.str text] (.sys .einval)
  match text with
  | [] => .error syntaxErr
  | c :: rest =>
    let neg : Bool := c = 45
    let digits := if c = 45 ∨ c = 43 then rest else c :: rest
    if digits = [] then .error syntaxErr
    else do
      let n ← digits.foldlM (parseDigit neg text) 0
      return Int64.ofInt (if neg then -(n : Int) else n)

/-- The greatest absolute value of an `int64` of either sign. -/
def parseBound (neg : Bool) : ℕ := if neg then 2 ^ 63 else parseCutoff

variable {c : UInt8}

/-- Step: a digit is appended exactly as long as the number stays an `int64`. -/
theorem parseDigit_eq_ok {neg : Bool} {text : Bytes} {acc n : ℕ} :
    parseDigit neg text acc c = .ok n ↔
      ∃ d, decimalDigit c = some d ∧ n = 10 * acc + d ∧ n ≤ parseBound neg := by
  have hdiv : parseCutoff / 10 = 922337203685477580 := rfl
  have hmod : parseCutoff % 10 = 7 := rfl
  have hcut : parseCutoff = 9223372036854775807 := rfl
  by_cases hc : c < 48 ∨ 57 < c
  · have hnone : decimalDigit c = none := if_neg (by simp only [not_and_or, UInt8.not_le]; exact hc)
    simp [parseDigit, if_pos hc, hnone]
  · have hsome : decimalDigit c = some (c.toNat - 48) := by
      refine if_pos ?_
      simpa only [not_or, UInt8.not_lt] using hc
    have hle : c.toNat - 48 ≤ 9 := by
      have := UInt8.le_iff_toNat_le.mp (UInt8.not_lt.mp (not_or.mp hc).2)
      simp only [UInt8.reduceToNat] at this
      omega
    simp only [parseDigit, if_neg hc, hsome, hdiv, hmod, Option.some.injEq, exists_eq_left']
    cases neg with
    | false =>
      simp only [parseBound, Bool.false_eq_true, false_and, if_false]
      split_ifs with hover
      · simp only [false_iff]
        omega
      · simp only [Except.ok.injEq]
        omega
    | true =>
      simp only [parseBound, true_and, if_true]
      split_ifs with hover hleast
      · simp only [Except.ok.injEq]
        omega
      · simp only [false_iff]
        omega
      · simp only [Except.ok.injEq]
        omega

theorem foldlM_parseDigit {neg : Bool} {text digits : Bytes} {acc n : ℕ} (hacc : acc ≤ parseBound neg) :
    digits.foldlM (parseDigit neg text) acc = .ok n ↔
      digitsValue decimalDigit 10 acc digits = some n ∧ n ≤ parseBound neg := by
  induction digits generalizing acc with
  | nil =>
    simp only [List.foldlM_nil, pure, Except.pure, Except.ok.injEq, digitsValue, Option.some.injEq]
    exact ⟨fun h => ⟨h, h ▸ hacc⟩, fun h => h.1⟩
  | cons c cs ih =>
    rw [List.foldlM_cons, digitsValue, Option.bind_eq_some_iff]
    constructor
    · intro h
      rcases hm : parseDigit neg text acc c with e | m
      · rw [hm] at h
        cases h
      · rw [hm] at h
        obtain ⟨d, hd, rfl, hle⟩ := parseDigit_eq_ok.mp hm
        obtain ⟨hv, hn⟩ := (ih hle).mp h
        exact ⟨⟨d, hd, hv⟩, hn⟩
    · rintro ⟨⟨d, hd, hv⟩, hn⟩
      have hle : 10 * acc + d ≤ parseBound neg := (le_digitsValue (by decide) hv).trans hn
      rw [parseDigit_eq_ok.mpr ⟨d, hd, rfl, hle⟩]
      exact (ih hle).mpr ⟨hv, hn⟩

/-- The text is a numeral of the value `v`: an optional sign and at least one digit. -/
def Denotes (text : Bytes) (v : Int) : Prop :=
  ∃ digits n, digits ≠ [] ∧ digitsValue decimalDigit 10 0 digits = some n ∧
    (v = n ∧ (text = digits ∨ text = 43 :: digits) ∨ v = -n ∧ text = 45 :: digits)

variable {val : Int64}

theorem readDigits_eq_ok {neg : Bool} {text digits : Bytes} {refused : Err} :
    (if digits = [] then .error refused else do
      let n ← digits.foldlM (parseDigit neg text) 0
      return Int64.ofInt (if neg then -(n : Int) else n)) = Except.ok val ↔
      digits ≠ [] ∧ ∃ n, digitsValue decimalDigit 10 0 digits = some n ∧
        val.toInt = if neg then -(n : Int) else n := by
  have hbound : ∀ n, n ≤ parseBound neg ↔ -2 ^ 63 ≤ (if neg then -(n : Int) else n) ∧
      (if neg then -(n : Int) else n) < 2 ^ 63 := fun n => by
    cases neg <;> simp [parseBound, parseCutoff] <;> omega
  by_cases hne : digits = []
  · simp [hne]
  rw [if_neg hne]
  constructor
  · intro h
    rcases hf : digits.foldlM (parseDigit neg text) 0 with e | n
    · rw [hf] at h
      cases h
    · rw [hf] at h
      cases h
      obtain ⟨hv, hn⟩ := (foldlM_parseDigit (Nat.zero_le _)).mp hf
      obtain ⟨hlow, hhigh⟩ := (hbound n).mp hn
      exact ⟨hne, n, hv, Int64.toInt_ofInt_of_le hlow hhigh⟩
  · rintro ⟨-, n, hv, hval⟩
    have hn := (hbound n).mpr (hval ▸ ⟨val.le_toInt, val.toInt_lt⟩)
    rw [(foldlM_parseDigit (Nat.zero_le _)).mpr ⟨hv, hn⟩]
    change Except.ok (Int64.ofInt (if neg then -(n : Int) else n)) = _
    rw [← hval, Int64.ofInt_toInt]

theorem decimalDigit_sign (h : (decimalDigit c).isSome) : c ≠ 43 ∧ c ≠ 45 := by
  constructor <;> rintro rfl <;> cases h

theorem safeParseInt_eq_ok {b : Bytes} :
    safeParseInt b = .ok val ↔ Denotes (b.takeWhile (· ≠ 0)) val.toInt := by
  rw [safeParseInt]
  cases htext : b.takeWhile (· ≠ 0) with
  | nil => simp [Denotes]
  | cons c rest =>
    simp only
    rw [readDigits_eq_ok]
    constructor
    · rintro ⟨hne, n, hv, hval⟩
      refine ⟨_, n, hne, hv, ?_⟩
      by_cases hminus : c = 45
      · simp_all
      · by_cases hplus : c = 43 <;> simp_all
    · rintro ⟨digits, n, hne, hv, ⟨hval, rfl | heq⟩ | ⟨hval, heq⟩⟩
      · obtain ⟨hplus, hminus⟩ := decimalDigit_sign (digitsValue_digit hv c List.mem_cons_self)
        simp only [hplus, hminus, or_self, if_false, decide_false]
        exact ⟨hne, n, hv, hval⟩
      · cases heq
        exact ⟨hne, n, hv, hval⟩
      · cases heq
        exact ⟨hne, n, hv, hval⟩

theorem decimalDigit_digitByte {d : ℕ} (hd : d < 10) : decimalDigit (digitByte d) = some d := by
  interval_cases d <;> rfl

theorem digitByte_ne {d : ℕ} (hd : d < 10) (hc : c.toNat < 48) : digitByte d ≠ c := by
  intro h
  have := toNat_digitByte hd
  rw [h] at this
  omega

theorem appendInt_ne_zero (h : c ∈ appendInt val) : c ≠ 0 := by
  have hdigits : c ∈ decimal 20 val.toInt.natAbs → c ≠ 0 := by
    intro hc
    obtain ⟨d, hd, rfl⟩ := mem_decimal hc
    exact digitByte_ne hd (by decide)
  rw [appendInt] at h
  split_ifs at h
  · rcases List.mem_cons.mp h with rfl | h
    · decide
    · exact hdigits h
  · exact hdigits h

theorem length_appendInt_le (val : Int64) : (appendInt val).length ≤ fileInfoLength := by
  have hlt := val.toInt_lt
  have hge := val.le_toInt
  have hdigits : (decimal 20 val.toInt.natAbs).length ≤ 20 :=
    (length_decimal_le (by omega) (by decide) (by decide)).mpr (by omega)
  rw [appendInt, fileInfoLength]
  split_ifs
  · rw [List.length_cons]
    omega
  · omega

theorem toNat_of_mem_appendInt (h : c ∈ appendInt val) : c.toNat < 128 := by
  have hdigits : c ∈ decimal 20 val.toInt.natAbs → c.toNat < 128 := by
    intro hc
    obtain ⟨d, hd, rfl⟩ := mem_decimal hc
    rw [toNat_digitByte hd]
    omega
  rw [appendInt] at h
  split_ifs at h
  · rcases List.mem_cons.mp h with rfl | h
    · decide
    · exact hdigits h
  · exact hdigits h

theorem takeWhile_appendInt (val : Int64) (k : ℕ) :
    (appendInt val ++ List.replicate k 0).takeWhile (· ≠ 0) = appendInt val := by
  rw [List.takeWhile_append_of_pos fun c hc => by simpa using appendInt_ne_zero hc]
  cases k <;> simp [List.replicate_succ]

theorem safeParseInt_appendInt (val : Int64) (k : ℕ) :
    safeParseInt (appendInt val ++ List.replicate k 0) = .ok val := by
  have hlt := val.toInt_lt
  have hge := val.le_toInt
  have hstep : ∀ acc d, d < 10 → acc * 10 + d ≤ parseBound true →
      parseDigit true [] acc (digitByte d) = .ok (acc * 10 + d) := fun acc d hd h =>
    parseDigit_eq_ok.mpr ⟨d, decimalDigit_digitByte hd, by omega, h⟩
  have hread := foldlM_decimal hstep (show val.toInt.natAbs < 10 ^ 20 by omega)
    (by simp only [parseBound, if_true]; omega)
  have hvalue := ((foldlM_parseDigit (Nat.zero_le _)).mp hread).1
  rw [safeParseInt_eq_ok, takeWhile_appendInt, appendInt]
  refine ⟨_, _, decimal_ne_nil (by decide), hvalue, ?_⟩
  split_ifs with hneg
  · exact .inr ⟨by omega, rfl⟩
  · exact .inl ⟨by omega, .inl rfl⟩

theorem safeParseInt_writePaddedInt {width : ℕ} {field : Bytes}
    (h : writePaddedInt val width = .ok field) :
    field.length = width ∧ safeParseInt field = .ok val := by
  rw [writePaddedInt] at h
  split_ifs at h with hlen
  cases h
  refine ⟨?_, safeParseInt_appendInt val _⟩
  simp only [List.length_append, List.length_replicate]
  omega

/-- CORRECT: the parser accepts exactly the numerals of `int64` values before the first NUL, with the
    value they denote; so it reads back every field that was written, of any width. -/
theorem safeParseInt_exact (b : Bytes) (val : Int64) :
    (safeParseInt b = .ok val ↔ Denotes (b.takeWhile (· ≠ 0)) val.toInt) ∧
      ∀ width field, writePaddedInt val width = .ok field →
        field.length = width ∧ safeParseInt field = .ok val :=
  ⟨safeParseInt_eq_ok, fun _ _ h => safeParseInt_writePaddedInt h⟩

def timestampLength : ℕ := 19

theorem writePaddedInt_timestamp (ts : Int64) :
    (∃ field, writePaddedInt ts timestampLength = .ok field) ↔ -10 ^ 18 < ts.toInt := by
  have hlt := ts.toInt_lt
  have hge := ts.le_toInt
  have hpow : ts.toInt.natAbs < 10 ^ 20 := by omega
  have hfits : (∃ field, writePaddedInt ts timestampLength = .ok field) ↔
      (appendInt ts).length ≤ 19 := by
    rw [writePaddedInt, timestampLength]
    split_ifs with hlen
    · simp only [exists_false, false_iff]; omega
    · simp only [Except.ok.injEq, exists_eq', true_iff]; omega
  rw [hfits, appendInt]
  split_ifs with hneg
  · rw [List.length_cons, show 19 = 18 + 1 from rfl, Nat.add_le_add_iff_right,
      length_decimal_le hpow (by decide) (by decide)]
    omega
  · rw [length_decimal_le hpow (by decide) (by decide)]
    omega

end Momo
