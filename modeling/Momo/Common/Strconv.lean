import Momo.Common.Base

/-! @momo src/transport/aws_chunked.go, src/transport/sigv4.go, src/transport/s3_communicator.go |
    scheme:numerals

    `strconv.ParseInt` of Go's library, for the bases and widths the transports ask for: an optional
    sign, at least one digit, a value within the signed range of the width. A syntax error and a
    value out of range are told apart by no caller, so both are `none`. -/

namespace Momo

def digitsValue (digit : UInt8 → Option ℕ) (base : ℕ) : ℕ → Bytes → Option ℕ
  | acc, [] => some acc
  | acc, c :: cs => (digit c).bind fun d => digitsValue digit base (base * acc + d) cs

def parseInt (digit : UInt8 → Option ℕ) (base bits : ℕ) (s : Bytes) : Option Int :=
  let neg : Bool := s.head? = some 45
  let digits := if s.head? = some 45 ∨ s.head? = some 43 then s.drop 1 else s
  if digits = [] then none
  else (digitsValue digit base 0 digits).bind fun n =>
    if neg then if n ≤ 2 ^ (bits - 1) then some (-n) else none
    else if n < 2 ^ (bits - 1) then some n else none

def decimalDigit (c : UInt8) : Option ℕ := if 48 ≤ c ∧ c ≤ 57 then some (c.toNat - 48) else none

variable {digit : UInt8 → Option ℕ} {base bits : ℕ}

theorem digitsValue_digit {acc n : ℕ} {s : Bytes} (h : digitsValue digit base acc s = some n) :
    ∀ c ∈ s, (digit c).isSome := by
  induction s generalizing acc with
  | nil => intro c hc; cases hc
  | cons b s ih =>
    obtain ⟨d, hd, hs⟩ := Option.bind_eq_some_iff.mp h
    intro c hc
    rcases List.mem_cons.mp hc with rfl | hc
    · rw [hd]
      rfl
    · exact ih hs c hc

theorem exists_digitsValue {acc : ℕ} {s : Bytes} (h : ∀ c ∈ s, (digit c).isSome) :
    ∃ n, digitsValue digit base acc s = some n := by
  induction s generalizing acc with
  | nil => exact ⟨acc, rfl⟩
  | cons b s ih =>
    obtain ⟨d, hd⟩ := Option.isSome_iff_exists.mp (h b List.mem_cons_self)
    rw [digitsValue, hd, Option.bind_some]
    exact ih fun c hc => h c (List.mem_cons_of_mem _ hc)

theorem le_digitsValue (hbase : 1 ≤ base) {acc n : ℕ} {s : Bytes}
    (h : digitsValue digit base acc s = some n) : acc ≤ n := by
  induction s generalizing acc with
  | nil => exact (Option.some.inj h).le
  | cons b s ih =>
    obtain ⟨d, -, hs⟩ := Option.bind_eq_some_iff.mp h
    have hnext := ih hs
    have hacc : acc ≤ base * acc := Nat.le_mul_of_pos_left acc hbase
    omega

theorem notMem_of_digit {s : Bytes} (h : ∀ c ∈ s, (digit c).isSome) {b : UInt8}
    (hb : digit b = none) : b ∉ s := by
  intro hmem
  have := h b hmem
  rw [hb] at this
  cases this

theorem parseInt_digits {s : Bytes} {n : ℕ} (hplus : digit 43 = none) (hminus : digit 45 = none)
    (hne : s ≠ []) (hn : digitsValue digit base 0 s = some n) :
    parseInt digit base bits s = if n < 2 ^ (bits - 1) then some (n : Int) else none := by
  have hdigits := digitsValue_digit hn
  have hhead : ∀ b, digit b = none → s.head? ≠ some b := fun b hb h =>
    notMem_of_digit hdigits hb (List.mem_of_head? h)
  simp only [parseInt, hhead 43 hplus, hhead 45 hminus, or_self, if_false, hne, hn, Option.bind_some,
    decide_false, Bool.false_eq_true]

end Momo
