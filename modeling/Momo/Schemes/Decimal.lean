import Mathlib

/-! @scheme decimal | family:encoding

    Decimal numerals as ASCII text: `decimal w n` writes `n` without leading zeros, for every `n`
    below `10 ^ w`, most significant digit first. Two facts are all a reader needs: a numeral fits
    in `k` characters exactly when the number is below `10 ^ k`, and a left-to-right reader that
    turns `acc` and a digit `d` into `acc * 10 + d` as long as the result stays within a bound reads
    back every number within that bound. -/

namespace Momo

def digitByte (d : ℕ) : UInt8 := UInt8.ofNat (48 + d)

/-- The decimal numeral of `n`, for `n < 10 ^ w`. -/
def decimal : ℕ → ℕ → List UInt8
  | 0, _ => []
  | w + 1, n => if n < 10 then [digitByte n] else decimal w (n / 10) ++ [digitByte (n % 10)]

theorem toNat_digitByte {d : ℕ} (hd : d < 10) : (digitByte d).toNat = 48 + d := by
  rw [digitByte, UInt8.toNat_ofNat']
  omega

theorem mem_decimal : ∀ {w n : ℕ} {c : UInt8}, c ∈ decimal w n → ∃ d < 10, c = digitByte d
  | w + 1, n, c, h => by
      rw [decimal] at h
      split_ifs at h with hn
      · exact ⟨n, hn, List.mem_singleton.mp h⟩
      · rcases List.mem_append.mp h with h | h
        · exact mem_decimal h
        · exact ⟨n % 10, by omega, List.mem_singleton.mp h⟩

theorem decimal_ne_nil : ∀ {w n : ℕ}, 0 < w → decimal w n ≠ []
  | w + 1, n, _ => by rw [decimal]; split_ifs <;> simp

theorem length_decimal_le : ∀ {w n k : ℕ}, n < 10 ^ w → 0 < w → 0 < k →
    ((decimal w n).length ≤ k ↔ n < 10 ^ k)
  | w + 1, n, k + 1, hn, _, _ => by
      have hpow : 10 ≤ 10 ^ (k + 1) := by rw [pow_succ]; have := Nat.one_le_pow k 10; omega
      rw [decimal]
      split_ifs with hsmall
      · simp only [List.length_singleton]; omega
      · have hrest : n / 10 < 10 ^ w := by rw [pow_succ] at hn; omega
        have hw : 0 < w := Nat.pos_of_ne_zero fun h => by subst h; omega
        rw [List.length_append, List.length_singleton, Nat.add_le_add_iff_right]
        cases k with
        | zero =>
          -- one character is not enough for a number of two digits or more
          have := List.length_pos_iff.mpr (@decimal_ne_nil w (n / 10) hw)
          simp only [zero_add, pow_one]
          omega
        | succ k =>
          rw [length_decimal_le hrest hw (Nat.succ_pos k), pow_succ 10 (k + 1)]
          omega

theorem foldlM_decimal {ε : Type*} {f : ℕ → UInt8 → Except ε ℕ} {bound : ℕ}
    (hstep : ∀ acc d, d < 10 → acc * 10 + d ≤ bound → f acc (digitByte d) = .ok (acc * 10 + d)) :
    ∀ {w n : ℕ}, n < 10 ^ w → n ≤ bound → (decimal w n).foldlM f 0 = .ok n
  | 0, n, hn, _ => by
      obtain rfl : n = 0 := by simpa using hn
      rfl
  | w + 1, n, hn, hbound => by
      rw [decimal]
      split_ifs with hsmall
      · have hread := hstep 0 n hsmall (by omega)
        simpa using hread
      · have hrest := @foldlM_decimal ε f bound hstep w (n / 10) (by rw [pow_succ] at hn; omega)
          (by omega)
        have hread := hstep (n / 10) (n % 10) (by omega) (by omega)
        rw [Nat.div_add_mod'] at hread
        rw [List.foldlM_append, hrest]
        simp [bind, Except.bind, hread, pure, Except.pure]

end Momo
