import Mathlib

/-! @scheme byte-order | family:encoding

    Numerals of a fixed width: `bePut w n` writes the low `8 * w` bits of `n`, most significant
    byte first, and `beGet` reads any byte string back as a number. Reading what was written gives
    the number reduced to the width, and the width is the length written. The little-endian forms
    are the same bytes in reverse. -/

namespace Momo

/-- `n` as `w` bytes, most significant first; bits beyond the width are dropped. -/
def bePut : ℕ → ℕ → List UInt8
  | 0, _ => []
  | w + 1, n => bePut w (n / 256) ++ [UInt8.ofNat n]

def beGet (b : List UInt8) : ℕ := b.foldl (fun acc x => acc * 256 + x.toNat) 0

/-- `n` as `w` bytes, least significant first. -/
def lePut (w n : ℕ) : List UInt8 := (bePut w n).reverse

def leGet (b : List UInt8) : ℕ := beGet b.reverse

@[simp] theorem length_bePut : ∀ w n, (bePut w n).length = w
  | 0, _ => rfl
  | w + 1, n => by rw [bePut, List.length_append, length_bePut w]; rfl

theorem beGet_snoc (b : List UInt8) (x : UInt8) : beGet (b ++ [x]) = beGet b * 256 + x.toNat := by
  rw [beGet, beGet, List.foldl_append]; rfl

theorem beGet_lt (b : List UInt8) : beGet b < 256 ^ b.length := by
  induction b using List.reverseRecOn with
  | nil => decide
  | append_singleton b x ih =>
    have hx := x.toNat_lt
    rw [beGet_snoc, List.length_append, List.length_singleton, pow_succ]
    omega

theorem beGet_bePut : ∀ w n, beGet (bePut w n) = n % 256 ^ w
  | 0, n => by simp [bePut, beGet, Nat.mod_one]
  | w + 1, n => by
      have hbyte : (UInt8.ofNat n).toNat = n % 256 := UInt8.toNat_ofNat'
      rw [bePut, beGet_snoc, beGet_bePut w (n / 256), hbyte, pow_succ, mul_comm (256 ^ w) 256,
        Nat.mod_mul]
      omega

theorem bePut_beGet (b : List UInt8) : bePut b.length (beGet b) = b := by
  induction b using List.reverseRecOn with
  | nil => rfl
  | append_singleton b x ih =>
    have hx := x.toNat_lt
    have hdiv : (beGet b * 256 + x.toNat) / 256 = beGet b := by omega
    have hlow : UInt8.ofNat (beGet b * 256 + x.toNat) = x := by
      apply UInt8.toNat_inj.mp
      rw [UInt8.toNat_ofNat']
      omega
    rw [List.length_append, List.length_singleton, beGet_snoc, bePut, hdiv, ih, hlow]

theorem bePut_eq_iff {w m n : ℕ} : bePut w m = bePut w n ↔ m % 256 ^ w = n % 256 ^ w := by
  constructor
  · intro h
    rw [← beGet_bePut, h, beGet_bePut]
  · intro h
    have hm := bePut_beGet (bePut w m)
    have hn := bePut_beGet (bePut w n)
    rw [length_bePut, beGet_bePut] at hm hn
    rw [← hm, h, hn]

end Momo
