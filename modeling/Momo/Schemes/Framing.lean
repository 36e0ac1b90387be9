import Momo.Schemes.ByteOrder
import Momo.Schemes.Prog

/-! @scheme framing | family:encoding

    Fields taken off the front of a byte string, one after the other: some bytes, a number of a fixed
    width, a number of values. A reader fails with its own error where the string is too short; on
    what was written, with anything behind it, it returns the value and leaves the rest. -/

namespace Momo.Framing

variable {ε α γ : Type}

/-- The next `n` bytes. -/
def take (e : ε) (n : ℕ) : Prog (List UInt8) ε (List UInt8) := fun rest =>
  if rest.length < n then (.error e, rest) else (.ok (rest.take n), rest.drop n)

def number (e : ε) (w : ℕ) : Prog (List UInt8) ε ℕ := do return beGet (← take e w)

/-- The next `n` values, the first of which has the number `i`. -/
def many (r : ℕ → Prog (List UInt8) ε α) (i : ℕ) : ℕ → Prog (List UInt8) ε (List α)
  | 0 => pure []
  | n + 1 => do return (← r i) :: (← many r (i + 1) n)

variable {e : ε} {rest : List UInt8}

theorem take_append {b : List UInt8} {n : ℕ} (h : b.length = n) :
    take e n (b ++ rest) = (.ok b, rest) := by
  have hlong : ¬ (b ++ rest).length < n := by
    rw [List.length_append]
    omega
  rw [take, if_neg hlong, List.take_left' h, List.drop_left' h]

theorem number_bePut {w n : ℕ} (h : n < 256 ^ w) :
    number e w (bePut w n ++ rest) = (.ok n, rest) := by
  rw [number, Prog.bind_of_ok (take_append (length_bePut w n)), Prog.pure_eq, beGet_bePut,
    Nat.mod_eq_of_lt h]

variable {r : ℕ → Prog (List UInt8) ε γ} {enc : α → List UInt8} {dec : α → γ}

theorem le_length_flatMap {w : ℕ} (h : ∀ x, w ≤ (enc x).length) (xs : List α) :
    w * xs.length ≤ (xs.flatMap enc).length := by
  induction xs with
  | nil => simp
  | cons x xs ih =>
    have := h x
    rw [List.flatMap_cons, List.length_append, List.length_cons, Nat.mul_succ]
    omega

theorem many_succ {b : List UInt8} {y : γ} {i n : ℕ} (h : r i b = (.ok y, rest)) :
    many r i (n + 1) b = ((many r (i + 1) n rest).1.map (y :: ·), (many r (i + 1) n rest).2) := by
  rw [many, Prog.bind_of_ok h]
  rcases hrest : many r (i + 1) n rest with ⟨_ | _, _⟩
  · rw [Prog.bind_of_error hrest]; rfl
  · rw [Prog.bind_of_ok hrest]; rfl

theorem many_flatMap {xs : List α}
    (h : ∀ i, ∀ x ∈ xs, ∀ rest, r i (enc x ++ rest) = (.ok (dec x), rest)) (i : ℕ) :
    many r i xs.length (xs.flatMap enc ++ rest) = (.ok (xs.map dec), rest) := by
  induction xs generalizing i with
  | nil => rfl
  | cons x xs ih =>
    rw [List.flatMap_cons, List.append_assoc, List.length_cons, many_succ (h i x List.mem_cons_self _),
      ih fun j y hy => h j y (List.mem_cons_of_mem _ hy)]
    rfl

end Momo.Framing
