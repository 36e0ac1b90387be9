import Mathlib

/-! @scheme code | family:self-delimiting encodings

    Encodings that say themselves where they end: a decoder gets back the value and whatever stands
    behind it, so encodings can be put one after the other. Numbers stand in unary, texts and lists
    behind their length. What a code decodes is a field of its type, so a code that loses something
    cannot be built. -/

namespace Momo

structure Code (α : Type) where
  enc : α → List UInt8
  dec : List UInt8 → Option (α × List UInt8)
  dec_enc : ∀ a rest, dec (enc a ++ rest) = some (a, rest)

namespace Code

variable {α γ : Type}

def unary : List UInt8 → Option (ℕ × List UInt8)
  | [] => none
  | x :: rest => if x = 0 then some (0, rest) else (unary rest).map fun r => (r.1 + 1, r.2)

def nat : Code ℕ where
  enc n := List.replicate n 1 ++ [0]
  dec := unary
  dec_enc n rest := by
    induction n with
    | zero => rfl
    | succ n ih =>
      rw [List.replicate_succ, List.cons_append, List.cons_append, unary, if_neg (by decide), ih]
      rfl

def pair (a : Code α) (c : Code γ) : Code (α × γ) where
  enc x := a.enc x.1 ++ c.enc x.2
  dec l := (a.dec l).bind fun r => (c.dec r.2).map fun r' => ((r.1, r'.1), r'.2)
  dec_enc x rest := by
    rw [List.append_assoc, a.dec_enc, Option.bind_some, c.dec_enc]
    rfl

def map (a : Code α) (f : α → γ) (g : γ → α) (hfg : ∀ c, f (g c) = c) : Code γ where
  enc c := a.enc (g c)
  dec l := (a.dec l).map fun r => (f r.1, r.2)
  dec_enc c rest := by
    rw [a.dec_enc, Option.map_some, hfg]

def bytes : Code (List UInt8) where
  enc b := nat.enc b.length ++ b
  dec l := (nat.dec l).map fun r => (r.2.take r.1, r.2.drop r.1)
  dec_enc b rest := by
    rw [List.append_assoc, nat.dec_enc, Option.map_some, List.take_left, List.drop_left]

/-- The next `n` values. -/
def decN (a : Code α) : ℕ → List UInt8 → Option (List α × List UInt8)
  | 0, l => some ([], l)
  | n + 1, l => (a.dec l).bind fun r => (decN a n r.2).map fun r' => (r.1 :: r'.1, r'.2)

theorem decN_flatMap (a : Code α) (xs : List α) (rest : List UInt8) :
    decN a xs.length (xs.flatMap a.enc ++ rest) = some (xs, rest) := by
  induction xs with
  | nil => rfl
  | cons x xs ih =>
    rw [List.flatMap_cons, List.append_assoc, List.length_cons, decN, a.dec_enc, Option.bind_some, ih]
    rfl

def list (a : Code α) : Code (List α) where
  enc xs := nat.enc xs.length ++ xs.flatMap a.enc
  dec l := (nat.dec l).bind fun r => decN a r.1 r.2
  dec_enc xs rest := by
    rw [List.append_assoc, nat.dec_enc, Option.bind_some, decN_flatMap]

def int : Code ℤ :=
  (pair nat nat).map (fun x => if x.1 = 0 then (x.2 : ℤ) else Int.negSucc x.2)
    (fun i => match i with
      | .ofNat n => (0, n)
      | .negSucc n => (1, n))
    (by rintro (n | n) <;> rfl)

end Code

end Momo
