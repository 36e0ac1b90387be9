import Mathlib

/-! @scheme secret-sharing | family:polynomials over a field

    A secret is the value at zero of a polynomial, a share its value at another point. Three facts
    about how such things are computed: running powers evaluate the polynomial, enough shares weighted
    with products over the other points give back the secret, and one inversion is enough to invert a
    whole list (products on the way in, quotients on the way out). -/

namespace Momo.SecretSharing

open Polynomial

variable {F : Type} [Field F]

/-! ### Polynomials as lists -/

noncomputable def poly : List F → F[X]
  | [] => 0
  | c :: cs => C c + X * poly cs

theorem eval_zero_poly (c : F) (cs : List F) : (poly (c :: cs)).eval 0 = c := by
  simp [poly]

theorem degree_poly_lt (cs : List F) : (poly cs).degree < cs.length := by
  induction cs with
  | nil =>
    rw [poly, degree_zero]
    exact WithBot.bot_lt_coe 0
  | cons c cs ih =>
    rw [poly, List.length_cons, Nat.cast_add, Nat.cast_one]
    refine lt_of_le_of_lt (degree_add_le _ _) (max_lt ?_ ?_)
    · exact lt_of_le_of_lt degree_C_le (by exact_mod_cast Nat.succ_pos _)
    · rw [degree_mul, degree_X, add_comm]
      exact WithBot.add_lt_add_right (by decide) ih

theorem coeff_poly (cs : List F) (k : ℕ) : (poly cs).coeff k = cs.getD k 0 := by
  induction cs generalizing k with
  | nil => rfl
  | cons c cs ih => cases k <;> simp [poly, ih, coeff_C_succ]

theorem poly_coeff {f : F[X]} {n : ℕ} (hf : f.degree < n) :
    poly ((List.range n).map f.coeff) = f := by
  ext k
  rw [coeff_poly, List.getD_eq_getElem?_getD, List.getElem?_map]
  rcases lt_or_ge k n with h | h
  · simp [h]
  · simp [h, coeff_eq_zero_of_degree_lt (hf.trans_le (Nat.cast_le.mpr h))]

/-- Run: a sum with running powers is the polynomial's value. -/
theorem foldl_powers (x : F) (cs : List F) (out p : F) :
    (cs.foldl (fun (a : F × F) c => (a.1 + a.2 * c, a.2 * x)) (out, p)).1 =
      out + p * (poly cs).eval x := by
  induction cs generalizing out p with
  | nil => simp [poly]
  | cons c cs ih =>
    rw [List.foldl_cons, ih, poly, eval_add, eval_C, eval_mul, eval_X]
    ring

/-! ### One inversion for a list -/

/-- The products on the way in, the quotients on the way out: the inverse of `p` and those of the
    list. -/
def unwind : F → List F → F × List F
  | p, [] => (p⁻¹, [])
  | p, s :: rest =>
    let (inv, invs) := unwind (p * s) rest
    (inv * s, p * inv :: invs)

theorem unwind_eq {p : F} {l : List F} (hp : p ≠ 0) (hl : ∀ s ∈ l, s ≠ 0) :
    unwind p l = (p⁻¹, l.map (·⁻¹)) := by
  induction l generalizing p with
  | nil => rfl
  | cons s rest ih =>
    have hs : s ≠ 0 := hl s (List.mem_cons_self ..)
    rw [unwind, ih (mul_ne_zero hp hs) (fun x hx => hl x (List.mem_cons_of_mem _ hx))]
    have hinv : (p * s)⁻¹ * s = p⁻¹ := by
      rw [mul_inv, mul_assoc, inv_mul_cancel₀ hs, mul_one]
    have hinvs : p * (p * s)⁻¹ = s⁻¹ := by
      rw [mul_inv, ← mul_assoc, mul_inv_cancel₀ hp, one_mul]
    simp only [hinv, hinvs, List.map_cons]

/-! ### The value at zero -/

variable {ι : Type} [DecidableEq ι]

def weight (s : Finset ι) (v : ι → F) (i : ι) : F :=
  (∏ j ∈ s.erase i, v j) * (∏ j ∈ s.erase i, (v j - v i))⁻¹

theorem eval_zero_basis (s : Finset ι) (v : ι → F) (i : ι) :
    (Lagrange.basis s v i).eval 0 = weight s v i := by
  rw [Lagrange.basis, eval_prod, weight, ← Finset.prod_inv_distrib, ← Finset.prod_mul_distrib]
  refine Finset.prod_congr rfl fun j _ => ?_
  rw [Lagrange.basisDivisor, eval_mul, eval_C, eval_sub, eval_X, eval_C, zero_sub, mul_comm,
    neg_mul_comm, ← inv_neg, neg_sub]

/-- CORRECT: the weighted values at as many distinct points as there are coefficients, or more, add
    up to the value at zero. -/
theorem sum_weights {s : Finset ι} {v : ι → F} (hv : Set.InjOn v s) {f : F[X]}
    (hf : f.degree < s.card) : ∑ i ∈ s, weight s v i * f.eval (v i) = f.eval 0 := by
  conv_rhs => rw [Lagrange.eq_interpolate hv hf, Lagrange.interpolate_apply, eval_finsetSum]
  refine Finset.sum_congr rfl fun i _ => ?_
  rw [eval_mul, eval_C, eval_zero_basis, mul_comm]

theorem sum_weights_smul {G : Type} [AddCommGroup G] [Module F G] {s : Finset ι} {v : ι → F}
    (hv : Set.InjOn v s) {f : F[X]} (hf : f.degree < s.card) (P : G) :
    ∑ i ∈ s, weight s v i • f.eval (v i) • P = f.eval 0 • P := by
  rw [← sum_weights hv hf, Finset.sum_smul]
  exact Finset.sum_congr rfl fun i _ => smul_smul ..

end Momo.SecretSharing
