import Momo.Common.Base
import Momo.Schemes.SecretSharing

/-! @momo src/crypto/oprf.go | scheme:secret sharing in the exponent

    The threshold OPRF behind confidential deduplication.

        dealer    a random polynomial of degree t-1, one value per daemon
        client    tag ↦ T, sends r·T
        daemon i  answers f(i)·r·T
        client    weights the answers, gets f(0)·r·T, divides by r, hashes f(0)·T -/

namespace Momo.OPRF

def oprfDST : Bytes := lit "momo/oprf/threshold-ristretto255-sha512"

structure OPRFGroup (q : ℕ) (G : Type) [AddCommGroup G] [Module (ZMod q) G] where
  scalarLength : ℕ
  elementLength : ℕ
  encodeScalar : ZMod q → Bytes
  scalarDecode : Bytes → Except Err (ZMod q)
  encode : G → Bytes
  elementDecode : Bytes → Except Err G
  hashToGroup : Bytes → Bytes → G
  length_encodeScalar : ∀ s, (encodeScalar s).length = scalarLength
  length_encode : ∀ e, (encode e).length = elementLength
  scalarDecode_encode : ∀ s, scalarDecode (encodeScalar s) = .ok s
  elementDecode_encode : ∀ e, elementDecode (encode e) = .ok e

structure OPRFSharePair where
  shareIndex : Int
  share : Bytes
  deriving DecidableEq

structure OPRFEvaluation where
  shareIndex : Int
  eval : Bytes
  deriving DecidableEq

/-! ### The code -/

section Scalars

variable {q : ℕ}

def scalarFromInt (v : Int) : ZMod q := (v : ZMod q)

/-- The inner loop of `GenerateOPRFShares`: a sum with running powers of the point. -/
def shareAt (coeffs : List (ZMod q)) (point : Int) : ZMod q :=
  (coeffs.foldl (fun (a : ZMod q × ZMod q) c => (a.1 + a.2 * c, a.2 * scalarFromInt point)) (0, 1)).1

def verifyUniqueFrom (seen : List Int) : List OPRFEvaluation → Except Err Unit
  | [] => .ok ()
  | e :: rest =>
    if e.shareIndex ∈ seen then .error (.text "oprf: duplicate share index %d" [.num e.shareIndex])
    else verifyUniqueFrom (e.shareIndex :: seen) rest

def verifyUniqueEvaluations (evaluations : List OPRFEvaluation) : Except Err Unit :=
  verifyUniqueFrom [] evaluations

def batchInvert [Fact q.Prime] : List (ZMod q) → List (ZMod q)
  | [] => []
  | [s] => [s⁻¹]
  | s :: rest =>
    let (inv, invs) := SecretSharing.unwind s rest
    inv :: invs

/-- The inner loop of `lagrangeAtZero`: numerator and denominator of point `i`. -/
def fraction (points : List Int) (xi : Int) (i : ℕ) : ZMod q × ZMod q :=
  points.zipIdx.foldl (fun a xj =>
    if i = xj.2 then a
    else (a.1 * scalarFromInt xj.1, a.2 * (scalarFromInt xj.1 - scalarFromInt xi))) (1, 1)

/-- The loops of `lagrangeAtZero`: all fractions, one inversion, the quotients. -/
def coefficientsAt [Fact q.Prime] (points : List Int) : List (ZMod q) :=
  let fractions : List (ZMod q × ZMod q) := points.zipIdx.map fun x => fraction points x.1 x.2
  List.zipWith (fun f inv => f.1 * inv) fractions (batchInvert (fractions.map Prod.snd))

def lagrangeAtZero [Fact q.Prime] (evaluations : List OPRFEvaluation) : Except Err (List (ZMod q)) :=
  match evaluations.find? fun e => e.shareIndex ≤ 0 with
  | some e => .error (.text "oprf: invalid share index %d" [.num e.shareIndex])
  | none => do
    verifyUniqueEvaluations evaluations
    .ok (coefficientsAt (evaluations.map OPRFEvaluation.shareIndex))

end Scalars

section Code

variable {q : ℕ} {G : Type} [AddCommGroup G] [Module (ZMod q) G] (oprfGroup : OPRFGroup q G)

def generateOPRFShares (t n : Int) (random : ℕ → ZMod q) : Except Err (List OPRFSharePair) :=
  if t < 1 ∨ n < t then
    .error (.text "oprf: invalid threshold %d for %d shares" [.num t, .num n])
  else
    let coeffs := (List.range t.toNat).map random
    .ok ((List.range n.toNat).map fun (i : ℕ) =>
      ⟨(i : Int) + 1, oprfGroup.encodeScalar (shareAt coeffs ((i : Int) + 1))⟩)

def oprfBlind (tag : Bytes) (r : ZMod q) : Except Err (Bytes × Bytes) :=
  if tag = [] then .error (.text "oprf: empty tag input")
  else .ok (oprfGroup.encode (r • oprfGroup.hashToGroup tag oprfDST), oprfGroup.encodeScalar r)

def decodeScalar (b : Bytes) : Except Err (ZMod q) :=
  if b.length ≠ oprfGroup.scalarLength then
    .error (.text "oprf: invalid scalar length %d, want %d" [.num b.length, .num oprfGroup.scalarLength])
  else (oprfGroup.scalarDecode b).mapError (.wrap "oprf: failed to decode scalar: %w" [])

def decodeElement (b : Bytes) : Except Err G :=
  if b.length ≠ oprfGroup.elementLength then
    .error (.text "oprf: invalid element length %d, want %d"
      [.num b.length, .num oprfGroup.elementLength])
  else (oprfGroup.elementDecode b).mapError (.wrap "oprf: failed to decode element: %w" [])

def oprfEvaluateShare (shareScalar blinded : Bytes) : Except Err Bytes := do
  let share ← decodeScalar oprfGroup shareScalar
  let blindedElem ← decodeElement oprfGroup blinded
  .ok (oprfGroup.encode (share • blindedElem))

variable [Sha256]

def oprfFinalizeElement (e : G) (blind : Bytes) : Except Err Bytes := do
  let b ← decodeScalar oprfGroup blind
  .ok (Sha256.sum256 (oprfGroup.encode (b⁻¹ • e)))

/-- The loop of `OPRFCombineUnblind`; `combined` is nil before the first evaluation. -/
def combineFrom (combined : Option G) : List (OPRFEvaluation × ZMod q) → Except Err (Option G)
  | [] => .ok combined
  | (eval, coefficient) :: rest =>
    match oprfGroup.elementDecode eval.eval with
    | .error e => .error (.wrap "oprf: failed to decode evaluation: %w" [] e)
    | .ok e =>
      combineFrom (some (match combined with
        | none => coefficient • e
        | some acc => acc + coefficient • e)) rest

def oprfCombineUnblind [Fact q.Prime] (evaluations : List OPRFEvaluation) (blind : Bytes)
    (threshold : Int) : Except Err Bytes :=
  if threshold < 1 then .error (.text "oprf: threshold must be >= 1")
  else if (evaluations.length : Int) < threshold then
    .error (.text "oprf: only %d evaluations, need %d" [.num evaluations.length, .num threshold])
  else if threshold = 1 then do
    verifyUniqueEvaluations evaluations
    match evaluations with
    | [] => .error (.text "index out of range")
    | first :: _ =>
      let e ← decodeElement oprfGroup first.eval
      oprfFinalizeElement oprfGroup e blind
  else do
    let coefficients ← lagrangeAtZero evaluations
    match ← combineFrom oprfGroup none (evaluations.zip coefficients) with
    | none => .error (.text "invalid memory address or nil pointer dereference")
    | some combined => oprfFinalizeElement oprfGroup combined blind

end Code

/-! ### The scalars -/

section Scalars

variable {q : ℕ}

theorem shareAt_eq [Fact q.Prime] (coeffs : List (ZMod q)) (point : Int) :
    shareAt coeffs point = (SecretSharing.poly coeffs).eval (scalarFromInt point) := by
  rw [shareAt, SecretSharing.foldl_powers, zero_add, one_mul]

theorem verifyUniqueFrom_ok {evaluations : List OPRFEvaluation} {seen : List Int}
    (hnodup : (evaluations.map OPRFEvaluation.shareIndex).Nodup)
    (hseen : ∀ e ∈ evaluations, e.shareIndex ∉ seen) : verifyUniqueFrom seen evaluations = .ok () := by
  induction evaluations generalizing seen with
  | nil => rfl
  | cons e rest ih =>
    obtain ⟨hnew, hrest⟩ := List.nodup_cons.mp hnodup
    rw [verifyUniqueFrom, if_neg (hseen e (List.mem_cons_self ..))]
    refine ih hrest (fun e' he' hmem => ?_)
    rcases List.mem_cons.mp hmem with heq | hmem
    · exact hnew (heq ▸ List.mem_map_of_mem he')
    · exact hseen e' (List.mem_cons_of_mem _ he') hmem

theorem batchInvert_eq [Fact q.Prime] {l : List (ZMod q)} (hl : ∀ s ∈ l, s ≠ 0) :
    batchInvert l = l.map (·⁻¹) := by
  match l, hl with
  | [], _ => rfl
  | [s], _ => rfl
  | s :: s' :: rest, hl =>
    rw [batchInvert, SecretSharing.unwind_eq (hl s (List.mem_cons_self ..))
      (fun x hx => hl x (List.mem_cons_of_mem _ hx))]
    · rfl
    · simp

variable {n : Int}

theorem scalarFromInt_injOn (hq : n < q) :
    Set.InjOn (scalarFromInt : Int → ZMod q) {x | 1 ≤ x ∧ x ≤ n} := by
  intro a ha b hb hab
  rw [scalarFromInt, scalarFromInt, ZMod.intCast_eq_intCast_iff_dvd_sub] at hab
  obtain ⟨ha1, han⟩ := ha
  obtain ⟨hb1, hbn⟩ := hb
  have hzero := Int.eq_zero_of_abs_lt_dvd hab (abs_lt.mpr ⟨by omega, by omega⟩)
  omega

/-- Run: the loop multiplies over the points with another index. -/
theorem fraction_eq (points : List Int) (xi : Int) (i : ℕ) :
    (fraction points xi i : ZMod q × ZMod q) =
      (((points.zipIdx.filter (fun x => x.2 ≠ i)).map fun x => scalarFromInt x.1).prod,
        ((points.zipIdx.filter (fun x => x.2 ≠ i)).map fun x =>
          scalarFromInt x.1 - scalarFromInt xi).prod) := by
  have hfold : ∀ (l : List (Int × ℕ)) (a : ZMod q × ZMod q),
      l.foldl (fun a xj => if i = xj.2 then a
        else (a.1 * scalarFromInt xj.1, a.2 * (scalarFromInt xj.1 - scalarFromInt xi))) a =
      (a.1 * ((l.filter (fun x => x.2 ≠ i)).map fun x => scalarFromInt x.1).prod,
        a.2 * ((l.filter (fun x => x.2 ≠ i)).map fun x => scalarFromInt x.1 - scalarFromInt xi).prod) := by
    intro l
    induction l with
    | nil => simp
    | cons x l ih =>
      intro a
      rw [List.foldl_cons, ih, List.filter_cons]
      by_cases hx : i = x.2
      · simp [hx]
      · simp [hx, Ne.symm hx, mul_assoc]
  rw [fraction, hfold, one_mul, one_mul]

variable {points : List Int}

theorem others_eq (hnodup : points.Nodup) {xi : Int} {i : ℕ} (hi : (xi, i) ∈ points.zipIdx) :
    (points.zipIdx.filter (fun x => x.2 ≠ i)).map Prod.fst = points.filter (fun x => x ≠ xi) := by
  have hsame : ∀ x ∈ points.zipIdx, decide (x.2 ≠ i) = decide (x.1 ≠ xi) := by
    intro x hx
    rw [decide_eq_decide, not_iff_not]
    have hx' := List.mem_zipIdx_iff_getElem?.mp hx
    have hi' := List.mem_zipIdx_iff_getElem?.mp hi
    constructor
    · intro h
      rw [h, hi'] at hx'
      exact (Option.some.inj hx').symm
    · intro h
      rw [h] at hx'
      have hlt := (List.getElem?_eq_some_iff.mp hx').1
      exact (List.getElem?_inj hlt hnodup).mp (hx'.trans hi'.symm)
  rw [List.filter_congr hsame]
  conv_rhs => rw [← List.zipIdx_map_fst 0 points, List.filter_map]
  rfl

def fractionOf (points : Finset Int) (x : Int) : ZMod q × ZMod q :=
  (∏ j ∈ points.erase x, scalarFromInt j, ∏ j ∈ points.erase x, (scalarFromInt j - scalarFromInt x))

theorem fraction_eq_fractionOf (hnodup : points.Nodup) {x : Int × ℕ} (hx : x ∈ points.zipIdx) :
    (fraction points x.1 x.2 : ZMod q × ZMod q) = fractionOf points.toFinset x.1 := by
  have hothers := others_eq hnodup hx
  have herase : points.toFinset.erase x.1 = (points.filter (fun y => y ≠ x.1)).toFinset := by
    ext y
    simp [and_comm]
  have hprod : ∀ f : Int → ZMod q,
      ((points.zipIdx.filter (fun y => y.2 ≠ x.2)).map fun y => f y.1).prod =
        ∏ j ∈ points.toFinset.erase x.1, f j := by
    intro f
    rw [herase, List.prod_toFinset _ (hnodup.filter _), ← hothers, List.map_map]
    rfl
  rw [fraction_eq, hprod, hprod (fun j => scalarFromInt j - scalarFromInt x.1), fractionOf]

theorem coefficientsAt_eq [Fact q.Prime] (hq : n < q) (hnodup : points.Nodup)
    (hrange : ∀ x ∈ points, 1 ≤ x ∧ x ≤ n) :
    (coefficientsAt points : List (ZMod q)) =
      points.map (SecretSharing.weight points.toFinset scalarFromInt) := by
  have hfractions : (points.zipIdx.map fun x => (fraction points x.1 x.2 : ZMod q × ZMod q)) =
      points.map (fractionOf points.toFinset) := by
    calc points.zipIdx.map (fun x => fraction points x.1 x.2)
        = points.zipIdx.map (fractionOf points.toFinset ∘ Prod.fst) :=
          List.map_congr_left fun x hx => fraction_eq_fractionOf hnodup hx
      _ = points.map (fractionOf points.toFinset) := by rw [← List.map_map, List.zipIdx_map_fst]
  -- indices below the order are different scalars, so no denominator vanishes
  have hdens : ∀ d ∈ (points.map (fractionOf points.toFinset)).map Prod.snd, d ≠ (0 : ZMod q) := by
    intro d hd
    obtain ⟨f, hf, rfl⟩ := List.mem_map.mp hd
    obtain ⟨x, hx, rfl⟩ := List.mem_map.mp hf
    rw [fractionOf, Finset.prod_ne_zero_iff]
    intro j hj
    obtain ⟨hne, hj⟩ := Finset.mem_erase.mp hj
    refine sub_ne_zero.mpr (fun heq => hne ?_)
    exact scalarFromInt_injOn hq (hrange j (List.mem_toFinset.mp hj)) (hrange x hx) heq
  rw [coefficientsAt, hfractions, batchInvert_eq hdens, List.map_map, List.map_map, List.zipWith_map,
    List.zipWith_self]
  rfl

theorem lagrangeAtZero_eq [Fact q.Prime] (hq : n < q) {evaluations : List OPRFEvaluation}
    (hnodup : (evaluations.map OPRFEvaluation.shareIndex).Nodup)
    (hrange : ∀ e ∈ evaluations, 1 ≤ e.shareIndex ∧ e.shareIndex ≤ n) :
    lagrangeAtZero evaluations = .ok (evaluations.map fun e =>
      SecretSharing.weight (evaluations.map OPRFEvaluation.shareIndex).toFinset
        (scalarFromInt : Int → ZMod q) e.shareIndex) := by
  have hfind : (evaluations.find? fun e => decide (e.shareIndex ≤ 0)) = none := by
    rw [List.find?_eq_none]
    intro e he
    have := (hrange e he).1
    simp only [decide_eq_true_eq]
    omega
  have hpoints : ∀ x ∈ evaluations.map OPRFEvaluation.shareIndex, 1 ≤ x ∧ x ≤ n := by
    intro x hx
    obtain ⟨e, he, rfl⟩ := List.mem_map.mp hx
    exact hrange e he
  unfold lagrangeAtZero
  simp only [hfind, verifyUniqueEvaluations, verifyUniqueFrom_ok hnodup (fun _ _ => List.not_mem_nil),
    bind, Except.bind, coefficientsAt_eq hq hnodup hpoints, List.map_map]
  rfl

/-! ### Combining -/

section Combine

variable {G : Type} [AddCommGroup G] [Module (ZMod q) G] {oprfGroup : OPRFGroup q G}

theorem decodeScalar_encode (s : ZMod q) :
    decodeScalar oprfGroup (oprfGroup.encodeScalar s) = .ok s := by
  rw [decodeScalar, if_neg (by simp [oprfGroup.length_encodeScalar]), oprfGroup.scalarDecode_encode]
  rfl

theorem decodeElement_encode (e : G) : decodeElement oprfGroup (oprfGroup.encode e) = .ok e := by
  rw [decodeElement, if_neg (by simp [oprfGroup.length_encode]), oprfGroup.elementDecode_encode]
  rfl

theorem oprfEvaluateShare_eq (share : ZMod q) (blinded : G) :
    oprfEvaluateShare oprfGroup (oprfGroup.encodeScalar share) (oprfGroup.encode blinded) =
      .ok (oprfGroup.encode (share • blinded)) := by
  simp only [oprfEvaluateShare, decodeScalar_encode, decodeElement_encode, bind, Except.bind]

/-- Run: the loop adds up the weighted answers. -/
theorem combineFrom_eq (value : OPRFEvaluation → G) (coefficient : OPRFEvaluation → ZMod q)
    {evaluations : List OPRFEvaluation}
    (hvalue : ∀ e ∈ evaluations, e.eval = oprfGroup.encode (value e)) (acc : G) :
    combineFrom oprfGroup (some acc) (evaluations.zip (evaluations.map coefficient)) =
      .ok (some (acc + (evaluations.map fun e => coefficient e • value e).sum)) := by
  induction evaluations generalizing acc with
  | nil => simp [combineFrom]
  | cons e rest ih =>
    rw [List.map_cons, List.zip_cons_cons, combineFrom, hvalue e (List.mem_cons_self ..),
      oprfGroup.elementDecode_encode]
    simp only [ih (fun e' he' => hvalue e' (List.mem_cons_of_mem _ he')), List.map_cons, List.sum_cons,
      add_assoc]

theorem combine_eq (value : OPRFEvaluation → G) (coefficient : OPRFEvaluation → ZMod q)
    {evaluations : List OPRFEvaluation} (hne : evaluations ≠ [])
    (hvalue : ∀ e ∈ evaluations, e.eval = oprfGroup.encode (value e)) :
    combineFrom oprfGroup none (evaluations.zip (evaluations.map coefficient)) =
      .ok (some (evaluations.map fun e => coefficient e • value e).sum) := by
  cases evaluations with
  | nil => exact absurd rfl hne
  | cons e rest =>
    rw [List.map_cons, List.zip_cons_cons, combineFrom, hvalue e (List.mem_cons_self ..),
      oprfGroup.elementDecode_encode]
    simp only [combineFrom_eq value coefficient (fun e' he' => hvalue e' (List.mem_cons_of_mem _ he')),
      List.map_cons, List.sum_cons]

theorem answer_eq {t n : Int} {random : ℕ → ZMod q} {shares : List OPRFSharePair} {T : G}
    (hshares : generateOPRFShares oprfGroup t n random = .ok shares) {e : OPRFEvaluation}
    {s : OPRFSharePair} (hs : s ∈ shares) (hindex : e.shareIndex = s.shareIndex)
    (heval : oprfEvaluateShare oprfGroup s.share (oprfGroup.encode T) = .ok e.eval) :
    (1 ≤ e.shareIndex ∧ e.shareIndex ≤ n) ∧
      e.eval = oprfGroup.encode (shareAt ((List.range t.toNat).map random) e.shareIndex • T) := by
  unfold generateOPRFShares at hshares
  split_ifs at hshares
  obtain rfl := Except.ok.inj hshares
  obtain ⟨i, hi, rfl⟩ := List.mem_map.mp hs
  rw [List.mem_range] at hi
  rw [oprfEvaluateShare_eq] at heval
  refine ⟨by simp only at hindex; omega, ?_⟩
  rw [hindex, ← Except.ok.inj heval]

theorem eval_zero_drawn [Fact q.Prime] {t : Int} (ht : 1 ≤ t) (random : ℕ → ZMod q) :
    (SecretSharing.poly ((List.range t.toNat).map random)).eval 0 = random 0 := by
  obtain ⟨k, hk⟩ : ∃ k, t.toNat = k + 1 := ⟨t.toNat - 1, by omega⟩
  rw [hk, List.range_succ_eq_map, List.map_cons, SecretSharing.eval_zero_poly]

variable [Sha256]

theorem oprfFinalizeElement_eq [Fact q.Prime] {r : ZMod q} (hr : r ≠ 0) (secret : ZMod q) (T : G) :
    oprfFinalizeElement oprfGroup (secret • r • T) (oprfGroup.encodeScalar r) =
      .ok (Sha256.sum256 (oprfGroup.encode (secret • T))) := by
  have hcancel : r⁻¹ • secret • r • T = secret • T := by
    rw [smul_comm secret r T, inv_smul_smul₀ hr]
  simp only [oprfFinalizeElement, decodeScalar_encode, bind, Except.bind, hcancel]

end Combine

end Scalars

/-! ### A group of five elements -/

def groupOfFive : OPRFGroup 5 (ZMod 5) where
  scalarLength := 1
  elementLength := 1
  encodeScalar s := [UInt8.ofNat s.val]
  scalarDecode b := .ok ((b.headD 0).toNat : ZMod 5)
  encode e := [UInt8.ofNat e.val]
  elementDecode b := .ok ((b.headD 0).toNat : ZMod 5)
  hashToGroup _ _ := 3
  length_encodeScalar _ := rfl
  length_encode _ := rfl
  scalarDecode_encode := by decide
  elementDecode_encode := by decide

section Runs

local instance primeFive : Fact (Nat.Prime 5) := ⟨by decide⟩
local instance oprfSha : Sha256 := polySha

end Runs

end Momo.OPRF
