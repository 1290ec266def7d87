import Mathlib.Algebra.CharP.Two
import Mathlib.Algebra.Polynomial.Div
import Mathlib.Algebra.Field.ZMod
import Mathlib.RingTheory.Coprime.Lemmas
import Mathlib.Tactic.LinearCombination
import Mathlib.Tactic.Ring

/-!
# Words as polynomials over two elements

The bits of a word are the coefficients of its polynomial: exclusive or is the sum, a shift
to the left is a product with a power of `X` but for what it shifts out. A word `g` stands
for the generator of degree `w` whose lower coefficients it holds.
-/

namespace BinaryPolynomial

open Polynomial

variable {w : ℕ}

noncomputable def poly (x : BitVec w) : (ZMod 2)[X] :=
  ∑ i ∈ Finset.range w, if x.getLsbD i then X ^ i else 0

theorem coeff_poly (x : BitVec w) (n : ℕ) :
    (poly x).coeff n = if x.getLsbD n then 1 else 0 := by
  have hterm : ∀ i, (if x.getLsbD i then (X ^ i : (ZMod 2)[X]) else 0).coeff n =
      if n = i then (if x.getLsbD i then 1 else 0) else 0 := by
    intro i
    split
    · exact coeff_X_pow i n
    · simp only [coeff_zero, ite_self]
  rw [poly, finsetSum_coeff, Finset.sum_congr rfl fun i _ => hterm i, Finset.sum_ite_eq]
  split
  · rfl
  · next hn =>
    rw [Finset.mem_range, not_lt] at hn
    rw [BitVec.getLsbD_of_ge x n hn]
    rfl

@[simp] theorem poly_zero : poly (0#w) = 0 := by
  ext n
  simp only [coeff_poly, BitVec.getLsbD_zero, Bool.false_eq_true, if_false, coeff_zero]

theorem poly_xor (x y : BitVec w) : poly (x ^^^ y) = poly x + poly y := by
  have htwo : (1 : ZMod 2) + 1 = 0 := by decide
  ext n
  simp only [coeff_poly, coeff_add, BitVec.getLsbD_xor]
  cases x.getLsbD n <;> cases y.getLsbD n <;> simp [htwo]

theorem degree_poly_lt (x : BitVec w) : (poly x).degree < w := by
  rw [degree_lt_iff_coeff_zero]
  intro n hn
  rw [coeff_poly, BitVec.getLsbD_of_ge x n hn]
  rfl

theorem poly_injective : Function.Injective (poly : BitVec w → (ZMod 2)[X]) := by
  intro x y h
  apply BitVec.eq_of_getLsbD_eq
  intro i _
  have hi : (poly x).coeff i = (poly y).coeff i := by rw [h]
  rw [coeff_poly, coeff_poly] at hi
  cases hx : x.getLsbD i <;> cases hy : y.getLsbD i <;> simp [hx, hy] at hi ⊢

/-- What a shift keeps, and what it shifts out. -/
theorem poly_shiftLeft (x : BitVec w) {k : ℕ} (hk : k ≤ w) :
    poly (x <<< k) + X ^ w * poly (x >>> (w - k)) = X ^ k * poly x := by
  ext n
  rw [coeff_add, coeff_X_pow_mul', coeff_X_pow_mul', coeff_poly, coeff_poly, coeff_poly,
    BitVec.getLsbD_shiftLeft, BitVec.getLsbD_ushiftRight]
  by_cases hn : n < w
  · have hw : ¬ w ≤ n := by omega
    by_cases hkn : k ≤ n
    · have hnk : ¬ n < k := by omega
      simp [hn, hw, hkn, hnk]
    · have hnk : n < k := by omega
      simp [hw, hkn, hnk]
  · have hw : w ≤ n := by omega
    have hkn : k ≤ n := by omega
    have hi : w - k + (n - w) = n - k := by omega
    simp [hn, hw, hkn, hi]

theorem poly_top {v : ℕ} (y : BitVec v) (hv : v ≤ w) :
    poly (y.setWidth w <<< (w - v)) = X ^ (w - v) * poly y := by
  ext n
  rw [coeff_X_pow_mul', coeff_poly, coeff_poly, BitVec.getLsbD_shiftLeft, BitVec.getLsbD_setWidth]
  by_cases hn : w - v ≤ n
  · have hlt : ¬ n < w - v := by omega
    by_cases hw : n < w
    · have hi : n - (w - v) < w := by omega
      simp [hn, hlt, hw, hi]
    · have hi : v ≤ n - (w - v) := by omega
      simp [hn, hw, BitVec.getLsbD_of_ge y _ hi]
  · have hlt : n < w - v := by omega
    simp [hn, hlt]

theorem poly_setWidth {v : ℕ} (x : BitVec w) (hx : ∀ i, v ≤ i → x.getLsbD i = false) :
    poly (x.setWidth v) = poly x := by
  ext n
  rw [coeff_poly, coeff_poly, BitVec.getLsbD_setWidth]
  by_cases hn : n < v
  · simp [hn]
  · simp [hn, hx n (by omega)]

/-- The words of a message, the first one highest. -/
noncomputable def message {v : ℕ} : List (BitVec v) → (ZMod 2)[X]
  | [] => 0
  | y :: l => X ^ (v * l.length) * poly y + message l

theorem message_append {v : ℕ} (l l' : List (BitVec v)) :
    message (l ++ l') = X ^ (v * l'.length) * message l + message l' := by
  induction l with
  | nil => rw [List.nil_append, message, mul_zero, zero_add]
  | cons y l ih =>
    rw [List.cons_append, message, message, ih, List.length_append, Nat.mul_add, pow_add]
    ring

/-! ### Remainders -/

noncomputable def generator (g : BitVec w) : (ZMod 2)[X] := X ^ w + poly g

theorem generator_monic (g : BitVec w) : (generator g).Monic :=
  monic_X_pow_add (degree_poly_lt g)

theorem degree_generator (g : BitVec w) : (generator g).degree = w := by
  have hlt : (poly g).degree < (X ^ w : (ZMod 2)[X]).degree := by
    rw [degree_X_pow]
    exact degree_poly_lt g
  rw [generator, degree_add_eq_left_of_degree_lt hlt, degree_X_pow]

/-- Equal up to a multiple of the generator. -/
def EqMod (g : BitVec w) (p q : (ZMod 2)[X]) : Prop := generator g ∣ p + q

theorem EqMod.refl (g : BitVec w) (p : (ZMod 2)[X]) : EqMod g p p := by
  rw [EqMod, CharTwo.add_self_eq_zero]
  exact dvd_zero _

theorem EqMod.trans {g : BitVec w} {p q r : (ZMod 2)[X]} (h : EqMod g p q)
    (h' : EqMod g q r) : EqMod g p r := by
  have hsum : p + r = p + q + (q + r) := by
    rw [add_assoc, ← add_assoc q, CharTwo.add_self_eq_zero, zero_add]
  rw [EqMod, hsum]
  exact dvd_add h h'

theorem EqMod.mul {g : BitVec w} {p q : (ZMod 2)[X]} (h : EqMod g p q)
    (r : (ZMod 2)[X]) : EqMod g (r * p) (r * q) := by
  rw [EqMod, ← mul_add]
  exact Dvd.dvd.mul_left h r

theorem EqMod.add {g : BitVec w} {p q p' q' : (ZMod 2)[X]} (h : EqMod g p q)
    (h' : EqMod g p' q') : EqMod g (p + p') (q + q') := by
  rw [EqMod, add_add_add_comm]
  exact dvd_add h h'

theorem EqMod.remainder {g x : BitVec w} {p : (ZMod 2)[X]} (h : EqMod g (poly x) p) :
    poly x = p %ₘ generator g := by
  obtain ⟨q, hq⟩ := h
  have hp : poly x + generator g * q = p := by
    rw [← hq, ← add_assoc, CharTwo.add_self_eq_zero, zero_add]
  have hdeg : (poly x).degree < (generator g).degree := by
    rw [degree_generator]
    exact degree_poly_lt x
  exact ((div_modByMonic_unique q (poly x) (generator_monic g) ⟨hp, hdeg⟩).2).symm

theorem EqMod.symm {g : BitVec w} {p q : (ZMod 2)[X]} (h : EqMod g p q) :
    EqMod g q p := by
  rw [EqMod, add_comm]
  exact h

theorem congruent_modByMonic (g : BitVec w) (p : (ZMod 2)[X]) :
    EqMod g (p %ₘ generator g) p := by
  refine ⟨p /ₘ generator g, ?_⟩
  have hdiv := modByMonic_add_div p (generator g)
  calc p %ₘ generator g + p
      = p %ₘ generator g + (p %ₘ generator g + generator g * (p /ₘ generator g)) := by rw [hdiv]
    _ = generator g * (p /ₘ generator g) := by
      rw [← add_assoc, CharTwo.add_self_eq_zero, zero_add]

theorem remainder_eq_iff {g : BitVec w} {p q : (ZMod 2)[X]} :
    p %ₘ generator g = q %ₘ generator g ↔ EqMod g p q := by
  constructor
  · intro h
    have hq := congruent_modByMonic g q
    rw [← h] at hq
    exact (congruent_modByMonic g p).symm.trans hq
  · intro h
    apply (modByMonic_eq_of_dvd_sub (generator_monic g) ?_)
    rw [CharTwo.sub_eq_add]
    exact h

theorem remainder_poly (g x : BitVec w) : poly x %ₘ generator g = poly x :=
  (EqMod.refl g (poly x)).remainder.symm

/-- A generator with a constant term divides no power of `X`. -/
theorem EqMod.cancel {g : BitVec w} (hg : g.getLsbD 0 = true) {p q : (ZMod 2)[X]} {n : ℕ}
    (h : EqMod g (X ^ n * p) (X ^ n * q)) : EqMod g p q := by
  have hw : 0 < w := by
    by_contra hzero
    rw [BitVec.getLsbD_of_ge g 0 (by omega)] at hg
    cases hg
  have hcoeff : (generator g).coeff 0 = 1 := by
    rw [generator, coeff_add, coeff_X_pow, if_neg (by omega), coeff_poly, hg, if_pos rfl, zero_add]
  have hcoprime : IsCoprime (X : (ZMod 2)[X]) (generator g) := by
    obtain ⟨q, hq⟩ : X ∣ generator g + 1 := by
      rw [X_dvd_iff, coeff_add, hcoeff, coeff_one_zero]
      exact CharTwo.add_self_eq_zero 1
    refine ⟨q, 1, ?_⟩
    rw [mul_comm q X, ← hq, one_mul, add_right_comm, CharTwo.add_self_eq_zero, zero_add]
  rw [EqMod, ← mul_add] at h
  exact (hcoprime.pow_left.symm).dvd_of_dvd_mul_left h

/-- One place to the left in a register with feedback. -/
def shift (g x : BitVec w) : BitVec w := if x.msb then (x <<< 1) ^^^ g else x <<< 1

theorem shift_congruent (hw : 0 < w) (g x : BitVec w) :
    EqMod g (poly (shift g x)) (X * poly x) := by
  have hshift := poly_shiftLeft x (k := 1) hw
  have hout : poly (x >>> (w - 1)) = if x.msb then 1 else 0 := by
    ext n
    rw [coeff_poly, BitVec.getLsbD_ushiftRight, BitVec.msb_eq_getLsbD_last]
    by_cases hn : n = 0
    · subst hn
      cases x.getLsbD (w - 1) <;> simp
    · have hge : w ≤ w - 1 + n := by omega
      rw [BitVec.getLsbD_of_ge x _ hge]
      cases x.getLsbD (w - 1) <;> simp [coeff_one, hn]
  rw [pow_one, hout] at hshift
  rw [← hshift, EqMod, shift]
  cases x.msb
  · simp [CharTwo.add_self_eq_zero]
  · simp only [if_true, poly_xor, mul_one]
    refine ⟨1, ?_⟩
    rw [mul_one, generator]
    have hzero := CharTwo.add_self_eq_zero (poly (x <<< 1))
    linear_combination hzero

theorem shift_iterate_congruent (hw : 0 < w) (g : BitVec w) (n : ℕ) (x : BitVec w) :
    EqMod g (poly ((shift g)^[n] x)) (X ^ n * poly x) := by
  induction n generalizing x with
  | zero =>
    rw [Function.iterate_zero_apply, pow_zero, one_mul]
    exact .refl g _
  | succ n ih =>
    rw [Function.iterate_succ_apply, pow_succ, mul_assoc]
    exact (ih (shift g x)).trans ((shift_congruent hw g x).mul (X ^ n))

/-- A register moved on by a word `y`, where `t` stands for what is shifted out with `y`. -/
theorem feed_congruent {v : ℕ} (hv : v ≤ w) {g t : BitVec w} (x : BitVec w) {y : BitVec v}
    (ht : EqMod g (poly t) (X ^ w * (poly (x >>> (w - v)) + poly y))) :
    EqMod g (poly ((x <<< v) ^^^ t)) (X ^ v * poly x + X ^ w * poly y) := by
  have hsum := (EqMod.refl g (poly (x <<< v))).add ht
  rw [poly_xor, ← poly_shiftLeft x hv, add_assoc, ← mul_add]
  exact hsum

end BinaryPolynomial
