import Mathlib.Algebra.Order.Field.Basic
import Mathlib.Algebra.Order.Round
import Mathlib.Data.Rat.Floor
import Mathlib.Algebra.Order.Ring.Abs
import Mathlib.Data.Nat.GCD.Basic
import Mathlib.Data.Rat.Lemmas
import Mathlib.Data.Rat.Cast.Order
import Mathlib.Tactic.Common
import Mathlib.Tactic.Linarith
import Mathlib.Tactic.Ring
import Mathlib.Tactic.FieldSimp

/-!
# Best rational approximation

The closest fraction with a bounded denominator, as the `limit_denominator` method of exact
fractions computes it: the continued fraction is expanded as long as the denominators of the
convergents stay within the bound, and the result is the last convergent or the last
semiconvergent, whichever is closer.
-/

namespace BestApprox

/-- A stage of the continued fraction expansion of `x`: its last two convergents `p₀ / q₀` and
`p₁ / q₁`, and the fraction `n / d` that remains to be expanded. -/
structure Expansion (x : ℚ) where
  p₀ : ℤ
  q₀ : ℤ
  p₁ : ℤ
  q₁ : ℤ
  n : ℤ
  d : ℤ
  q₀_nonneg : 0 ≤ q₀
  d_nonneg : 0 ≤ d
  /-- At first `1 / 0` stands for the last convergent; later the rest is a proper one. -/
  start_or : q₁ = 0 ∧ q₀ = 1 ∨ 0 < q₁ ∧ d < n
  det : p₁ * q₀ - p₀ * q₁ = 1 ∨ p₁ * q₀ - p₀ * q₁ = -1
  num_eq : x.num = p₁ * n + p₀ * d
  den_eq : x.den = q₁ * n + q₀ * d

namespace Expansion

variable {x : ℚ} {M : ℤ}

/-- Nothing is expanded yet. -/
def start (x : ℚ) : Expansion x where
  p₀ := 0
  q₀ := 1
  p₁ := 1
  q₁ := 0
  n := x.num
  d := x.den
  q₀_nonneg := by decide
  d_nonneg := Int.natCast_nonneg _
  start_or := .inl ⟨rfl, rfl⟩
  det := .inl (by decide)
  num_eq := by ring
  den_eq := by ring

/-- The denominator of the next convergent. -/
def nextDen (e : Expansion x) : ℤ := e.q₀ + e.n / e.d * e.q₁

lemma q₁_nonneg (e : Expansion x) : 0 ≤ e.q₁ := by
  rcases e.start_or with ⟨h, -⟩ | ⟨h, -⟩ <;> omega

lemma nextDen_pos (e : Expansion x) (hd : 0 < e.d) : 0 < e.nextDen := by
  rw [nextDen]
  rcases e.start_or with ⟨h₁, h₀⟩ | ⟨hq, hn⟩
  · rw [h₁, h₀, mul_zero]
    decide
  · have ha : 1 ≤ e.n / e.d := by
      rw [Int.le_ediv_iff_mul_le hd]
      omega
    have hmul := mul_pos (by omega : 0 < e.n / e.d) hq
    have hq₀ := e.q₀_nonneg
    omega

/-- The next stage. -/
def next (e : Expansion x) (hd : 0 < e.d) : Expansion x where
  p₀ := e.p₁
  q₀ := e.q₁
  p₁ := e.p₀ + e.n / e.d * e.p₁
  q₁ := e.nextDen
  n := e.d
  d := e.n - e.n / e.d * e.d
  q₀_nonneg := e.q₁_nonneg
  d_nonneg := by
    have hmod := Int.emod_nonneg e.n hd.ne'
    rw [Int.emod_def] at hmod
    linarith
  start_or := by
    have hmod := Int.emod_lt_of_pos e.n hd
    rw [Int.emod_def] at hmod
    exact .inr ⟨e.nextDen_pos hd, by linarith⟩
  det := by
    have hdet : (e.p₀ + e.n / e.d * e.p₁) * e.q₁ - e.p₁ * e.nextDen =
        -(e.p₁ * e.q₀ - e.p₀ * e.q₁) := by
      rw [nextDen]
      ring
    rw [hdet]
    rcases e.det with h | h
    · right
      rw [h]
    · left
      rw [h]
      rfl
  num_eq := by
    rw [e.num_eq]
    ring
  den_eq := by
    rw [e.den_eq, nextDen]
    ring

/-- The expansion of a fraction ends at its own denominator, so it goes on while the denominators
are smaller. -/
lemma d_pos (e : Expansion x) (hM : M < x.den) (hq : e.q₁ ≤ M) : 0 < e.d := by
  rcases e.d_nonneg.lt_or_eq with hd | hd
  · exact hd
  · exfalso
    have hnum := e.num_eq
    have hden := e.den_eq
    rw [← hd, mul_zero, add_zero] at hnum hden
    have hone : e.n.natAbs = 1 := by
      apply Nat.eq_one_of_dvd_coprimes x.reduced
      · exact Int.natAbs_dvd_natAbs.mpr (hnum ▸ Dvd.intro_left _ rfl)
      · exact Int.natAbs_dvd_natAbs.mpr (hden ▸ Dvd.intro_left _ rfl)
    have hq₁ := e.q₁_nonneg
    rcases Int.natAbs_eq e.n with hn | hn <;> rw [hn, hone] at hden <;> push_cast at hden <;> omega

/-- Expand as long as the denominators are at most `M`. -/
def expand (hM : M < x.den) (e : Expansion x) (hq : e.q₁ ≤ M) : Expansion x :=
  if h : e.nextDen ≤ M then expand hM (e.next (e.d_pos hM hq)) h else e
termination_by e.d.toNat
decreasing_by
  have hpos := e.d_pos hM hq
  have hmod := Int.emod_lt_of_pos e.n hpos
  rw [Int.emod_def] at hmod
  have hlt : e.n - e.n / e.d * e.d < e.d := by linarith
  show (e.n - e.n / e.d * e.d).toNat < e.d.toNat
  omega

/-- How many times the last convergent can be added to the one before it. -/
def steps (M : ℤ) (e : Expansion x) : ℤ := (M - e.q₀) / e.q₁

/-- The last convergent or the last semiconvergent, whichever is closer. -/
def choose (M : ℤ) (e : Expansion x) : ℚ :=
  if 2 * e.d * (e.q₀ + e.steps M * e.q₁) ≤ x.den then (e.p₁ : ℚ) / e.q₁
  else ((e.p₀ + e.steps M * e.p₁ : ℤ) : ℚ) / (e.q₀ + e.steps M * e.q₁ : ℤ)

/-- A stage at which the expansion stops. -/
structure Final (M : ℤ) (e : Expansion x) : Prop where
  q₀_le : e.q₀ ≤ M
  q₁_pos : 0 < e.q₁
  q₁_le : e.q₁ ≤ M
  d_pos : 0 < e.d
  lt_nextDen : M < e.nextDen

lemma expand_final (hM : M < x.den) (e : Expansion x) (hq : e.q₁ ≤ M) (hq₀ : e.q₀ ≤ M) :
    (expand hM e hq).Final M := by
  induction e, hq using expand.induct hM with
  | case1 e hq h ih =>
    rw [expand, dif_pos h]
    exact ih hq
  | case2 e hq h =>
    rw [expand, dif_neg h]
    refine ⟨hq₀, ?_, hq, e.d_pos hM hq, not_le.mp h⟩
    rcases e.start_or with ⟨h₁, h₀⟩ | ⟨hpos, -⟩
    · rw [nextDen, h₁, h₀] at h
      omega
    · exact hpos

end Expansion

/-- The closest fraction to `x` whose denominator is at most `M`. -/
def limitDenominator (x : ℚ) (M : ℕ) : ℚ :=
  if h : (M : ℤ) < x.den then
    ((Expansion.start x).expand h (Int.natCast_nonneg M)).choose M
  else x

/-! ### The result is closest -/

variable {x : ℚ} {M : ℤ}

namespace Expansion

variable {e : Expansion x}

namespace Final

lemma semi_le (he : e.Final M) : e.q₀ + e.steps M * e.q₁ ≤ M := by
  have h := Int.ediv_mul_le (M - e.q₀) he.q₁_pos.ne'
  rw [steps]
  omega

lemma lt_semi_add (he : e.Final M) : M < e.q₀ + e.steps M * e.q₁ + e.q₁ := by
  have h := Int.lt_ediv_add_one_mul_self (M - e.q₀) he.q₁_pos
  rw [add_mul, one_mul] at h
  rw [steps]
  omega

lemma semi_pos (he : e.Final M) : 0 < e.q₀ + e.steps M * e.q₁ := by
  have h := he.lt_semi_add
  have hq := he.q₁_le
  omega

/-- The semiconvergent does not overshoot. -/
lemma rest_nonneg (he : e.Final M) : 0 ≤ e.n - e.steps M * e.d := by
  have hlt : e.steps M < e.n / e.d := by
    have h₁ := he.semi_le
    have h₂ := he.lt_nextDen
    rw [nextDen] at h₂
    exact lt_of_mul_lt_mul_right (by omega : e.steps M * e.q₁ < e.n / e.d * e.q₁) he.q₁_pos.le
  have hmul := mul_le_mul_of_nonneg_right hlt.le he.d_pos.le
  have hdiv := Int.ediv_mul_le e.n he.d_pos.ne'
  omega

end Final

/-- The semiconvergent is on the other side of `x` than the convergent. -/
lemma signs (M : ℤ) (e : Expansion x) : ∃ ε : ℤ, (ε = 1 ∨ ε = -1) ∧
    e.p₁ * (e.q₀ + e.steps M * e.q₁) - (e.p₀ + e.steps M * e.p₁) * e.q₁ = ε ∧
    x.num * e.q₁ - e.p₁ * x.den = -ε * e.d ∧
    x.num * (e.q₀ + e.steps M * e.q₁) - (e.p₀ + e.steps M * e.p₁) * x.den =
      ε * (e.n - e.steps M * e.d) := by
  refine ⟨e.p₁ * e.q₀ - e.p₀ * e.q₁, e.det, by ring, ?_, ?_⟩ <;>
  · rw [e.num_eq, e.den_eq]
    ring

end Expansion

/-- How far `p / q` is from `x`, over the product of their denominators. -/
def err (x : ℚ) (p q : ℤ) : ℤ := |x.num * q - p * x.den|

lemma abs_div_sub {p q : ℤ} (hq : 0 < q) : |(p : ℚ) / q - x| = err x p q / (q * x.den) := by
  have hx : x = x.num / x.den := (Rat.num_div_den x).symm
  have hq' : (0 : ℚ) < q := by exact_mod_cast hq
  have hd' : (0 : ℚ) < x.den := by exact_mod_cast x.pos
  have hsub : (p : ℚ) / q - x = -((x.num * q - p * x.den) / (q * x.den)) := by
    nth_rewrite 1 [hx]
    field_simp
    ring
  rw [hsub, abs_neg, abs_div, abs_of_pos (mul_pos hq' hd'), err]
  push_cast
  rfl

lemma abs_div_sub_le {p q p' q' : ℤ} (hq : 0 < q) (hq' : 0 < q')
    (h : err x p q * q' ≤ err x p' q' * q) : |(p : ℚ) / q - x| ≤ |(p' : ℚ) / q' - x| := by
  have hqr : (0 : ℚ) < q := by exact_mod_cast hq
  have hqr' : (0 : ℚ) < q' := by exact_mod_cast hq'
  have hd : (0 : ℚ) < x.den := by exact_mod_cast x.pos
  have hr : (err x p q : ℚ) * q' ≤ err x p' q' * q := by exact_mod_cast h
  rw [abs_div_sub hq, abs_div_sub hq', div_le_div_iff₀ (mul_pos hqr hd) (mul_pos hqr' hd)]
  calc (err x p q : ℚ) * (q' * x.den) = err x p q * q' * x.den := by ring
    _ ≤ err x p' q' * q * x.den := mul_le_mul_of_nonneg_right hr hd.le
    _ = err x p' q' * (q * x.den) := by ring

namespace Expansion.Final

variable {e : Expansion x}

lemma err_convergent (he : e.Final M) : err x e.p₁ e.q₁ = e.d := by
  obtain ⟨ε, hε, -, h, -⟩ := e.signs M
  rw [err, h]
  rcases hε with rfl | rfl <;> simp [abs_of_pos he.d_pos]

lemma err_semi (he : e.Final M) :
    err x (e.p₀ + e.steps M * e.p₁) (e.q₀ + e.steps M * e.q₁) = e.n - e.steps M * e.d := by
  obtain ⟨ε, hε, -, -, h⟩ := e.signs M
  rw [err, h]
  rcases hε with rfl | rfl <;> simp [abs_of_nonneg he.rest_nonneg, -neg_sub]

/-- A fraction with a denominator of at most `M` is not strictly between the two candidates, so one
of them is at least as close to `x`. -/
lemma closest_or (he : e.Final M) {p q : ℤ} (hq : 0 < q) (hqM : q ≤ M) :
    |(e.p₁ : ℚ) / e.q₁ - x| ≤ |(p : ℚ) / q - x| ∨
    |((e.p₀ + e.steps M * e.p₁ : ℤ) : ℚ) / (e.q₀ + e.steps M * e.q₁ : ℤ) - x| ≤
      |(p : ℚ) / q - x| := by
  have hd := he.d_pos
  have hr := he.rest_nonneg
  have hq₁ := he.q₁_pos
  have hQ := he.semi_pos
  have hlt := he.lt_semi_add
  have herr₁ := he.err_convergent
  have herr₂ := he.err_semi
  obtain ⟨ε, hε, hdet, h₁, h₂⟩ := e.signs M
  generalize e.p₀ + e.steps M * e.p₁ = P at *
  generalize e.q₀ + e.steps M * e.q₁ = Q at *
  generalize e.n - e.steps M * e.d = r at *
  have hεε : ε * ε = 1 := by rcases hε with rfl | rfl <;> rfl
  -- the fraction in the basis of the two candidates
  obtain ⟨u, v, hp, hqe⟩ : ∃ u v : ℤ, p = u * e.p₁ + v * P ∧ q = u * e.q₁ + v * Q := by
    refine ⟨ε * (p * Q - P * q), ε * (e.p₁ * q - p * e.q₁), ?_, ?_⟩
    · calc p = ε * ε * p := by rw [hεε, one_mul]
        _ = ε * (e.p₁ * Q - P * e.q₁) * p := by rw [hdet]
        _ = _ := by ring
    · calc q = ε * ε * q := by rw [hεε, one_mul]
        _ = ε * (e.p₁ * Q - P * e.q₁) * q := by rw [hdet]
        _ = _ := by ring
  have herr : err x p q = |v * r - u * e.d| := by
    have hsub : x.num * q - p * x.den = ε * (v * r - u * e.d) := by
      calc x.num * q - p * x.den
          = u * (x.num * e.q₁ - e.p₁ * x.den) + v * (x.num * Q - P * x.den) := by
            rw [hp, hqe]
            ring
        _ = u * (-ε * e.d) + v * (ε * r) := by rw [h₁, h₂]
        _ = ε * (v * r - u * e.d) := by ring
    rw [err, hsub, abs_mul]
    rcases hε with rfl | rfl <;> simp
  rcases le_or_gt u 0 with hu | hu
  · right
    have hv : 0 < v := by
      by_contra hv
      nlinarith [mul_nonneg (neg_nonneg.mpr hu) hq₁.le,
        mul_nonneg (neg_nonneg.mpr (not_lt.mp hv)) hQ.le]
    have hud : 0 ≤ -u * e.d := mul_nonneg (neg_nonneg.mpr hu) hd.le
    apply abs_div_sub_le hQ hq
    rw [herr₂, herr]
    have hqv : q ≤ v * Q := by nlinarith
    calc r * q ≤ r * (v * Q) := mul_le_mul_of_nonneg_left hqv hr
      _ = v * r * Q := by ring
      _ ≤ |v * r - u * e.d| * Q := by
        apply mul_le_mul_of_nonneg_right _ hQ.le
        apply le_trans _ (le_abs_self _)
        linarith
  · left
    have hv : v ≤ 0 := by
      by_contra hv
      nlinarith
    have hvr : 0 ≤ -v * r := mul_nonneg (neg_nonneg.mpr hv) hr
    apply abs_div_sub_le hq₁ hq
    rw [herr₁, herr]
    have hqu : q ≤ u * e.q₁ := by nlinarith
    calc e.d * q ≤ e.d * (u * e.q₁) := mul_le_mul_of_nonneg_left hqu hd.le
      _ = u * e.d * e.q₁ := by ring
      _ ≤ |v * r - u * e.d| * e.q₁ := by
        apply mul_le_mul_of_nonneg_right _ hq₁.le
        apply le_trans _ (neg_le_abs _)
        linarith

/-- The choice between the two candidates is right. -/
lemma choose_le (he : e.Final M) :
    |e.choose M - x| ≤ |(e.p₁ : ℚ) / e.q₁ - x| ∧
    |e.choose M - x| ≤
      |((e.p₀ + e.steps M * e.p₁ : ℤ) : ℚ) / (e.q₀ + e.steps M * e.q₁ : ℤ) - x| := by
  have hden : (x.den : ℤ) = e.q₁ * e.n + e.q₀ * e.d := e.den_eq
  rw [choose]
  split
  · next h =>
    refine ⟨le_rfl, abs_div_sub_le he.q₁_pos he.semi_pos ?_⟩
    rw [he.err_convergent, he.err_semi]
    linarith
  · next h =>
    refine ⟨abs_div_sub_le he.semi_pos he.q₁_pos ?_, le_rfl⟩
    rw [he.err_convergent, he.err_semi]
    linarith

end Expansion.Final

/-- No fraction with a denominator of at most `M` is closer to `x`. -/
theorem limitDenominator_closest (x : ℚ) {M : ℕ} (hM : 1 ≤ M) (p : ℤ) {q : ℕ} (hq : 0 < q)
    (hqM : q ≤ M) : |limitDenominator x M - x| ≤ |p / q - x| := by
  rw [limitDenominator]
  split
  · next h =>
    have hfinal := (Expansion.start x).expand_final h (Int.natCast_nonneg M) (by
      show (1 : ℤ) ≤ M
      exact_mod_cast hM)
    have hle := hfinal.choose_le
    rcases hfinal.closest_or (p := p) (q := q) (by exact_mod_cast hq) (by exact_mod_cast hqM)
      with hc | hc
    · exact_mod_cast hle.1.trans hc
    · exact_mod_cast hle.2.trans hc
  · rw [sub_self, abs_zero]
    exact abs_nonneg _

/-- The denominator of the result is at most `M`. -/
theorem limitDenominator_den_le (x : ℚ) {M : ℕ} (hM : 1 ≤ M) : (limitDenominator x M).den ≤ M := by
  have hdiv : ∀ p q : ℤ, 0 < q → q ≤ M → ((p : ℚ) / q).den ≤ M := by
    intro p q hq hqM
    have hdvd := Rat.den_dvd p q
    have hle := Int.le_of_dvd hq (Rat.divInt_eq_div p q ▸ hdvd)
    exact_mod_cast hle.trans hqM
  rw [limitDenominator]
  split
  · next h =>
    have hfinal := (Expansion.start x).expand_final h (Int.natCast_nonneg M) (by
      show (1 : ℤ) ≤ M
      exact_mod_cast hM)
    rw [Expansion.choose]
    split
    · exact hdiv _ _ hfinal.q₁_pos hfinal.q₁_le
    · exact hdiv _ _ hfinal.semi_pos hfinal.semi_le
  · next h => exact_mod_cast not_lt.mp h

/-- The multiples of `1 / M` are among the candidates. -/
theorem abs_limitDenominator_sub_le (x : ℚ) {M : ℕ} (hM : 1 ≤ M) :
    |limitDenominator x M - x| ≤ 1 / (2 * M) := by
  have hpos : (0 : ℚ) < M := by exact_mod_cast hM
  have hround := abs_sub_round (x * M)
  refine (limitDenominator_closest x hM (round (x * M)) hM le_rfl).trans ?_
  rw [abs_sub_comm]
  have hx : x - round (x * M) / M = (x * M - round (x * M)) / M := by
    field_simp
  rw [hx, abs_div, abs_of_pos hpos, div_le_div_iff₀ hpos (by positivity)]
  linarith [mul_le_mul_of_nonneg_right hround hpos.le]

/-- A fraction that is close enough to `x` for its denominator is the result: two fractions differ
by at least one over the product of their denominators. -/
theorem limitDenominator_eq_of_abs_sub_lt {x : ℚ} {M : ℕ} {p : ℤ} {q : ℕ} (hq : 0 < q)
    (hqM : q ≤ M) (h : |x - p / q| < 1 / (2 * M * q)) : limitDenominator x M = p / q := by
  have hM : 1 ≤ M := hq.trans_le hqM
  have hclose := limitDenominator_closest x hM p hq hqM
  have hden := limitDenominator_den_le x hM
  generalize limitDenominator x M = e at *
  have hq' : (0 : ℚ) < q := by exact_mod_cast hq
  have hM' : (0 : ℚ) < M := by exact_mod_cast hM
  have he : (0 : ℚ) < e.den := by exact_mod_cast e.pos
  have hden' : (e.den : ℚ) ≤ M := by exact_mod_cast hden
  have hlt : |e - p / q| < 1 / (M * q) := by
    calc |e - p / q| ≤ |e - x| + |x - p / q| := abs_sub_le _ _ _
      _ ≤ |p / q - x| + |x - p / q| := add_le_add_left hclose _
      _ = 2 * |x - p / q| := by
        rw [abs_sub_comm]
        ring
      _ < 2 * (1 / (2 * M * q)) := by linarith
      _ = 1 / (M * q) := by field_simp
  have hsub : e - p / q = (e.num * q - p * e.den : ℤ) / (e.den * q) := by
    nth_rewrite 1 [← Rat.num_div_den e]
    rw [div_sub_div _ _ he.ne' hq'.ne']
    push_cast
    ring
  rw [hsub, abs_div, abs_of_pos (mul_pos he hq'), div_lt_div_iff₀ (mul_pos he hq')
    (mul_pos hM' hq'), one_mul] at hlt
  have hzero : e.num * q - p * e.den = 0 := by
    rw [← Int.abs_lt_one_iff]
    by_contra hone
    have hone' : (1 : ℚ) ≤ |((e.num * q - p * e.den : ℤ) : ℚ)| := by
      exact_mod_cast not_lt.mp hone
    have hmul := mul_le_mul_of_nonneg_right hone' (mul_pos hM' hq').le
    rw [one_mul] at hmul
    have hle := mul_le_mul_of_nonneg_right hden' hq'.le
    exact absurd (hlt.trans_le (hle.trans hmul)) (lt_irrefl _)
  rw [hzero, Int.cast_zero, zero_div] at hsub
  exact sub_eq_zero.mp hsub

end BestApprox
