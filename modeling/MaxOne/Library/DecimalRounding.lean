import Mathlib.Tactic

/-!
# Finite decimals with rounded products

A finite decimal is an integer coefficient and a power of ten. A product is
rounded to `p` significant digits, ties away from zero; an integer is taken by
rounding half to even; a column of fixed scale rounds ties away from zero. All
roundings act on the magnitude and put the sign back, and all of them compute.

The main fact is `one_le_roundMagnitude`: when the twice rounded product is at
least one. Rounding twice is not rounding once, and the statement says exactly
where the first rounding moves the boundary.
-/
namespace Library.DecimalRounding

/-- `n / d` to the nearest integer, a tie up. -/
def divHalfUp (n d : ℕ) : ℕ := (2 * n + d) / (2 * d)

/-- `n / d` to the nearest integer, a tie to the even one. -/
def divHalfEven (n d : ℕ) : ℕ :=
  if d < 2 * (n % d) ∨ (2 * (n % d) = d ∧ n / d % 2 = 1) then n / d + 1 else n / d

theorem le_divHalfUp {n d k : ℕ} (hd : 0 < d) : k ≤ divHalfUp n d ↔ 2 * d * k ≤ 2 * n + d := by
  rw [divHalfUp, Nat.le_div_iff_mul_le (by omega), Nat.mul_comm]

theorem divHalfUp_le {n d : ℕ} (hd : 0 < d) : divHalfUp n d ≤ n := by
  rw [divHalfUp, ← Nat.lt_succ_iff, Nat.div_lt_iff_lt_mul (by omega)]
  nlinarith [Nat.mul_le_mul_left n hd]

@[simp] theorem divHalfUp_zero (d : ℕ) : divHalfUp 0 d = 0 := by
  rw [divHalfUp]
  rcases Nat.eq_zero_or_pos d with rfl | hd
  · rfl
  · exact Nat.div_eq_of_lt (by omega)

@[simp] theorem divHalfEven_zero (d : ℕ) : divHalfEven 0 d = 0 := by
  simp [divHalfEven]

/-- Half an even divisor rounds down to zero, anything above it does not. -/
theorem one_le_divHalfEven {n d : ℕ} (hd : 0 < d) : 1 ≤ divHalfEven n d ↔ d < 2 * n := by
  rcases Nat.lt_or_ge n d with h | h
  · rw [divHalfEven, Nat.mod_eq_of_lt h, Nat.div_eq_of_lt h]
    by_cases hc : d < 2 * n <;> simp [hc]
  · have hq : 1 ≤ n / d := (Nat.one_le_div_iff hd).mpr h
    have hr : 1 ≤ divHalfEven n d := by
      rw [divHalfEven]
      split_ifs <;> omega
    exact ⟨fun _ => by omega, fun _ => hr⟩

/-- The number of decimal digits of a positive number. -/
def digits (n : ℕ) : ℕ := Nat.log 10 n + 1

theorem pow_le_of_digits {n j : ℕ} (hn : 0 < n) (hj : j < digits n) : 10 ^ j ≤ n :=
  (Nat.pow_le_pow_right (by norm_num) (Nat.le_of_lt_succ hj)).trans
    (Nat.pow_log_le_self 10 hn.ne')

theorem lt_pow_digits (n : ℕ) : n < 10 ^ digits n := Nat.lt_pow_succ_log_self (by norm_num) n

/-- `m · 10 ^ e` to an integer, half to even. -/
def roundMagnitude (m : ℕ) (e : ℤ) : ℕ :=
  if 0 ≤ e then m * 10 ^ e.toNat else divHalfEven m (10 ^ (-e).toNat)

/-- The digits that a rounding to `p` significant digits drops. -/
def excess (p n : ℕ) : ℕ := digits n - p

theorem excess_eq_zero {p n : ℕ} (hp : 0 < p) (h : n < 10 ^ p) : excess p n = 0 := by
  rw [excess, digits]
  rcases Nat.eq_zero_or_pos n with rfl | hn
  · rw [Nat.log_zero_right]
    omega
  · have hlog : Nat.log 10 n < p := Nat.log_lt_of_lt_pow hn.ne' h
    omega

@[simp] theorem roundMagnitude_zero (e : ℤ) : roundMagnitude 0 e = 0 := by
  rw [roundMagnitude]
  split_ifs <;> simp

theorem one_le_divHalfUp_excess {p n : ℕ} (hp : 0 < p) (hn : 0 < n) :
    1 ≤ divHalfUp n (10 ^ excess p n) := by
  have hk : 10 ^ excess p n ≤ n := pow_le_of_digits hn (by rw [excess, digits]; omega)
  rw [le_divHalfUp (by positivity)]
  omega

/-- The integer form of `one_le_roundMagnitude`, at a negative exponent `-j`
after the first rounding: `2n · 10 ^ p` against `(10 ^ p + 1) · 10 ^ (j + k)`. -/
theorem one_le_divHalfEven_rounded {p n j : ℕ} (hp : 0 < p) (hn : 0 < n) (hj : 0 < j) :
    1 ≤ divHalfEven (divHalfUp n (10 ^ excess p n)) (10 ^ j) ↔
      (10 ^ p + 1) * 10 ^ (j + excess p n) ≤ 2 * 10 ^ p * n := by
  set k := excess p n with hk
  have hkpos : 0 < 10 ^ k := by positivity
  obtain ⟨h, hh⟩ : ∃ h, 10 ^ j = 2 * h := by
    obtain ⟨i, rfl⟩ : ∃ i, j = i + 1 := ⟨j - 1, by omega⟩
    exact ⟨5 * 10 ^ i, by rw [pow_succ]; ring⟩
  -- the even divisor turns the strict comparison into one that `le_divHalfUp` reads
  have hstep : 1 ≤ divHalfEven (divHalfUp n (10 ^ k)) (10 ^ j) ↔
      (10 ^ j + 1) * 10 ^ k ≤ 2 * n := by
    rw [one_le_divHalfEven (by positivity), hh,
      show 2 * h < 2 * divHalfUp n (10 ^ k) ↔ h + 1 ≤ divHalfUp n (10 ^ k) by omega,
      le_divHalfUp hkpos]
    constructor
    · intro hle
      nlinarith
    · intro hle
      nlinarith
  rw [hstep, pow_add]
  have hup : n < 10 ^ digits n := lt_pow_digits n
  rcases lt_trichotomy j p with hjp | rfl | hjp
  · rcases Nat.eq_zero_or_pos k with hk0 | hkp
    · -- nothing was dropped, and `2n` and `10 ^ j` are even
      rw [hk0, pow_zero, mul_one, mul_one]
      have hpow : 10 ^ j ≤ 10 ^ p := Nat.pow_le_pow_right (by norm_num) hjp.le
      have hppos : 0 < 10 ^ p := by positivity
      constructor
      · intro hle
        have h1 : h + 1 ≤ n := by omega
        have h2 : 10 ^ p * (2 * h + 2) ≤ 10 ^ p * (2 * n) :=
          Nat.mul_le_mul_left _ (by omega)
        rw [hh] at hpow ⊢
        nlinarith
      · intro hle
        have hjpos : 0 < 10 ^ j := by positivity
        by_contra hcon
        have h1 : 2 * n ≤ 10 ^ j := by omega
        have h2 : 10 ^ p * (2 * n) ≤ 10 ^ p * 10 ^ j := Nat.mul_le_mul_left _ h1
        nlinarith
    · -- digits were dropped, so `n` is large and both sides hold
      have hlow : 10 ^ (p - 1 + k) ≤ n := by
        refine pow_le_of_digits hn ?_
        rw [hk, excess] at hkp ⊢
        omega
      have hj1 : 10 ^ j ≤ 10 ^ (p - 1) := Nat.pow_le_pow_right (by norm_num) (by omega)
      have hp1 : 1 ≤ 10 ^ (p - 1) := Nat.one_le_pow _ _ (by norm_num)
      have hpp : 1 ≤ 10 ^ p := Nat.one_le_pow _ _ (by norm_num)
      rw [pow_add] at hlow
      constructor
      · intro _
        calc (10 ^ p + 1) * (10 ^ j * 10 ^ k)
            ≤ (2 * 10 ^ p) * (10 ^ (p - 1) * 10 ^ k) :=
              Nat.mul_le_mul (by omega) (Nat.mul_le_mul_right _ hj1)
          _ ≤ 2 * 10 ^ p * n := Nat.mul_le_mul_left _ hlow
      · intro _
        calc (10 ^ j + 1) * 10 ^ k ≤ (2 * 10 ^ (p - 1)) * 10 ^ k :=
              Nat.mul_le_mul_right _ (by omega)
          _ = 2 * (10 ^ (p - 1) * 10 ^ k) := by ring
          _ ≤ 2 * n := Nat.mul_le_mul_left _ hlow
  · have hjpos : 0 < 10 ^ j := by positivity
    constructor
    · intro hle
      calc (10 ^ j + 1) * (10 ^ j * 10 ^ k) = 10 ^ j * ((10 ^ j + 1) * 10 ^ k) := by ring
        _ ≤ 10 ^ j * (2 * n) := Nat.mul_le_mul_left _ hle
        _ = 2 * 10 ^ j * n := by ring
    · intro hle
      refine Nat.le_of_mul_le_mul_left ?_ hjpos
      calc 10 ^ j * ((10 ^ j + 1) * 10 ^ k) = (10 ^ j + 1) * (10 ^ j * 10 ^ k) := by ring
        _ ≤ 2 * 10 ^ j * n := hle
        _ = 10 ^ j * (2 * n) := by ring
  · -- `n` has at most `p + k` digits, so both sides fail
    have hnlt : n < 10 ^ p * 10 ^ k := by
      rw [← pow_add]
      refine hup.trans_le (Nat.pow_le_pow_right (by norm_num) ?_)
      rw [hk, excess]
      omega
    have hj1 : 10 * 10 ^ p ≤ 10 ^ j := by
      rw [← pow_succ']
      exact Nat.pow_le_pow_right (by norm_num) hjp
    have hpk : 0 < 10 ^ p * 10 ^ k := by positivity
    have hpp : 0 < 10 ^ p := by positivity
    constructor
    · intro hle
      have h1 : 10 * 10 ^ p * 10 ^ k ≤ 10 ^ j * 10 ^ k := Nat.mul_le_mul_right _ hj1
      nlinarith
    · intro hle
      have h1 : 10 ^ p * (10 * 10 ^ p * 10 ^ k) ≤ 10 ^ p * (10 ^ j * 10 ^ k) :=
        Nat.mul_le_mul_left _ (Nat.mul_le_mul_right _ hj1)
      have h2 : 10 ^ p * n < 10 ^ p * (10 ^ p * 10 ^ k) := (Nat.mul_lt_mul_left hpp).mpr hnlt
      nlinarith

/-- Rounding `n · 10 ^ e` first to `p` digits and then to an integer gives at
least one exactly from `1/2 + 1/(2 · 10 ^ p)` on. -/
theorem one_le_roundMagnitude {p n : ℕ} (hp : 0 < p) (hn : 0 < n) (e : ℤ) :
    1 ≤ roundMagnitude (divHalfUp n (10 ^ excess p n)) (e + excess p n) ↔
      (10 ^ p + 1 : ℚ) ≤ 2 * 10 ^ p * (n * (10 : ℚ) ^ e) := by
  set k := excess p n with hk
  have hm : 1 ≤ divHalfUp n (10 ^ k) := one_le_divHalfUp_excess hp hn
  by_cases he : 0 ≤ e + k
  · -- an integer already: both sides hold
    have hlow : 10 ^ k ≤ n := pow_le_of_digits hn (by rw [hk, excess, digits]; omega)
    have hone : (1 : ℚ) ≤ n * (10 : ℚ) ^ e := by
      calc (1 : ℚ) ≤ (10 : ℚ) ^ (e + k) := one_le_zpow₀ (by norm_num) he
        _ = (10 : ℚ) ^ k * (10 : ℚ) ^ e := by
            rw [zpow_add₀ (by norm_num), zpow_natCast, mul_comm]
        _ ≤ n * (10 : ℚ) ^ e := by
            refine mul_le_mul_of_nonneg_right ?_ (by positivity)
            exact_mod_cast hlow
    have hpp : (1 : ℚ) ≤ 10 ^ p := one_le_pow₀ (by norm_num)
    constructor
    · intro _
      nlinarith
    · intro _
      rw [roundMagnitude, if_pos he]
      exact Nat.one_le_iff_ne_zero.mpr (by positivity)
  · rw [roundMagnitude, if_neg he]
    obtain ⟨j, hj⟩ : ∃ j : ℕ, (-(e + k)) = j := ⟨(-(e + k)).toNat, by omega⟩
    have hj0 : 0 < j := by omega
    rw [hj, Int.toNat_natCast, hk, one_le_divHalfEven_rounded hp hn hj0, ← hk]
    have hexp : (10 : ℚ) ^ e * (10 : ℚ) ^ (j + k) = 1 := by
      rw [← zpow_natCast (10 : ℚ) (j + k), ← zpow_add₀ (by norm_num),
        show e + ((j + k : ℕ) : ℤ) = 0 by push_cast; omega, zpow_zero]
    have hpos : (0 : ℚ) < (10 : ℚ) ^ (j + k) := by positivity
    rw [← mul_le_mul_iff_left₀ hpos,
      show 2 * (10 : ℚ) ^ p * (n * (10 : ℚ) ^ e) * (10 : ℚ) ^ (j + k) =
        2 * 10 ^ p * n * ((10 : ℚ) ^ e * (10 : ℚ) ^ (j + k)) by ring, hexp, mul_one]
    norm_cast

/-- `coeff · 10 ^ exp`. -/
structure Dec where
  coeff : ℤ
  exp : ℤ
  deriving DecidableEq, Repr

namespace Dec

def value (x : Dec) : ℚ := x.coeff * (10 : ℚ) ^ x.exp

def ofInt (z : ℤ) : Dec := ⟨z, 0⟩

/-- The product, to `p` significant digits. -/
def times (p : ℕ) (x y : Dec) : Dec :=
  let c := x.coeff * y.coeff
  let k := excess p c.natAbs
  ⟨c.sign * divHalfUp c.natAbs (10 ^ k), x.exp + y.exp + k⟩

/-- The nearest integer, half to even. -/
def toInteger (x : Dec) : ℤ := x.coeff.sign * roundMagnitude x.coeff.natAbs x.exp

/-- At most `s` digits after the point, ties away from zero. -/
def toScale (s : ℕ) (x : Dec) : Dec :=
  if -(s : ℤ) ≤ x.exp then x
  else ⟨x.coeff.sign * divHalfUp x.coeff.natAbs (10 ^ (-(s : ℤ) - x.exp).toNat), -s⟩

@[simp] theorem value_ofInt (z : ℤ) : (ofInt z).value = z := by simp [value, ofInt]

/-- Sign and magnitude of a product taken to an integer. -/
theorem toInteger_times (p : ℕ) (x y : Dec) :
    (times p x y).toInteger = (x.coeff * y.coeff).sign *
      roundMagnitude (divHalfUp (x.coeff * y.coeff).natAbs
        (10 ^ excess p (x.coeff * y.coeff).natAbs))
        (x.exp + y.exp + excess p (x.coeff * y.coeff).natAbs) := by
  simp only [times, toInteger]
  rcases lt_trichotomy (x.coeff * y.coeff) 0 with hc | hc | hc
  · rw [Int.sign_eq_neg_one_of_neg hc]
    rcases Nat.eq_zero_or_pos (divHalfUp (x.coeff * y.coeff).natAbs
      (10 ^ excess p (x.coeff * y.coeff).natAbs)) with hm | hm
    · simp [hm]
    · rw [neg_one_mul, Int.sign_neg, Int.sign_natCast_of_ne_zero hm.ne', Int.natAbs_neg,
        Int.natAbs_natCast]
  · simp [hc]
  · rw [Int.sign_eq_one_of_pos hc]
    rcases Nat.eq_zero_or_pos (divHalfUp (x.coeff * y.coeff).natAbs
      (10 ^ excess p (x.coeff * y.coeff).natAbs)) with hm | hm
    · simp [hm]
    · rw [one_mul, Int.sign_natCast_of_ne_zero hm.ne', Int.natAbs_natCast]

theorem toInteger_times_nonneg {p : ℕ} {x y : Dec} (hx : 0 ≤ x.coeff) (hy : 0 ≤ y.coeff) :
    0 ≤ (times p x y).toInteger := by
  rw [toInteger_times]
  exact mul_nonneg (Int.sign_nonneg_iff.mpr (mul_nonneg hx hy)) (Int.natCast_nonneg _)

/-- The exact boundary below which a positive product becomes zero. -/
theorem one_le_toInteger_times {p : ℕ} (hp : 0 < p) {x y : Dec} (hx : 0 < x.coeff)
    (hy : 0 < y.coeff) : 1 ≤ (times p x y).toInteger ↔
      (10 ^ p + 1 : ℚ) ≤ 2 * 10 ^ p * (x.value * y.value) := by
  have hc : 0 < x.coeff * y.coeff := mul_pos hx hy
  rw [toInteger_times, Int.sign_eq_one_of_pos hc, one_mul]
  have h := one_le_roundMagnitude hp (Int.natAbs_pos.mpr hc.ne') (x.exp + y.exp)
  have hval : ((x.coeff * y.coeff).natAbs : ℚ) * (10 : ℚ) ^ (x.exp + y.exp) =
      x.value * y.value := by
    rw [value, value, zpow_add₀ (by norm_num), Nat.cast_natAbs, abs_of_pos hc]
    push_cast
    ring
  rw [hval] at h
  rw [← h]
  norm_cast

/-- A product of magnitude at most one half becomes zero. -/
theorem toInteger_times_eq_zero {p : ℕ} (hp : 0 < p) {x y : Dec}
    (h : |x.value * y.value| ≤ 1 / 2) : (times p x y).toInteger = 0 := by
  rw [toInteger_times]
  rcases eq_or_ne (x.coeff * y.coeff) 0 with hc | hc
  · simp [hc]
  · have hn : 0 < (x.coeff * y.coeff).natAbs := Int.natAbs_pos.mpr hc
    have hval : ((x.coeff * y.coeff).natAbs : ℚ) * (10 : ℚ) ^ (x.exp + y.exp) =
        |x.value * y.value| := by
      rw [value, value, zpow_add₀ (by norm_num), Nat.cast_natAbs, Int.cast_abs, Int.cast_mul,
        show (x.coeff : ℚ) * (10 : ℚ) ^ x.exp * (y.coeff * (10 : ℚ) ^ y.exp) =
          x.coeff * y.coeff * ((10 : ℚ) ^ x.exp * (10 : ℚ) ^ y.exp) by ring,
        abs_mul (_ * _ : ℚ) ((10 : ℚ) ^ x.exp * (10 : ℚ) ^ y.exp),
        abs_of_pos (by positivity : (0 : ℚ) < (10 : ℚ) ^ x.exp * (10 : ℚ) ^ y.exp)]
    have hlt : ¬ 1 ≤ roundMagnitude (divHalfUp (x.coeff * y.coeff).natAbs
        (10 ^ excess p (x.coeff * y.coeff).natAbs))
        (x.exp + y.exp + excess p (x.coeff * y.coeff).natAbs) := by
      rw [one_le_roundMagnitude hp hn, hval, not_le]
      have hpp : (0 : ℚ) < 10 ^ p := by positivity
      nlinarith
    rw [Nat.lt_one_iff.mp (not_le.mp hlt)]
    simp

end Dec

end Library.DecimalRounding
