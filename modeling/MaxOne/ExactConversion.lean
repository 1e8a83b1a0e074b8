import MaxOne.Library.DoubleRounding
import MaxOne.Rates

/-!
# When a conversion is exact

`convertMinor` to its end: the product is rounded to twenty significant digits, taken
to an integer half to even, and becomes a JavaScript number. `Rates.convertMinor` stops
before the last step, which changes nothing an INTEGER column can hold.
-/
namespace MaxOne.ExactConversion
open Library.Binary64 Library.DecimalRounding Library.DoubleRounding MaxOne.Rates

/-- `toDecimalPlaces(0, ROUND_HALF_EVEN)` -/
def toDecimalPlaces0 : Decimal → Decimal
  | .finite d => .finite (Dec.ofInt d.toInteger)
  | x => x

/-- `toNumber` -/
def toNumber : Decimal → Number
  | .finite d => ofRat d.value
  | .infinity negative => .infinity negative
  | .nan => .nan

def convertMinorNumber (amountMinor : ℤ) (rate : Decimal) : Number :=
  toNumber (toDecimalPlaces0 ((Decimal.finite (Dec.ofInt amountMinor)).times rate))

/-- The nearest integer to the exact product, the even one on a tie. -/
def bankers (amountMinor : ℤ) (rate : Dec) : ℤ := roundHalfEven (amountMinor * rate.value)

/-- The integer reaches the caller as itself. -/
def IsNumber (n : ℤ) : Prop := ofRat n = .finite n

/-- Twenty digits of the exact product reach past the point and end in a tie that the product
is not, and the integer on the odd side of it is the nearest. -/
def FalseTie (amountMinor : ℤ) (rate : Dec) : Prop :=
  let product := exactTimes (Dec.ofInt amountMinor) rate
  lastDigit Decimal.precision product < 1 ∧
    NearTie (lastDigit Decimal.precision product) product.value

section Conversion
variable {amount : ℤ} {rate : Dec}

theorem convertMinorNumber_finite (ha : 1 ≤ amount) (hr : 0 < rate.coeff) :
    convertMinorNumber amount (.finite rate) = ofRat (roundHalfEven (roundTo
      (lastDigit Decimal.precision (exactTimes (Dec.ofInt amount) rate)) (amount * rate.value))) := by
  have hc : 0 < (Dec.ofInt amount).coeff * rate.coeff := mul_pos (Int.lt_iff_add_one_le.mpr ha) hr
  have hvalue : (exactTimes (Dec.ofInt amount) rate).value = amount * rate.value := by
    rw [value_exactTimes, Dec.value_ofInt]
  have hnonneg : 0 ≤ (Dec.times Decimal.precision (Dec.ofInt amount) rate).coeff := by
    rw [Dec.times, Int.sign_eq_one_of_pos hc, one_mul]
    exact Int.natCast_nonneg _
  rw [← hvalue, ← value_times hc, ← toInteger_eq hnonneg]
  simp only [convertMinorNumber, Decimal.times, toDecimalPlaces0, toNumber, Dec.value_ofInt]

/-- The two models of the conversion agree on what a column of either can hold. -/
theorem convertMinorNumber_eq (amount : ℤ) (rate : Dec) :
    ∃ n, Rates.convertMinor amount (.finite rate) = some n ∧
      convertMinorNumber amount (.finite rate) = ofRat n := by
  refine ⟨_, Rates.convertMinor_finite amount rate, ?_⟩
  simp only [convertMinorNumber, Decimal.times, toDecimalPlaces0, toNumber, Dec.value_ofInt]

section Bounds
variable {n m : ℤ} {u q : ℚ}

/-- Two roundings to an integer differ by little more than the first one moves the number. -/
theorem abs_sub_le (hu : 0 < u) (hn : n = roundHalfEven (roundTo u q)) (hm : m = roundHalfEven q) :
    2 * |(n : ℚ) - m| ≤ u + 2 := by
  have h₁ : 2 * |(n : ℚ) - roundTo u q| ≤ 1 := hn ▸ abs_roundHalfEven_sub (roundTo u q)
  have h₂ := abs_roundTo_sub hu q
  have h₃ : 2 * |(m : ℚ) - q| ≤ 1 := hm ▸ abs_roundHalfEven_sub q
  rw [abs_sub_comm (m : ℚ) q] at h₃
  have htri : |(n : ℚ) - m| ≤ |(n : ℚ) - roundTo u q| + |roundTo u q - q| + |q - m| :=
    calc |(n : ℚ) - m| = |((n : ℚ) - roundTo u q) + (roundTo u q - q) + (q - m)| := by ring_nf
      _ ≤ |((n : ℚ) - roundTo u q) + (roundTo u q - q)| + |q - m| := abs_add_le _ _
      _ ≤ |(n : ℚ) - roundTo u q| + |roundTo u q - q| + |q - m| := by
          have hpair := abs_add_le ((n : ℚ) - roundTo u q) (roundTo u q - q)
          linarith
  linarith

/-- With a unit below one a false tie is all that the first rounding can do wrong. -/
theorem exact_iff_of_small (hu : 0 < u) (hu1 : u < 1) {half : ℕ} (hhalf : u * (2 * half) = 1)
    (hq : 0 < q) (hn : n = roundHalfEven (roundTo u q)) (hm : m = roundHalfEven q) :
    ofRat n = .finite m ↔ IsNumber m ∧ ¬ NearTie u q := by
  rcases roundHalfEven_roundTo hhalf q with ⟨heq, hno⟩ | ⟨heven, hodd, hnear⟩
  · rw [hn, heq, ← hm]
    exact ⟨fun h => ⟨h, hno⟩, fun h => h.1⟩
  · rw [← hn] at heven
    rw [← hm] at hodd
    refine ⟨fun h => ?_, fun h => absurd hnear h.2⟩
    obtain ⟨hnearest, -⟩ := ofRat_eq_finite_iff.mp h
    have hclose : |n - m| ≤ 1 := by
      have hlt : |(n : ℚ) - m| < 2 := by linarith [abs_sub_le hu hn hm]
      have hlt' : |n - m| < 2 := by exact_mod_cast hlt
      omega
    have hmnonneg : 0 ≤ m := by
      rw [hm]
      exact le_roundHalfEven (by exact_mod_cast hq.le)
    have hnnonneg : 0 ≤ n := by
      have := abs_le.mp hclose
      omega
    -- an odd number is below `2 ^ 53`, where an integer next to it is not rounded
    have hsmall : n ≤ 2 ^ 53 := by
      rcases eq_or_lt_of_le hnnonneg with hzero | hpos
      · omega
      · have hkept : nearest (m : ℚ) = m := by
          rw [← hnearest]
          exact nearest_nearest (by exact_mod_cast hpos)
        by_contra hbig
        have hm53 : 2 ^ 53 ≤ m := by
          have := abs_le.mp hclose
          omega
        have := even_of_nearest hkept hm53
        omega
    have hsame : (n : ℚ) = m := (nearest_intCast hnnonneg hsmall).symm.trans hnearest
    have hsame' : n = m := by exact_mod_cast hsame
    omega

/-- With a unit of at least one the first rounding is finer than a number can show. -/
theorem exact_iff_of_large (hu : 1 ≤ u) (hlarge : 10 ^ 19 * u ≤ q)
    (hn : n = roundHalfEven (roundTo u q)) (hm : m = roundHalfEven q) :
    ofRat n = .finite m ↔ IsNumber m := by
  have hclose := abs_sub_le (by linarith) hn hm
  have hm3 : 2 * |(m : ℚ) - q| ≤ 1 := hm ▸ abs_roundHalfEven_sub q
  have hmq : q - 1 / 2 ≤ m := by
    have := abs_le.mp (by linarith : |(m : ℚ) - q| ≤ 1 / 2)
    linarith
  have hnm : (m : ℚ) - (u + 2) / 2 ≤ n := by
    have := abs_le.mp (by linarith : |(n : ℚ) - m| ≤ (u + 2) / 2)
    linarith
  rw [IsNumber, ofRat_eq_finite_iff, ofRat_eq_finite_iff]
  refine and_congr_left fun _ => ⟨fun h => ?_, fun h => ?_⟩
  · rw [← h]
    exact nearest_nearest (by linarith)
  · refine nearest_of_close h (by linarith) ?_
    obtain ⟨k, hlow, hhigh⟩ := exists_binade (q := (m : ℚ)) (by linarith)
    have hunit := unit_eq hlow hhigh (by omega)
    have hk53 : (2 : ℚ) ^ ((k : ℤ) + 1) = 2 ^ 53 * 2 ^ unit (m : ℚ) := by
      rw [hunit, ← zpow_natCast, ← zpow_add₀ two_ne_zero]
      congr 1
      push_cast
      ring
    rw [hk53] at hhigh
    linarith

end Bounds

/-- The conversion is the nearest integer, the even one on a tie, exactly when that integer is a
number and the product is at no false tie. -/
theorem convertMinorNumber_exact_iff (ha : 1 ≤ amount) (hr : 0 < rate.coeff) :
    convertMinorNumber amount (.finite rate) = .finite (bankers amount rate) ↔
      IsNumber (bankers amount rate) ∧ ¬ FalseTie amount rate := by
  set x := exactTimes (Dec.ofInt amount) rate with hx
  have hc : 0 < x.coeff := mul_pos (Int.lt_iff_add_one_le.mpr ha) hr
  have hvalue : x.value = amount * rate.value := by rw [hx, value_exactTimes, Dec.value_ofInt]
  have hu : 0 < lastDigit Decimal.precision x := by
    rw [lastDigit]
    positivity
  have hq : 0 < x.value := by
    rw [Dec.value]
    have hcq : (0 : ℚ) < x.coeff := by exact_mod_cast hc
    positivity
  have hm : bankers amount rate = roundHalfEven x.value := by rw [hvalue, bankers]
  rw [convertMinorNumber_finite ha hr, ← hx, ← hvalue]
  have hfalse : FalseTie amount rate ↔ lastDigit Decimal.precision x < 1 ∧
      NearTie (lastDigit Decimal.precision x) x.value := Iff.rfl
  rw [hfalse]
  rcases lt_or_ge (lastDigit Decimal.precision x) 1 with hsmall | hlarge
  · obtain ⟨half, hhalf⟩ := lastDigit_half hsmall
    rw [exact_iff_of_small hu hsmall hhalf hq rfl hm]
    simp [hsmall]
  · have hno : ¬ lastDigit Decimal.precision x < 1 := not_lt.mpr hlarge
    rcases Nat.eq_zero_or_pos (excess Decimal.precision x.coeff.natAbs) with hzero | hexcess
    · rw [roundTo_of_no_excess hzero, ← hm]
      simp [hno, IsNumber]
    · have hbig : 10 ^ 19 * lastDigit Decimal.precision x ≤ x.value :=
        lastDigit_le (by norm_num [Decimal.precision]) hc hexcess
      rw [exact_iff_of_large hlarge hbig rfl hm]
      simp [hno]

theorem isNumber_of_le {n : ℤ} (hn : 0 ≤ n) (hle : n ≤ 2 ^ 53) : IsNumber n := by
  refine ofRat_eq_finite_iff.mpr ⟨nearest_intCast hn hle, ?_⟩
  have hcast : |(n : ℚ)| ≤ 2 ^ 53 := by
    rw [abs_of_nonneg (by exact_mod_cast hn)]
    exact_mod_cast hle
  exact hcast.trans_lt (pow_lt_pow_right₀ one_lt_two (by norm_num))

/-- A product of up to twenty digits is at no false tie. -/
theorem not_falseTie_of_lt (h : (amount * rate.coeff).natAbs < 10 ^ Decimal.precision) :
    ¬ FalseTie amount rate := by
  rintro ⟨hsmall, hnear⟩
  obtain ⟨half, hhalf⟩ := lastDigit_half hsmall
  have hexcess : excess Decimal.precision
      (exactTimes (Dec.ofInt amount) rate).coeff.natAbs = 0 :=
    excess_eq_zero (by norm_num [Decimal.precision]) h
  rcases roundHalfEven_roundTo hhalf (exactTimes (Dec.ofInt amount) rate).value with
    ⟨-, hno⟩ | ⟨heven, hodd, -⟩
  · exact hno hnear
  · rw [roundTo_of_no_excess hexcess] at heven
    omega

end Conversion

/-- The tie of a live run goes to the even side. -/
theorem convertMinorNumber_exact_iff_tie :
    convertMinorNumber 50000 (.finite ⟨87781, -5⟩) = .finite 43890 := by
  have hbankers : bankers 50000 ⟨87781, -5⟩ = 43890 := by
    have htie : ((50000 : ℤ) : ℚ) * Dec.value ⟨87781, -5⟩ = (43890 : ℤ) + 1 / 2 := by
      norm_num [Dec.value]
    rw [bankers, htie, roundHalfEven_tie]
    decide
  have hpos : 0 < (⟨87781, -5⟩ : Dec).coeff := by norm_num
  have h := (convertMinorNumber_exact_iff (by norm_num : (1 : ℤ) ≤ 50000) hpos).mpr ⟨isNumber_of_le (by rw [hbankers]; norm_num) (by rw [hbankers]; norm_num),
      not_falseTie_of_lt (by norm_num [Decimal.precision])⟩
  rw [hbankers] at h
  exact h

/-- The product is a little more than 11484.5 and needs 21 digits; its first 20 digits are the tie. -/
theorem convertMinorNumber_rounds_twice :
    (Decimal.finite ⟨11476466473468572, -16⟩).IsJsonNumber ∧
      convertMinorNumber 10007 (.finite ⟨11476466473468572, -16⟩) = .finite 11484 ∧
      bankers 10007 ⟨11476466473468572, -16⟩ = 11485 := by
  refine ⟨by norm_num [Decimal.IsJsonNumber], ?_, ?_⟩
  · have hconvert : Rates.convertMinor 10007 (.finite ⟨11476466473468572, -16⟩) = some 11484 := by
      decide
    obtain ⟨n, hn, hnumber⟩ := convertMinorNumber_eq 10007 ⟨11476466473468572, -16⟩
    rw [hconvert, Option.some.injEq] at hn
    rw [hnumber, ← hn]
    exact isNumber_of_le (by norm_num) (by norm_num)
  · refine roundHalfEven_above (n := 11484) ?_ ?_
    · norm_num [Dec.value]
    · norm_num [Dec.value]

end MaxOne.ExactConversion
