import MaxOne.Library.DecimalRounding

/-!
# Exchange rates and minor units

`Decimal` is what `new Prisma.Decimal(..)` can hold: a finite decimal, an
infinity or NaN. The constructor keeps every digit; only `times` rounds, to the
library's default of 20 significant digits, ties away from zero. A JSON number
reaches the constructor through its shortest decimal expansion, at most 17
digits, and `1e999` reaches it as an infinity.

`convertMinor` ends in `toNumber`. Its result is used as an INTEGER column, so
`none` stands for NaN and the infinities, which no column accepts.
-/
namespace MaxOne.Rates
open Library.DecimalRounding

inductive Decimal where
  | finite (d : Dec)
  | infinity (negative : Bool)
  | nan
  deriving DecidableEq, Repr

namespace Decimal

/-- decimal.js default `precision`. -/
def precision : ℕ := 20

def isNegative : Decimal → Bool
  | finite d => d.coeff < 0
  | infinity negative => negative
  | nan => false

def isZero : Decimal → Bool
  | finite d => d.coeff = 0
  | _ => false

def times : Decimal → Decimal → Decimal
  | finite x, finite y => finite (Dec.times precision x y)
  | x, y =>
      if x = nan ∨ y = nan ∨ x.isZero ∨ y.isZero then nan
      else infinity (x.isNegative != y.isNegative)

/-- `toDecimalPlaces(0, ROUND_HALF_EVEN)` followed by `toNumber`. -/
def toInteger : Decimal → Option ℤ
  | finite d => some d.toInteger
  | _ => none

/-- The rate is a number and not below zero. -/
def Nonneg : Decimal → Prop
  | finite d => 0 ≤ d.coeff
  | infinity negative => negative = false
  | nan => False

def Positive : Decimal → Prop
  | finite d => 0 < d.coeff
  | infinity negative => negative = false
  | nan => False

/-- Expansions of JSON numbers, which is how the provider's body is typed. -/
def IsJsonNumber : Decimal → Prop
  | finite d => d.coeff.natAbs < 10 ^ 17
  | infinity _ => True
  | nan => False

/-- A `DECIMAL(65,30)` column: 30 digits after the point and 35 before it. -/
def toColumn : Decimal → Option Dec
  | finite d =>
      let r := d.toScale 30
      if r.coeff.natAbs * 10 ^ r.exp.toNat < 10 ^ (35 + (-r.exp).toNat) then some r else none
  | _ => none

end Decimal

/-- Convert an integer minor-unit amount by a rate, with banker's rounding. -/
def convertMinor (amountMinor : ℤ) (rate : Decimal) : Option ℤ :=
  ((Decimal.finite (Dec.ofInt amountMinor)).times rate).toInteger

theorem convertMinor_finite (amount : ℤ) (d : Dec) : convertMinor amount (.finite d) =
    some (Dec.times Decimal.precision (Dec.ofInt amount) d).toInteger := rfl

theorem convertMinor_infinity (amount : ℤ) (negative : Bool) :
    convertMinor amount (.infinity negative) = none := by
  simp only [convertMinor, Decimal.times]
  split_ifs <;> rfl

theorem convertMinor_nan (amount : ℤ) : convertMinor amount .nan = none := by
  simp [convertMinor, Decimal.times, Decimal.toInteger]

theorem convertMinor_nonneg {amount credit : ℤ} {rate : Decimal} (ha : 0 ≤ amount)
    (hr : rate.Nonneg) (h : convertMinor amount rate = some credit) : 0 ≤ credit := by
  cases rate with
  | finite d =>
      rw [convertMinor_finite, Option.some.injEq] at h
      rw [← h]
      exact Dec.toInteger_times_nonneg ha hr
  | infinity negative => simp [convertMinor_infinity] at h
  | nan => simp [convertMinor_nan] at h

/-- The product reaches the first value that the two roundings take to one. -/
def ReachesOne (amount : ℤ) : Decimal → Prop
  | .finite d => (10 ^ 20 + 1 : ℚ) ≤ 2 * 10 ^ 20 * (amount * d.value)
  | _ => True

theorem one_le_convertMinor {amount credit : ℤ} {rate : Decimal} (ha : 1 ≤ amount)
    (hr : rate.Positive) (h : convertMinor amount rate = some credit) :
    1 ≤ credit ↔ ReachesOne amount rate := by
  cases rate with
  | finite d =>
      rw [convertMinor_finite, Option.some.injEq] at h
      have hpos : 0 < (Dec.ofInt amount).coeff := by simpa [Dec.ofInt] using (by omega : 0 < amount)
      rw [← h, Dec.one_le_toInteger_times (by norm_num [Decimal.precision]) hpos hr,
        Dec.value_ofInt]
      rfl
  | infinity negative => simp [convertMinor_infinity] at h
  | nan => simp [convertMinor_nan] at h

example : convertMinor 50000 (.finite ⟨87781, -5⟩) = some 43890 := by decide

section Column
variable {d r : Dec}

theorem toColumn_finite (h : (Decimal.finite d).toColumn = some r) : r = d.toScale 30 := by
  simp only [Decimal.toColumn] at h
  split_ifs at h
  rw [Option.some.injEq] at h
  exact h.symm

/-- What the column drops of a JSON number is below one part in `10 ^ 13`. -/
theorem toScale_of_jsonNumber (hd : d.coeff.natAbs < 10 ^ 17) :
    d.toScale 30 = d ∨
      |d.value| ≤ 1 / 10 ^ 13 ∧ |(d.toScale 30).value| ≤ 1 / 10 ^ 13 := by
  by_cases he : -(30 : ℤ) ≤ d.exp
  · exact .inl (by simp [Dec.toScale, he])
  · refine .inr ?_
    have hcoeff : |(d.coeff : ℚ)| ≤ 10 ^ 17 := by
      rw [← Int.cast_abs, Int.abs_eq_natAbs, Int.cast_natCast]
      exact_mod_cast hd.le
    have hexp : (10 : ℚ) ^ d.exp ≤ (10 : ℚ) ^ (-(31 : ℤ)) :=
      zpow_le_zpow_right₀ (by norm_num) (by omega)
    constructor
    · rw [Dec.value, abs_mul, abs_of_pos (by positivity : (0 : ℚ) < (10 : ℚ) ^ d.exp)]
      calc |(d.coeff : ℚ)| * (10 : ℚ) ^ d.exp ≤ 10 ^ 17 * (10 : ℚ) ^ (-(31 : ℤ)) := by
            gcongr
        _ ≤ 1 / 10 ^ 13 := by norm_num
    · set m := divHalfUp d.coeff.natAbs (10 ^ (-(30 : ℤ) - d.exp).toNat) with hm
      have hle : m ≤ d.coeff.natAbs := divHalfUp_le (by positivity)
      have hval : (d.toScale 30).value = d.coeff.sign * (m : ℚ) * (10 : ℚ) ^ (-(30 : ℤ)) := by
        rw [Dec.toScale, if_neg (by simpa using he), Dec.value]
        push_cast
        rfl
      have hsign : |((d.coeff.sign : ℤ) : ℚ)| ≤ 1 := by
        rcases lt_trichotomy d.coeff 0 with h | h | h
        · simp [Int.sign_eq_neg_one_of_neg h]
        · simp [h]
        · simp [Int.sign_eq_one_of_pos h]
      have hmq : (m : ℚ) ≤ 10 ^ 17 := by
        exact_mod_cast hle.trans hd.le
      rw [hval, abs_mul, abs_mul, Nat.abs_cast,
        abs_of_pos (by positivity : (0 : ℚ) < (10 : ℚ) ^ (-(30 : ℤ)))]
      calc |((d.coeff.sign : ℤ) : ℚ)| * m * (10 : ℚ) ^ (-(30 : ℤ))
          ≤ 1 * 10 ^ 17 * (10 : ℚ) ^ (-(30 : ℤ)) := by gcongr
        _ ≤ 1 / 10 ^ 13 := by norm_num

/-- A ledger amount is recomputed from the stored rate. -/
theorem convertMinor_toColumn {amount : ℤ} {rate : Decimal} {r : Dec}
    (ha : |amount| ≤ 2147483648) (hr : rate.IsJsonNumber) (h : rate.toColumn = some r) :
    convertMinor amount (.finite r) = convertMinor amount rate := by
  cases rate with
  | finite d =>
      have hrd := toColumn_finite h
      subst hrd
      rcases toScale_of_jsonNumber hr with he | ⟨h₁, h₂⟩
      · rw [he]
      · have hsmall : ∀ x : Dec, |x.value| ≤ 1 / 10 ^ 13 →
            (Dec.times Decimal.precision (Dec.ofInt amount) x).toInteger = 0 := by
          intro x hx
          refine Dec.toInteger_times_eq_zero (by norm_num [Decimal.precision]) ?_
          have ha' : |(amount : ℚ)| ≤ 2147483648 := by exact_mod_cast ha
          rw [Dec.value_ofInt, abs_mul]
          calc |(amount : ℚ)| * |x.value| ≤ 2147483648 * (1 / 10 ^ 13) := by gcongr
            _ ≤ 1 / 2 := by norm_num
        rw [convertMinor_finite, convertMinor_finite, hsmall _ h₁, hsmall _ h₂]
  | infinity negative => simp [Decimal.toColumn] at h
  | nan => simp [Decimal.toColumn] at h

end Column

end MaxOne.Rates
