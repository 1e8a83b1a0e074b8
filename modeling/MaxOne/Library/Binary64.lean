import Mathlib.Data.Int.Log
import Mathlib.Tactic

/-!
# Binary floating point numbers

The number type of a language whose only numbers are those of IEEE 754 binary64:
rationals, two infinities and NaN, with the two zeros as one value. A result is
rounded to 53 significant bits, or to a multiple of `2 ^ -1074` near zero, ties to
even; from `2 ^ 1024` on it is an infinity.

`ofRat_eq_finite` says when a rounded value is a given small integer. A sum can
reach an integer that the exact sum misses, by half a unit in the last place.
-/
namespace Library.Binary64

inductive Number where
  | finite (q : ℚ)
  | infinity (negative : Bool)
  | nan
  deriving DecidableEq, Repr

/-- To the nearest integer, a tie to the even one. -/
def roundHalfEven (q : ℚ) : ℤ :=
  if 2 * (q - ⌊q⌋) < 1 ∨ (2 * (q - ⌊q⌋) = 1 ∧ ⌊q⌋ % 2 = 0) then ⌊q⌋ else ⌊q⌋ + 1

/-- The exponent of the unit in the last place. -/
def unit (q : ℚ) : ℤ := max (Int.log 2 |q| - 52) (-1074)

def nearest (q : ℚ) : ℚ := roundHalfEven (q / 2 ^ unit q) * 2 ^ unit q

def ofRat (q : ℚ) : Number :=
  if 2 ^ 1024 ≤ |nearest q| then .infinity (nearest q < 0) else .finite (nearest q)

def ofNat (n : ℕ) : Number := ofRat n

namespace Number

def add : Number → Number → Number
  | finite x, finite y => ofRat (x + y)
  | infinity a, infinity b => if a = b then infinity a else nan
  | infinity a, finite _ => infinity a
  | finite _, infinity b => infinity b
  | nan, _ => nan
  | _, nan => nan

/-- An infinity times zero is no number. -/
def mul : Number → Number → Number
  | finite x, finite y => ofRat (x * y)
  | infinity a, infinity b => infinity (a != b)
  | infinity a, finite y => if y = 0 then nan else infinity (a != decide (y < 0))
  | finite x, infinity b => if x = 0 then nan else infinity (b != decide (x < 0))
  | nan, _ => nan
  | _, nan => nan

/-- The next integer below. -/
def floor : Number → Number
  | finite x => finite ⌊x⌋
  | x => x

/-- A comparison with NaN is false. -/
def le : Number → Number → Bool
  | finite x, finite y => x ≤ y
  | infinity a, infinity b => a || !b
  | infinity a, finite _ => a
  | finite _, infinity b => !b
  | nan, _ => false
  | _, nan => false

def lt (x y : Number) : Bool := x.le y && !y.le x

/-- NaN if either is. -/
def max : Number → Number → Number
  | nan, _ => nan
  | _, nan => nan
  | x, y => if x.le y then y else x

end Number

/-! ## Rounding near small integers -/

section Rounding
variable {q : ℚ} {m n : ℤ}

theorem roundHalfEven_mem (q : ℚ) : roundHalfEven q = ⌊q⌋ ∨ roundHalfEven q = ⌊q⌋ + 1 := by
  unfold roundHalfEven
  split
  · exact .inl rfl
  · exact .inr rfl

theorem roundHalfEven_le (h : q ≤ m) : roundHalfEven q ≤ m := by
  rcases eq_or_lt_of_le h with rfl | hlt
  · simp [roundHalfEven]
  · have hfloor : ⌊q⌋ < m := Int.floor_lt.mpr hlt
    rcases roundHalfEven_mem q with he | he
    · omega
    · omega

/-- An even integer takes both ties. -/
theorem roundHalfEven_eq_iff (hm : m % 2 = 0) : roundHalfEven q = m ↔ 2 * |q - m| ≤ 1 := by
  have hlow := Int.floor_le q
  have hhigh := Int.lt_floor_add_one q
  unfold roundHalfEven
  rcases lt_trichotomy m ⌊q⌋ with hlt | heq | hgt
  · have hfar : (m : ℚ) + 1 ≤ ⌊q⌋ := by exact_mod_cast hlt
    have habs : q - m ≤ |q - m| := le_abs_self _
    constructor
    · split <;> omega
    · intro hle
      linarith
  · have habs : |q - m| = q - ⌊q⌋ := by rw [heq, abs_of_nonneg (by linarith)]
    have heven : ⌊q⌋ % 2 = 0 := heq ▸ hm
    rw [habs]
    constructor
    · split
      · next hdown =>
          intro _
          rcases hdown with hless | htie
          · exact hless.le
          · exact htie.1.le
      · omega
    · intro hle
      rw [if_pos, heq]
      rcases hle.lt_or_eq with hless | htie
      · exact .inl hless
      · exact .inr ⟨htie, heven⟩
  · rcases eq_or_lt_of_le (Int.add_one_le_iff.mpr hgt) with heq | hfar
    · have hcast : (m : ℚ) = ⌊q⌋ + 1 := by exact_mod_cast heq.symm
      have habs : |q - m| = ⌊q⌋ + 1 - q := by rw [hcast, abs_of_neg (by linarith)]; ring
      rw [habs]
      constructor
      · split
        · omega
        · next hup =>
            intro _
            by_contra hle
            exact hup (.inl (by linarith))
      · intro hle
        rw [if_neg, heq]
        intro hdown
        rcases hdown with hless | htie
        · linarith
        · omega
    · have hcast : (⌊q⌋ : ℚ) + 1 + 1 ≤ m := by exact_mod_cast hfar
      have habs : -(q - m) ≤ |q - m| := neg_le_abs _
      constructor
      · split <;> omega
      · intro hle
        linarith

/-- In a binade the numbers next to an integer are half a unit away. -/
theorem nearest_eq_iff {k : ℤ} (hlow : 2 ^ k ≤ q) (hhigh : q < 2 ^ (k + 1)) (hk : -1022 ≤ k)
    (hk' : k < 52) : nearest q = n ↔ |q - n| ≤ 2 ^ (k - 53) := by
  have hpos : 0 < q := lt_of_lt_of_le (by positivity) hlow
  have hlog : Int.log 2 |q| = k := by
    rw [abs_of_pos hpos]
    have h₁ : k ≤ Int.log 2 q := (Int.zpow_le_iff_le_log Nat.one_lt_two hpos).mp hlow
    have h₂ : Int.log 2 q < k + 1 := (Int.lt_zpow_iff_log_lt Nat.one_lt_two hpos).mp hhigh
    omega
  have hunit : unit q = k - 52 := by
    rw [unit, hlog]
    omega
  set u : ℚ := 2 ^ (k - 52) with hu
  have hupos : 0 < u := by positivity
  obtain ⟨j, hj⟩ : ∃ j : ℕ, (52 - k).toNat = j + 1 := ⟨(52 - k).toNat - 1, by omega⟩
  have hinv : (2 ^ (j + 1) : ℚ) * u = 1 := by
    rw [hu, ← zpow_natCast, ← zpow_add₀ two_ne_zero]
    have hzero : ((j + 1 : ℕ) : ℤ) + (k - 52) = 0 := by omega
    rw [hzero, zpow_zero]
  have hhalf : (2 : ℚ) ^ (k - 53) = u / 2 := by
    rw [hu, show k - 53 = k - 52 - 1 by ring, zpow_sub_one₀ two_ne_zero]
    rfl
  have heven : (n * 2 ^ (j + 1)) % 2 = 0 := by
    rw [pow_succ, ← mul_assoc, Int.mul_emod_left]
  have hscale : q / u - ((n * 2 ^ (j + 1) : ℤ) : ℚ) = (q - n) / u := by
    push_cast
    field_simp
    linear_combination (-(n : ℚ)) * hinv
  have hround : nearest q = n ↔ roundHalfEven (q / u) = n * 2 ^ (j + 1) := by
    rw [nearest, hunit, ← hu]
    constructor
    · intro h
      have hn : (roundHalfEven (q / u) : ℚ) = n * 2 ^ (j + 1) := by
        calc (roundHalfEven (q / u) : ℚ) = roundHalfEven (q / u) * (2 ^ (j + 1) * u) := by
              rw [hinv, mul_one]
          _ = n * 2 ^ (j + 1) := by
              rw [← h]
              ring
      exact_mod_cast hn
    · intro h
      rw [h]
      push_cast
      rw [mul_assoc, hinv, mul_one]
  rw [hround, roundHalfEven_eq_iff heven, hscale, abs_div, abs_of_pos hupos, hhalf]
  rw [← mul_div_assoc, div_le_one hupos]
  constructor <;> intro h <;> linarith

theorem le_roundHalfEven (h : m ≤ q) : m ≤ roundHalfEven q := by
  have hfloor : m ≤ ⌊q⌋ := Int.le_floor.mpr h
  rcases roundHalfEven_mem q with he | he
  · omega
  · omega

theorem log_le_of_le {j : ℤ} (hpos : 0 < q) (h : q ≤ 2 ^ j) : Int.log 2 |q| ≤ j := by
  rw [abs_of_pos hpos]
  have hmono := Int.log_mono_right (b := 2) hpos h
  have hlog : Int.log 2 ((2 : ℚ) ^ j) = j := by
    exact_mod_cast Int.log_zpow (R := ℚ) Nat.one_lt_two j
  omega

/-- Rounding crosses no power of two from below. -/
theorem nearest_le_zpow {j : ℤ} (hj : -1074 ≤ j) (h : q ≤ 2 ^ j) : nearest q ≤ 2 ^ j := by
  set u : ℚ := 2 ^ unit q with hu
  have hupos : 0 < u := by positivity
  rcases le_or_gt q 0 with hneg | hpos
  · have hround : roundHalfEven (q / u) ≤ 0 := by
      refine roundHalfEven_le ?_
      rw [Int.cast_zero]
      exact div_nonpos_of_nonpos_of_nonneg hneg hupos.le
    have hcast : (roundHalfEven (q / u) : ℚ) ≤ 0 := by exact_mod_cast hround
    calc nearest q = roundHalfEven (q / u) * u := rfl
      _ ≤ 0 := mul_nonpos_of_nonpos_of_nonneg hcast hupos.le
      _ ≤ 2 ^ j := by positivity
  · have hunit : unit q ≤ j := by
      have hlog := log_le_of_le hpos h
      rw [unit]
      omega
    obtain ⟨i, hi⟩ : ∃ i : ℕ, j = unit q + i := ⟨(j - unit q).toNat, by omega⟩
    have hpow : (2 : ℚ) ^ j = 2 ^ i * u := by
      rw [hi, zpow_add₀ two_ne_zero, zpow_natCast, mul_comm]
    have hround : roundHalfEven (q / u) ≤ 2 ^ i := by
      refine roundHalfEven_le ?_
      rw [div_le_iff₀ hupos]
      push_cast
      rw [← hpow]
      exact h
    have hcast : (roundHalfEven (q / u) : ℚ) ≤ 2 ^ i := by exact_mod_cast hround
    calc nearest q = roundHalfEven (q / u) * u := rfl
      _ ≤ 2 ^ i * u := mul_le_mul_of_nonneg_right hcast hupos.le
      _ = 2 ^ j := hpow.symm

/-- Nor from above. -/
theorem zpow_le_nearest {j : ℤ} (hj : -1074 ≤ j) (h : 2 ^ j ≤ q) : 2 ^ j ≤ nearest q := by
  set u : ℚ := 2 ^ unit q with hu
  have hupos : 0 < u := by positivity
  have hpos : 0 < q := lt_of_lt_of_le (by positivity) h
  set k := Int.log 2 |q| with hk
  have hjk : j ≤ k := by
    rw [hk, abs_of_pos hpos]
    exact (Int.zpow_le_iff_le_log Nat.one_lt_two hpos).mp h
  have hlow : (2 : ℚ) ^ k ≤ q := by
    rw [hk, abs_of_pos hpos]
    exact_mod_cast Int.zpow_log_le_self Nat.one_lt_two hpos
  have hunit : unit q ≤ k := by
    rw [unit, ← hk]
    omega
  obtain ⟨i, hi⟩ : ∃ i : ℕ, k = unit q + i := ⟨(k - unit q).toNat, by omega⟩
  have hpow : (2 : ℚ) ^ k = 2 ^ i * u := by
    rw [hi, zpow_add₀ two_ne_zero, zpow_natCast, mul_comm]
  have hround : 2 ^ i ≤ roundHalfEven (q / u) := by
    refine le_roundHalfEven ?_
    rw [le_div_iff₀ hupos]
    push_cast
    rw [← hpow]
    exact hlow
  have hcast : (2 ^ i : ℚ) ≤ roundHalfEven (q / u) := by exact_mod_cast hround
  calc (2 : ℚ) ^ j ≤ 2 ^ k := zpow_le_zpow_right₀ one_le_two hjk
    _ = 2 ^ i * u := hpow
    _ ≤ roundHalfEven (q / u) * u := mul_le_mul_of_nonneg_right hcast hupos.le
    _ = nearest q := rfl

/-- A power of two is reached from a quarter of a unit below and half a unit above. -/
theorem nearest_eq_zpow {k : ℕ} (hk : k < 52) :
    nearest q = 2 ^ k ↔ 2 ^ k - (2 : ℚ) ^ ((k : ℤ) - 54) ≤ q ∧ q ≤ 2 ^ k + (2 : ℚ) ^ ((k : ℤ) - 53) := by
  have hstep : (2 : ℚ) ^ ((k : ℤ) - 53) = 2 * 2 ^ ((k : ℤ) - 54) := by
    rw [show (k : ℤ) - 53 = k - 54 + 1 by ring, zpow_add_one₀ two_ne_zero, mul_comm]
  have hscale : (2 : ℚ) ^ k = 2 ^ ((k : ℤ) - 54) * 2 ^ 54 := by
    rw [← zpow_natCast, ← zpow_natCast, ← zpow_add₀ two_ne_zero]
    congr 1
    push_cast
    ring
  have hpow : (2 : ℚ) ^ k = ((2 ^ k : ℤ) : ℚ) := by push_cast; rfl
  have hsmall : (0 : ℚ) < 2 ^ ((k : ℤ) - 54) := by positivity
  have hprev : (2 : ℚ) ^ ((k : ℤ) - 1) * 2 = 2 ^ k := by
    rw [← zpow_add_one₀ two_ne_zero, sub_add_cancel, zpow_natCast]
  have hnext : (2 : ℚ) ^ ((k : ℤ) + 1) = 2 ^ k * 2 := by
    rw [zpow_add_one₀ two_ne_zero, zpow_natCast]
  rcases lt_or_ge q (2 ^ ((k : ℤ) - 1)) with hfar | hnear
  · have hle := nearest_le_zpow (j := (k : ℤ) - 1) (by omega) hfar.le
    constructor
    · intro h
      linarith
    · intro h
      linarith [h.1]
  · rcases lt_or_ge q (2 ^ k) with hbelow | habove
    · have hbin := nearest_eq_iff (n := 2 ^ k) hnear
        (by rw [sub_add_cancel, zpow_natCast]; exact hbelow) (by omega) (by omega)
      rw [hpow, hbin, ← hpow, show (k : ℤ) - 1 - 53 = k - 54 by ring,
        abs_of_neg (by linarith)]
      constructor
      · intro h
        exact ⟨by linarith, by linarith⟩
      · intro h
        linarith [h.1]
    · rcases lt_or_ge q (2 ^ ((k : ℤ) + 1)) with hin | hout
      · have hbin := nearest_eq_iff (n := 2 ^ k) (k := k) (by rw [zpow_natCast]; exact habove) hin
          (by omega) (by omega)
        rw [hpow, hbin, ← hpow, abs_of_nonneg (by linarith)]
        constructor
        · intro h
          exact ⟨by linarith, by linarith⟩
        · intro h
          linarith [h.2]
      · have hge := zpow_le_nearest (j := (k : ℤ) + 1) (by omega) hout
        constructor
        · intro h
          linarith
        · intro h
          linarith [h.2]

/-- Strictly inside a binade an integer is reached from half a unit on both sides. -/
theorem nearest_eq_of_between {k : ℕ} (hk : k < 52) (hlow : 2 ^ k < n) (hhigh : n < 2 ^ (k + 1)) :
    nearest q = n ↔ |q - n| ≤ (2 : ℚ) ^ ((k : ℤ) - 53) := by
  have hlow' : (2 : ℚ) ^ k + 1 ≤ n := by exact_mod_cast hlow
  have hhigh' : (n : ℚ) + 1 ≤ 2 ^ (k + 1) := by exact_mod_cast hhigh
  have hnext : (2 : ℚ) ^ ((k : ℤ) + 1) = 2 ^ (k + 1) := by
    rw [← zpow_natCast]
    rfl
  have hsmall : (2 : ℚ) ^ ((k : ℤ) - 53) < 1 := by
    rw [← zpow_zero (2 : ℚ)]
    exact zpow_lt_zpow_right₀ one_lt_two (by omega)
  rcases lt_or_ge q (2 ^ k) with hbelow | habove
  · have hle := nearest_le_zpow (q := q) (j := k) (by omega) (by rw [zpow_natCast]; exact hbelow.le)
    rw [zpow_natCast] at hle
    have habs : -(q - n) ≤ |q - n| := neg_le_abs _
    constructor
    · intro h
      linarith
    · intro h
      linarith
  · rcases lt_or_ge q (2 ^ ((k : ℤ) + 1)) with hin | hout
    · exact nearest_eq_iff (by rw [zpow_natCast]; exact habove) hin (by omega) (by omega)
    · have hge := zpow_le_nearest (j := (k : ℤ) + 1) (by omega) hout
      have habs : q - n ≤ |q - n| := le_abs_self _
      constructor
      · intro h
        linarith
      · intro h
        linarith

/-- No small integer is an overflow. -/
theorem ofRat_eq_finite (hsmall : |n| ≤ 2 ^ 53) : ofRat q = .finite n ↔ nearest q = n := by
  have hcast : |(n : ℚ)| ≤ 2 ^ 53 := by exact_mod_cast hsmall
  have hbound : (2 : ℚ) ^ 53 < 2 ^ 1024 := pow_lt_pow_right₀ one_lt_two (by norm_num)
  unfold ofRat
  split_ifs with hover
  · constructor
    · intro h
      cases h
    · intro h
      rw [h] at hover
      exact absurd (hcast.trans_lt hbound) hover.not_gt
  · rw [Number.finite.injEq]

end Rounding

/-! ## Numbers that are kept -/

section Kept
variable {q r : ℚ} {m n : ℤ}

theorem roundHalfEven_of_near (h : 2 * |q - m| < 1) : roundHalfEven q = m := by
  obtain ⟨hlow, hhigh⟩ := abs_lt.mp (by linarith : |q - m| < 1 / 2)
  unfold roundHalfEven
  rcases lt_or_ge q m with hlt | hge
  · have hfloor : ⌊q⌋ = m - 1 := Int.floor_eq_iff.mpr ⟨by push_cast; linarith, by push_cast; linarith⟩
    rw [hfloor, if_neg]
    · ring
    · push_cast
      rintro (hdown | ⟨htie, -⟩)
      · linarith
      · linarith
  · have hfloor : ⌊q⌋ = m := Int.floor_eq_iff.mpr ⟨hge, by linarith⟩
    rw [hfloor, if_pos (.inl (by linarith))]

@[simp] theorem roundHalfEven_intCast (m : ℤ) : roundHalfEven m = m :=
  roundHalfEven_of_near (by simp)

theorem abs_roundHalfEven_sub (q : ℚ) : 2 * |(roundHalfEven q : ℚ) - q| ≤ 1 := by
  have hlow := Int.floor_le q
  have hhigh := Int.lt_floor_add_one q
  unfold roundHalfEven
  split_ifs with hdown
  · rw [abs_of_nonpos (by linarith)]
    rcases hdown with hlt | ⟨htie, -⟩
    · linarith
    · linarith
  · push_cast
    rw [abs_of_nonneg (by linarith)]
    by_contra hfar
    exact hdown (.inl (by linarith))

theorem unit_eq {k : ℤ} (hlow : 2 ^ k ≤ q) (hhigh : q < 2 ^ (k + 1)) (hk : -1022 ≤ k) :
    unit q = k - 52 := by
  have hpos : 0 < q := lt_of_lt_of_le (by positivity) hlow
  have h₁ : k ≤ Int.log 2 q := (Int.zpow_le_iff_le_log Nat.one_lt_two hpos).mp hlow
  have h₂ : Int.log 2 q < k + 1 := (Int.lt_zpow_iff_log_lt Nat.one_lt_two hpos).mp hhigh
  rw [unit, abs_of_pos hpos]
  omega

/-- An integer multiple of a power of two that is no smaller than the unit is kept. -/
theorem nearest_of_multiple {v : ℤ} (hq : q = m * 2 ^ v) (hv : unit q ≤ v) : nearest q = q := by
  obtain ⟨i, hi⟩ : ∃ i : ℕ, v = unit q + i := ⟨(v - unit q).toNat, by omega⟩
  have hpow : (2 : ℚ) ^ unit q ≠ 0 := by positivity
  have hdiv : q / 2 ^ unit q = ((m * 2 ^ i : ℤ) : ℚ) := by
    rw [div_eq_iff hpow]
    nth_rewrite 1 [hq]
    rw [hi, zpow_add₀ two_ne_zero, zpow_natCast]
    push_cast
    ring
  rw [nearest, hdiv, roundHalfEven_intCast, ← hdiv, div_mul_cancel₀ _ hpow]

theorem exists_binade (hq : 1 ≤ q) : ∃ k : ℕ, (2 : ℚ) ^ (k : ℤ) ≤ q ∧ q < 2 ^ ((k : ℤ) + 1) := by
  have hpos : 0 < q := by linarith
  have hlog : 0 ≤ Int.log 2 q := by
    rw [← Int.zpow_le_iff_le_log Nat.one_lt_two hpos]
    simpa using hq
  obtain ⟨k, hk⟩ := Int.eq_ofNat_of_zero_le hlog
  refine ⟨k, ?_, ?_⟩
  · rw [← hk]
    exact Int.zpow_log_le_self Nat.one_lt_two hpos
  · rw [← hk]
    exact Int.lt_zpow_succ_log_self Nat.one_lt_two q

theorem nearest_intCast (hn : 0 ≤ n) (hle : n ≤ 2 ^ 53) : nearest (n : ℚ) = n := by
  rcases eq_or_lt_of_le hn with rfl | hpos
  · simp [nearest, roundHalfEven]
  obtain ⟨k, hlow, hhigh⟩ := exists_binade (q := n) (by exact_mod_cast hpos)
  have hunit := unit_eq hlow hhigh (by omega)
  rcases eq_or_lt_of_le hle with rfl | hlt
  · refine nearest_of_multiple (m := 1) (v := 53) (by norm_num) ?_
    rw [hunit]
    have hk : ((2 : ℤ) ^ k : ℚ) ≤ 2 ^ 53 := by exact_mod_cast hlow
    have hk' : k ≤ 53 := (Nat.pow_le_pow_iff_right Nat.one_lt_two).mp (by exact_mod_cast hk)
    omega
  · refine nearest_of_multiple (m := n) (v := 0) (by simp) ?_
    rw [hunit]
    have hk : ((2 : ℤ) ^ k : ℚ) < 2 ^ 53 := by
      have hcast : (n : ℚ) < 2 ^ 53 := by exact_mod_cast hlt
      refine lt_of_le_of_lt ?_ hcast
      exact_mod_cast hlow
    have hk' : k < 53 := (Nat.pow_lt_pow_iff_right Nat.one_lt_two).mp (by exact_mod_cast hk)
    omega

/-- Rounding a second time changes nothing. -/
theorem nearest_nearest (hq : 1 ≤ q) : nearest (nearest q) = nearest q := by
  obtain ⟨k, hlow, hhigh⟩ := exists_binade hq
  have hunit := unit_eq hlow hhigh (by omega)
  set m := roundHalfEven (q / 2 ^ unit q) with hm
  have hq' : nearest q = m * 2 ^ ((k : ℤ) - 52) := by rw [nearest, ← hm, hunit]
  have hmlow : (2 : ℚ) ^ (k : ℤ) ≤ nearest q := zpow_le_nearest (by omega) hlow
  have hmhigh : nearest q ≤ 2 ^ ((k : ℤ) + 1) := nearest_le_zpow (by omega) hhigh.le
  rcases eq_or_lt_of_le hmhigh with htop | hbelow
  · refine nearest_of_multiple (m := 1) (v := (k : ℤ) + 1) (by rw [htop]; simp) ?_
    have hnext := unit_eq (q := nearest q) (k := (k : ℤ) + 1) htop.ge
      (by rw [htop]; exact zpow_lt_zpow_right₀ one_lt_two (by omega)) (by omega)
    rw [hnext]
    omega
  · refine nearest_of_multiple hq' ?_
    rw [unit_eq hmlow hbelow (by omega)]

/-- From `2 ^ 53` on the integers that are kept are even. -/
theorem even_of_nearest (h : nearest (n : ℚ) = n) (hn : 2 ^ 53 ≤ n) : n % 2 = 0 := by
  have hnq : (2 : ℚ) ^ 53 ≤ n := by exact_mod_cast hn
  obtain ⟨k, hlow, hhigh⟩ := exists_binade (q := n) (by linarith)
  have hunit := unit_eq hlow hhigh (by omega)
  have hk : 53 ≤ k := by
    by_contra hlt
    have hpow : (2 : ℚ) ^ ((k : ℤ) + 1) ≤ 2 ^ (53 : ℤ) :=
      zpow_le_zpow_right₀ one_le_two (by omega)
    have h53 : (2 : ℚ) ^ (53 : ℤ) = 2 ^ 53 := by norm_num
    linarith
  obtain ⟨i, hi⟩ : ∃ i : ℕ, unit (n : ℚ) = (i : ℤ) + 1 := ⟨k - 53, by omega⟩
  set m := roundHalfEven ((n : ℚ) / 2 ^ unit (n : ℚ)) with hm
  have hmul : n = m * 2 ^ i * 2 := by
    have hq : (n : ℚ) = m * 2 ^ unit (n : ℚ) := by rw [hm]; exact h.symm
    rw [hi, zpow_add_one₀ two_ne_zero, zpow_natCast] at hq
    have hq' : (n : ℚ) = ((m * 2 ^ i * 2 : ℤ) : ℚ) := by
      rw [hq]
      push_cast
      ring
    exact_mod_cast hq'
  rw [hmul, Int.mul_emod_left]

/-- What is closer than a quarter of the unit to a number that is kept is rounded to it. -/
theorem nearest_of_close (h : nearest q = q) (hq : 1 ≤ q) (hclose : 4 * |r - q| < 2 ^ unit q) :
    nearest r = q := by
  obtain ⟨k, hlow, hhigh⟩ := exists_binade hq
  have hunit := unit_eq hlow hhigh (by omega)
  set m := roundHalfEven (q / 2 ^ unit q) with hm
  set U : ℚ := 2 ^ ((k : ℤ) - 52) with hU
  have hUpos : 0 < U := by positivity
  rw [hunit, ← hU] at hclose
  have hqm : q = m * U := by rw [hU, ← hunit, hm]; exact h.symm
  have hk52 : (2 : ℚ) ^ (k : ℤ) = 2 ^ 52 * U := by
    rw [hU, ← zpow_natCast, ← zpow_add₀ two_ne_zero]
    congr 1
    push_cast
    ring
  have hk53 : (2 : ℚ) ^ ((k : ℤ) + 1) = 2 ^ 53 * U := by
    rw [zpow_add_one₀ two_ne_zero, hk52]
    ring
  obtain ⟨hleft, hright⟩ := abs_lt.mp (by linarith : |r - q| < U / 4)
  have hmtop : (m : ℚ) + 1 ≤ 2 ^ 53 := by
    have hlt : (m : ℚ) < 2 ^ 53 := by
      rw [hk53, hqm] at hhigh
      exact (mul_lt_mul_iff_left₀ hUpos).mp hhigh
    have hlt' : m < 2 ^ 53 := by exact_mod_cast hlt
    exact_mod_cast hlt'
  have hrtop : r < 2 ^ ((k : ℤ) + 1) := by
    rw [hk53]
    nlinarith
  rcases lt_or_ge r (2 ^ (k : ℤ)) with hbelow | habove
  · -- `q` is the power of two and the numbers below it are twice as dense
    have hhalf : (2 : ℚ) ^ ((k : ℤ) - 53) = U / 2 := by
      have hexp : (k : ℤ) - 53 = (k : ℤ) - 52 - 1 := by ring
      rw [hU, hexp, zpow_sub_one₀ two_ne_zero]
      ring
    have hrlow : (2 : ℚ) ^ ((k : ℤ) - 1) ≤ r := by
      rw [zpow_sub_one₀ two_ne_zero, hk52]
      rw [hk52] at hlow
      linarith
    have hrunit : unit r = (k : ℤ) - 53 := by
      rw [unit_eq hrlow (by simpa using hbelow) (by omega)]
      ring
    have hround : roundHalfEven (r / (U / 2)) = 2 * m := by
      refine roundHalfEven_of_near ?_
      have hdiff : r / (U / 2) - ((2 * m : ℤ) : ℚ) = (r - q) / (U / 2) := by
        rw [hqm]
        push_cast
        field_simp
      rw [hdiff, abs_div, abs_of_pos (by positivity : 0 < U / 2), ← mul_div_assoc,
        div_lt_one (by positivity)]
      linarith
    rw [nearest, hrunit, hhalf, hround, hqm]
    push_cast
    ring
  · have hrunit : unit r = (k : ℤ) - 52 := unit_eq habove hrtop (by omega)
    have hround : roundHalfEven (r / U) = m := by
      refine roundHalfEven_of_near ?_
      have hdiff : r / U - (m : ℚ) = (r - q) / U := by
        rw [hqm]
        field_simp
      rw [hdiff, abs_div, abs_of_pos hUpos, ← mul_div_assoc, div_lt_one hUpos]
      linarith
    rw [nearest, hrunit, ← hU, hround, hqm]

/-- Whole numbers up to `2 ^ 53` are kept. -/
theorem ofNat_eq_finite {k : ℕ} (h : k ≤ 2 ^ 53) : ofNat k = .finite k := by
  have habs : |(k : ℤ)| ≤ 2 ^ 53 := by
    rw [Nat.abs_cast]
    exact_mod_cast h
  have hnear : nearest ((k : ℤ) : ℚ) = (k : ℤ) := nearest_intCast (by omega) (by exact_mod_cast h)
  have hcast := (ofRat_eq_finite habs).mpr hnear
  rw [Int.cast_natCast] at hcast
  exact hcast

/-- A number comes out as itself when rounding keeps it and it is no overflow. -/
theorem ofRat_eq_finite_iff : ofRat q = .finite r ↔ nearest q = r ∧ |r| < 2 ^ 1024 := by
  unfold ofRat
  split_ifs with hover
  · constructor
    · intro h
      cases h
    · rintro ⟨rfl, hlt⟩
      exact absurd hover hlt.not_ge
  · rw [Number.finite.injEq]
    constructor
    · rintro rfl
      exact ⟨rfl, not_le.mp hover⟩
    · exact fun h => h.1

/-- A number from one on that came out of a rounding is kept. -/
theorem ofRat_idem (h : ofRat q = .finite r) (hr : 1 ≤ r) : ofRat r = .finite r := by
  obtain ⟨hnear, hbound⟩ := ofRat_eq_finite_iff.mp h
  refine ofRat_eq_finite_iff.mpr ⟨?_, hbound⟩
  rcases le_or_gt 1 q with hq | hq
  · rw [← hnear]
    exact nearest_nearest hq
  · have hle : nearest q ≤ 2 ^ (0 : ℤ) := nearest_le_zpow (by omega) (by simpa using hq.le)
    rw [hnear, zpow_zero] at hle
    have hone : r = ((1 : ℤ) : ℚ) := by
      rw [Int.cast_one]
      exact le_antisymm hle hr
    rw [hone]
    exact nearest_intCast (by omega) (by norm_num)

/-- From `2 ^ 53` on, what is kept has no fraction. -/
theorem exists_int_of_nearest (h : nearest q = q) (hq : 2 ^ 53 ≤ q) : ∃ n : ℤ, q = n := by
  obtain ⟨k, hlow, hhigh⟩ := exists_binade (q := q) (by linarith)
  have hunit := unit_eq hlow hhigh (by omega)
  have hk : 53 ≤ k := by
    by_contra hlt
    have hpow : (2 : ℚ) ^ ((k : ℤ) + 1) ≤ 2 ^ (53 : ℤ) :=
      zpow_le_zpow_right₀ one_le_two (by omega)
    have h53 : (2 : ℚ) ^ (53 : ℤ) = 2 ^ 53 := by norm_num
    linarith
  obtain ⟨i, hi⟩ : ∃ i : ℕ, unit q = (i : ℤ) := ⟨k - 52, by omega⟩
  refine ⟨roundHalfEven (q / 2 ^ unit q) * 2 ^ i, ?_⟩
  have hq' : q = roundHalfEven (q / 2 ^ unit q) * 2 ^ unit q := h.symm
  nth_rewrite 1 [hq']
  rw [hi, zpow_natCast]
  push_cast
  rfl

/-- The whole part of a number that is kept is kept. -/
theorem ofRat_floor (h : ofRat q = .finite q) (hq : 1 ≤ q) : ofRat ⌊q⌋ = .finite ⌊q⌋ := by
  obtain ⟨hnear, -⟩ := ofRat_eq_finite_iff.mp h
  rcases lt_or_ge q (2 ^ 53) with hsmall | hlarge
  · have hlow : 0 ≤ ⌊q⌋ := Int.floor_nonneg.mpr (by linarith)
    have hhigh : ⌊q⌋ ≤ 2 ^ 53 := by
      have hlt : ⌊q⌋ < 2 ^ 53 := Int.floor_lt.mpr (by exact_mod_cast hsmall)
      exact hlt.le
    exact (ofRat_eq_finite (abs_le.mpr ⟨by omega, hhigh⟩)).mpr (nearest_intCast hlow hhigh)
  · obtain ⟨n, hn⟩ := exists_int_of_nearest hnear hlarge
    have hfloor : (⌊q⌋ : ℚ) = q := by
      rw [hn, Int.floor_intCast]
    rw [hfloor, h]

/-- Whole numbers beyond `2 ^ 53` are rounded to no less. -/
theorem le_of_ofRat (h : ofRat q = .finite r) (hq : 2 ^ 53 ≤ q) : 2 ^ 53 ≤ r := by
  obtain ⟨hnear, -⟩ := ofRat_eq_finite_iff.mp h
  have hpow : (2 : ℚ) ^ (53 : ℤ) = 2 ^ 53 := by norm_num
  rw [← hnear, ← hpow]
  exact zpow_le_nearest (by omega) (by rw [hpow]; exact hq)

end Kept

end Library.Binary64
