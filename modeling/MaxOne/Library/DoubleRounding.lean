import MaxOne.Library.Binary64
import MaxOne.Library.DecimalRounding

/-!
# Rounding to a unit and then to an integer

A rational is first rounded to a multiple of a unit, ties up, and the result is
rounded to an integer, ties to even. When halves are multiples of the unit the two
roundings miss the nearest integer exactly where the first one makes a tie of a number
that is none, and the even side of that tie is the wrong one.

`toInteger_eq` and `value_times` say that the decimals of `DecimalRounding` are rounded
in this way.
-/
namespace Library.DoubleRounding
open Library.Binary64 Library.DecimalRounding

/-- The nearest multiple of `u`, a tie up. -/
def roundTo (u q : ℚ) : ℚ := u * ⌊q / u + 1 / 2⌋

/-- The number is none of the ties, the nearest integer is odd, and the multiple of `u`
nearest to it is the tie between that integer and an even one. -/
def NearTie (u q : ℚ) : Prop :=
  (⌊q⌋ % 2 = 1 ∧ ⌊q⌋ + 1 / 2 - u / 2 ≤ q ∧ q < ⌊q⌋ + 1 / 2) ∨
    (⌊q⌋ % 2 = 0 ∧ ⌊q⌋ + 1 / 2 < q ∧ q < ⌊q⌋ + 1 / 2 + u / 2)

section Twice
variable {u q : ℚ} {j n : ℤ}

/-- Above the lower of two integers the nearest one is decided by the middle. -/
theorem roundHalfEven_below (hlow : (n : ℚ) ≤ q) (h : q < n + 1 / 2) : roundHalfEven q = n :=
  roundHalfEven_of_near (by rw [abs_of_nonneg (by linarith)]; linarith)

theorem roundHalfEven_above (h : (n : ℚ) + 1 / 2 < q) (hhigh : q ≤ n + 1) :
    roundHalfEven q = n + 1 :=
  roundHalfEven_of_near (by push_cast; rw [abs_of_nonpos (by linarith)]; linarith)

theorem roundHalfEven_tie (n : ℤ) :
    roundHalfEven (n + 1 / 2) = if n % 2 = 0 then n else n + 1 := by
  have hfloor : ⌊(n : ℚ) + 1 / 2⌋ = n := Int.floor_eq_iff.mpr ⟨by linarith, by linarith⟩
  unfold roundHalfEven
  rw [hfloor]
  split_ifs with h₁ h₂ h₂
  · rfl
  · rcases h₁ with hlt | ⟨-, heven⟩
    · linarith
    · exact absurd heven h₂
  · exact absurd (.inr ⟨by ring, h₂⟩) h₁
  · rfl

theorem roundTo_mul (hu : 0 < u) (j : ℤ) : roundTo u (u * j) = u * j := by
  have hfloor : ⌊u * j / u + 1 / 2⌋ = j := by
    rw [mul_div_cancel_left₀ _ hu.ne']
    exact Int.floor_eq_iff.mpr ⟨by linarith, by linarith⟩
  rw [roundTo, hfloor]

theorem abs_roundTo_sub (hu : 0 < u) (q : ℚ) : 2 * |roundTo u q - q| ≤ u := by
  have hlow := Int.floor_le (q / u + 1 / 2)
  have hhigh := Int.lt_floor_add_one (q / u + 1 / 2)
  have hq : q = u * (q / u) := by field_simp
  set f := ⌊q / u + 1 / 2⌋ with hf
  have hsub : roundTo u q - q = u * (f - q / u) := by
    rw [roundTo, ← hf]
    linear_combination -hq
  rw [hsub, abs_mul, abs_of_pos hu]
  have hdist : |(f : ℚ) - q / u| ≤ 1 / 2 := abs_le.mpr ⟨by linarith, by linarith⟩
  nlinarith

/-- A multiple of the unit is reached from half a unit below it. -/
theorem le_roundTo (hu : 0 < u) : u * j ≤ roundTo u q ↔ u * j - u / 2 ≤ q := by
  rw [roundTo, mul_le_mul_iff_right₀ hu]
  have hcast : (j : ℚ) ≤ ⌊q / u + 1 / 2⌋ ↔ (j : ℚ) ≤ q / u + 1 / 2 := by
    rw [Int.cast_le, Int.le_floor]
  rw [hcast]
  have hscale : (j : ℚ) ≤ q / u + 1 / 2 ↔ u * j ≤ u * (q / u + 1 / 2) :=
    (mul_le_mul_iff_right₀ hu).symm
  have hq : u * (q / u + 1 / 2) = q + u / 2 := by field_simp
  rw [hscale, hq]
  constructor
  · intro h
    linarith
  · intro h
    linarith

theorem roundTo_le (hu : 0 < u) : roundTo u q ≤ u * j ↔ q < u * j + u / 2 := by
  have hnext : roundTo u q ≤ u * j ↔ ¬ u * ((j + 1 : ℤ) : ℚ) ≤ roundTo u q := by
    rw [roundTo, mul_le_mul_iff_right₀ hu, mul_le_mul_iff_right₀ hu, Int.cast_le, Int.cast_le]
    omega
  rw [hnext, le_roundTo hu, not_le]
  push_cast
  constructor
  · intro h
    linarith
  · intro h
    linarith

/-- Where halves are multiples of the unit, rounding twice is rounding once except at `NearTie`;
there the result is even and the nearest integer is not. -/
theorem roundHalfEven_roundTo {h : ℕ} (hu : u * (2 * h) = 1) (q : ℚ) :
    (roundHalfEven (roundTo u q) = roundHalfEven q ∧ ¬ NearTie u q) ∨
      (roundHalfEven (roundTo u q) % 2 = 0 ∧ roundHalfEven q % 2 = 1 ∧ NearTie u q) := by
  have hpos : 0 < u := by
    by_contra hneg
    have hh : (0 : ℚ) ≤ 2 * h := by positivity
    nlinarith
  unfold NearTie
  set n := ⌊q⌋ with hn
  have hlow : (n : ℚ) ≤ q := Int.floor_le q
  have hhigh : q < n + 1 := Int.lt_floor_add_one q
  -- the two integers around `q` and the tie between them are multiples of the unit
  have hfloor : u * ((n * (2 * h) : ℤ) : ℚ) = n := by
    push_cast
    linear_combination (n : ℚ) * hu
  have htie : u * ((n * (2 * h) + h : ℤ) : ℚ) = n + 1 / 2 := by
    push_cast
    linear_combination ((n : ℚ) + 1 / 2) * hu
  have hceil : u * (((n + 1) * (2 * h) : ℤ) : ℚ) = n + 1 := by
    push_cast
    linear_combination ((n : ℚ) + 1) * hu
  have hge : (n : ℚ) ≤ roundTo u q := by
    rw [← hfloor, le_roundTo hpos, hfloor]
    linarith
  have hle : roundTo u q ≤ n + 1 := by
    rw [← hceil, roundTo_le hpos, hceil]
    linarith
  have htie_le : (n : ℚ) + 1 / 2 ≤ roundTo u q ↔ n + 1 / 2 - u / 2 ≤ q := by
    rw [← htie, le_roundTo hpos, htie]
  have hle_tie : roundTo u q ≤ n + 1 / 2 ↔ q < n + 1 / 2 + u / 2 := by
    rw [← htie, roundTo_le hpos, htie]
  rcases lt_or_ge q (n + 1 / 2 - u / 2) with hbelow | habove
  · have hround : roundHalfEven (roundTo u q) = n :=
      roundHalfEven_below hge (lt_of_not_ge fun h => absurd (htie_le.mp h) (not_le.mpr hbelow))
    have hnearest : roundHalfEven q = n := roundHalfEven_below hlow (by linarith)
    refine .inl ⟨hround.trans hnearest.symm, ?_⟩
    rintro (⟨-, hfar, -⟩ | ⟨-, hfar, -⟩)
    · linarith
    · linarith
  rcases lt_or_ge q (n + 1 / 2 + u / 2) with hnear | hfar
  · have heq : roundTo u q = n + 1 / 2 := le_antisymm (hle_tie.mpr hnear) (htie_le.mpr habove)
    rw [heq, roundHalfEven_tie]
    rcases lt_trichotomy q (n + 1 / 2) with hlt | hmid | hgt
    · rw [roundHalfEven_below hlow hlt]
      rcases Int.emod_two_eq_zero_or_one n with heven | hodd
      · rw [if_pos heven]
        exact .inl ⟨rfl, by rintro (⟨hodd, -⟩ | ⟨-, hgt, -⟩) <;> [omega; linarith]⟩
      · rw [if_neg (by omega)]
        exact .inr ⟨by omega, hodd, .inl ⟨hodd, habove, hlt⟩⟩
    · refine .inl ⟨?_, ?_⟩
      · rw [hmid, roundHalfEven_tie]
      · rintro (⟨-, -, hlt⟩ | ⟨-, hgt, -⟩)
        · linarith
        · linarith
    · rw [roundHalfEven_above hgt hhigh.le]
      rcases Int.emod_two_eq_zero_or_one n with heven | hodd
      · rw [if_pos heven]
        exact .inr ⟨heven, by omega, .inr ⟨heven, hgt, hnear⟩⟩
      · rw [if_neg (by omega)]
        exact .inl ⟨rfl, by rintro (⟨-, -, hlt⟩ | ⟨heven, -⟩) <;> [linarith; omega]⟩
  · have hround : roundHalfEven (roundTo u q) = n + 1 :=
      roundHalfEven_above (lt_of_not_ge fun h => absurd (hle_tie.mp h) (not_lt.mpr hfar)) hle
    have hnearest : roundHalfEven q = n + 1 := roundHalfEven_above (by linarith) hhigh.le
    refine .inl ⟨hround.trans hnearest.symm, ?_⟩
    rintro (⟨-, -, hlt⟩ | ⟨-, -, hlt⟩)
    · linarith
    · linarith

end Twice

/-! ## Decimals -/

section Decimals

theorem roundHalfEven_div (n : ℕ) {d : ℕ} (hd : 0 < d) :
    roundHalfEven ((n : ℚ) / d) = divHalfEven n d := by
  have hdq : (0 : ℚ) < d := by exact_mod_cast hd
  have hfloor : ⌊(n : ℚ) / d⌋ = ((n / d : ℕ) : ℤ) := Rat.floor_natCast_div_natCast n d
  have hfract : 2 * ((n : ℚ) / d - ((n / d : ℕ) : ℤ)) = ((2 * (n % d) : ℕ) : ℚ) / d := by
    have hsplit : (n : ℚ) = d * (n / d : ℕ) + (n % d : ℕ) := by exact_mod_cast (Nat.div_add_mod n d).symm
    rw [eq_div_iff hdq.ne', Int.cast_natCast, Nat.cast_mul, Nat.cast_ofNat]
    have hcancel : (n : ℚ) / d * d = n := div_mul_cancel₀ _ hdq.ne'
    linear_combination 2 * hcancel + 2 * hsplit
  have hlt : 2 * ((n : ℚ) / d - ((n / d : ℕ) : ℤ)) < 1 ↔ 2 * (n % d) < d := by
    rw [hfract, div_lt_one hdq, Nat.cast_lt]
  have heq : 2 * ((n : ℚ) / d - ((n / d : ℕ) : ℤ)) = 1 ↔ 2 * (n % d) = d := by
    rw [hfract, div_eq_one_iff_eq hdq.ne', Nat.cast_inj]
  unfold roundHalfEven divHalfEven
  simp only [hfloor, hlt, heq]
  split_ifs <;> omega

theorem divHalfUp_eq (n : ℕ) {d : ℕ} (hd : 0 < d) :
    ⌊(n : ℚ) / d + 1 / 2⌋ = ((divHalfUp n d : ℕ) : ℤ) := by
  have hdq : (0 : ℚ) < d := by exact_mod_cast hd
  have hsum : (n : ℚ) / d + 1 / 2 = ((2 * n + d : ℕ) : ℚ) / ((2 * d : ℕ) : ℚ) := by
    push_cast
    field_simp
  rw [hsum, divHalfUp]
  exact Rat.floor_natCast_div_natCast _ _

/-- The integer of a decimal that is not negative is the nearest one to its value. -/
theorem toInteger_eq {x : Dec} (hx : 0 ≤ x.coeff) : x.toInteger = roundHalfEven x.value := by
  obtain ⟨n, hn⟩ := Int.eq_ofNat_of_zero_le hx
  rw [Dec.toInteger, Dec.value, hn, Int.natAbs_natCast, Int.cast_natCast]
  have hsign : ∀ r : ℕ, (n = 0 → r = 0) → (n : ℤ).sign * (r : ℤ) = r := by
    intro r hr
    rcases Nat.eq_zero_or_pos n with h0 | hpos
    · simp [h0, hr h0]
    · rw [Int.sign_natCast_of_ne_zero hpos.ne', one_mul]
  rw [hsign _ fun h0 => by rw [h0, roundMagnitude_zero], roundMagnitude]
  split_ifs with he
  · obtain ⟨i, hi⟩ := Int.eq_ofNat_of_zero_le he
    have hval : (n : ℚ) * 10 ^ x.exp = ((n * 10 ^ i : ℤ) : ℚ) := by
      rw [hi, zpow_natCast]
      push_cast
      rfl
    rw [hval, roundHalfEven_intCast, hi, Int.toNat_natCast]
    push_cast
    rfl
  · obtain ⟨i, hi⟩ : ∃ i : ℕ, -x.exp = i := ⟨(-x.exp).toNat, by omega⟩
    have hval : (n : ℚ) * 10 ^ x.exp = (n : ℚ) / ((10 ^ i : ℕ) : ℚ) := by
      have hexp : x.exp = -(i : ℤ) := by omega
      rw [hexp, zpow_neg, zpow_natCast, div_eq_mul_inv]
      push_cast
      rfl
    rw [hval, roundHalfEven_div n (by positivity), hi, Int.toNat_natCast]

/-- The product before it is rounded. -/
def exactTimes (x y : Dec) : Dec := ⟨x.coeff * y.coeff, x.exp + y.exp⟩

theorem value_exactTimes (x y : Dec) : (exactTimes x y).value = x.value * y.value := by
  rw [Dec.value, Dec.value, Dec.value, exactTimes, zpow_add₀ (by norm_num)]
  push_cast
  ring

/-- The unit of the last of `p` significant digits, or of the last digit there is. -/
def lastDigit (p : ℕ) (x : Dec) : ℚ := 10 ^ (x.exp + excess p x.coeff.natAbs)

/-- A positive product is the exact one rounded to its last digit. -/
theorem value_times {p : ℕ} {x y : Dec} (hc : 0 < x.coeff * y.coeff) :
    (Dec.times p x y).value =
      roundTo (lastDigit p (exactTimes x y)) (exactTimes x y).value := by
  obtain ⟨n, hn⟩ := Int.eq_ofNat_of_zero_le hc.le
  set k := excess p (x.coeff * y.coeff).natAbs with hk
  have hunit : lastDigit p (exactTimes x y) = 10 ^ (x.exp + y.exp + k) := rfl
  have hratio : (exactTimes x y).value / (10 : ℚ) ^ (x.exp + y.exp + k) = (n : ℚ) / ((10 ^ k : ℕ) : ℚ) := by
    rw [Dec.value, exactTimes, hn, zpow_add₀ (by norm_num) (x.exp + y.exp), zpow_natCast]
    have hpow : (10 : ℚ) ^ (x.exp + y.exp) ≠ 0 := by positivity
    push_cast
    field_simp
  rw [roundTo, hunit, hratio, divHalfUp_eq n (by positivity), Dec.value]
  simp only [Dec.times, ← hk]
  rw [Int.sign_eq_one_of_pos hc, one_mul, hn, Int.natAbs_natCast]
  push_cast
  ring

/-- Below a unit of one, halves are multiples of the unit. -/
theorem lastDigit_half {p : ℕ} {x : Dec} (h : lastDigit p x < 1) :
    ∃ half : ℕ, lastDigit p x * (2 * half) = 1 := by
  have hexp : x.exp + excess p x.coeff.natAbs < 0 := by
    by_contra hge
    exact absurd h (not_lt.mpr (one_le_zpow₀ (by norm_num) (not_lt.mp hge)))
  obtain ⟨i, hi⟩ : ∃ i : ℕ, x.exp + excess p x.coeff.natAbs = -((i : ℤ) + 1) :=
    ⟨(-(x.exp + excess p x.coeff.natAbs)).toNat - 1, by omega⟩
  refine ⟨5 * 10 ^ i, ?_⟩
  have hpow : (2 : ℚ) * ((5 * 10 ^ i : ℕ) : ℚ) = 10 ^ ((i : ℤ) + 1) := by
    rw [zpow_add_one₀ (by norm_num), zpow_natCast]
    push_cast
    ring
  rw [lastDigit, hi, hpow, ← zpow_add₀ (by norm_num), neg_add_cancel, zpow_zero]

/-- A number with more digits than are kept is large beside its last digit. -/
theorem lastDigit_le {p : ℕ} (hp : 0 < p) {x : Dec} (hx : 0 < x.coeff)
    (hexcess : 0 < excess p x.coeff.natAbs) : 10 ^ (p - 1) * lastDigit p x ≤ x.value := by
  obtain ⟨n, hn⟩ := Int.eq_ofNat_of_zero_le hx.le
  have hnat : x.coeff.natAbs = n := by rw [hn, Int.natAbs_natCast]
  rw [hnat] at hexcess
  have hpos : 0 < n := by omega
  have hlow : 10 ^ (p - 1 + excess p n) ≤ n := by
    refine pow_le_of_digits hpos ?_
    rw [excess] at hexcess ⊢
    omega
  have hlowq : (10 : ℚ) ^ (p - 1) * 10 ^ excess p n ≤ n := by
    rw [← pow_add]
    exact_mod_cast hlow
  have hexp : (0 : ℚ) < 10 ^ x.exp := by positivity
  rw [lastDigit, hnat, Dec.value, hn, zpow_add₀ (by norm_num), zpow_natCast, Int.cast_natCast]
  calc (10 : ℚ) ^ (p - 1) * (10 ^ x.exp * 10 ^ excess p n)
      = 10 ^ (p - 1) * 10 ^ excess p n * 10 ^ x.exp := by ring
    _ ≤ n * 10 ^ x.exp := mul_le_mul_of_nonneg_right hlowq hexp.le

/-- A number whose digits are all kept is a multiple of its last digit. -/
theorem roundTo_of_no_excess {p : ℕ} {x : Dec} (hexcess : excess p x.coeff.natAbs = 0) :
    roundTo (lastDigit p x) x.value = x.value := by
  have hunit : lastDigit p x = 10 ^ x.exp := by rw [lastDigit, hexcess, Nat.cast_zero, add_zero]
  rw [hunit, Dec.value, mul_comm]
  exact roundTo_mul (by positivity) x.coeff

end Decimals

end Library.DoubleRounding
