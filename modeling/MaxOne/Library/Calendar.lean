import Mathlib.Data.Prod.Lex
import Mathlib.Tactic

/-!
# Dates and instants

The Gregorian calendar, and instants in milliseconds since the first day of 1970. The
number of a day grows with its date by one for each day, so the instants between the
midnight of one date and the end of another are those of the days between the dates.
-/
namespace Library.Calendar

def isLeap (year : ℕ) : Bool := year % 4 = 0 ∧ (year % 100 ≠ 0 ∨ year % 400 = 0)

def daysInMonth (leap : Bool) : ℕ → ℕ
  | 0 => 0
  | 2 => if leap then 29 else 28
  | 4 | 6 | 9 | 11 => 30
  | _ => 31

/-- The days of a year before a month. -/
def daysBefore (leap : Bool) : ℕ → ℕ
  | 0 => 0
  | month + 1 => daysBefore leap month + daysInMonth leap month

def daysInYear (year : ℕ) : ℕ := if isLeap year then 366 else 365

/-- The number of the first day of a year. -/
def dayFromYear (year : ℕ) : ℤ :=
  365 * ((year : ℤ) - 1970) + ((year : ℤ) - 1969) / 4 - ((year : ℤ) - 1901) / 100 +
    ((year : ℤ) - 1601) / 400

@[ext] structure Date where
  year : ℕ
  month : ℕ
  day : ℕ
  month_pos : 1 ≤ month
  month_le : month ≤ 12
  day_pos : 1 ≤ day
  day_le : day ≤ daysInMonth (isLeap year) month

namespace Date

def key (d : Date) : ℕ ×ₗ ℕ ×ₗ ℕ := toLex (d.year, toLex (d.month, d.day))

theorem key_injective : Function.Injective key := by
  intro a b h
  simp only [key, EmbeddingLike.apply_eq_iff_eq, Prod.mk.injEq] at h
  exact Date.ext h.1 h.2.1 h.2.2

instance : LinearOrder Date := LinearOrder.lift' key key_injective

def dayNumber (d : Date) : ℤ := dayFromYear d.year + daysBefore (isLeap d.year) d.month + d.day - 1

end Date

section DayNumber
variable {a b d : Date}

theorem dayFromYear_succ (year : ℕ) : dayFromYear (year + 1) = dayFromYear year + daysInYear year := by
  unfold dayFromYear daysInYear
  by_cases hleap : isLeap year = true
  · rw [if_pos hleap]
    simp only [isLeap, decide_eq_true_eq] at hleap
    omega
  · rw [if_neg hleap]
    simp only [isLeap, decide_eq_true_eq] at hleap
    omega

theorem dayFromYear_strictMono : StrictMono dayFromYear := by
  apply strictMono_nat_of_lt_succ
  intro year
  rw [dayFromYear_succ, daysInYear]
  split_ifs <;> omega

theorem daysBefore_mono (leap : Bool) : Monotone (daysBefore leap) := by
  apply monotone_nat_of_le_succ
  intro month
  rw [daysBefore]
  exact Nat.le_add_right ..

theorem daysBefore_year (year : ℕ) : daysBefore (isLeap year) 13 = daysInYear year := by
  unfold daysInYear
  cases isLeap year <;> rfl

theorem daysBefore_month (d : Date) :
    daysBefore (isLeap d.year) d.month + d.day ≤ daysBefore (isLeap d.year) (d.month + 1) := by
  rw [daysBefore]
  exact Nat.add_le_add_left d.day_le _

theorem dayNumber_lt_year (d : Date) : d.dayNumber < dayFromYear (d.year + 1) := by
  have hmonth := daysBefore_month d
  have hyear : daysBefore (isLeap d.year) (d.month + 1) ≤ daysBefore (isLeap d.year) 13 :=
    daysBefore_mono _ (Nat.succ_le_succ d.month_le)
  have hend := daysBefore_year d.year
  rw [Date.dayNumber, dayFromYear_succ]
  omega

theorem lt_iff : a < b ↔ a.year < b.year ∨
    a.year = b.year ∧ (a.month < b.month ∨ a.month = b.month ∧ a.day < b.day) := by
  have hlift : a < b ↔ a.key < b.key := Iff.rfl
  rw [hlift, Date.key, Date.key, Prod.Lex.toLex_lt_toLex, Prod.Lex.toLex_lt_toLex]

theorem dayNumber_strictMono : StrictMono Date.dayNumber := by
  intro a b h
  rcases lt_iff.mp h with hyear | ⟨hyear, hmonth | ⟨hmonth, hday⟩⟩
  · have hend := dayNumber_lt_year a
    have hstart : dayFromYear b.year ≤ b.dayNumber := by
      have hpos := b.day_pos
      rw [Date.dayNumber]
      omega
    have hle := dayFromYear_strictMono.monotone (Nat.succ_le_of_lt hyear)
    exact hend.trans_le (hle.trans hstart)
  · have hend := daysBefore_month a
    have hle := daysBefore_mono (isLeap a.year) (Nat.succ_le_of_lt hmonth)
    have hpos := b.day_pos
    rw [Date.dayNumber, Date.dayNumber, ← hyear]
    rw [Nat.succ_eq_add_one] at hle
    omega
  · rw [Date.dayNumber, Date.dayNumber, ← hyear, ← hmonth]
    omega

theorem dayNumber_le_iff : a.dayNumber ≤ b.dayNumber ↔ a ≤ b := dayNumber_strictMono.le_iff_le

/-- Every date has a next one. -/
theorem exists_next (d : Date) : ∃ e : Date, e.dayNumber = d.dayNumber + 1 := by
  rcases Nat.lt_or_ge d.day (daysInMonth (isLeap d.year) d.month) with hday | hday
  · refine ⟨⟨d.year, d.month, d.day + 1, d.month_pos, d.month_le, by omega, hday⟩, ?_⟩
    simp only [Date.dayNumber]
    omega
  · have hlast : d.day = daysInMonth (isLeap d.year) d.month := le_antisymm d.day_le hday
    rcases Nat.lt_or_ge d.month 12 with hmonth | hmonth
    · have hfirst : 1 ≤ daysInMonth (isLeap d.year) (d.month + 1) := by
        generalize isLeap d.year = leap
        have hm := d.month_pos
        generalize d.month = month at hm hmonth
        interval_cases month <;> cases leap <;> decide
      refine ⟨⟨d.year, d.month + 1, 1, by omega, by omega, le_refl 1, hfirst⟩, ?_⟩
      simp only [Date.dayNumber, daysBefore]
      omega
    · have hdecember : d.month = 12 := le_antisymm d.month_le hmonth
      have hend := daysBefore_year d.year
      refine ⟨⟨d.year + 1, 1, 1, le_refl 1, by omega, le_refl 1, by simp [daysInMonth]⟩, ?_⟩
      rw [daysBefore, ← hdecember, ← hlast] at hend
      simp only [Date.dayNumber, dayFromYear_succ]
      simp only [daysBefore, daysInMonth]
      omega

theorem exists_dayNumber (d : Date) {n : ℤ} (h : d.dayNumber ≤ n) : ∃ e : Date, e.dayNumber = n := by
  obtain ⟨i, rfl⟩ := Int.le.dest h
  clear h
  induction i with
  | zero => exact ⟨d, by simp⟩
  | succ i ih =>
      obtain ⟨e, he⟩ := ih
      obtain ⟨f, hf⟩ := exists_next e
      refine ⟨f, ?_⟩
      rw [hf, he]
      push_cast
      ring

end DayNumber

/-! ## Instants -/

def msPerDay : ℤ := 86400000

/-- The first instant of a date. -/
def midnight (d : Date) : ℤ := d.dayNumber * msPerDay

def OnDay (d : Date) (t : ℤ) : Prop := midnight d ≤ t ∧ t < midnight d + msPerDay

/-- On one of the days from `a` to `b`. -/
def Between (a b : Date) (t : ℤ) : Prop := ∃ d, a ≤ d ∧ d ≤ b ∧ OnDay d t

theorem between_iff {a b : Date} {t : ℤ} : Between a b t ↔ midnight a ≤ t ∧ t < midnight b + msPerDay := by
  unfold Between OnDay midnight msPerDay
  constructor
  · rintro ⟨d, ha, hb, hlow, hhigh⟩
    have hfrom := dayNumber_le_iff.mpr ha
    have hto := dayNumber_le_iff.mpr hb
    omega
  · rintro ⟨hlow, hhigh⟩
    obtain ⟨d, hd⟩ := exists_dayNumber a (by omega : a.dayNumber ≤ t / 86400000)
    refine ⟨d, dayNumber_le_iff.mp (by omega), dayNumber_le_iff.mp (by omega), by omega, by omega⟩

end Library.Calendar
