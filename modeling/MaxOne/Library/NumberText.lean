import Mathlib.Data.List.TakeWhile
import MaxOne.Library.ScriptValue
import MaxOne.Library.Utf16

/-!
# Texts of whole numbers

How a numeral is read, and how a number without a fraction is printed: with the
fewest digits that read back as the number, and with an exponent from `10 ^ 21` on.
`ofUnits_wholeText` is the round trip.
-/
namespace Library.NumberText
open Library.Binary64 Library.ScriptValue

/-! ## Reading -/

section Read
variable {cs w fs tail : List Char}

def Digits (cs : List Char) : Prop := ∀ c ∈ cs, c.isDigit

theorem Digits.append (hw : Digits w) (hf : Digits fs) : Digits (w ++ fs) := by
  intro c hc
  rcases List.mem_append.mp hc with hc | hc
  · exact hw c hc
  · exact hf c hc

theorem digit_of_isDigit {c : Char} (hc : c.isDigit) :
    digit c = some (c.toNat - '0'.toNat) ∧ c.toNat - '0'.toNat < 10 := by
  rw [digit, if_pos hc]
  refine ⟨rfl, ?_⟩
  have hrange := Char.isDigit_iff_toNat.mp hc
  have hzero : '0'.toNat = 48 := rfl
  have hnine : '9'.toNat = 57 := rfl
  omega

theorem natural_foldl (h : Digits cs) (n : ℕ) :
    cs.foldl (fun acc c => do
      let n ← acc
      let d ← digit c
      if d < 10 then some (n * 10 + d) else none) (some n) = some (Nat.ofDigitChars 10 cs n) := by
  induction cs generalizing n with
  | nil => rfl
  | cons c cs ih =>
      have hc := digit_of_isDigit (h c List.mem_cons_self)
      rw [List.foldl_cons, Nat.ofDigitChars_cons]
      have hstep : (do
          let n ← some n
          let d ← digit c
          if d < 10 then some (n * 10 + d) else none) = some (10 * n + (c.toNat - '0'.toNat)) := by
        simp only [Option.bind_eq_bind, Option.bind_some, hc.1, if_pos hc.2, Nat.mul_comm n 10]
      rw [hstep]
      exact ih (fun d hd => h d (List.mem_cons_of_mem _ hd)) _

theorem natural_digits (h : Digits cs) (hne : cs ≠ []) :
    natural 10 cs = some (Nat.ofDigitChars 10 cs 0) := by
  cases cs with
  | nil => exact absurd rfl hne
  | cons c cs => exact natural_foldl h 0

theorem span_digits (h : Digits w) (htail : ∀ c ∈ tail.head?, ¬ c.isDigit) :
    (w ++ tail).span Char.isDigit = (w, tail) := by
  have hstop : tail.takeWhile Char.isDigit = [] ∧ tail.dropWhile Char.isDigit = tail := by
    cases tail with
    | nil => exact ⟨rfl, rfl⟩
    | cons c tail =>
        have hc : ¬ c.isDigit := htail c rfl
        simp [hc]
  rw [List.span_eq_takeWhile_dropWhile, List.takeWhile_append_of_pos h, List.dropWhile_append_of_pos h,
    hstop.1, hstop.2, List.append_nil]

/-- The digits behind a point, and what follows them. -/
def afterPoint : List Char → List Char × List Char
  | '.' :: rest => rest.span Char.isDigit
  | rest => ([], rest)

theorem decimal_eq (cs : List Char) : decimal cs =
    (natural 10 ((cs.span Char.isDigit).1 ++ (afterPoint (cs.span Char.isDigit).2).1)).bind fun mantissa =>
      (exponent (afterPoint (cs.span Char.isDigit).2).2).bind fun e =>
        some ((mantissa : ℚ) * 10 ^ (e - ((afterPoint (cs.span Char.isDigit).2).1.length : ℤ))) := rfl

/-- Digits with no point behind them. -/
theorem decimal_plain (hw : Digits w) (hne : w ≠ []) (htail : ∀ c ∈ tail.head?, ¬ c.isDigit)
    (hpoint : tail.head? ≠ some '.') : decimal (w ++ tail) =
      (exponent tail).map fun e => (Nat.ofDigitChars 10 w 0 : ℚ) * 10 ^ e := by
  have hrest : afterPoint tail = ([], tail) := by
    unfold afterPoint
    split
    · exact absurd rfl hpoint
    · rfl
  rw [decimal_eq, span_digits hw htail, hrest, List.append_nil, natural_digits hw hne]
  cases exponent tail <;> simp

/-- Digits, a point and digits. -/
theorem decimal_pointed (hw : Digits w) (hne : w ≠ []) (hf : Digits fs)
    (htail : ∀ c ∈ tail.head?, ¬ c.isDigit) : decimal (w ++ '.' :: (fs ++ tail)) =
      (exponent tail).map fun e =>
        (Nat.ofDigitChars 10 (w ++ fs) 0 : ℚ) * 10 ^ (e - (fs.length : ℤ)) := by
  have hstop : ∀ c ∈ ('.' :: (fs ++ tail)).head?, ¬ c.isDigit := by
    intro c hc
    rw [List.head?_cons, Option.mem_some_iff] at hc
    rw [← hc]
    decide
  have hrest : afterPoint ('.' :: (fs ++ tail)) = (fs, tail) := span_digits hf htail
  rw [decimal_eq, span_digits hw hstop, hrest, natural_digits (hw.append hf) (by simp [hne])]
  cases exponent tail <;> simp

theorem decimal_digits (hw : Digits w) (hne : w ≠ []) :
    decimal w = some (Nat.ofDigitChars 10 w 0 : ℚ) := by
  have h := @decimal_plain w [] hw hne (by simp) (by simp)
  rw [List.append_nil] at h
  rw [h]
  simp [exponent]

theorem decimal_fraction (hw : Digits w) (hne : w ≠ []) (hf : Digits fs) : decimal (w ++ '.' :: fs) =
    some ((Nat.ofDigitChars 10 (w ++ fs) 0 : ℚ) * 10 ^ (-(fs.length : ℤ))) := by
  have h := @decimal_pointed w fs [] hw hne hf (by simp)
  rw [List.append_nil] at h
  rw [h]
  simp [exponent]

/-- A text that begins with a digit and holds no letter but `e` is read as a decimal. -/
theorem numeral_eq {c : Char} (hc : c.isDigit)
    (hcs : ∀ d ∈ cs, d.isDigit ∨ d = '.' ∨ d = 'e' ∨ d = '+') :
    numeral (c :: cs) = ((decimal (c :: cs)).map ofRat).getD .nan := by
  have hletter : ∀ d ∈ ['x', 'X', 'o', 'O', 'b', 'B'], d ∉ cs := by
    intro d hd hmem
    rcases hcs d hmem with hdigit | rfl | rfl | rfl
    · revert hd hdigit
      simp only [List.mem_cons, List.not_mem_nil, or_false]
      rintro (rfl | rfl | rfl | rfl | rfl | rfl) <;> decide
    · exact absurd hd (by decide)
    · exact absurd hd (by decide)
    · exact absurd hd (by decide)
  unfold numeral
  split
  · next h => cases h
  · next h => exact absurd (by rw [(List.cons.inj h).2]; exact List.mem_cons_self) (hletter 'x' (by decide))
  · next h => exact absurd (by rw [(List.cons.inj h).2]; exact List.mem_cons_self) (hletter 'X' (by decide))
  · next h => exact absurd (by rw [(List.cons.inj h).2]; exact List.mem_cons_self) (hletter 'o' (by decide))
  · next h => exact absurd (by rw [(List.cons.inj h).2]; exact List.mem_cons_self) (hletter 'O' (by decide))
  · next h => exact absurd (by rw [(List.cons.inj h).2]; exact List.mem_cons_self) (hletter 'b' (by decide))
  · next h => exact absurd (by rw [(List.cons.inj h).2]; exact List.mem_cons_self) (hletter 'B' (by decide))
  · next h =>
      rw [(List.cons.inj h).1] at hc
      exact absurd hc (by decide)
  · next h =>
      rw [(List.cons.inj h).1] at hc
      exact absurd hc (by decide)
  · have hname : c :: cs ≠ "Infinity".toList := by
      intro h
      have hi : c = 'I' := (List.cons.inj h).1
      rw [hi] at hc
      exact absurd hc (by decide)
    rw [if_neg hname]

theorem trim_eq_self (h : ∀ c ∈ cs, isSpace c = false) : trim cs = cs := by
  have hkeep : ∀ l : List Char, (∀ c ∈ l, isSpace c = false) → l.dropWhile isSpace = l := by
    intro l hl
    cases l with
    | nil => rfl
    | cons c l => simp [hl c List.mem_cons_self]
  have hreverse := hkeep cs.reverse fun c hc => h c (List.mem_reverse.mp hc)
  rw [trim, hkeep cs h, hreverse, List.reverse_reverse]

end Read

/-- What a text is read as is a number that rounding keeps. -/
theorem numeral_kept {q : ℚ} (h : numeral cs = .finite q) (hq : 1 ≤ q) : ofRat q = .finite q := by
  have hbase : ∀ {base : ℕ} {ds : List Char},
      ((natural base ds).map ofNat).getD .nan = .finite q → ofRat q = .finite q := by
    intro base ds hread
    cases hn : natural base ds with
    | none =>
        rw [hn] at hread
        cases hread
    | some n =>
        rw [hn] at hread
        exact ofRat_idem hread hq
  have hdecimal : ∀ {ds : List Char} {f : ℚ → ℚ},
      ((decimal ds).map fun d => ofRat (f d)).getD .nan = .finite q → ofRat q = .finite q := by
    intro ds f hread
    cases hd : decimal ds with
    | none =>
        rw [hd] at hread
        cases hread
    | some d =>
        rw [hd] at hread
        exact ofRat_idem hread hq
  unfold numeral at h
  split at h
  · cases h
    norm_num at hq
  · exact hbase h
  · exact hbase h
  · exact hbase h
  · exact hbase h
  · exact hbase h
  · exact hbase h
  · split_ifs at h
    exact hdecimal h
  · split_ifs at h
    exact hdecimal (f := id) h
  · split_ifs at h
    exact hdecimal (f := id) h

/-! ## Printing -/

/-- The multiples of `10 ^ j` around `z`, the closer one first, a tie to the even one. -/
def around (z j : ℕ) : List ℕ :=
  let low := z / 10 ^ j * 10 ^ j
  let high := low + 10 ^ j
  if 2 * (z - low) < 10 ^ j ∨ (2 * (z - low) = 10 ^ j ∧ z / 10 ^ j % 2 = 0) then [low, high]
  else [high, low]

/-- The number with the fewest digits before its final zeros that is read as `z` is. -/
def shortest (z : ℕ) : ℕ :=
  ((List.range (Nat.toDigits 10 z).length).reverse.findSome? fun j =>
    (around z j).find? fun v => ofNat v = ofNat z).getD z

def withExponent (significant : List Char) (e : ℕ) : List Char :=
  match significant with
  | [] => []
  | [d] => d :: 'e' :: '+' :: Nat.toDigits 10 e
  | d :: rest => d :: '.' :: (rest ++ 'e' :: '+' :: Nat.toDigits 10 e)

/-- More than 21 digits are written with an exponent. -/
def digitsText (v : ℕ) : List Char :=
  let ds := Nat.toDigits 10 v
  if ds.length ≤ 21 then ds
  else withExponent (ds.reverse.dropWhile (· = '0')).reverse (ds.length - 1)

/-- `String(z)` of a whole number. -/
def wholeText (z : ℕ) : List Char := digitsText (shortest z)

section Print
variable {z v e : ℕ} {cs significant : List Char}

theorem ofNat_shortest (z : ℕ) : ofNat (shortest z) = ofNat z := by
  unfold shortest
  cases h : (List.range (Nat.toDigits 10 z).length).reverse.findSome? fun j =>
      (around z j).find? fun v => ofNat v = ofNat z with
  | none => rfl
  | some v =>
      obtain ⟨j, -, hj⟩ := List.exists_of_findSome?_eq_some h
      have hv := List.find?_some hj
      rw [Option.getD_some]
      simpa using hv

theorem digits_toDigits (n : ℕ) : Digits (Nat.toDigits 10 n) :=
  fun _ hc => Nat.isDigit_of_mem_toDigits (by decide) (by decide) hc

/-- The characters of a printed number. -/
def Plain (cs : List Char) : Prop := ∀ c ∈ cs, c.isDigit ∨ c = '.' ∨ c = 'e' ∨ c = '+'

theorem Digits.plain (h : Digits cs) : Plain cs := fun c hc => .inl (h c hc)

theorem plain_withExponent (h : Digits significant) (e : ℕ) : Plain (withExponent significant e) := by
  have he : Plain ('e' :: '+' :: Nat.toDigits 10 e) := by
    intro c hc
    rcases List.mem_cons.mp hc with rfl | hc
    · simp
    · rcases List.mem_cons.mp hc with rfl | hc
      · simp
      · exact .inl (digits_toDigits e c hc)
  cases significant with
  | nil =>
      intro c hc
      cases hc
  | cons d rest =>
      have hd : d.isDigit := h d List.mem_cons_self
      cases rest with
      | nil =>
          intro c hc
          rcases List.mem_cons.mp hc with rfl | hc
          · exact .inl hd
          · exact he c hc
      | cons r rest =>
          intro c hc
          rcases List.mem_cons.mp hc with rfl | hc
          · exact .inl hd
          · rcases List.mem_cons.mp hc with rfl | hc
            · simp
            · rcases List.mem_append.mp hc with hc | hc
              · exact .inl (h c (List.mem_cons_of_mem _ hc))
              · exact he c hc

theorem exponent_digits (e : ℕ) : exponent ('e' :: '+' :: Nat.toDigits 10 e) = some (e : ℤ) := by
  have hn := natural_digits (digits_toDigits e) Nat.toDigits_ne_nil
  rw [Nat.ofDigitChars_ten_toDigits] at hn
  simp only [exponent, signed, hn]
  rfl

/-- Significant digits with an exponent stand for the digits with their zeros. -/
theorem decimal_withExponent (h : Digits significant) (hne : significant ≠ []) (k : ℕ) :
    decimal (withExponent significant (significant.length - 1 + k)) =
      some (Nat.ofDigitChars 10 (significant ++ List.replicate k '0') 0 : ℚ) := by
  have hzeros : (Nat.ofDigitChars 10 (significant ++ List.replicate k '0') 0 : ℚ) =
      Nat.ofDigitChars 10 significant 0 * 10 ^ (k : ℤ) := by
    rw [Nat.ofDigitChars_append, Nat.ofDigitChars_replicate_zero]
    push_cast
    rw [zpow_natCast]
    ring
  have hletter : ∀ c ∈ ('e' :: '+' :: Nat.toDigits 10 (significant.length - 1 + k)).head?, ¬ c.isDigit := by
    intro c hc
    rw [List.head?_cons, Option.mem_some_iff] at hc
    rw [← hc]
    decide
  cases significant with
  | nil => exact absurd rfl hne
  | cons d rest =>
      have hd : Digits [d] := by
        intro c hc
        rw [List.mem_singleton.mp hc]
        exact h d List.mem_cons_self
      cases rest with
      | nil =>
          have hplain := decimal_plain hd (by simp) hletter (by simp)
          rw [exponent_digits, Option.map_some] at hplain
          rw [hzeros]
          simpa [withExponent] using hplain
      | cons r rest =>
          have hf : Digits (r :: rest) := fun c hc => h c (List.mem_cons_of_mem _ hc)
          have hpointed := decimal_pointed hd (by simp) hf hletter
          rw [exponent_digits, Option.map_some] at hpointed
          rw [hzeros]
          simpa [withExponent] using hpointed

/-- Digits come apart into the significant ones and zeros. -/
theorem significant_append (ds : List Char) : ∃ k,
    (ds.reverse.dropWhile (· = '0')).reverse ++ List.replicate k '0' = ds := by
  refine ⟨(ds.reverse.takeWhile (· = '0')).length, ?_⟩
  have hzeros : List.replicate (ds.reverse.takeWhile (· = '0')).length '0' =
      (ds.reverse.takeWhile (· = '0')).reverse := by
    refine (List.eq_replicate_iff.mpr ⟨List.length_reverse, ?_⟩).symm
    intro c hc
    simpa using (List.mem_takeWhile_imp (List.mem_reverse.mp hc))
  rw [hzeros, ← List.reverse_append, List.takeWhile_append_dropWhile, List.reverse_reverse]

theorem numeral_plain (h : Plain cs) (hhead : ∃ c ∈ cs.head?, c.isDigit) :
    numeral cs = ((decimal cs).map ofRat).getD .nan := by
  cases cs with
  | nil =>
      obtain ⟨c, hc, -⟩ := hhead
      cases hc
  | cons c cs =>
      obtain ⟨d, hd, hdigit⟩ := hhead
      rw [List.head?_cons, Option.mem_some_iff] at hd
      subst hd
      exact numeral_eq hdigit fun e he => h e (List.mem_cons_of_mem _ he)

theorem numeral_digits (h : Digits cs) (hne : cs ≠ []) :
    numeral cs = ofNat (Nat.ofDigitChars 10 cs 0) := by
  cases cs with
  | nil => exact absurd rfl hne
  | cons c cs =>
      rw [numeral_plain h.plain ⟨c, rfl, h c List.mem_cons_self⟩, decimal_digits h hne]
      rfl

theorem head_withExponent {d : Char} {rest : List Char} (e : ℕ) :
    (withExponent (d :: rest) e).head? = some d := by
  cases rest <;> rfl

theorem numeral_digitsText (v : ℕ) : numeral (digitsText v) = ofNat v := by
  have hds := digits_toDigits v
  have hvalue : Nat.ofDigitChars 10 (Nat.toDigits 10 v) 0 = v := Nat.ofDigitChars_ten_toDigits
  rw [digitsText]
  split_ifs with hshort
  · rw [numeral_digits hds Nat.toDigits_ne_nil, hvalue]
  · obtain ⟨k, hk⟩ := significant_append (Nat.toDigits 10 v)
    set significant := ((Nat.toDigits 10 v).reverse.dropWhile (· = '0')).reverse with hsig
    have hdigits : Digits significant := by
      intro c hc
      apply hds
      rw [← hk]
      exact List.mem_append_left _ hc
    have hne : significant ≠ [] := by
      intro hnil
      rw [hnil, List.nil_append] at hk
      rw [← hk, Nat.ofDigitChars_replicate_zero, Nat.mul_zero] at hvalue
      rw [← hvalue] at hshort
      exact hshort (by decide)
    have hlength : (Nat.toDigits 10 v).length - 1 = significant.length - 1 + k := by
      have hpos : 0 < significant.length := List.length_pos_iff.mpr hne
      rw [← hk, List.length_append, List.length_replicate]
      omega
    have hdecimal := decimal_withExponent hdigits hne k
    rw [hk, hvalue] at hdecimal
    have hhead : ∃ c ∈ (withExponent significant (significant.length - 1 + k)).head?, c.isDigit := by
      cases hs : significant with
      | nil => exact absurd hs hne
      | cons d rest =>
          refine ⟨d, head_withExponent _, hdigits d ?_⟩
          rw [hs]
          exact List.mem_cons_self
    rw [hlength, numeral_plain (plain_withExponent hdigits _) hhead, hdecimal]
    rfl

theorem plain_digitsText (v : ℕ) : Plain (digitsText v) := by
  rw [digitsText]
  split_ifs
  · exact (digits_toDigits v).plain
  · apply plain_withExponent
    intro c hc
    apply digits_toDigits v
    exact List.mem_reverse.mp (List.dropWhile_subset _ (List.mem_reverse.mp hc))

end Print

/-! ## Code units -/

/-- A text of characters that are no pairs. -/
def ofChars (cs : List Char) : Utf16.Text := cs.map fun c => c.toNat.toUInt16

/-- `Number(s)` of a text of code units. -/
def ofUnits (s : Utf16.Text) : Number := numeral (trim (Utf16.chars s))

/-- `String(n)` of a number without a fraction. -/
def text : Number → Utf16.Text
  | .finite q => ofChars (if q < 0 then '-' :: wholeText q.num.natAbs else wholeText q.num.natAbs)
  | .infinity negative => ofChars (if negative then "-Infinity".toList else "Infinity".toList)
  | .nan => ofChars "NaN".toList

section Units
variable {cs : List Char}

theorem chars_ofChars (h : ∀ c ∈ cs, c.toNat < 0xD800) : Utf16.chars (ofChars cs) = cs := by
  have hchar : ∀ c ∈ cs, Char.ofNat c.toNat.toUInt16.toNat = c := by
    intro c hc
    have hlt := h c hc
    have hsize : UInt16.size = 65536 := rfl
    rw [Nat.toUInt16_eq, UInt16.toNat_ofNat_of_lt' (by omega), Char.ofNat_toNat]
  rw [Utf16.chars, ofChars, List.map_map]
  exact (List.map_congr_left hchar).trans (List.map_id' cs)

theorem Plain.lt (h : Plain cs) : ∀ c ∈ cs, c.toNat < 0xD800 := by
  intro c hc
  rcases h c hc with hdigit | rfl | rfl | rfl
  · have hrange := Char.isDigit_iff_toNat.mp hdigit
    have hnine : '9'.toNat = 57 := rfl
    omega
  all_goals decide

theorem isSpace_of_isDigit {c : Char} (hc : c.isDigit) : isSpace c = false := by
  have hrange := Char.isDigit_iff_toNat.mp hc
  have hzero : '0'.toNat = 48 := rfl
  have hnine : '9'.toNat = 57 := rfl
  rw [hzero, hnine] at hrange
  rw [← Char.ofNat_toNat c]
  generalize c.toNat = n at hrange
  obtain ⟨hlow, hhigh⟩ := hrange
  interval_cases n <;> decide

theorem Plain.not_space (h : Plain cs) : ∀ c ∈ cs, isSpace c = false := by
  intro c hc
  rcases h c hc with hdigit | rfl | rfl | rfl
  · exact isSpace_of_isDigit hdigit
  all_goals decide

theorem ofUnits_plain (h : Plain cs) : ofUnits (ofChars cs) = numeral cs := by
  rw [ofUnits, chars_ofChars h.lt, trim_eq_self h.not_space]

/-- What is printed is read back. -/
theorem ofUnits_wholeText (z : ℕ) : ofUnits (ofChars (wholeText z)) = ofNat z := by
  rw [wholeText, ofUnits_plain (plain_digitsText _), numeral_digitsText, ofNat_shortest]

theorem wellFormed_ofChars (h : ∀ c ∈ cs, c.toNat < 0xD800) : Utf16.WellFormed (ofChars cs) := by
  apply Utf16.wellFormed_of_units
  intro u hu
  obtain ⟨c, hc, rfl⟩ := List.mem_map.mp hu
  have hlt := h c hc
  have hunit : c.toNat.toUInt16.toNat = c.toNat := by
    rw [Nat.toUInt16_eq, UInt16.toNat_ofNat_of_lt' (by have : UInt16.size = 65536 := rfl; omega)]
  have hfar : ¬(0xD800 : UInt16) ≤ c.toNat.toUInt16 ∧ ¬(0xDC00 : UInt16) ≤ c.toNat.toUInt16 := by
    rw [UInt16.le_iff_toNat_le, UInt16.le_iff_toNat_le, hunit]
    exact ⟨by simp; omega, by simp; omega⟩
  simp [Utf16.isHigh, Utf16.isLow, hfar.1, hfar.2]

/-- Whole numbers that are kept, and infinity. -/
inductive Whole : Number → Prop where
  | finite (z : ℕ) (h : ofNat z = .finite z) : Whole (.finite z)
  | infinity : Whole (.infinity false)

theorem text_natCast (z : ℕ) : text (.finite z) = ofChars (wholeText z) := by
  have hnonneg : ¬(z : ℚ) < 0 := not_lt.mpr (Nat.cast_nonneg z)
  rw [text, if_neg hnonneg, Rat.num_natCast, Int.natAbs_natCast]

theorem ofUnits_text {n : Number} (h : Whole n) : ofUnits (text n) = n := by
  cases h with
  | finite z h => rw [text_natCast, ofUnits_wholeText, h]
  | infinity => rfl

theorem wellFormed_text {n : Number} (h : Whole n) : Utf16.WellFormed (text n) := by
  cases h with
  | finite z h =>
      rw [text_natCast]
      exact wellFormed_ofChars (plain_digitsText _).lt
  | infinity =>
      have hall : ("Infinity".toList.all fun c => decide (c.toNat < 0xD800)) = true := by decide
      apply wellFormed_ofChars
      intro c hc
      exact of_decide_eq_true (List.all_eq_true.mp hall c hc)

/-- The whole part of what a text is read as. -/
theorem whole_floor {s : Utf16.Text} {q : ℚ} (h : ofUnits s = .finite q) (hq : 1 ≤ q) :
    Whole (.finite ⌊q⌋) := by
  have hkept := ofRat_floor (numeral_kept h hq) hq
  obtain ⟨z, hz⟩ := Int.eq_ofNat_of_zero_le (Int.floor_nonneg.mpr (by linarith) : 0 ≤ ⌊q⌋)
  rw [hz] at hkept ⊢
  exact Whole.finite z hkept

end Units

end Library.NumberText
