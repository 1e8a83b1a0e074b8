import MaxOne.Ledger
import MaxOne.Library.NumberText
import MaxOne.SanitizeNumber

/-!
# Amounts from the field to the wallet

What `sanitizeAmount` leaves in the field is checked by `amountSchema` and turned into
cents by `parseAmountToMinor`; the cents pass `MoneyAmountDto` and are deposited. The
conversion is exact and agrees with the schema on every text the field can hold.

The field takes nine digits before the point, the columns of the ledger 32 bits: a
deposit into an empty wallet commits up to 21474836.47.
-/
namespace MaxOne.MoneyAmounts
open Library Library.Binary64 Library.ScriptValue Library.Utf16 Library.NumberText
  Library.LockedBlocks MaxOne.SanitizeNumber MaxOne.Schema MaxOne.WalletsService
  MaxOne.WalletsMachine MaxOne.Ledger

/-- `/^\d+(\.\d{1,2})?$/`. -/
def isAmount (s : Text) : Bool :=
  let whole := s.takeWhile SanitizeNumber.isDigit
  !whole.isEmpty &&
    match s.dropWhile SanitizeNumber.isDigit with
    | [] => true
    | u :: frac => u = point && frac.all SanitizeNumber.isDigit && 1 ≤ frac.length && frac.length ≤ 2

/-- `amountSchema` on its `amount`. -/
def amountSchema (s : Text) : Bool := isAmount s && (Number.finite 0).lt (ofUnits s)

def padEnd (s : Text) (n : ℕ) : Text := s ++ List.replicate (n - s.length) zero

def parseAmountToMinor (input : Text) : Number :=
  let trimmed := Utf16.trim input
  if !isAmount trimmed then .nan
  else
    let parts := trimmed.splitOn point
    let whole := parts.headD []
    let frac := parts[1]?.getD []
    let cents := padEnd frac 2
    let minor := ((ofUnits whole).mul (.finite 100)).add (ofUnits cents)
    if (Number.finite 0).lt minor then minor else .nan

/-- The number a decimal text stands for. -/
def decimalValue (s : Text) : ℚ := (decimal (chars s)).getD 0

section Digits
variable {w fs s : Text} {u : UInt16}

def DigitUnits (w : Text) : Prop := ∀ u ∈ w, SanitizeNumber.isDigit u

/-- The value of a text of digits. -/
def digitsValue (w : Text) : ℕ := Nat.ofDigitChars 10 (chars w) 0

theorem char_isDigit (hu : SanitizeNumber.isDigit u) : (Char.ofNat u.toNat).isDigit := by
  obtain ⟨hlow, hhigh⟩ := isDigit_iff.mp hu
  generalize u.toNat = n at hlow hhigh
  interval_cases n <;> rfl

theorem chars_digits (h : DigitUnits w) : Digits (chars w) := by
  intro c hc
  obtain ⟨u, hu, rfl⟩ := List.mem_map.mp hc
  exact char_isDigit (h u hu)

theorem digits_not_space (h : Plain (chars w)) : ScriptValue.trim (chars w) = chars w :=
  trim_eq_self h.not_space

theorem chars_ne_nil (h : w ≠ []) : chars w ≠ [] := by
  intro hnil
  exact h (List.map_eq_nil_iff.mp hnil)

theorem ofUnits_digits (h : DigitUnits w) (hne : w ≠ []) : ofUnits w = ofNat (digitsValue w) := by
  have hd := chars_digits h
  rw [ofUnits, digits_not_space hd.plain, numeral_digits hd (chars_ne_nil hne), digitsValue]

theorem digitsValue_append (w fs : Text) :
    digitsValue (w ++ fs) = digitsValue w * 10 ^ fs.length + digitsValue fs := by
  have hchars : chars (w ++ fs) = chars w ++ chars fs := List.map_append
  rw [digitsValue, hchars, Nat.ofDigitChars_append, Nat.ofDigitChars_eq_ofDigitChars_zero, chars,
    List.length_map, Nat.mul_comm]
  rfl

theorem digitsValue_lt (h : DigitUnits w) : digitsValue w < 10 ^ w.length := by
  induction w using List.reverseRecOn with
  | nil => decide
  | append_singleton w u ih =>
      have hw := ih fun v hv => h v (List.mem_append_left _ hv)
      have hu : digitsValue [u] < 10 := by
        obtain ⟨hlow, hhigh⟩ := isDigit_iff.mp (h u (List.mem_append_right _ (List.mem_singleton_self u)))
        have hvalue : digitsValue [u] = (Char.ofNat u.toNat).toNat - 48 := by
          simp [digitsValue, chars, Nat.ofDigitChars_cons]
        rw [hvalue]
        generalize u.toNat = n at hlow hhigh
        interval_cases n <;> decide
      rw [digitsValue_append, List.length_append, List.length_singleton, pow_one, pow_succ]
      omega

theorem digitsValue_zeros (n : ℕ) : digitsValue (List.replicate n zero) = 0 := by
  have hchars : chars (List.replicate n zero) = List.replicate n '0' := by
    rw [chars, List.map_replicate]
    rfl
  rw [digitsValue, hchars, Nat.ofDigitChars_replicate_zero, Nat.mul_zero]

theorem digitUnits_padEnd (h : DigitUnits fs) (n : ℕ) : DigitUnits (padEnd fs n) := by
  intro u hu
  rcases List.mem_append.mp hu with hu | hu
  · exact h u hu
  · rw [(List.mem_replicate.mp hu).2]
    decide

theorem digitsValue_padEnd (fs : Text) (n : ℕ) :
    digitsValue (padEnd fs n) = digitsValue fs * 10 ^ (n - fs.length) := by
  rw [padEnd, digitsValue_append, digitsValue_zeros, List.length_replicate, Nat.add_zero]

/-! ### The value of a text in the field -/

theorem decimalValue_whole (h : DigitUnits w) (hne : w ≠ []) : decimalValue w = digitsValue w := by
  rw [decimalValue, decimal_digits (chars_digits h) (chars_ne_nil hne)]
  rfl

theorem chars_fraction (w fs : Text) : chars (w ++ point :: fs) = chars w ++ '.' :: chars fs := by
  rw [chars, List.map_append, List.map_cons]
  rfl

theorem decimalValue_fraction (h : DigitUnits w) (hne : w ≠ []) (hfs : DigitUnits fs) :
    decimalValue (w ++ point :: fs) * 10 ^ fs.length = digitsValue (w ++ fs) := by
  have hdecimal := decimal_fraction (chars_digits h) (chars_ne_nil hne) (chars_digits hfs)
  have hchars : chars (w ++ fs) = chars w ++ chars fs := List.map_append
  have hlength : (chars fs).length = fs.length := List.length_map _
  rw [decimalValue, chars_fraction, hdecimal, Option.getD_some, hlength, digitsValue, hchars,
    zpow_neg, zpow_natCast, inv_mul_cancel_right₀ (by positivity)]

end Digits

/-! ## Cents -/

section Cents
variable {w fs s raw : Text} {q : ℚ} {n : ℕ}

/-- A whole part of nine digits at most and two decimals at most. -/
structure Parts (w fs : Text) : Prop where
  whole : DigitUnits w
  nonempty : w ≠ []
  whole_le : w.length ≤ 9
  frac : DigitUnits fs
  frac_le : fs.length ≤ 2

/-- The cents of the two parts. -/
def minorOf (w fs : Text) : ℕ := digitsValue w * 100 + digitsValue (padEnd fs 2)

theorem Parts.minorOf_lt (h : Parts w fs) : minorOf w fs < 10 ^ 11 := by
  have hw := digitsValue_lt h.whole
  have hc := digitsValue_lt (digitUnits_padEnd h.frac 2)
  have hlen : (padEnd fs 2).length = 2 := by
    have hle := h.frac_le
    rw [padEnd, List.length_append, List.length_replicate]
    omega
  have hpow : 10 ^ w.length ≤ 10 ^ 9 := Nat.pow_le_pow_right (by norm_num) h.whole_le
  rw [hlen] at hc
  rw [minorOf]
  omega

/-- Whole part and cents come together without rounding. -/
theorem Parts.minor_eq (h : Parts w fs) :
    ((ofUnits w).mul (.finite 100)).add (ofUnits (padEnd fs 2)) = .finite (minorOf w fs) := by
  have hlt := h.minorOf_lt
  have hsmall : minorOf w fs ≤ 2 ^ 53 := by omega
  have hpad : padEnd fs 2 ≠ [] := by
    intro hnil
    have hlen := congrArg List.length hnil
    rw [padEnd, List.length_append, List.length_replicate, List.length_nil] at hlen
    omega
  have hsum : minorOf w fs = digitsValue w * 100 + digitsValue (padEnd fs 2) := rfl
  have hw : ofUnits w = .finite (digitsValue w) := by
    rw [ofUnits_digits h.whole h.nonempty, ofNat_eq_finite (by omega)]
  have hc : ofUnits (padEnd fs 2) = .finite (digitsValue (padEnd fs 2)) := by
    rw [ofUnits_digits (digitUnits_padEnd h.frac 2) hpad, ofNat_eq_finite (by omega)]
  have hmul : (Number.finite (digitsValue w)).mul (.finite 100) = .finite ((digitsValue w * 100 : ℕ) : ℚ) := by
    have hexact := ofNat_eq_finite (k := digitsValue w * 100) (by omega)
    rw [← hexact, ofNat, Number.mul]
    push_cast
    rfl
  have hadd : (Number.finite ((digitsValue w * 100 : ℕ) : ℚ)).add (.finite (digitsValue (padEnd fs 2))) =
      .finite (minorOf w fs) := by
    have hexact := ofNat_eq_finite hsmall
    rw [← hexact, ofNat, Number.add, hsum]
    push_cast
    rfl
  rw [hw, hc, hmul, hadd]

theorem not_space_of_decimalUnit {u : UInt16} (h : isDecimalUnit u) : Utf16.isSpace u = false := by
  rw [isDecimalUnit, Bool.or_eq_true, decide_eq_true_eq] at h
  rcases h with hd | rfl
  · obtain ⟨hlow, hhigh⟩ := isDigit_iff.mp hd
    rw [← @UInt16.ofNat_toNat u]
    generalize u.toNat = n at hlow hhigh
    interval_cases n <;> decide
  · decide

theorem trim_decimal (h : ∀ u ∈ s, isDecimalUnit u) : Utf16.trim s = s :=
  Utf16.trim_eq_self fun u hu => not_space_of_decimalUnit (h u hu)

theorem takeWhile_digits (hw : DigitUnits w) (fs : Text) :
    (w ++ point :: fs).takeWhile SanitizeNumber.isDigit = w ∧
      (w ++ point :: fs).dropWhile SanitizeNumber.isDigit = point :: fs := by
  have hpoint : ¬ SanitizeNumber.isDigit point := not_isDigit_point
  constructor
  · rw [List.takeWhile_append_of_pos hw, List.takeWhile_cons_of_neg hpoint, List.append_nil]
  · rw [List.dropWhile_append_of_pos hw, List.dropWhile_cons_of_neg hpoint]

theorem isAmount_whole (hw : DigitUnits w) (hne : w ≠ []) : isAmount w := by
  have hall : ∀ u ∈ w, SanitizeNumber.isDigit u := hw
  rw [isAmount, List.takeWhile_eq_self_iff.mpr hall, List.dropWhile_eq_nil_iff.mpr hall]
  simp [hne]

theorem isAmount_fraction (hw : DigitUnits w) (hne : w ≠ []) (hfs : DigitUnits fs) :
    isAmount (w ++ point :: fs) = (1 ≤ fs.length && fs.length ≤ 2) := by
  have hall : fs.all SanitizeNumber.isDigit = true := List.all_eq_true.mpr hfs
  rw [isAmount, (takeWhile_digits hw fs).1, (takeWhile_digits hw fs).2]
  simp [hne, hall]

/-- A number of whole cents is above zero after rounding if it was before. -/
theorem lt_ofRat (h : 100 * q = n) : (Number.finite 0).lt (ofRat q) = decide (0 < n) := by
  rcases Nat.eq_zero_or_pos n with rfl | hpos
  · have hq : q = ((0 : ℕ) : ℚ) := by
      push_cast at h ⊢
      linarith
    have hzero : ofRat q = .finite 0 := by
      rw [hq]
      exact ofNat_eq_finite (by norm_num)
    rw [hzero]
    decide
  · have hone : (1 : ℚ) ≤ n := by exact_mod_cast hpos
    have hlow : (2 : ℚ) ^ (-7 : ℤ) ≤ q := by
      norm_num
      linarith
    have hnear := zpow_le_nearest (by norm_num) hlow
    have hgt : 0 < nearest q := lt_of_lt_of_le (by positivity) hnear
    rw [decide_eq_true hpos, ofRat]
    split_ifs
    · simp [Number.lt, Number.le, hgt.le]
    · simp [Number.lt, Number.le, hgt, hgt.le]

/-- What the field can hold: nothing, a whole part, or one with a point behind it. -/
inductive FieldText : Text → Prop
  | empty : FieldText []
  | whole {w : Text} : Parts w [] → FieldText w
  | fraction {w fs : Text} : Parts w fs → FieldText (w ++ point :: fs)

theorem parts_of_wholePart (hw : WholePart 9 w) (hfs : DigitUnits fs) (hlen : fs.length ≤ 2) :
    Parts w fs where
  whole := hw.isDigit
  nonempty := hw.ne_nil
  whole_le := by
    cases hw with
    | zero => decide
    | digits _ _ _ hds =>
        rw [List.length_cons]
        omega
  frac := hfs
  frac_le := hlen

theorem fieldText_sanitizeAmount (raw : Text) : FieldText (sanitizeAmount raw) := by
  have htyped := @sanitizeDecimal_typed amountLimits (by decide) raw
  rw [← sanitizeAmount] at htyped
  rcases htyped with hnil | hdecimal
  · rw [hnil]
    exact .empty
  · generalize sanitizeAmount raw = s at hdecimal
    cases hdecimal with
    | whole hw => exact .whole (parts_of_wholePart hw (fun _ hu => nomatch hu) (by simp))
    | fraction hw _ hfs hlen => exact .fraction (parts_of_wholePart hw hfs hlen)

theorem Parts.units (h : Parts w fs) : ∀ u ∈ w ++ point :: fs, isDecimalUnit u := by
  have hdigit : ∀ {u : UInt16}, SanitizeNumber.isDigit u → isDecimalUnit u := by
    intro u hu
    rw [isDecimalUnit, hu, Bool.true_or]
  intro u hu
  rcases List.mem_append.mp hu with hu | hu
  · exact hdigit (h.whole u hu)
  · rcases List.mem_cons.mp hu with rfl | hu
    · decide
    · exact hdigit (h.frac u hu)

/-- The cents are a hundred times the value of the text. -/
theorem Parts.value_eq (h : Parts w fs) : 100 * decimalValue (w ++ point :: fs) = minorOf w fs := by
  have hvalue := decimalValue_fraction h.whole h.nonempty h.frac
  rw [digitsValue_append] at hvalue
  have hpow : (10 : ℚ) ^ fs.length * 10 ^ (2 - fs.length) = 100 := by
    have hle := h.frac_le
    rw [← pow_add, Nat.add_sub_cancel' hle]
    norm_num
  have hne : (10 : ℚ) ^ fs.length ≠ 0 := by positivity
  rw [minorOf, digitsValue_padEnd]
  push_cast at hvalue ⊢
  calc 100 * decimalValue (w ++ point :: fs)
      = decimalValue (w ++ point :: fs) * 10 ^ fs.length * 10 ^ (2 - fs.length) := by
        rw [mul_assoc, hpow, mul_comm]
    _ = digitsValue w * (10 ^ fs.length * 10 ^ (2 - fs.length)) +
          digitsValue fs * 10 ^ (2 - fs.length) := by
        rw [hvalue]
        ring
    _ = digitsValue w * 100 + digitsValue fs * 10 ^ (2 - fs.length) := by rw [hpow]

theorem minorOf_nil (w : Text) : minorOf w [] = digitsValue w * 100 := by
  rw [minorOf, digitsValue_padEnd]
  simp [digitsValue, chars]

/-! ### The three texts of the field -/

theorem parse_empty : parseAmountToMinor [] = .nan := rfl

theorem schema_empty : amountSchema [] = false := rfl

theorem parse_of_parts (hs : ∀ u ∈ s, isDecimalUnit u) (hamount : isAmount s)
    (hsplit : (s.splitOn point).headD [] = w ∧ (s.splitOn point)[1]?.getD [] = fs) (h : Parts w fs) :
    parseAmountToMinor s = if 0 < minorOf w fs then .finite (minorOf w fs) else .nan := by
  have hlt : (Number.finite 0).lt (.finite (minorOf w fs)) = decide (0 < minorOf w fs) := by
    rw [Bool.eq_iff_iff, decide_eq_true_eq]
    simp only [Number.lt, Number.le, Bool.and_eq_true, decide_eq_true_eq, Bool.not_eq_true',
      decide_eq_false_iff_not, not_le]
    constructor
    · intro hpos
      exact_mod_cast hpos.2
    · intro hpos
      have hcast : (0 : ℚ) < minorOf w fs := by exact_mod_cast hpos
      exact ⟨hcast.le, hcast⟩
  rw [parseAmountToMinor]
  simp only [trim_decimal hs, hamount, Bool.not_true, Bool.false_eq_true, if_false, hsplit.1, hsplit.2,
    h.minor_eq, hlt, decide_eq_true_eq]

theorem split_whole (hw : DigitUnits w) :
    (w.splitOn point).headD [] = w ∧ (w.splitOn point)[1]?.getD [] = [] := by
  rw [List.splitOn_eq_singleton (point_notMem_of_digits hw)]
  exact ⟨rfl, rfl⟩

theorem split_fraction (hw : DigitUnits w) (hfs : DigitUnits fs) :
    ((w ++ point :: fs).splitOn point).headD [] = w ∧
      ((w ++ point :: fs).splitOn point)[1]?.getD [] = fs := by
  rw [splitOn_fraction (point_notMem_of_digits hw) (point_notMem_of_digits hfs)]
  exact ⟨rfl, rfl⟩

/-- What the conversion and the schema make of a text with these parts. -/
structure Agrees (s : Text) (n : ℕ) : Prop where
  value : 100 * decimalValue s = n
  lt : n < 10 ^ 11
  schema : amountSchema s = decide (0 < n)
  parse : parseAmountToMinor s = if 0 < n then .finite n else .nan

theorem agrees_whole (h : Parts w []) : Agrees w (minorOf w []) := by
  have hvalue : 100 * decimalValue w = minorOf w [] := by
    rw [decimalValue_whole h.whole h.nonempty, minorOf_nil]
    push_cast
    ring
  have hunits : ∀ u ∈ w, isDecimalUnit u := fun u hu => h.units u (List.mem_append_left _ hu)
  have hamount := isAmount_whole h.whole h.nonempty
  refine ⟨hvalue, h.minorOf_lt, ?_, parse_of_parts hunits hamount (split_whole h.whole) h⟩
  have hnumber : ofUnits w = ofRat (decimalValue w) := by
    rw [ofUnits_digits h.whole h.nonempty, decimalValue_whole h.whole h.nonempty, ofNat]
  rw [amountSchema, hamount, Bool.true_and, hnumber, lt_ofRat hvalue]

theorem ofUnits_fraction (h : Parts w fs) :
    ofUnits (w ++ point :: fs) = ofRat (decimalValue (w ++ point :: fs)) := by
  have hw := chars_digits h.whole
  have hfs := chars_digits h.frac
  have hne := chars_ne_nil h.nonempty
  have hplain : Plain (chars w ++ '.' :: chars fs) := by
    intro c hc
    rcases List.mem_append.mp hc with hc | hc
    · exact .inl (hw c hc)
    · rcases List.mem_cons.mp hc with rfl | hc
      · simp
      · exact .inl (hfs c hc)
  have hhead : ∃ c ∈ (chars w ++ '.' :: chars fs).head?, c.isDigit := by
    cases hchars : chars w with
    | nil => exact absurd hchars hne
    | cons c cs =>
        refine ⟨c, rfl, hw c ?_⟩
        rw [hchars]
        exact List.mem_cons_self
  rw [ofUnits, decimalValue, chars_fraction, trim_eq_self hplain.not_space, numeral_plain hplain hhead,
    decimal_fraction hw hne hfs]
  rfl

theorem agrees_fraction (h : Parts w fs) (hfs : fs ≠ []) :
    Agrees (w ++ point :: fs) (minorOf w fs) := by
  have hlen : 1 ≤ fs.length := List.length_pos_iff.mpr hfs
  have hamount : isAmount (w ++ point :: fs) = true := by
    rw [isAmount_fraction h.whole h.nonempty h.frac]
    simp [hlen, h.frac_le]
  refine ⟨h.value_eq, h.minorOf_lt, ?_, parse_of_parts h.units hamount (split_fraction h.whole h.frac) h⟩
  rw [amountSchema, hamount, Bool.true_and, ofUnits_fraction h, lt_ofRat h.value_eq]

/-- A point with nothing behind it is refused by both. -/
theorem refused_point (h : Parts w []) :
    amountSchema (w ++ [point]) = false ∧ parseAmountToMinor (w ++ [point]) = .nan := by
  have hamount : isAmount (w ++ [point]) = false := by
    rw [isAmount_fraction h.whole h.nonempty h.frac]
    rfl
  constructor
  · rw [amountSchema, hamount, Bool.false_and]
  · rw [parseAmountToMinor, trim_decimal h.units, hamount]
    rfl

/-- Both refuse the text of the field, or both take it at its value. -/
theorem field_cases (raw : Text) :
    (amountSchema (sanitizeAmount raw) = false ∧ parseAmountToMinor (sanitizeAmount raw) = .nan) ∨
      ∃ n, Agrees (sanitizeAmount raw) n := by
  have hfield := fieldText_sanitizeAmount raw
  generalize sanitizeAmount raw = s at hfield
  cases hfield with
  | empty => exact .inl ⟨schema_empty, parse_empty⟩
  | whole h => exact .inr ⟨_, agrees_whole h⟩
  | @fraction w fs h =>
      cases fs with
      | nil => exact .inl (refused_point h)
      | cons u fs => exact .inr ⟨_, agrees_fraction h (by simp)⟩

/-- The schema takes what converts, and the conversion is exact. -/
theorem parseAmountToMinor_exact (raw : Text) :
    (amountSchema (sanitizeAmount raw) = true ↔ parseAmountToMinor (sanitizeAmount raw) ≠ .nan) ∧
      (parseAmountToMinor (sanitizeAmount raw) ≠ .nan → ∃ n : ℕ,
        parseAmountToMinor (sanitizeAmount raw) = .finite n ∧
          (n : ℚ) = 100 * decimalValue (sanitizeAmount raw) ∧ ofNat n = .finite n) := by
  rcases field_cases raw with ⟨hschema, hparse⟩ | ⟨n, h⟩
  · rw [hschema, hparse]
    simp
  · have hsmall : n ≤ 2 ^ 53 := by
      have hlt := h.lt
      omega
    rw [h.schema, h.parse, ← h.value]
    by_cases hpos : 0 < n
    · rw [if_pos hpos]
      simp [hpos, h.value, ofNat_eq_finite hsmall]
    · rw [if_neg hpos]
      simp [hpos]

end Cents

/-! ## The deposit -/

/-- `IsInt` and `Min(1)`; `none` is refused. -/
def moneyAmountDto (amount : Number) (note : Option String) : Option MoneyAmountDto :=
  match amount with
  | .finite q => if h : q.den = 1 ∧ 1 ≤ q.num then some ⟨q.num, note, h.2⟩ else none
  | _ => none

/-- The ids of the rows a deposit writes are not taken. -/
structure FreshIds (s : Shared) (draw : Draw) : Prop where
  transaction : s.db.transactions.find draw.rowId = none
  audit : s.db.auditLogs.find draw.auditId = none
  event : s.db.outboxEvents.find draw.eventId = none

section Deposit
variable {s : Shared} {draw : Draw} {actor : AuthUser} {note : Option String} {wallet : Wallet}
  {dto : MoneyAmountDto} {raw : Text}

theorem insert_of_fresh {Row Key : Type} [DecidableEq Key] {key : Row → Key} (t : Table Row key)
    (row : Row) (h : t.find (key row) = none) : ∃ u, t.insert row = some u := by
  cases hinsert : t.insert row with
  | none => exact absurd h (Table.insert_refused hinsert)
  | some u => exact ⟨u, rfl⟩

theorem createTransaction_of_fresh {d : Db} {id : Uuid} (hwallet : d.wallets.find id ≠ none)
    (row : Transaction) (hrow : row.walletId = id) (hfresh : d.transactions.find row.id = none) :
    ∃ d', d.createTransaction row = some d' := by
  obtain ⟨transactions, ht⟩ := insert_of_fresh _ _ hfresh
  rw [← hrow] at hwallet
  unfold Db.createTransaction
  rw [dif_neg hwallet]
  split
  · next hnone =>
      rw [ht] at hnone
      cases hnone
  · exact ⟨_, rfl⟩

/-- A deposit commits when both columns hold what is written. -/
theorem deposit_commits (hfind : s.db.wallets.find wallet.id = some wallet) (hfresh : FreshIds s draw)
    {after amount : Int4} (hafter : after.val = wallet.balance.val + dto.amount)
    (hamount : amount.val = dto.amount) :
    ∃ r s', Commits s s (depositBlock wallet.id actor dto draw) r s' := by
  let created := settledRow draw wallet.id .deposit amount wallet.balance after actor dto.note
  let event := pushEvent draw wallet.userId
    { title := "Money added"
      body := formatMinor dto.amount wallet.currency ++ " added to your wallet"
      tag := created.id, url := "/" }
  let entry := auditRow draw actor .depositSettle .transaction created.id
    [("balance", .num wallet.balance.val)] [("balance", .num after.val), ("amount", .num dto.amount)]
  have hupdate : (Stmt.updateWallet wallet.id after).exec s.db =
      some (s.db.updateWallet wallet.id after) := by
    rw [Stmt.exec, if_neg]
    rw [hfind]
    exact Option.some_ne_none wallet
  have hstill : (s.db.updateWallet wallet.id after).wallets.find wallet.id ≠ none := by
    rw [Db.updateWallet_wallets, Table.find_modify, if_pos rfl, hfind]
    exact Option.some_ne_none _
  obtain ⟨db₁, hdb₁⟩ := createTransaction_of_fresh hstill created rfl hfresh.transaction
  obtain ⟨-, -, haudit, hevents⟩ := Db.createTransaction_cases hdb₁
  have hauditFree : db₁.auditLogs.find entry.id = none := by
    rw [haudit]
    exact hfresh.audit
  have heventFree : db₁.outboxEvents.find (outboxRow event).id = none := by
    rw [hevents]
    exact hfresh.event
  obtain ⟨auditLogs, hauditLogs⟩ := insert_of_fresh db₁.auditLogs entry hauditFree
  obtain ⟨outboxEvents, houtbox⟩ := insert_of_fresh db₁.outboxEvents (outboxRow event) heventFree
  let db₂ : Db := { db₁ with auditLogs := auditLogs }
  let db₃ : Db := { db₂ with outboxEvents := outboxEvents }
  have hentry : (Stmt.createAuditLog entry).exec db₁ = some db₂ :=
    Option.map_eq_some_iff.mpr ⟨auditLogs, hauditLogs, rfl⟩
  have hevent : (Stmt.createOutboxEvent (outboxRow event)).exec db₂ = some db₃ :=
    Option.map_eq_some_iff.mpr ⟨outboxEvents, houtbox, rfl⟩
  refine ⟨⟨.transaction created, [balanceOf wallet after], some event⟩, { s with db := db₃ }, ?_⟩
  rw [depositBlock, commits_lockWallet, hfind]
  apply commits_withInt4.mpr
  refine ⟨after, hafter, commits_write.mpr ⟨_, hupdate, ?_⟩⟩
  apply commits_withInt4.mpr
  refine ⟨amount, hamount, commits_write.mpr ⟨db₁, hdb₁, ?_⟩⟩
  apply commits_write.mpr
  refine ⟨db₂, hentry, commits_write.mpr ⟨db₃, hevent, ?_⟩⟩
  exact commits_commit.mpr ⟨rfl, rfl⟩

/-- The wallet and the row of the deposit hold the amount. -/
structure Holds (s' : Shared) (id rowId : Uuid) (amount : ℤ) : Prop where
  balance : (s'.db.wallets.find id).map (fun w => w.balance.val) = some amount
  row : ∃ row ∈ s'.db.transactions.rows, row.id = rowId ∧ row.amount.val = amount ∧
    row.balanceAfter.map Int4.val = some amount

/-- A deposit that commits fits both columns and is what they hold. -/
theorem deposit_holds {r : Committed} {s' : Shared} (hfind : s.db.wallets.find wallet.id = some wallet)
    (hzero : wallet.balance.val = 0) (h : Commits s s (depositBlock wallet.id actor dto draw) r s') :
    dto.amount ≤ 2147483647 ∧ Holds s' wallet.id draw.rowId dto.amount := by
  rw [depositBlock, commits_lockWallet, hfind] at h
  obtain ⟨after, hafter, h⟩ := commits_withInt4.mp h
  obtain ⟨amount, hamount, h⟩ := commits_withInt4.mp (commits_updateWallet h)
  obtain ⟨acc₁, hw₁, ht₁, h⟩ := commits_createTransaction h
  obtain ⟨acc₂, hw₂, ht₂, h⟩ := commits_audit h
  obtain ⟨acc₃, hw₃, ht₃, h⟩ := commits_outbox h
  obtain ⟨-, rfl⟩ := commits_commit.mp h
  rw [hzero, zero_add] at hafter
  have hwallets : acc₃.db.wallets = (s.db.updateWallet wallet.id after).wallets := by
    rw [hw₃, hw₂, hw₁]
  have hrows : acc₃.db.transactions = acc₁.db.transactions := by rw [ht₃, ht₂]
  refine ⟨hamount ▸ amount.range.2, ?_, ?_⟩
  · rw [hwallets, Db.updateWallet_wallets, Table.find_modify, if_pos rfl, hfind, ← hafter]
    rfl
  · refine ⟨settledRow draw wallet.id .deposit amount wallet.balance after actor dto.note, ?_, rfl,
      hamount, ?_⟩
    · rw [hrows]
      exact (Table.mem_insert ht₁).mpr (.inr rfl)
    · rw [← hafter]
      rfl

theorem moneyAmountDto_nat {n : ℕ} (hpos : 1 ≤ n) (note : Option String) :
    moneyAmountDto (.finite n) note = some ⟨n, note, by exact_mod_cast hpos⟩ := by
  have hint : ((n : ℚ)).den = 1 ∧ 1 ≤ ((n : ℚ)).num := by
    rw [Rat.den_natCast, Rat.num_natCast]
    exact ⟨rfl, by exact_mod_cast hpos⟩
  rw [moneyAmountDto, dif_pos hint]
  simp

/-- The amount typed is a valid request, and the deposit commits and is what the columns
hold. -/
def Stored (s : Shared) (wallet : Wallet) (actor : AuthUser) (note : Option String) (draw : Draw)
    (raw : Text) : Prop :=
  ∃ dto, moneyAmountDto (parseAmountToMinor (sanitizeAmount raw)) note = some dto ∧
    ∃ r s', Commits s s (depositBlock wallet.id actor dto draw) r s' ∧
      Holds s' wallet.id draw.rowId dto.amount

theorem decimalValue_le_of_stored (hfind : s.db.wallets.find wallet.id = some wallet)
    (hzero : wallet.balance.val = 0) (h : Stored s wallet actor note draw raw) :
    decimalValue (sanitizeAmount raw) ≤ 2147483647 / 100 := by
  obtain ⟨dto, hdto, r, s', hcommits, -⟩ := h
  have hle := (deposit_holds hfind hzero hcommits).1
  rcases field_cases raw with ⟨-, hrefused⟩ | ⟨n, h⟩
  · rw [hrefused] at hdto
    cases hdto
  · have hvalue := h.value
    rw [h.parse] at hdto
    by_cases hpos : 0 < n
    · rw [if_pos hpos, moneyAmountDto_nat hpos] at hdto
      obtain rfl := Option.some.inj hdto
      have hint : (n : ℤ) ≤ 2147483647 := hle
      have hrat : (n : ℚ) ≤ 2147483647 := by exact_mod_cast hint
      linarith
    · rw [if_neg hpos] at hdto
      cases hdto

theorem stored_of_decimalValue_le (hfind : s.db.wallets.find wallet.id = some wallet)
    (hzero : wallet.balance.val = 0) (hfresh : FreshIds s draw)
    (haccepted : amountSchema (sanitizeAmount raw) = true)
    (hle : decimalValue (sanitizeAmount raw) ≤ 2147483647 / 100) :
    Stored s wallet actor note draw raw := by
  rcases field_cases raw with ⟨hrefused, -⟩ | ⟨n, h⟩
  · rw [hrefused] at haccepted
    cases haccepted
  · have hpos : 0 < n := by
      rw [h.schema, decide_eq_true_eq] at haccepted
      exact haccepted
    have hvalue := h.value
    have hrat : (n : ℚ) ≤ 2147483647 := by linarith
    have hint : (n : ℤ) ≤ 2147483647 := by exact_mod_cast hrat
    have hone : 1 ≤ (n : ℤ) := by omega
    let dto : MoneyAmountDto := ⟨n, note, hone⟩
    let amount : Int4 := ⟨n, by omega, hint⟩
    have hafter : amount.val = wallet.balance.val + dto.amount := by
      rw [hzero, zero_add]
    have hamount : amount.val = dto.amount := rfl
    obtain ⟨r, s', hcommits⟩ := deposit_commits hfind hfresh hafter hamount
    refine ⟨dto, ?_, r, s', hcommits, (deposit_holds hfind hzero hcommits).2⟩
    rw [h.parse, if_pos hpos, moneyAmountDto_nat hpos]

/-- Into an empty wallet, an accepted amount is stored up to 21474836.47. -/
theorem stored_iff (hfind : s.db.wallets.find wallet.id = some wallet)
    (hzero : wallet.balance.val = 0) (hfresh : FreshIds s draw)
    (haccepted : amountSchema (sanitizeAmount raw) = true) :
    Stored s wallet actor note draw raw ↔ decimalValue (sanitizeAmount raw) ≤ 2147483647 / 100 := by
  constructor
  · exact decimalValue_le_of_stored hfind hzero
  · exact stored_of_decimalValue_le hfind hzero hfresh haccepted

end Deposit

/-- A customer's empty wallet, and nothing else. -/
def emptyWallet : Wallet := ⟨9, 1, "", "USD", .zero⟩

def opened : Shared := ⟨(Db.empty.createWallet emptyWallet).getD .empty, fun _ => none, [], []⟩

def customer : AuthUser := ⟨1, none, none, false⟩

def firstDraw : Draw := ⟨20, 21, 22, 23, 24, 0, ⟨"", none, none⟩⟩

theorem opened_find : opened.db.wallets.find emptyWallet.id = some emptyWallet := by decide

/-- `21474836.47` typed into an empty wallet. -/
theorem stored_iff_largest :
    Stored opened emptyWallet customer none firstDraw (ofString "21474836.47") := by
  have hvalue : decimalValue (sanitizeAmount (ofString "21474836.47")) ≤ 2147483647 / 100 := by
    decide +kernel
  have hfresh : FreshIds opened firstDraw := ⟨by decide, by decide, by decide⟩
  have haccepted : amountSchema (sanitizeAmount (ofString "21474836.47")) = true := by
    decide +kernel
  exact (stored_iff opened_find rfl hfresh haccepted).mpr hvalue

/-- One cent more is accepted by the form and stored by no deposit. -/
theorem not_stored_next_cent :
    amountSchema (sanitizeAmount (ofString "21474836.48")) = true ∧
      moneyAmountDto (parseAmountToMinor (sanitizeAmount (ofString "21474836.48"))) none ≠ none ∧
        ¬Stored opened emptyWallet customer none firstDraw (ofString "21474836.48") := by
  have haccepted : amountSchema (sanitizeAmount (ofString "21474836.48")) = true := by
    decide +kernel
  have hvalue : decimalValue (sanitizeAmount (ofString "21474836.48")) = 2147483648 / 100 := by
    decide +kernel
  refine ⟨haccepted, by decide +kernel, ?_⟩
  intro hstored
  have hle := decimalValue_le_of_stored opened_find rfl hstored
  rw [hvalue] at hle
  norm_num at hle

end MaxOne.MoneyAmounts
