import MaxOne.Library.Utf16

/-!
# Decimals as they are typed

`sanitizeDecimal` runs over what a field holds and keeps what a decimal can be. Its
next step looks at the text kept so far, which it splits at the point each time.

What it keeps is a grammar: a whole part without a leading zero, then possibly a
point and some digits. The texts of the grammar, and the empty one, are those it
leaves as they are.
-/
namespace MaxOne.SanitizeNumber
open Library.Utf16

structure DecimalLimits where
  maxWhole : ℕ
  maxDecimals : ℕ
  deriving DecidableEq, Repr

/-- `'.'`, `'0'` and `'9'`. -/
def point : UInt16 := 0x2E

def zero : UInt16 := 0x30

def nine : UInt16 := 0x39

/-- One turn of the loop: `out` after the character `ch`. -/
def keepChar (limits : DecimalLimits) (out ch : Text) : Text :=
  if ch = [point] then
    if limits.maxDecimals = 0 ∨ point ∈ out then out
    else if out = [] then [zero, point] else out ++ [point]
  else if ch < [zero] ∨ [nine] < ch then out
  else
    let parts := out.splitOn point
    let whole := parts.headD []
    let frac := parts[1]?.getD []
    if point ∈ out then
      if limits.maxDecimals ≤ frac.length then out else out ++ ch
    else if whole = [zero] then
      if ch = [zero] then [zero] else ch
    else if whole.length < limits.maxWhole then out ++ ch
    else out

def sanitizeDecimal (raw : Text) (limits : DecimalLimits) : Text :=
  (codePoints raw).foldl (keepChar limits) []

def amountLimits : DecimalLimits := ⟨9, 2⟩

def sanitizeAmount (raw : Text) : Text := sanitizeDecimal raw amountLimits

/-! ## The grammar -/

def isDigit (u : UInt16) : Bool := zero ≤ u && u ≤ nine

/-- What a decimal is written with. -/
def isDecimalUnit (u : UInt16) : Bool := isDigit u || u = point

/-- `0|[1-9][0-9]{0,maxWhole-1}`. -/
inductive WholePart (maxWhole : ℕ) : Text → Prop
  | zero : WholePart maxWhole [zero]
  | digits {d : UInt16} {ds : Text} : isDigit d → d ≠ SanitizeNumber.zero → (∀ u ∈ ds, isDigit u) →
      ds.length ≤ maxWhole - 1 → WholePart maxWhole (d :: ds)

/-- A whole part, and `\\.[0-9]{0,maxDecimals}` if there are decimals at all. -/
inductive DecimalText (limits : DecimalLimits) : Text → Prop
  | whole {w : Text} : WholePart limits.maxWhole w → DecimalText limits w
  | fraction {w fs : Text} : WholePart limits.maxWhole w → 0 < limits.maxDecimals →
      (∀ u ∈ fs, isDigit u) → fs.length ≤ limits.maxDecimals → DecimalText limits (w ++ point :: fs)

section Characters
variable {limits : DecimalLimits} {out w fs ds : Text} {u d : UInt16}

theorem isDigit_iff : isDigit u ↔ 0x30 ≤ u.toNat ∧ u.toNat ≤ 0x39 := by
  simp only [isDigit, Bool.and_eq_true, decide_eq_true_eq, UInt16.le_iff_toNat_le]
  exact Iff.rfl

theorem digits_concat (hds : ∀ v ∈ ds, isDigit v) (hu : isDigit u) : ∀ v ∈ ds ++ [u], isDigit v := by
  intro v hv
  rcases List.mem_append.mp hv with hv | hv
  · exact hds v hv
  · rw [List.mem_singleton.mp hv]
    exact hu

theorem not_isDigit_point : ¬ isDigit point := by decide

theorem point_notMem_of_digits (h : ∀ u ∈ w, isDigit u) : point ∉ w :=
  fun hp => not_isDigit_point (h point hp)

theorem ne_point_of_digit (hu : isDigit u) : u ≠ point := by
  intro h
  rw [h] at hu
  exact not_isDigit_point hu

theorem WholePart.isDigit {n : ℕ} (h : WholePart n w) : ∀ u ∈ w, isDigit u := by
  cases h with
  | zero =>
      intro u hu
      rw [List.mem_singleton.mp hu]
      decide
  | digits hd _ hds _ =>
      intro u hu
      rcases List.mem_cons.mp hu with rfl | hu
      · exact hd
      · exact hds u hu

theorem WholePart.point_notMem {n : ℕ} (h : WholePart n w) : point ∉ w :=
  point_notMem_of_digits h.isDigit

theorem WholePart.ne_nil {n : ℕ} (h : WholePart n w) : w ≠ [] := by
  cases h <;> exact List.cons_ne_nil _ _

/-- Neither half of a pair is a digit or a point. -/
theorem isHigh_of_decimalUnit (h : isDecimalUnit u) : isHigh u = false := by
  simp only [isDecimalUnit, Bool.or_eq_true, decide_eq_true_eq, isDigit_iff] at h
  have hlt : u.toNat < 0xD800 := by
    rcases h with hd | rfl
    · omega
    · decide
  simp only [isHigh, Bool.and_eq_false_iff, decide_eq_false_iff_not, UInt16.not_le,
    UInt16.lt_iff_toNat_lt]
  exact .inl hlt

theorem isLow_of_decimalUnit (h : isDecimalUnit u) : isLow u = false := by
  simp only [isDecimalUnit, Bool.or_eq_true, decide_eq_true_eq, isDigit_iff] at h
  have hlt : u.toNat < 0xDC00 := by
    rcases h with hd | rfl
    · omega
    · decide
  simp only [isLow, Bool.and_eq_false_iff, decide_eq_false_iff_not, UInt16.not_le,
    UInt16.lt_iff_toNat_lt]
  exact .inl hlt

/-! ### What one character does -/

theorem splitOn_fraction (hw : point ∉ w) (hfs : point ∉ fs) :
    (w ++ point :: fs).splitOn point = [w, fs] := by
  rw [List.splitOn_append_cons_self_of_not_mem hw, List.splitOn_eq_singleton hfs]

theorem keepChar_point (out : Text) : keepChar limits out [point] =
    if limits.maxDecimals = 0 ∨ point ∈ out then out
    else if out = [] then [zero, point] else out ++ [point] := if_pos rfl

theorem digit_in_range (hu : isDigit u) : ¬ ([u] < [zero] ∨ [nine] < [u]) := by
  have h := isDigit_iff.mp hu
  simp only [List.cons_lt_cons_iff, UInt16.lt_iff_toNat_lt]
  have hz : zero.toNat = 0x30 := rfl
  have hn : nine.toNat = 0x39 := rfl
  simp only [hz, hn, List.lt_irrefl, and_false, or_false]
  omega

/-- Before the point a digit follows a whole part that is not full, or takes the place
of a single zero. -/
theorem keepChar_digit_whole (hu : isDigit u) (hout : point ∉ out) : keepChar limits out [u] =
    if out = [zero] then [u] else if out.length < limits.maxWhole then out ++ [u] else out := by
  have hpoint : [u] ≠ [point] := fun h => ne_point_of_digit hu (List.cons.inj h).1
  rw [keepChar, if_neg hpoint, if_neg (digit_in_range hu), List.splitOn_eq_singleton hout]
  simp only [if_neg hout, List.headD_cons]
  by_cases hz : [u] = [zero]
  · rw [if_pos hz, hz]
    rfl
  · rw [if_neg hz]
    rfl

/-- Behind it one follows while there is room. -/
theorem keepChar_digit_fraction (hu : isDigit u) (hw : point ∉ w) (hfs : point ∉ fs) :
    keepChar limits (w ++ point :: fs) [u] =
      if limits.maxDecimals ≤ fs.length then w ++ point :: fs else w ++ point :: (fs ++ [u]) := by
  have hpoint : [u] ≠ [point] := fun h => ne_point_of_digit hu (List.cons.inj h).1
  have hmem : point ∈ w ++ point :: fs := List.mem_append_right _ List.mem_cons_self
  rw [keepChar, if_neg hpoint, if_neg (digit_in_range hu), splitOn_fraction hw hfs]
  simp [hmem]

/-- Anything else is skipped. -/
theorem keepChar_other {p : Text} (hshape : (∃ u, p = [u]) ∨ ∃ u v, p = [u, v] ∧ isHigh u ∧ isLow v)
    (hp : ¬ p.any isDecimalUnit) : keepChar limits out p = out := by
  rcases hshape with ⟨u, rfl⟩ | ⟨u, v, rfl, hhigh, -⟩
  · have hkeep : ¬ isDecimalUnit u := by simpa using hp
    simp only [isDecimalUnit, Bool.or_eq_true, decide_eq_true_eq, not_or] at hkeep
    have hpoint : [u] ≠ [point] := fun h => hkeep.2 (List.cons.inj h).1
    have hdigit := mt isDigit_iff.mpr hkeep.1
    have hrange : [u] < [zero] ∨ [nine] < [u] := by
      simp only [List.cons_lt_cons_iff, UInt16.lt_iff_toNat_lt]
      have hz : zero.toNat = 0x30 := rfl
      have hn : nine.toNat = 0x39 := rfl
      simp only [hz, hn, List.lt_irrefl, and_false, or_false]
      omega
    rw [keepChar, if_neg hpoint, if_pos hrange]
  · have hpoint : [u, v] ≠ [point] := fun h => by cases h
    simp only [isHigh, Bool.and_eq_true, decide_eq_true_eq, UInt16.le_iff_toNat_le] at hhigh
    have hrange : [nine] < [u, v] := by
      simp only [List.cons_lt_cons_iff, UInt16.lt_iff_toNat_lt]
      have hn : nine.toNat = 0x39 := rfl
      have hs : (0xD800 : UInt16).toNat = 0xD800 := rfl
      omega
    rw [keepChar, if_neg hpoint, if_pos (.inr hrange)]

end Characters

/-! ## The loop -/

section Loop
variable {limits : DecimalLimits} {out w fs ds s : Text} {u d : UInt16}

/-- One turn for a single unit. -/
def keepUnit (limits : DecimalLimits) (out : Text) (u : UInt16) : Text := keepChar limits out [u]

theorem foldl_filter_of_skip {α β : Type*} (f : β → α → β) (p : α → Bool) (l : List α)
    (h : ∀ x ∈ l, ¬ p x → ∀ out, f out x = out) (out : β) :
    l.foldl f out = (l.filter p).foldl f out := by
  induction l generalizing out with
  | nil => rfl
  | cons x l ih =>
      have hrest := ih fun y hy => h y (List.mem_cons_of_mem _ hy)
      by_cases hx : p x = true
      · rw [List.filter_cons_of_pos hx, List.foldl_cons, List.foldl_cons, hrest]
      · rw [List.filter_cons_of_neg hx, List.foldl_cons, h x List.mem_cons_self hx, hrest]

/-- Only digits and points matter. -/
theorem sanitizeDecimal_eq (raw : Text) (limits : DecimalLimits) :
    sanitizeDecimal raw limits = (raw.filter isDecimalUnit).foldl (keepUnit limits) [] := by
  have hskip : ∀ p ∈ codePoints raw, ¬ p.any isDecimalUnit → ∀ out, keepChar limits out p = out :=
    fun p hp hnot out => keepChar_other (codePoints_shape raw p hp) hnot
  rw [sanitizeDecimal, foldl_filter_of_skip _ (fun p => p.any isDecimalUnit) _ hskip,
    codePoints_filter (fun _ => isHigh_of_decimalUnit) (fun _ => isLow_of_decimalUnit), List.foldl_map]
  rfl

/-- Empty, or a text of the grammar. -/
def Typed (limits : DecimalLimits) (s : Text) : Prop := s = [] ∨ DecimalText limits s

theorem WholePart.of_digit {n : ℕ} (hu : SanitizeNumber.isDigit u) : WholePart n [u] := by
  by_cases hz : u = SanitizeNumber.zero
  · rw [hz]
    exact .zero
  · exact .digits hu hz (by simp) (by simp)

theorem typed_point (h : Typed limits s) : Typed limits (keepUnit limits s point) := by
  rw [keepUnit, keepChar_point]
  split_ifs with hskip hnil
  · exact h
  · rw [not_or] at hskip
    have hzero : DecimalText limits ([zero] ++ point :: []) :=
      .fraction .zero (by omega) (by simp) (by simp)
    exact .inr hzero
  · rw [not_or] at hskip
    rcases h with rfl | h
    · exact absurd rfl hnil
    · cases h with
      | whole hw => exact .inr (.fraction hw (by omega) (by simp) (by simp))
      | fraction => exact absurd (List.mem_append_right _ List.mem_cons_self) hskip.2

theorem typed_digit (hlimit : 1 ≤ limits.maxWhole) (hu : isDigit u) (h : Typed limits s) :
    Typed limits (keepUnit limits s u) := by
  rcases h with rfl | h
  · have hroom : ([] : Text).length < limits.maxWhole := hlimit
    rw [keepUnit, keepChar_digit_whole hu (by simp), if_neg (by simp), if_pos hroom]
    exact .inr (.whole (.of_digit hu))
  · cases h with
    | whole hw =>
        rw [keepUnit, keepChar_digit_whole hu hw.point_notMem]
        split_ifs with hzero hroom
        · exact .inr (.whole (.of_digit hu))
        · cases hw with
          | zero => exact absurd rfl hzero
          | @digits d ds hd hne hds hlen =>
              have hcount : (ds ++ [u]).length ≤ limits.maxWhole - 1 := by
                rw [List.length_cons] at hroom
                rw [List.length_append, List.length_singleton]
                omega
              exact .inr (.whole (.digits hd hne (digits_concat hds hu) hcount))
        · exact .inr (.whole hw)
    | @fraction w fs hw hpos hfs hlen =>
        rw [keepUnit, keepChar_digit_fraction hu hw.point_notMem (point_notMem_of_digits hfs)]
        split_ifs with hfull
        · exact .inr (.fraction hw hpos hfs hlen)
        · apply Or.inr
          apply DecimalText.fraction hw hpos (digits_concat hfs hu)
          rw [List.length_append, List.length_singleton]
          omega

/-- The grammar holds after every prefix of every input. -/
theorem typed_foldl (hlimit : 1 ≤ limits.maxWhole) {units : Text} (hunits : ∀ u ∈ units, isDecimalUnit u)
    (h : Typed limits s) : Typed limits (units.foldl (keepUnit limits) s) := by
  induction units generalizing s with
  | nil => exact h
  | cons u units ih =>
      rw [List.foldl_cons]
      apply ih
      · intro v hv
        exact hunits v (List.mem_cons_of_mem _ hv)
      · have hu := hunits u List.mem_cons_self
        rw [isDecimalUnit, Bool.or_eq_true, decide_eq_true_eq] at hu
        rcases hu with hdigit | rfl
        · exact typed_digit hlimit hdigit h
        · exact typed_point h

theorem sanitizeDecimal_typed (hlimit : 1 ≤ limits.maxWhole) (raw : Text) :
    Typed limits (sanitizeDecimal raw limits) := by
  rw [sanitizeDecimal_eq]
  apply typed_foldl hlimit
  · intro u hu
    exact (List.mem_filter.mp hu).2
  · exact .inl rfl

/-! ### Texts that are kept -/

theorem foldl_whole (hds : ∀ u ∈ ds, isDigit u) (hout : ∀ u ∈ out, isDigit u) (hne : out ≠ [zero])
    (hnil : out ≠ []) (hlen : out.length + ds.length ≤ limits.maxWhole) :
    ds.foldl (keepUnit limits) out = out ++ ds := by
  induction ds generalizing out with
  | nil => exact (List.append_nil _).symm
  | cons u ds ih =>
      have hu := hds u List.mem_cons_self
      rw [List.length_cons] at hlen
      have hroom : out.length < limits.maxWhole := by omega
      have hstep : keepUnit limits out u = out ++ [u] := by
        rw [keepUnit, keepChar_digit_whole hu (point_notMem_of_digits hout), if_neg hne, if_pos hroom]
      rw [List.foldl_cons, hstep, ih]
      · rw [List.append_assoc, List.singleton_append]
      · intro v hv
        exact hds v (List.mem_cons_of_mem _ hv)
      · exact digits_concat hout hu
      · intro h
        have hlength := congrArg List.length h
        rw [List.length_append, List.length_singleton, List.length_singleton] at hlength
        exact hnil (List.length_eq_zero_iff.mp (by omega))
      · simp
      · rw [List.length_append, List.length_singleton]
        omega

theorem foldl_fraction (before : Text) (hw : point ∉ w) (hbefore : ∀ u ∈ before, isDigit u)
    (hfs : ∀ u ∈ fs, isDigit u) (hlen : before.length + fs.length ≤ limits.maxDecimals) :
    fs.foldl (keepUnit limits) (w ++ point :: before) = w ++ point :: (before ++ fs) := by
  induction fs generalizing before with
  | nil => rw [List.foldl_nil, List.append_nil]
  | cons u fs ih =>
      have hu := hfs u List.mem_cons_self
      rw [List.length_cons] at hlen
      have hstep : keepUnit limits (w ++ point :: before) u = w ++ point :: (before ++ [u]) := by
        rw [keepUnit, keepChar_digit_fraction hu hw (point_notMem_of_digits hbefore), if_neg (by omega)]
      rw [List.foldl_cons, hstep, ih (before ++ [u])]
      · rw [List.append_assoc, List.singleton_append]
      · exact digits_concat hbefore hu
      · intro v hv
        exact hfs v (List.mem_cons_of_mem _ hv)
      · rw [List.length_append, List.length_singleton]
        omega

theorem foldl_wholePart (hlimit : 1 ≤ limits.maxWhole) (hw : WholePart limits.maxWhole w) :
    w.foldl (keepUnit limits) [] = w := by
  have hfirst : ∀ {u : UInt16}, isDigit u → keepUnit limits [] u = [u] := by
    intro u hu
    have hroom : ([] : Text).length < limits.maxWhole := hlimit
    rw [keepUnit, keepChar_digit_whole hu (by simp), if_neg (by simp), if_pos hroom, List.nil_append]
  cases hw with
  | zero =>
      have hzero : isDigit zero := by decide
      exact hfirst hzero
  | @digits d ds hd hne hds hlen =>
      rw [List.foldl_cons, hfirst hd, foldl_whole hds]
      · rfl
      · intro v hv
        rw [List.mem_singleton.mp hv]
        exact hd
      · intro h
        exact hne (List.cons.inj h).1
      · simp
      · rw [List.length_singleton]
        omega

theorem DecimalText.units (h : DecimalText limits s) : ∀ u ∈ s, isDecimalUnit u := by
  have hdigit : ∀ {u : UInt16}, isDigit u → isDecimalUnit u := by
    intro u hu
    rw [isDecimalUnit, hu, Bool.true_or]
  intro u hu
  cases h with
  | whole hw => exact hdigit (hw.isDigit u hu)
  | fraction hw _ hfs _ =>
      rcases List.mem_append.mp hu with hu | hu
      · exact hdigit (hw.isDigit u hu)
      · rcases List.mem_cons.mp hu with rfl | hu
        · decide
        · exact hdigit (hfs u hu)

/-- Texts of the grammar are left as they are. -/
theorem sanitizeDecimal_fixed (hlimit : 1 ≤ limits.maxWhole) (h : DecimalText limits s) :
    sanitizeDecimal s limits = s := by
  rw [sanitizeDecimal_eq, List.filter_eq_self.mpr h.units]
  cases h with
  | whole hw => exact foldl_wholePart hlimit hw
  | @fraction w fs hw hpos hfs hlen =>
      have hpoint : keepUnit limits w point = w ++ [point] := by
        rw [keepUnit, keepChar_point, if_neg, if_neg hw.ne_nil]
        intro hskip
        rcases hskip with hzero | hmem
        · omega
        · exact hw.point_notMem hmem
      rw [List.foldl_append, foldl_wholePart hlimit hw, List.foldl_cons, hpoint,
        foldl_fraction [] hw.point_notMem (by simp) hfs]
      · rfl
      · rw [List.length_nil]
        omega

theorem sanitizeDecimal_filter (raw : Text) (limits : DecimalLimits) :
    sanitizeDecimal (raw.filter isDecimalUnit) limits = sanitizeDecimal raw limits := by
  rw [sanitizeDecimal_eq, sanitizeDecimal_eq, List.filter_filter]
  simp only [Bool.and_self]

theorem sanitizeDecimal_idem (hlimit : 1 ≤ limits.maxWhole) (raw : Text) :
    sanitizeDecimal (sanitizeDecimal raw limits) limits = sanitizeDecimal raw limits := by
  rcases sanitizeDecimal_typed hlimit raw with hnil | hdecimal
  · rw [hnil]
    rfl
  · exact sanitizeDecimal_fixed hlimit hdecimal

/-- What is kept is empty or of the grammar, the grammar is kept, and only digits and
points count. -/
theorem sanitizeDecimal_grammar (limits : DecimalLimits) (hlimit : 1 ≤ limits.maxWhole) :
    (∀ raw, sanitizeDecimal raw limits = [] ∨ DecimalText limits (sanitizeDecimal raw limits)) ∧
      (∀ s, DecimalText limits s → sanitizeDecimal s limits = s) ∧
        (∀ raw, sanitizeDecimal (sanitizeDecimal raw limits) limits = sanitizeDecimal raw limits) ∧
          ∀ raw, sanitizeDecimal (raw.filter isDecimalUnit) limits = sanitizeDecimal raw limits :=
  ⟨sanitizeDecimal_typed hlimit, fun _ => sanitizeDecimal_fixed hlimit, sanitizeDecimal_idem hlimit,
    fun raw => sanitizeDecimal_filter raw limits⟩

/-- `1,2.3.456` with two decimals is kept as `12.34`. -/
theorem sanitizeDecimal_grammar_amount :
    sanitizeDecimal (ofString "1,2.3.456") amountLimits = ofString "12.34" ∧
      DecimalText amountLimits (ofString "12.34") := by
  have hkept : sanitizeDecimal (ofString "1,2.3.456") amountLimits = ofString "12.34" := by decide
  refine ⟨hkept, ?_⟩
  rw [← hkept]
  refine ((sanitizeDecimal_grammar amountLimits (by decide)).1 _).resolve_left ?_
  rw [hkept]
  decide

end Loop

end MaxOne.SanitizeNumber
