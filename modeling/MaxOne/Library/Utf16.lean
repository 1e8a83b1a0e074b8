import Mathlib.Data.List.DropRight
import Mathlib.Tactic

/-!
# Texts of 16-bit code units

The strings of a language whose characters are the code units of UTF-16, a half of
a surrogate pair by itself included. `codePoints` is the order in which a loop over
a string meets its characters, `scrub` what an encoder makes of halves by
themselves, `trim` cuts the white space off both ends.
-/
namespace Library.Utf16

abbrev Text := List UInt16

/-- The code units of a character. -/
def encode (c : Char) : Text :=
  if c.toNat < 0x10000 then [c.toNat.toUInt16]
  else
    let n := c.toNat - 0x10000
    [(0xD800 + n / 0x400).toUInt16, (0xDC00 + n % 0x400).toUInt16]

def ofString (s : String) : Text := s.toList.flatMap encode

def isHigh (u : UInt16) : Bool := 0xD800 ≤ u && u ≤ 0xDBFF

def isLow (u : UInt16) : Bool := 0xDC00 ≤ u && u ≤ 0xDFFF

/-- The characters of a text: a pair counts as one, a half of a pair too. -/
def codePoints : Text → List Text
  | [] => []
  | [u] => [[u]]
  | u :: v :: rest =>
      if isHigh u && isLow v then [u, v] :: codePoints rest else [u] :: codePoints (v :: rest)

/-- A half by itself is replaced. -/
def scrubPoint : Text → Text
  | [u] => if isHigh u || isLow u then [0xFFFD] else [u]
  | point => point

/-- A text as it comes out of an encoding to bytes and back. -/
def scrub (s : Text) : Text := (codePoints s).flatMap scrubPoint

/-- No half of a pair stands by itself. -/
def WellFormed (s : Text) : Prop := scrub s = s

instance (s : Text) : Decidable (WellFormed s) := inferInstanceAs (Decidable (scrub s = s))

/-- White space and line terminators; all of them are single units. -/
def isSpace (u : UInt16) : Bool :=
  u ∈ [0x9, 0xA, 0xB, 0xC, 0xD, 0x20, 0xA0, 0x1680, 0x2028, 0x2029, 0x202F, 0x205F, 0x3000, 0xFEFF] ||
    (0x2000 ≤ u && u ≤ 0x200A)

def trim (s : Text) : Text := ((s.dropWhile isSpace).reverse.dropWhile isSpace).reverse

/-- The characters that are no pairs; a half becomes one that no number is written with. -/
def chars (s : Text) : List Char := s.map fun u => Char.ofNat u.toNat

theorem trim_eq (s : Text) : trim s = (s.dropWhile isSpace).rdropWhile isSpace := rfl

/-- What has lost no unit is the text. -/
theorem trim_eq_of_length {s : Text} (h : s.length ≤ (trim s).length) : trim s = s := by
  have hright := List.rdropWhile_prefix isSpace (l := s.dropWhile isSpace)
  have hleft := List.dropWhile_suffix isSpace (l := s)
  rw [trim_eq] at h ⊢
  have hdrop : s.dropWhile isSpace = s := hleft.eq_of_length_le (h.trans hright.length_le)
  rw [hdrop] at hright h ⊢
  exact hright.eq_of_length_le h

theorem dropWhile_eq_self_iff {s : Text} :
    s.dropWhile isSpace = s ↔ ∀ u ∈ s.head?, isSpace u = false := by
  cases s with
  | nil => simp
  | cons u s =>
      cases hu : isSpace u with
      | false => simp [hu]
      | true =>
          rw [List.dropWhile_cons_of_pos hu]
          constructor
          · intro h
            have hle := (List.dropWhile_suffix isSpace (l := s)).length_le
            rw [h, List.length_cons] at hle
            omega
          · intro h
            rw [h u rfl] at hu
            cases hu

theorem rdropWhile_eq_self_iff {s : Text} :
    s.rdropWhile isSpace = s ↔ ∀ u ∈ s.getLast?, isSpace u = false := by
  rw [List.rdropWhile_eq_self_iff]
  constructor
  · intro h u hu
    obtain ⟨hne, rfl⟩ := List.mem_getLast?_eq_getLast hu
    simpa using h hne
  · intro h hne
    simp [h _ (List.getLast?_eq_getLast_of_ne_nil hne)]

theorem trim_eq_self_iff {s : Text} : trim s = s ↔
    (∀ u ∈ s.head?, isSpace u = false) ∧ ∀ u ∈ s.getLast?, isSpace u = false := by
  rw [← dropWhile_eq_self_iff, ← rdropWhile_eq_self_iff, trim_eq]
  constructor
  · intro h
    have hleft := List.dropWhile_suffix isSpace (l := s)
    have hright := List.rdropWhile_prefix isSpace (l := s.dropWhile isSpace)
    have hdrop : s.dropWhile isSpace = s := by
      apply hleft.eq_of_length_le
      rw [← congrArg List.length h]
      exact hright.length_le
    rw [hdrop] at h
    exact ⟨hdrop, h⟩
  · intro h
    rw [h.1, h.2]

theorem trim_eq_self {s : Text} (h : ∀ u ∈ s, isSpace u = false) : trim s = s := by
  rw [trim_eq_self_iff]
  constructor
  · intro u hu
    exact h u (List.mem_of_mem_head? hu)
  · intro u hu
    exact h u (List.mem_of_mem_getLast? hu)

/-- No white space stands in front of a trimmed text. -/
theorem head_trim (s : Text) : ∀ u ∈ (trim s).head?, isSpace u = false := by
  intro u hu
  have hright := List.rdropWhile_prefix isSpace (l := s.dropWhile isSpace)
  rw [← trim_eq] at hright
  obtain ⟨rest, hrest⟩ := hright
  cases htrim : trim s with
  | nil =>
      rw [htrim] at hu
      cases hu
  | cons v t =>
      rw [htrim, List.head?_cons, Option.mem_some_iff] at hu
      subst hu
      rw [htrim, List.cons_append] at hrest
      have hhead := List.head?_dropWhile_not isSpace s
      rw [← hrest] at hhead
      simpa using hhead

/-! ## Characters one by one -/

section CodePoints
variable {s : Text} {keep : UInt16 → Bool}

/-- A loop that looks at no pairs and skips what it does not keep meets the units kept. -/
theorem codePoints_filter (hpair : ∀ u, keep u → isHigh u = false) (hlow : ∀ u, keep u → isLow u = false)
    (s : Text) : (codePoints s).filter (fun p => p.any keep) = (s.filter keep).map fun u => [u] := by
  induction s using codePoints.induct with
  | case1 => rfl
  | case2 u =>
      rw [codePoints]
      cases hu : keep u <;> simp [hu]
  | case3 u v rest hsurrogate ih =>
      rw [Bool.and_eq_true] at hsurrogate
      have hu : keep u = false := by
        by_contra h
        rw [hpair u (by simpa using h)] at hsurrogate
        cases hsurrogate.1
      have hv : keep v = false := by
        by_contra h
        rw [hlow v (by simpa using h)] at hsurrogate
        cases hsurrogate.2
      rw [codePoints, if_pos (Bool.and_eq_true _ _ ▸ hsurrogate), List.filter_cons]
      simp [hu, hv, ih]
  | case4 u v rest hsurrogate ih =>
      rw [codePoints, if_neg hsurrogate, List.filter_cons]
      cases hu : keep u <;> simp [hu, ih]

theorem flatten_codePoints (s : Text) : (codePoints s).flatten = s := by
  induction s using codePoints.induct with
  | case1 => rfl
  | case2 u => rfl
  | case3 u v rest hsurrogate ih =>
      rw [codePoints, if_pos hsurrogate, List.flatten_cons, ih]
      rfl
  | case4 u v rest hsurrogate ih =>
      rw [codePoints, if_neg hsurrogate, List.flatten_cons, ih]
      rfl

theorem length_scrub (s : Text) : (scrub s).length = s.length := by
  have hpoint : ∀ p : Text, (scrubPoint p).length = p.length := by
    intro p
    unfold scrubPoint
    split
    · split_ifs <;> rfl
    · rfl
  rw [scrub, List.length_flatMap, List.map_congr_left fun p _ => hpoint p, ← List.length_flatten,
    flatten_codePoints]

theorem wellFormed_nil : WellFormed [] := rfl

theorem wellFormed_of_units (h : ∀ u ∈ s, isHigh u = false ∧ isLow u = false) : WellFormed s := by
  unfold WellFormed scrub
  induction s using codePoints.induct with
  | case1 => rfl
  | case2 u => simp [codePoints, scrubPoint, h u List.mem_cons_self]
  | case3 u v rest hsurrogate ih =>
      rw [Bool.and_eq_true] at hsurrogate
      have hu := h u List.mem_cons_self
      rw [hsurrogate.1] at hu
      cases hu.1
  | case4 u v rest hsurrogate ih =>
      have hrest := ih fun w hw => h w (List.mem_cons_of_mem _ hw)
      rw [codePoints, if_neg hsurrogate, List.flatMap_cons, hrest]
      simp [scrubPoint, h u List.mem_cons_self]

/-- A character is one unit or two. -/
theorem codePoints_shape (s : Text) :
    ∀ p ∈ codePoints s, (∃ u, p = [u]) ∨ ∃ u v, p = [u, v] ∧ isHigh u ∧ isLow v := by
  induction s using codePoints.induct with
  | case1 => simp [codePoints]
  | case2 u => simp [codePoints]
  | case3 u v rest hsurrogate ih =>
      rw [codePoints, if_pos hsurrogate]
      intro p hp
      rcases List.mem_cons.mp hp with rfl | hp
      · rw [Bool.and_eq_true] at hsurrogate
        exact .inr ⟨u, v, rfl, hsurrogate.1, hsurrogate.2⟩
      · exact ih p hp
  | case4 u v rest hsurrogate ih =>
      rw [codePoints, if_neg hsurrogate]
      intro p hp
      rcases List.mem_cons.mp hp with rfl | hp
      · exact .inl ⟨u, rfl⟩
      · exact ih p hp

end CodePoints

end Library.Utf16
