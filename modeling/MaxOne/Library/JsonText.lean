import MaxOne.Library.NumberText

/-!
# JSON texts

`stringify` writes a value without white space, `parse` reads a text with any. The
texts of numbers are those of a `NumberFormat`: which numbers come back from their
text is part of it. A field given twice keeps its place and takes the later value.
What `stringify` writes is read back as it was (`parse_stringify`), so two values
never share a text.
-/
namespace Library.JsonText
open Library.Binary64 Library.ScriptValue

/-! ## Writing -/

def quotation : Char := Char.ofNat 0x22

def backslash : Char := Char.ofNat 0x5C

def backspace : Char := Char.ofNat 0x08

def formFeed : Char := Char.ofNat 0x0C

def hexDigit (n : ℕ) : Char := if n < 10 then Char.ofNat (n + 48) else Char.ofNat (n + 87)

/-- The escapes of `JSON.stringify`; the other control characters are `\u00..`. -/
def escape (c : Char) : List Char :=
  if c = quotation then [backslash, quotation]
  else if c = backslash then [backslash, backslash]
  else if c = backspace then [backslash, 'b']
  else if c = formFeed then [backslash, 'f']
  else if c = '\n' then [backslash, 'n']
  else if c = '\r' then [backslash, 'r']
  else if c = '\t' then [backslash, 't']
  else if c.toNat < 0x20 then
    [backslash, 'u', '0', '0', hexDigit (c.toNat / 16), hexDigit (c.toNat % 16)]
  else [c]

def quote (s : String) : List Char := quotation :: s.toList.flatMap escape ++ [quotation]

def isNumberChar (c : Char) : Bool :=
  c.isDigit || c = '-' || c = '+' || c = '.' || c = 'e' || c = 'E'

/-- How numbers are written and read; `exact` are the numbers that come back. -/
structure NumberFormat where
  print : Number → List Char
  read : List Char → Option Number
  exact : Number → Prop
  print_chars : ∀ n, exact n → ∀ c ∈ print n, isNumberChar c = true
  print_ne_nil : ∀ n, exact n → print n ≠ []
  read_print : ∀ n, exact n → read (print n) = some n

mutual

def write (f : NumberFormat) : Value → List Char
  | .null => "null".toList
  | .bool true => "true".toList
  | .bool false => "false".toList
  | .number n => f.print n
  | .text s => quote s
  | .array items => '[' :: [','].intercalate (writeItems f items) ++ [']']
  | .object fields => '{' :: [','].intercalate (writeFields f fields) ++ ['}']

def writeItems (f : NumberFormat) : List Value → List (List Char)
  | [] => []
  | v :: vs => write f v :: writeItems f vs

def writeFields (f : NumberFormat) : List (String × Value) → List (List Char)
  | [] => []
  | (k, v) :: fs => (quote k ++ ':' :: write f v) :: writeFields f fs

end

def stringify (f : NumberFormat) (v : Value) : String := String.ofList (write f v)

/-! ## Reading -/

def isSpace (c : Char) : Bool := c = ' ' || c = '\n' || c = '\r' || c = '\t'

def skipSpace : List Char → List Char := List.dropWhile isSpace

def hexValue (c : Char) : Option ℕ := (digit c).filter (· < 16)

def hex4 (a b c d : Char) : Option ℕ := do
  let a ← hexValue a
  let b ← hexValue b
  let c ← hexValue c
  let d ← hexValue d
  some (((a * 16 + b) * 16 + c) * 16 + d)

def unescape (e : Char) : Option Char :=
  if e = quotation then some quotation
  else if e = backslash then some backslash
  else if e = '/' then some '/'
  else if e = 'b' then some backspace
  else if e = 'f' then some formFeed
  else if e = 'n' then some '\n'
  else if e = 'r' then some '\r'
  else if e = 't' then some '\t'
  else none

/-- The code point of a unit, or of a pair of which this is the first. -/
def codePoint (unit : ℕ) (rest : List Char) : Option (Char × List Char) :=
  if unit < 0xD800 ∨ 0xE000 ≤ unit then some (Char.ofNat unit, rest)
  else match rest with
    | x :: 'u' :: a :: b :: c :: d :: rest => do
        let low ← hex4 a b c d
        if x = backslash ∧ unit < 0xDC00 ∧ 0xDC00 ≤ low ∧ low < 0xE000 then
          some (Char.ofNat (0x10000 + (unit - 0xD800) * 0x400 + (low - 0xDC00)), rest)
        else none
    | _ => none

/-- One character of a text, or one escape. -/
def character : List Char → Option (Char × List Char)
  | [] => none
  | c :: rest =>
      if c = backslash then
        match rest with
        | 'u' :: a :: b :: c :: d :: rest => (hex4 a b c d).bind fun unit => codePoint unit rest
        | e :: rest => (unescape e).map fun c => (c, rest)
        | [] => none
      else if c.toNat < 0x20 then none
      else some (c, rest)

/-- The rest of a text, after its opening quotation mark. -/
def characters : ℕ → List Char → Option (List Char × List Char)
  | 0, _ => none
  | _ + 1, [] => none
  | n + 1, c :: rest =>
      if c = quotation then some ([], rest)
      else do
        let (x, rest) ← character (c :: rest)
        let (xs, rest) ← characters n rest
        some (x :: xs, rest)

def number (f : NumberFormat) (cs : List Char) : Option (Value × List Char) :=
  let (token, rest) := cs.span isNumberChar
  (f.read token).map fun n => (.number n, rest)

/-- A field given again takes the later value where it stands. -/
def assign (fields : List (String × Value)) (field : String × Value) : List (String × Value) :=
  if field.1 ∈ fields.map Prod.fst then
    fields.map fun other => if other.1 = field.1 then field else other
  else fields ++ [field]

mutual

def value (f : NumberFormat) : ℕ → List Char → Option (Value × List Char)
  | 0, _ => none
  | n + 1, cs =>
      match skipSpace cs with
      | 'n' :: 'u' :: 'l' :: 'l' :: rest => some (.null, rest)
      | 't' :: 'r' :: 'u' :: 'e' :: rest => some (.bool true, rest)
      | 'f' :: 'a' :: 'l' :: 's' :: 'e' :: rest => some (.bool false, rest)
      | '[' :: rest =>
          match skipSpace rest with
          | ']' :: rest => some (.array [], rest)
          | rest => (items f n rest).map fun r => (.array r.1, r.2)
      | '{' :: rest =>
          match skipSpace rest with
          | '}' :: rest => some (.object [], rest)
          | rest => (fields f n rest).map fun r => (.object (r.1.foldl assign []), r.2)
      | c :: rest =>
          if c = quotation then
            (characters n rest).map fun r => (.text (String.ofList r.1), r.2)
          else number f (c :: rest)
      | [] => none

def items (f : NumberFormat) : ℕ → List Char → Option (List Value × List Char)
  | 0, _ => none
  | n + 1, cs => do
      let (v, rest) ← value f n cs
      match skipSpace rest with
      | ',' :: rest => (items f n rest).map fun r => (v :: r.1, r.2)
      | ']' :: rest => some ([v], rest)
      | _ => none

def fields (f : NumberFormat) : ℕ → List Char → Option (List (String × Value) × List Char)
  | 0, _ => none
  | n + 1, cs =>
      match skipSpace cs with
      | [] => none
      | c :: rest =>
          if c = quotation then do
            let (k, rest) ← characters n rest
            match skipSpace rest with
            | ':' :: rest => do
                let (v, rest) ← value f n rest
                match skipSpace rest with
                | ',' :: rest =>
                    (fields f n rest).map fun r => ((String.ofList k, v) :: r.1, r.2)
                | '}' :: rest => some ([(String.ofList k, v)], rest)
                | _ => none
            | _ => none
          else none

end

/-- `none` is a SyntaxError. -/
def parse (f : NumberFormat) (s : String) : Option Value := do
  let (v, rest) ← value f (s.length + 1) s.toList
  if skipSpace rest = [] then some v else none

/-! ## Texts come back -/

section Text
variable {c : Char} {cs rest : List Char}

theorem hexValue_hexDigit {n : ℕ} (h : n < 16) : hexValue (hexDigit n) = some n := by
  interval_cases n <;> decide

theorem skipSpace_cons (h : isSpace c = false) : skipSpace (c :: rest) = c :: rest := by
  rw [skipSpace, List.dropWhile_cons_of_neg (by rw [h]; decide)]

theorem escape_length_pos (c : Char) : 0 < (escape c).length := by
  unfold escape
  split_ifs <;> exact Nat.succ_pos _

theorem escape_head (c : Char) : ∃ x xs, escape c = x :: xs ∧ x ≠ quotation := by
  unfold escape
  split_ifs with hquotation
  · exact ⟨_, _, rfl, by decide⟩
  · exact ⟨_, _, rfl, by decide⟩
  · exact ⟨_, _, rfl, by decide⟩
  · exact ⟨_, _, rfl, by decide⟩
  · exact ⟨_, _, rfl, by decide⟩
  · exact ⟨_, _, rfl, by decide⟩
  · exact ⟨_, _, rfl, by decide⟩
  · exact ⟨_, _, rfl, by decide⟩
  · exact ⟨_, _, rfl, hquotation⟩

theorem character_control (h : c.toNat < 0x20) :
    character (backslash :: 'u' :: '0' :: '0' :: hexDigit (c.toNat / 16) ::
      hexDigit (c.toNat % 16) :: rest) = some (c, rest) := by
  have hzero : hexValue '0' = some 0 := by decide
  have hhigh : hexValue (hexDigit (c.toNat / 16)) = some (c.toNat / 16) :=
    hexValue_hexDigit (by omega)
  have hlow : hexValue (hexDigit (c.toNat % 16)) = some (c.toNat % 16) :=
    hexValue_hexDigit (Nat.mod_lt _ (by decide))
  have hunit : hex4 '0' '0' (hexDigit (c.toNat / 16)) (hexDigit (c.toNat % 16)) =
      some c.toNat := by
    simp only [hex4, hzero, hhigh, hlow, Option.bind_eq_bind, Option.bind_some]
    congr 1
    omega
  have hplain : c.toNat < 0xD800 ∨ 0xE000 ≤ c.toNat := .inl (by omega)
  simp only [character, if_true, hunit, Option.bind_some, codePoint, if_pos hplain,
    Char.ofNat_toNat]

/-- An escaped character is one character again. -/
theorem character_escape (c : Char) : character (escape c ++ rest) = some (c, rest) := by
  unfold escape
  split_ifs with h₁ h₂ h₃ h₄ h₅ h₆ h₇ h₈
  · rw [h₁]
    rfl
  · rw [h₂]
    rfl
  · rw [h₃]
    rfl
  · rw [h₄]
    rfl
  · rw [h₅]
    rfl
  · rw [h₆]
    rfl
  · rw [h₇]
    rfl
  · exact character_control h₈
  · simp only [List.cons_append, List.nil_append, character, if_neg h₂, if_neg h₈]

theorem length_le_escaped (cs : List Char) : cs.length ≤ (cs.flatMap escape).length := by
  induction cs with
  | nil => exact Nat.zero_le _
  | cons c cs ih =>
      rw [List.flatMap_cons, List.length_append, List.length_cons]
      have hpos := escape_length_pos c
      omega

/-- A text up to its closing quotation mark. -/
theorem characters_escaped {n : ℕ} (h : cs.length < n) :
    characters n (cs.flatMap escape ++ quotation :: rest) = some (cs, rest) := by
  induction cs generalizing n with
  | nil =>
      obtain ⟨n, rfl⟩ := Nat.exists_eq_succ_of_ne_zero (Nat.ne_of_gt h)
      simp only [List.flatMap_nil, List.nil_append, characters, if_true]
  | cons c cs ih =>
      obtain ⟨n, rfl⟩ := Nat.exists_eq_succ_of_ne_zero (Nat.ne_of_gt (Nat.zero_lt_of_lt h))
      obtain ⟨x, xs, hescape, hx⟩ := escape_head c
      have hread := @character_escape (cs.flatMap escape ++ quotation :: rest) c
      rw [hescape, List.cons_append] at hread
      rw [List.flatMap_cons, hescape, List.cons_append, List.cons_append, List.append_assoc,
        characters, if_neg hx, hread]
      simp only [Option.bind_eq_bind, Option.bind_some, ih (Nat.lt_of_succ_lt_succ h)]

end Text

/-! ## Values come back -/

mutual

/-- Every number comes back from its text, and no object has a field twice. -/
def Exact (f : NumberFormat) : Value → Prop
  | .number n => f.exact n
  | .array items => ItemsExact f items
  | .object fields => (fields.map Prod.fst).Nodup ∧ FieldsExact f fields
  | .null | .bool _ | .text _ => True

def ItemsExact (f : NumberFormat) : List Value → Prop
  | [] => True
  | v :: vs => Exact f v ∧ ItemsExact f vs

def FieldsExact (f : NumberFormat) : List (String × Value) → Prop
  | [] => True
  | (_, v) :: fs => Exact f v ∧ FieldsExact f fs

end

/-- The text that follows a number does not continue it. -/
def Stops (rest : List Char) : Prop := ∀ c ∈ rest.head?, isNumberChar c = false

section Value
variable {f : NumberFormat} {v : Value} {rest : List Char}

theorem joined_single (x : List Char) : [','].intercalate [x] = x := by
  simp [List.intercalate]

theorem joined_cons (x y : List Char) (ys : List (List Char)) :
    [','].intercalate (x :: y :: ys) = x ++ ',' :: [','].intercalate (y :: ys) := by
  simp [List.intercalate, List.intersperse]

theorem number_char {c : Char} (h : isNumberChar c = true) :
    isSpace c = false ∧ c ≠ 'n' ∧ c ≠ 't' ∧ c ≠ 'f' ∧ c ≠ '[' ∧ c ≠ '{' ∧ c ≠ ']' ∧ c ≠ '}' ∧
      c ≠ quotation := by
  have hnot : ∀ d : Char, isNumberChar d = false → c ≠ d := by
    rintro d hd rfl
    rw [h] at hd
    cases hd
  refine ⟨?_, hnot _ (by decide), hnot _ (by decide), hnot _ (by decide), hnot _ (by decide),
    hnot _ (by decide), hnot _ (by decide), hnot _ (by decide), hnot _ (by decide)⟩
  simp only [isSpace, Bool.or_eq_false_iff, decide_eq_false_iff_not]
  exact ⟨⟨⟨hnot _ (by decide), hnot _ (by decide)⟩, hnot _ (by decide)⟩, hnot _ (by decide)⟩

theorem print_head {n : Number} (h : f.exact n) :
    ∃ c cs, f.print n = c :: cs ∧ isNumberChar c = true := by
  cases hprint : f.print n with
  | nil => exact absurd hprint (f.print_ne_nil n h)
  | cons c cs => exact ⟨c, cs, rfl, f.print_chars n h c (hprint ▸ List.mem_cons_self)⟩

/-- No value starts with white space or closes a list. -/
theorem write_head (h : Exact f v) :
    ∃ c cs, write f v = c :: cs ∧ isSpace c = false ∧ c ≠ ']' ∧ c ≠ '}' := by
  cases v with
  | null => exact ⟨_, _, rfl, by decide, by decide, by decide⟩
  | bool b => cases b <;> exact ⟨_, _, rfl, by decide, by decide, by decide⟩
  | number n =>
      obtain ⟨c, cs, hprint, hc⟩ := print_head (f := f) (n := n) h
      obtain ⟨hspace, -, -, -, -, -, harray, hobject, -⟩ := number_char hc
      exact ⟨c, cs, hprint, hspace, harray, hobject⟩
  | text s => exact ⟨_, _, rfl, by decide, by decide, by decide⟩
  | array items => exact ⟨_, _, rfl, by decide, by decide, by decide⟩
  | object fields => exact ⟨_, _, rfl, by decide, by decide, by decide⟩

theorem span_print {n : Number} (h : f.exact n) (hrest : Stops rest) :
    (f.print n ++ rest).span isNumberChar = (f.print n, rest) := by
  have hchars := f.print_chars n h
  generalize f.print n = cs at hchars
  rw [List.span_eq_takeWhile_dropWhile]
  have htake : rest.takeWhile isNumberChar = [] ∧ rest.dropWhile isNumberChar = rest := by
    cases rest with
    | nil => exact ⟨rfl, rfl⟩
    | cons c rest =>
        have hc := hrest c rfl
        exact ⟨List.takeWhile_cons_of_neg (by rw [hc]; decide),
          List.dropWhile_cons_of_neg (by rw [hc]; decide)⟩
  rw [List.takeWhile_append_of_pos hchars, List.dropWhile_append_of_pos hchars, htake.1, htake.2,
    List.append_nil]

theorem value_number {n : Number} {m : ℕ} (h : f.exact n) (hrest : Stops rest) :
    value f (m + 1) (f.print n ++ rest) = some (.number n, rest) := by
  obtain ⟨c, cs, hprint, hc⟩ := print_head h
  obtain ⟨hspace, hn, ht, hf, harray, hobject, -, -, hquotation⟩ := number_char hc
  have hread : number f (f.print n ++ rest) = some (.number n, rest) := by
    simp only [number, span_print h hrest, f.read_print n h, Option.map_some]
  rw [hprint, List.cons_append] at hread ⊢
  rw [value, skipSpace_cons hspace]
  split
  · next heq => exact absurd (List.cons.inj heq).1 hn
  · next heq => exact absurd (List.cons.inj heq).1 ht
  · next heq => exact absurd (List.cons.inj heq).1 hf
  · next heq => exact absurd (List.cons.inj heq).1 harray
  · next heq => exact absurd (List.cons.inj heq).1 hobject
  · next heq =>
      obtain ⟨rfl, rfl⟩ := List.cons.inj heq
      rw [if_neg hquotation]
      exact hread
  · next heq => cases heq

theorem value_text {s : String} {m : ℕ} (h : (quote s).length ≤ m + 1) :
    value f (m + 1) (quote s ++ rest) = some (.text s, rest) := by
  have hlength : s.toList.length < m := by
    have hescaped := length_le_escaped s.toList
    simp only [quote, List.length_append, List.length_cons, List.length_nil] at h
    omega
  have hread := @characters_escaped s.toList rest m hlength
  simp only [quote, List.cons_append, List.append_assoc, List.nil_append] at hread ⊢
  rw [value, skipSpace_cons (by decide)]
  split
  · next heq => exact absurd (List.cons.inj heq).1 (by decide)
  · next heq => exact absurd (List.cons.inj heq).1 (by decide)
  · next heq => exact absurd (List.cons.inj heq).1 (by decide)
  · next heq => exact absurd (List.cons.inj heq).1 (by decide)
  · next heq => exact absurd (List.cons.inj heq).1 (by decide)
  · next heq =>
      obtain ⟨rfl, rfl⟩ := List.cons.inj heq
      rw [if_pos rfl, hread, Option.map_some, String.ofList_toList]
  · next heq => cases heq

theorem assign_new {fields fs : List (String × Value)}
    (h : ((fields ++ fs).map Prod.fst).Nodup) : fs.foldl assign fields = fields ++ fs := by
  induction fs generalizing fields with
  | nil => exact (List.append_nil fields).symm
  | cons field fs ih =>
      have hnew : field.1 ∉ fields.map Prod.fst := by
        rw [List.map_append, List.map_cons, List.nodup_append] at h
        exact fun hmem => h.2.2 _ hmem _ List.mem_cons_self rfl
      have happend : fields ++ field :: fs = fields ++ [field] ++ fs := by simp
      rw [happend] at h ⊢
      rw [List.foldl_cons, assign, if_neg hnew, ih h]

theorem joined_head {c : Char} {cs : List Char} (xs : List (List Char)) :
    ∃ ds, [','].intercalate ((c :: cs) :: xs) = c :: ds := by
  cases xs with
  | nil => exact ⟨cs, joined_single _⟩
  | cons y ys => exact ⟨_, joined_cons _ _ _⟩

theorem joined_head_le (x : List Char) (xs : List (List Char)) :
    x.length ≤ ([','].intercalate (x :: xs)).length := by
  cases xs with
  | nil => rw [joined_single]
  | cons y ys =>
      rw [joined_cons, List.length_append]
      exact Nat.le_add_right _ _

theorem value_array {v : Value} {vs : List Value} {n : ℕ} (hv : Exact f v)
    (h : items f n ([','].intercalate (writeItems f (v :: vs)) ++ ']' :: rest) =
      some (v :: vs, rest)) :
    value f (n + 1) (write f (.array (v :: vs)) ++ rest) = some (.array (v :: vs), rest) := by
  obtain ⟨c, cs, hwrite, hspace, hclose, -⟩ := write_head hv
  obtain ⟨ds, hjoined⟩ := @joined_head c cs (writeItems f vs)
  have htext : write f (.array (v :: vs)) ++ rest =
      '[' :: ([','].intercalate (writeItems f (v :: vs)) ++ ']' :: rest) := by
    simp only [write, List.cons_append, List.append_assoc, List.nil_append]
  have hhead : [','].intercalate (writeItems f (v :: vs)) = c :: ds := by
    rw [writeItems, hwrite, hjoined]
  rw [htext, value, skipSpace_cons (by decide)]
  simp only
  rw [hhead, List.cons_append] at h ⊢
  rw [skipSpace_cons hspace]
  split
  · next heq => exact absurd (List.cons.inj heq).1 hclose
  · rw [h, Option.map_some]

theorem value_object {k : String} {v : Value} {fs : List (String × Value)} {n : ℕ}
    (hkeys : (((k, v) :: fs).map Prod.fst).Nodup)
    (h : fields f n ([','].intercalate (writeFields f ((k, v) :: fs)) ++ '}' :: rest) =
      some ((k, v) :: fs, rest)) :
    value f (n + 1) (write f (.object ((k, v) :: fs)) ++ rest) =
      some (.object ((k, v) :: fs), rest) := by
  have htext : write f (.object ((k, v) :: fs)) ++ rest =
      '{' :: ([','].intercalate (writeFields f ((k, v) :: fs)) ++ '}' :: rest) := by
    simp only [write, List.cons_append, List.append_assoc, List.nil_append]
  obtain ⟨ds, hjoined⟩ : ∃ ds, [','].intercalate (writeFields f ((k, v) :: fs)) =
      quotation :: ds := by
    rw [writeFields, quote, List.cons_append, List.cons_append]
    exact joined_head _
  rw [htext, value, skipSpace_cons (by decide)]
  simp only
  rw [hjoined, List.cons_append] at h ⊢
  rw [skipSpace_cons (by decide)]
  split
  · next heq => exact absurd (List.cons.inj heq).1 (by decide)
  · rw [h, Option.map_some, assign_new hkeys, List.nil_append]

theorem stops_cons {c : Char} {cs : List Char} (h : isNumberChar c = false) : Stops (c :: cs) := by
  intro d hd
  rwa [← Option.some.inj hd]

/-- A value of a list, and what follows it. -/
theorem items_step {v : Value} {vs : List Value} {n : ℕ}
    (hv : ∀ rest, Stops rest → value f n (write f v ++ rest) = some (v, rest))
    (hvs : ∀ u us, vs = u :: us → items f n ([','].intercalate (writeItems f vs) ++ ']' :: rest) =
      some (vs, rest)) :
    items f (n + 1) ([','].intercalate (writeItems f (v :: vs)) ++ ']' :: rest) =
      some (v :: vs, rest) := by
  cases vs with
  | nil =>
      have hread := hv (']' :: rest) (stops_cons (by decide))
      simp only [writeItems, joined_single, items, hread, Option.bind_eq_bind, Option.bind_some]
      rw [skipSpace_cons (by decide)]
      rfl
  | cons u us =>
      have hrest := hvs u us rfl
      simp only [writeItems] at hrest ⊢
      have hread := hv (',' :: ([','].intercalate (write f u :: writeItems f us) ++ ']' :: rest))
        (stops_cons (by decide))
      rw [joined_cons, List.append_assoc, List.cons_append, items, hread]
      simp only [Option.bind_eq_bind, Option.bind_some]
      rw [skipSpace_cons (by decide)]
      simp only [hrest, Option.map_some]

theorem fields_cons {k : String} {v : Value} {n : ℕ} {after : List Char} (hk : k.toList.length < n)
    (hv : value f n (write f v ++ after) = some (v, after)) :
    fields f (n + 1) (quote k ++ ':' :: write f v ++ after) =
      match skipSpace after with
      | ',' :: rest => (fields f n rest).map fun r => ((k, v) :: r.1, r.2)
      | '}' :: rest => some ([(k, v)], rest)
      | _ => none := by
  have hname := @characters_escaped k.toList (':' :: (write f v ++ after)) n hk
  have htext : quote k ++ ':' :: write f v ++ after =
      quotation :: (k.toList.flatMap escape ++ quotation :: ':' :: (write f v ++ after)) := by
    simp only [quote, List.cons_append, List.append_assoc, List.nil_append]
  rw [htext, fields, skipSpace_cons (by decide)]
  simp only [if_true, hname, Option.bind_eq_bind, Option.bind_some]
  rw [skipSpace_cons (by decide)]
  simp only [hv, Option.bind_some, String.ofList_toList]

theorem fields_step {k : String} {v : Value} {fs : List (String × Value)} {n : ℕ}
    (hk : k.toList.length < n)
    (hv : ∀ rest, Stops rest → value f n (write f v ++ rest) = some (v, rest))
    (hfs : ∀ u us, fs = u :: us → fields f n ([','].intercalate (writeFields f fs) ++ '}' :: rest) =
      some (fs, rest)) :
    fields f (n + 1) ([','].intercalate (writeFields f ((k, v) :: fs)) ++ '}' :: rest) =
      some ((k, v) :: fs, rest) := by
  cases fs with
  | nil =>
      simp only [writeFields, joined_single]
      rw [fields_cons hk (hv _ (stops_cons (by decide))), skipSpace_cons (by decide)]
      rfl
  | cons u us =>
      have hrest := hfs u us rfl
      obtain ⟨k', v'⟩ := u
      simp only [writeFields] at hrest ⊢
      rw [joined_cons, List.append_assoc, List.cons_append,
        fields_cons hk (hv _ (stops_cons (by decide))), skipSpace_cons (by decide)]
      simp only [hrest, Option.map_some]

/-- Reading with as much fuel as the text is long; a list also pays for its bracket. -/
theorem reads (f : NumberFormat) (n : ℕ) :
    (∀ v rest, Exact f v → Stops rest → (write f v).length ≤ n →
      value f n (write f v ++ rest) = some (v, rest)) ∧
    (∀ v vs rest, ItemsExact f (v :: vs) →
      ([','].intercalate (writeItems f (v :: vs))).length < n →
      items f n ([','].intercalate (writeItems f (v :: vs)) ++ ']' :: rest) =
        some (v :: vs, rest)) ∧
    (∀ k v fs rest, FieldsExact f ((k, v) :: fs) →
      ([','].intercalate (writeFields f ((k, v) :: fs))).length < n →
      fields f n ([','].intercalate (writeFields f ((k, v) :: fs)) ++ '}' :: rest) =
        some ((k, v) :: fs, rest)) := by
  induction n with
  | zero =>
      refine ⟨fun v rest hv _ hlen => ?_, fun v vs rest _ hlen => absurd hlen (Nat.not_lt_zero _),
        fun k v fs rest _ hlen => absurd hlen (Nat.not_lt_zero _)⟩
      obtain ⟨c, cs, hwrite, -⟩ := write_head hv
      rw [hwrite] at hlen
      cases hlen
  | succ n ih =>
      obtain ⟨ihv, ihi, ihf⟩ := ih
      refine ⟨fun v rest hv hrest hlen => ?_, fun v vs rest hvs hlen => ?_,
        fun k v fs rest hfs hlen => ?_⟩
      · cases v with
        | null => rfl
        | bool b => cases b <;> rfl
        | number m => exact value_number hv hrest
        | text s => exact value_text hlen
        | array vs =>
            cases vs with
            | nil => rfl
            | cons v vs =>
                refine value_array hv.1 (ihi v vs rest hv ?_)
                simp only [write, List.length_append, List.length_cons] at hlen
                omega
        | object fs =>
            cases fs with
            | nil => rfl
            | cons field fs =>
                obtain ⟨k, v⟩ := field
                refine value_object hv.1 (ihf k v fs rest hv.2 ?_)
                simp only [write, List.length_append, List.length_cons] at hlen
                omega
      · rw [writeItems] at hlen
        refine items_step (fun rest hrest => ihv v rest hvs.1 hrest ?_) fun u us heq => ?_
        · exact Nat.lt_succ_iff.mp ((joined_head_le _ _).trans_lt hlen)
        · subst heq
          refine ihi u us rest hvs.2 ?_
          simp only [writeItems] at hlen ⊢
          rw [joined_cons, List.length_append, List.length_cons] at hlen
          omega
      · rw [writeFields] at hlen
        have hfirst := (joined_head_le _ _).trans_lt hlen
        simp only [quote, List.length_append, List.length_cons, List.length_nil] at hfirst
        have hname := length_le_escaped k.toList
        refine fields_step (by omega) (fun rest hrest => ihv v rest hfs.1 hrest (by omega))
          fun u us heq => ?_
        subst heq
        obtain ⟨k', v'⟩ := u
        refine ihf k' v' us rest hfs.2 ?_
        simp only [writeFields] at hlen ⊢
        rw [joined_cons, List.length_append, List.length_cons] at hlen
        omega

/-- What is written is read back. -/
theorem parse_stringify (f : NumberFormat) {v : Value} (hv : Exact f v) :
    parse f (stringify f v) = some v := by
  have hread := (reads f ((write f v).length + 1)).1 v [] hv (fun c hc => nomatch hc)
    (Nat.le_succ _)
  rw [List.append_nil] at hread
  simp only [parse, stringify, String.length_ofList, String.toList_ofList, hread,
    Option.bind_eq_bind, Option.bind_some, skipSpace, List.dropWhile_nil, if_true]

/-- Two values have one text only if they are one value. -/
theorem stringify_injective (f : NumberFormat) {v u : Value} (hv : Exact f v) (hu : Exact f u)
    (h : stringify f v = stringify f u) : v = u :=
  Option.some.inj ((parse_stringify f hv).symm.trans ((congrArg (parse f) h).trans
    (parse_stringify f hu)))

end Value

/-! ## Objects are unordered -/

/-- The same value with the fields of its objects in another order, as a column of
type JSONB gives it back. -/
inductive Rearranged : Value → Value → Prop
  | refl (v : Value) : Rearranged v v
  | trans {v u w : Value} : Rearranged v u → Rearranged u w → Rearranged v w
  | fields {fs fs' : List (String × Value)} : fs.Perm fs' → Rearranged (.object fs) (.object fs')
  | field {v u : Value} (k : String) (before after : List (String × Value)) : Rearranged v u →
      Rearranged (.object (before ++ (k, v) :: after)) (.object (before ++ (k, u) :: after))
  | item {v u : Value} (before after : List Value) : Rearranged v u →
      Rearranged (.array (before ++ v :: after)) (.array (before ++ u :: after))

section Rearranged
variable {f : NumberFormat} {v u : Value} {fs : List (String × Value)}

theorem itemsExact_iff {vs : List Value} : ItemsExact f vs ↔ ∀ v ∈ vs, Exact f v := by
  induction vs with
  | nil => simp [ItemsExact]
  | cons v vs ih => simp [ItemsExact, ih]

theorem fieldsExact_iff : FieldsExact f fs ↔ ∀ field ∈ fs, Exact f field.2 := by
  induction fs with
  | nil => simp [FieldsExact]
  | cons field fs ih => simp [FieldsExact, ih]

theorem Rearranged.exact (h : Rearranged v u) (hv : Exact f v) : Exact f u := by
  induction h with
  | refl v => exact hv
  | trans _ _ ih₁ ih₂ => exact ih₂ (ih₁ hv)
  | fields hperm =>
      refine ⟨(hperm.map Prod.fst).nodup_iff.mp hv.1, fieldsExact_iff.mpr fun field hfield => ?_⟩
      exact fieldsExact_iff.mp hv.2 field (hperm.mem_iff.mpr hfield)
  | field k before after _ ih =>
      obtain ⟨hkeys, hfields⟩ := hv
      rw [fieldsExact_iff, List.forall_mem_append, List.forall_mem_cons] at hfields
      refine ⟨by simpa using hkeys, fieldsExact_iff.mpr ?_⟩
      rw [List.forall_mem_append, List.forall_mem_cons]
      exact ⟨hfields.1, ih hfields.2.1, hfields.2.2⟩
  | item before after _ ih =>
      have hitems := itemsExact_iff.mp hv
      rw [List.forall_mem_append, List.forall_mem_cons] at hitems
      refine itemsExact_iff.mpr ?_
      rw [List.forall_mem_append, List.forall_mem_cons]
      exact ⟨hitems.1, ih hitems.2.1, hitems.2.2⟩

theorem Rearranged.text {s : String} (h : Rearranged v u) (hv : v = .text s) : u = .text s := by
  induction h with
  | refl v => exact hv
  | trans _ _ ih₁ ih₂ => exact ih₂ (ih₁ hv)
  | fields | field | item => cases hv

theorem Rearranged.object (h : Rearranged v u) (hv : v = .object fs) : ∃ fs', u = .object fs' := by
  induction h generalizing fs with
  | refl v => exact ⟨fs, hv⟩
  | trans _ _ ih₁ ih₂ =>
      obtain ⟨fs', hfs'⟩ := ih₁ hv
      exact ih₂ hfs'
  | fields | field => exact ⟨_, rfl⟩
  | item => cases hv

/-- A field that is given once. -/
theorem get_object {k : String} (hkeys : (fs.map Prod.fst).Nodup) :
    (Value.object fs).get k = some v ↔ (k, v) ∈ fs := by
  have hreverse : (fs.reverse.map Prod.fst).Nodup := by
    rwa [List.map_reverse, List.nodup_reverse]
  have hmem : (k, v) ∈ fs ↔ (k, v) ∈ fs.reverse := List.mem_reverse.symm
  rw [Value.get, hmem]
  constructor
  · intro h
    obtain ⟨before, after, heq, -⟩ := List.lookup_eq_some_iff.mp h
    rw [heq]
    exact List.mem_append_right _ List.mem_cons_self
  · intro h
    obtain ⟨before, after, heq⟩ := List.append_of_mem h
    refine List.lookup_eq_some_iff.mpr ⟨before, after, heq, fun field hfield => ?_⟩
    rw [heq, List.map_append, List.map_cons, List.nodup_append] at hreverse
    simpa using Ne.symm (hreverse.2.2 field.1 (List.mem_map_of_mem hfield) k List.mem_cons_self)

theorem Rearranged.get {k : String} {x : Value} (h : Rearranged v u) (hv : Exact f v)
    (hget : v.get k = some x) : ∃ y, u.get k = some y ∧ Rearranged x y := by
  induction h generalizing x with
  | refl v => exact ⟨x, hget, .refl x⟩
  | trans hfirst _ ih₁ ih₂ =>
      obtain ⟨y, hy, hxy⟩ := ih₁ hv hget
      obtain ⟨z, hz, hyz⟩ := ih₂ (hfirst.exact hv) hy
      exact ⟨z, hz, hxy.trans hyz⟩
  | fields hperm =>
      have hkeys := (Rearranged.fields hperm).exact hv
      exact ⟨x, (get_object hkeys.1).mpr (hperm.mem_iff.mp ((get_object hv.1).mp hget)), .refl x⟩
  | @field w u j before after hwu ih =>
      have hkeys := (Rearranged.field j before after hwu).exact hv
      have hmem := (get_object hv.1).mp hget
      rcases List.mem_append.mp hmem with hbefore | hafter
      · exact ⟨x, (get_object hkeys.1).mpr (List.mem_append_left _ hbefore), .refl x⟩
      · rcases List.mem_cons.mp hafter with hhere | hafter
        · obtain ⟨rfl, rfl⟩ := Prod.mk.inj hhere
          exact ⟨u, (get_object hkeys.1).mpr (List.mem_append_right _ List.mem_cons_self), hwu⟩
        · exact ⟨x, (get_object hkeys.1).mpr
            (List.mem_append_right _ (List.mem_cons_of_mem _ hafter)), .refl x⟩
  | item => cases hget

end Rearranged

/-! ## The order of fields -/

/-- A key that is an array index: a canonical numeral below `2 ^ 32 - 1`. -/
def arrayIndex (key : String) : Option ℕ :=
  (natural 10 key.toList).filter fun n => n.repr = key && n < 2 ^ 32 - 1

/-- An object lists its array indices first, in ascending order, and the other keys as
they were added. -/
def arrange (fields : List (String × Value)) : List (String × Value) :=
  (fields.filter fun field => (arrayIndex field.1).isSome).insertionSort
      (fun x y => (arrayIndex x.1).getD 0 ≤ (arrayIndex y.1).getD 0) ++
    fields.filter fun field => !(arrayIndex field.1).isSome

mutual

/-- The value with the fields of all its objects in their order. -/
def ordered : Value → Value
  | .array items => .array (orderedItems items)
  | .object fields => .object (arrange (orderedFields fields))
  | .null => .null
  | .bool b => .bool b
  | .number n => .number n
  | .text s => .text s

def orderedItems : List Value → List Value
  | [] => []
  | v :: vs => ordered v :: orderedItems vs

def orderedFields : List (String × Value) → List (String × Value)
  | [] => []
  | (k, v) :: fs => (k, ordered v) :: orderedFields fs

end

section Ordered
variable {f : NumberFormat}

theorem arrange_perm (fields : List (String × Value)) : (arrange fields).Perm fields :=
  ((List.perm_insertionSort _ _).append_right _).trans (List.filter_append_perm _ fields)

theorem orderedFields_keys (fields : List (String × Value)) :
    (orderedFields fields).map Prod.fst = fields.map Prod.fst := by
  induction fields with
  | nil => rfl
  | cons field fields ih => rw [orderedFields, List.map_cons, List.map_cons, ih]

mutual

theorem ordered_exact : ∀ {v : Value}, Exact f v → Exact f (ordered v)
  | .array _, h => orderedItems_exact h
  | .object fields, h => by
      have hperm := arrange_perm (orderedFields fields)
      refine ⟨(hperm.map Prod.fst).nodup_iff.mpr (orderedFields_keys fields ▸ h.1), ?_⟩
      rw [fieldsExact_iff]
      intro field hfield
      exact fieldsExact_iff.mp (orderedFields_exact h.2) field (hperm.mem_iff.mp hfield)
  | .null, _ | .bool _, _ | .text _, _ => trivial
  | .number _, h => h

theorem orderedItems_exact : ∀ {vs : List Value}, ItemsExact f vs → ItemsExact f (orderedItems vs)
  | [], _ => trivial
  | _ :: _, h => ⟨ordered_exact h.1, orderedItems_exact h.2⟩

theorem orderedFields_exact : ∀ {fs : List (String × Value)}, FieldsExact f fs →
    FieldsExact f (orderedFields fs)
  | [], _ => trivial
  | (_, _) :: _, h => ⟨ordered_exact h.1, orderedFields_exact h.2⟩

end

end Ordered

/-! ## Whole numbers -/

theorem wholeText_ne_nil {z : ℕ} (h : ofNat z = .finite z) : NumberText.wholeText z ≠ [] := by
  intro hnil
  have hread : numeral (NumberText.wholeText z) = ofNat z := by
    rw [NumberText.wholeText, NumberText.numeral_digitsText, NumberText.ofNat_shortest]
  rw [hnil, h, numeral, Number.finite.injEq] at hread
  obtain rfl : z = 0 := by exact_mod_cast hread.symm
  exact absurd hnil (by decide +kernel)

/-- The number format on whole numbers that a double keeps. -/
def wholeNumbers : NumberFormat where
  print
    | .finite q => NumberText.wholeText q.num.natAbs
    | _ => "null".toList
  read cs :=
    match numeral cs with
    | .finite q => some (.finite q)
    | _ => none
  exact n := ∃ z : ℕ, ofNat z = .finite z ∧ n = .finite z
  print_chars := by
    rintro _ ⟨z, -, rfl⟩ c hc
    simp only [Rat.num_natCast, Int.natAbs_natCast] at hc
    rcases NumberText.plain_digitsText _ c hc with hdigit | rfl | rfl | rfl
    · simp [isNumberChar, hdigit]
    all_goals decide
  print_ne_nil := by
    rintro _ ⟨z, hz, rfl⟩
    simpa only [Rat.num_natCast, Int.natAbs_natCast] using wholeText_ne_nil hz
  read_print := by
    rintro _ ⟨z, hz, rfl⟩
    simp only [Rat.num_natCast, Int.natAbs_natCast]
    rw [NumberText.wholeText, NumberText.numeral_digitsText, NumberText.ofNat_shortest, hz]

end Library.JsonText
