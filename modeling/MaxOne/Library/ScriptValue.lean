import MaxOne.Library.Binary64

/-!
# Values of a scripting language

What a JSON text parses to, and what a table of message headers holds: null, a
truth value, a number, a text, an array or an object. `get` reads a property,
`truthy` is the test of a condition and `toNumber` the coercion to a number,
which fails on an object whose own `toString` hides the inherited one.
-/
namespace Library.ScriptValue
open Library.Binary64

inductive Value where
  | null
  | bool (b : Bool)
  | number (n : Number)
  | text (s : String)
  | array (items : List Value)
  | object (fields : List (String × Value))

/-! ## Texts of numbers -/

/-- The white space and line terminators that a coercion trims. -/
def isSpace (c : Char) : Bool :=
  c.val ∈ [0x9, 0xA, 0xB, 0xC, 0xD, 0x20, 0xA0, 0x1680, 0x2028, 0x2029, 0x202F, 0x205F, 0x3000, 0xFEFF] ||
    (0x2000 ≤ c.val && c.val ≤ 0x200A)

def trim (cs : List Char) : List Char :=
  ((cs.dropWhile isSpace).reverse.dropWhile isSpace).reverse

def digit (c : Char) : Option ℕ :=
  if c.isDigit then some (c.toNat - '0'.toNat)
  else if 'a' ≤ c ∧ c ≤ 'f' then some (c.toNat - 'a'.toNat + 10)
  else if 'A' ≤ c ∧ c ≤ 'F' then some (c.toNat - 'A'.toNat + 10)
  else none

/-- At least one digit of the base and nothing else. -/
def natural (base : ℕ) : List Char → Option ℕ
  | [] => none
  | cs => cs.foldl (fun acc c => do
      let n ← acc
      let d ← digit c
      if d < base then some (n * base + d) else none) (some 0)

def signed (cs : List Char) : Option ℤ :=
  match cs with
  | '-' :: cs => (natural 10 cs).map fun n => -(n : ℤ)
  | '+' :: cs => (natural 10 cs).map fun n => (n : ℤ)
  | cs => (natural 10 cs).map fun n => (n : ℤ)

def exponent : List Char → Option ℤ
  | [] => some 0
  | 'e' :: cs => signed cs
  | 'E' :: cs => signed cs
  | _ => none

/-- `12`, `12.`, `12.5`, `.5`, each with an optional exponent. -/
def decimal (cs : List Char) : Option ℚ :=
  let (whole, rest) := cs.span Char.isDigit
  let (fraction, rest) := match rest with
    | '.' :: rest => rest.span Char.isDigit
    | rest => ([], rest)
  do
    let mantissa ← natural 10 (whole ++ fraction)
    let e ← exponent rest
    some (mantissa * 10 ^ (e - fraction.length))

def numeral (cs : List Char) : Number :=
  match cs with
  | [] => .finite 0
  | '0' :: 'x' :: cs | '0' :: 'X' :: cs => ((natural 16 cs).map ofNat).getD .nan
  | '0' :: 'o' :: cs | '0' :: 'O' :: cs => ((natural 8 cs).map ofNat).getD .nan
  | '0' :: 'b' :: cs | '0' :: 'B' :: cs => ((natural 2 cs).map ofNat).getD .nan
  | '-' :: cs =>
      if cs = "Infinity".toList then .infinity true
      else ((decimal cs).map fun q => ofRat (-q)).getD .nan
  | '+' :: cs =>
      if cs = "Infinity".toList then .infinity false else ((decimal cs).map ofRat).getD .nan
  | cs => if cs = "Infinity".toList then .infinity false else ((decimal cs).map ofRat).getD .nan

/-- `Number(s)` of a text. -/
def ofText (s : String) : Number := numeral (trim s.toList)

/-! ## Properties and coercions -/

namespace Value

/-- A property; of a field given twice the last one counts. -/
def get (v : Value) (key : String) : Option Value :=
  match v with
  | object fields => fields.reverse.lookup key
  | _ => none

def truthy : Value → Bool
  | null => false
  | bool b => b
  | number n => n ≠ .finite 0 ∧ n ≠ .nan
  | text s => s ≠ ""
  | array _ => true
  | object _ => true

def text? : Value → Option String
  | text s => some s
  | _ => none

mutual

/-- `String(v)` does not throw. -/
def printable : Value → Bool
  | null => true
  | bool _ => true
  | number _ => true
  | text _ => true
  | array items => allPrintable items
  | object fields => (fields.lookup "toString").isNone

def allPrintable : List Value → Bool
  | [] => true
  | v :: vs => v.printable && allPrintable vs

end

/-- `Number(String([v]))`: two items or more leave a comma in the text. -/
def numberOfItem : Value → Number
  | null => .finite 0
  | bool _ => .nan
  | number n => n
  | text s => ofText s
  | array [] => .finite 0
  | array [v] => numberOfItem v
  | array (_ :: _ :: _) => .nan
  | object _ => .nan

/-- `Number(v)`; `none` is a TypeError. -/
def toNumber (v : Value) : Option Number :=
  match v with
  | null => some (.finite 0)
  | bool b => some (.finite (if b then 1 else 0))
  | number n => some n
  | text s => some (ofText s)
  | array items => if allPrintable items then some (numberOfItem (array items)) else none
  | object fields => if (object fields).printable then some .nan else none

end Value

end Library.ScriptValue
