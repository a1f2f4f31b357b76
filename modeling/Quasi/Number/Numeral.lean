import Quasi.Number.Shortest
import Quasi.Text.Digit

/-!
# Numerals

A numeral is an optional sign, digits with at most one point among them, and an optional power of
ten. `Numeral.read?` is this grammar, `Numeral.value` the number it denotes. Names that could be
taken for a number, and the numbers of settings, follow the looser rules of `number?` and
`integer?`: surrounding blanks, digit groups joined by underscores and the words for the
infinities and NaN are allowed as well.
-/

namespace Quasi

open Text

structure Numeral where
  negative : Bool
  whole : List Char
  fraction : List Char
  pointed : Bool
  exponent : Option Int
deriving DecidableEq, Repr

namespace Numeral

/-- An optional sign and what follows it. -/
def sign : List Char → Bool × List Char
  | '-' :: rest => (true, rest)
  | '+' :: rest => (false, rest)
  | text => (false, text)

/-- The power of ten at the end of a numeral: the letter, an optional sign and digits. -/
def exponent? : List Char → Option (Option Int)
  | [] => some none
  | letter :: rest =>
      if letter = 'e' ∨ letter = 'E' then
        let (negative, digits) := sign rest
        if digits ≠ [] ∧ digits.all isDecimal then
          some (some (if negative then -(numeralValue digits : Int) else numeralValue digits))
        else none
      else none

/-- The numeral that the whole text is. -/
def read? (text : List Char) : Option Numeral :=
  let (negative, unsigned) := sign text
  let whole := unsigned.takeWhile isDecimal
  let rest := unsigned.dropWhile isDecimal
  let (pointed, fraction, rest) :=
    match rest with
    | '.' :: tail => (true, tail.takeWhile isDecimal, tail.dropWhile isDecimal)
    | _ => (false, [], rest)
  if whole = [] ∧ fraction = [] then none
  else (exponent? rest).map (⟨negative, whole, fraction, pointed, ·⟩)

/-- Whether the numeral has digits only, and so denotes an integer. -/
def isIntegral (n : Numeral) : Bool := !n.pointed && n.exponent.isNone

/-- The integer whose digits are those of an integral numeral. -/
def intValue (n : Numeral) : Int :=
  if n.negative then -(numeralValue n.whole : Int) else numeralValue n.whole

/-- The binary64 number nearest to `digits * 10 ^ exponent`. Powers far outside the range of the
format are not computed. -/
def round (negative : Bool) (digits : Nat) (exponent : Int) : Binary64 :=
  let size : Int := (Nat.toDigits 10 digits).length + exponent
  if digits = 0 ∨ size < -400 then Binary64.ofMagnitude negative 0
  else if 400 < size then Binary64.infinity negative
  else if exponent < 0 then Binary64.ofRatio negative digits (Nat.pow 10 (-exponent).toNat)
  else Binary64.ofRatio negative (digits * Nat.pow 10 exponent.toNat) 1

/-- The binary64 number nearest to the value of a numeral. -/
def value (n : Numeral) : Binary64 :=
  round n.negative (numeralValue (n.whole ++ n.fraction))
    (n.exponent.getD 0 - n.fraction.length)

/-! ## Looser spellings -/

/-- The text without underscores, each of which has to stand between two digits. -/
def joinGroups? (text : List Char) : Option (List Char) :=
  go none text
where
  go : Option Char → List Char → Option (List Char)
    | previous, [] => if previous = some '_' then none else some []
    | previous, '_' :: rest =>
        if (previous.map Char.isDigit).getD false then go (some '_') rest else none
    | previous, c :: rest =>
        if previous = some '_' ∧ ¬ c.isDigit then none else (go (some c) rest).map (c :: ·)

/-- The text with digits and blanks in ASCII and without blanks at its ends. -/
def asciiForm (text : String) : List Char :=
  let ascii := text.toList.map fun c =>
    if c.toNat < 0x80 then c else if isBlank c then ' ' else toAsciiDigit c
  trim isAsciiBlank ascii

/-- The words for numbers that have no digits. -/
def word? (text : List Char) : Option Binary64 :=
  let (negative, letters) := sign text
  let word := String.ofList (letters.map Char.toLower)
  if word = "inf" ∨ word = "infinity" then some (Binary64.infinity negative)
  else if word = "nan" then some Binary64.nan
  else none

/-- The number that a text denotes under the looser rules. -/
def number? (text : String) : Option Binary64 := do
  let plain ← joinGroups? (asciiForm text)
  match word? plain with
  | some x => some x
  | none => (read? plain).map value

/-- The integer that a text denotes under the looser rules. -/
def integer? (text : String) : Option Int := do
  let (negative, digits) := sign (asciiForm text)
  let digits ← joinGroups? digits
  if digits ≠ [] ∧ digits.all Char.isDigit then
    some (if negative then -(numeralValue digits : Int) else numeralValue digits)
  else none

example : (read? "1.5e3".toList).map value = some (Binary64.ofRatio false 1500 1) := by
  decide +kernel
example : integer? " 1_0 " = some 10 := by decide +kernel
example : integer? "1__0" = none := by decide +kernel
example : (number? "e5").isNone := by decide +kernel

end Numeral

/-! ## Writing -/

namespace Decimal

/-- The digits left and right of the decimal point. -/
def positional (d : Decimal) : List Char × List Char :=
  let digits := d.text
  let point := d.point
  if point ≤ 0 then (['0'], List.replicate (-point).toNat '0' ++ digits)
  else
    let left := point.toNat
    (digits.take left ++ List.replicate (left - digits.length) '0', digits.drop left)

/-- A power of ten: its letter, its sign and at least two digits. -/
def exponentText (exponent : Int) : List Char :=
  let digits := Nat.toDigits 10 exponent.natAbs
  'e' :: (if exponent < 0 then '-' else '+') :: List.replicate (2 - digits.length) '0' ++ digits

end Decimal

namespace Binary64

/-- How numbers are written: by the shortest decimal, positionally while the first digit stands
between the fourth place after the point and the sixteenth before it, and always with a point or a
power of ten. -/
def text (x : Binary64) : String :=
  if x.isNaN then "nan"
  else
    let body :=
      if x.isInfinite then "inf".toList
      else
        let d := x.shortest
        let leading := d.point - 1
        if leading < -4 ∨ 16 ≤ leading then
          match d.text with
          | first :: [] => first :: Decimal.exponentText leading
          | first :: others => first :: '.' :: others ++ Decimal.exponentText leading
          | [] => []
        else
          let (whole, fraction) := d.positional
          whole ++ '.' :: (if fraction = [] then ['0'] else fraction)
    String.ofList (if x.negative then '-' :: body else body)

example : (ofRatio false 1 10).text = "0.1" := by decide +kernel
example : (ofRatio true 1 100000).text = "-1e-05" := by decide +kernel
example : (ofRatio false 10000000000000000 1).text = "1e+16" := by decide +kernel
example : (ofRatio false 1234 1).text = "1234.0" := by decide +kernel

end Binary64

end Quasi
