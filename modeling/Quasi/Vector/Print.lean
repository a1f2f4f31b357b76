import Quasi.Text.Quoted
import Quasi.Vector.Basic

/-!
# Printing vectors

Elements stand side by side between brackets, all as wide as the widest. Numbers are aligned at
the point and shown with at most eight places; if they are very large, very small or far apart,
all are shown with a power of ten.
-/

namespace Quasi.VectorPrint

/-- Texts of one width, aligned at the right. -/
def alignRight (width : Nat) (text : String) : String :=
  String.ofList (List.replicate (width - text.length) ' ' ++ text.toList)

def widest (texts : List String) : Nat := texts.foldl (fun width text => max width text.length) 0

/-- The magnitude of a finite number rounded to `places` after the decimal point. -/
def roundPlaces (x : Binary64) (places : Int) : Decimal :=
  let (m, q) := x.significand
  let (num, den) := if q < 0 then (m, Nat.pow 2 (-q).toNat) else (m * Nat.pow 2 q.toNat, 1)
  let (num, den) :=
    if places < 0 then (num, den * Nat.pow 10 (-places).toNat)
    else (num * Nat.pow 10 places.toNat, den)
  Decimal.normalize ⟨Binary64.nearest num den, -places⟩

/-- The shortest decimal, cut to eight places after the point. -/
def fixedDecimal (x : Binary64) : Decimal :=
  let d := x.shortest
  if -8 ≤ d.exponent then d else roundPlaces x 8

/-- The shortest decimal, cut to nine digits. -/
def leadingDecimal (x : Binary64) : Decimal :=
  let d := x.shortest
  if d.text.length ≤ 9 then d else roundPlaces x (9 - d.point)

def signed (x : Binary64) (digits : List Char) : String :=
  String.ofList (if x.negative then '-' :: digits else digits)

/-- The part before the point and the digits after it. -/
def fixedParts (x : Binary64) : String × List Char :=
  let (whole, fraction) := (fixedDecimal x).positional
  (signed x whole, fraction)

/-- The part before the point, the digits after it, and the power of ten. -/
def scientificParts (x : Binary64) : String × List Char × Int :=
  let d := leadingDecimal x
  match d.text with
  | [] => (signed x ['0'], [], 0)
  | first :: fraction => (signed x [first], fraction, if x.isZero then 0 else d.point - 1)

def lengthOf (exponent : Int) : Nat := max 2 (Nat.toDigits 10 exponent.natAbs).length

/-- Whether the numbers are shown with powers of ten. -/
def needsPowers (xs : List Binary64) : Bool :=
  let sizes := (xs.filter fun x => x.isFinite && !x.isZero).map fun x =>
    Binary64.ofMagnitude false x.magnitude
  match sizes with
  | [] => false
  | first :: _ =>
      let least := sizes.foldl (fun a b => if b.magnitude < a.magnitude then b else a) first
      let most := sizes.foldl (fun a b => if a.magnitude < b.magnitude then b else a) first
      let below (a b : Binary64) : Bool := a.compare? b = some .lt
      !below most (Numeral.round false 1 8) || below least (Numeral.round false 1 (-4)) ||
        below (Numeral.round false 1 3) (most.div least)

/-- The text of a number that is not finite. -/
def specialText (x : Binary64) : String :=
  if x.isNaN then "nan" else if x.negative then "-inf" else "inf"

def floatTexts (xs : List Binary64) : List String :=
  let finite := xs.filter Binary64.isFinite
  let special := xs.filter fun x => !x.isFinite
  let powers := needsPowers xs
  let fixed := finite.map fixedParts
  let scientific := finite.map scientificParts
  let places := scientific.foldl (fun n part => max n part.2.1.length) 0
  let exponentSize := scientific.foldl (fun n part => max n (lengthOf part.2.2)) 0
  let left :=
    if powers then widest (scientific.map (·.1)) else widest (fixed.map (·.1))
  let right :=
    if finite.isEmpty then 0
    else if powers then exponentSize + 2 + places
    else fixed.foldl (fun n part => max n part.2.length) 0
  let left := if special.isEmpty then left else max left (widest (special.map specialText) - right - 1)
  let left := if special.isEmpty then left else max left (3 - right - 1)
  xs.map fun x =>
    if !x.isFinite then alignRight (left + right + 1) (specialText x)
    else if powers then
      let (whole, fraction, exponent) := scientificParts x
      let digits := Nat.toDigits 10 exponent.natAbs
      alignRight left whole ++ "." ++
        String.ofList (fraction ++ List.replicate (places - fraction.length) '0' ++ 'e' ::
          (if exponent < 0 then '-' else '+') ::
          List.replicate (exponentSize - digits.length) '0' ++ digits)
    else
      let (whole, fraction) := fixedParts x
      alignRight left whole ++ "." ++
        String.ofList (fraction ++ List.replicate (right - fraction.length) ' ')

/-- The texts of elements that are no arbitrary values. -/
def texts : Elements Value → List String
  | .bools xs => xs.map fun b => if b then " True" else "False"
  | .ints xs =>
      let all := xs.map fun (i : Int) => toString i
      all.map (alignRight (widest all))
  | .words xs =>
      let all := xs.map fun (n : Nat) => toString n
      all.map (alignRight (widest all))
  | .floats xs => floatTexts xs
  | .texts _ xs => xs.map Text.Quoted.quote
  | .objects _ => []

/-- The text without spaces at its end. -/
def withoutTail (text : String) : String :=
  String.ofList (text.toList.reverse.dropWhile (· = ' ')).reverse

/-- Words on lines of at most `width` columns, each line but the first after `indent`. -/
def fill (width : Nat) (indent separator : String) : List String → String → List String
  | [], line => [line]
  | word :: rest, line =>
      let tail := if rest.isEmpty then "" else separator
      if width < line.length + word.length ∧ indent.length < line.length then
        withoutTail line :: fill width indent separator rest (indent ++ word ++ tail)
      else fill width indent separator rest (line ++ word ++ tail)

/-- The elements between brackets. Lines end before the column `width`. -/
def brackets (width : Nat) (margin separator : String) (words : List String) : String :=
  if words.isEmpty then "[]"
  else
    let indent := " " ++ margin
    let lines := fill width indent separator words indent
    "[" ++ String.ofList (("\n".intercalate lines).toList.drop indent.length) ++ "]"

/-- The printed form of a vector of elements with the given texts. -/
def displayWords (words : List String) : String := brackets 74 "" " " words

def display (elements : Elements Value) : String := displayWords (texts elements)

/-- The form that a vector of elements with the given texts has inside other values. -/
def inspectWords (suffix : String) (words : List String) : String :=
  "array(" ++ brackets 73 "      " ", " words ++ suffix ++ ")"

def inspectVector (elements : Elements Value) : String :=
  let suffix := match elements.type with
    | .bool => if elements.length = 0 then ", dtype=bool" else ""
    | .int => if elements.length = 0 then ", dtype=int64" else ""
    | .float => if elements.length = 0 then ", dtype=float64" else ""
    | .word => ", dtype=uint64"
    | .text width => s!", dtype='<U{width}'"
    | .object => ", dtype=object"
  inspectWords suffix (texts elements)

end Quasi.VectorPrint
