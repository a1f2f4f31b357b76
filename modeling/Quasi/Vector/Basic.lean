import Quasi.Expr.Basic
import Quasi.Number.Numeral

/-!
# Vectors

The elements of a vector have one type: truth values, 64-bit integers with or without sign,
numbers, texts, or arbitrary values. Joining vectors of different types first promotes them to the
least type that has room for both.
-/

namespace Quasi

/-- A signed 64-bit integer: the representative modulo `2 ^ 64` that is closest to zero. -/
def wrapSigned (i : Int) : Int := i.bmod (Nat.pow 2 64)

/-- An unsigned 64-bit integer. -/
def wrapUnsigned (i : Int) : Nat := (i % Int.pow 2 64).toNat

theorem wrapSigned_bounds (i : Int) : -Int.pow 2 63 ≤ wrapSigned i ∧ wrapSigned i < Int.pow 2 63 := by
  have hhalf : Int.pow 2 63 = 9223372036854775808 := by decide
  have hsize : Nat.pow 2 64 = 18446744073709551616 := by decide
  have hlow := @Int.le_bmod i (Nat.pow 2 64) (by decide)
  have hhigh := @Int.bmod_lt i (Nat.pow 2 64) (by decide)
  rw [hsize] at hlow hhigh
  rw [wrapSigned, hhalf, hsize]
  omega

/-- The types of elements, by the width of texts where it matters. -/
inductive ElementType where
  | bool
  | int
  | word
  | float
  | text (width : Nat)
  | object
deriving DecidableEq, Repr

namespace ElementType

def name : ElementType → String
  | .bool => "bool"
  | .int => "int64"
  | .word => "uint64"
  | .float => "float64"
  | .text _ => "str"
  | .object => "object"

/-- The width of the texts that elements of a type become. -/
def textWidth : ElementType → Nat
  | .bool => 5
  | .int => 21
  | .word => 20
  | .float => 32
  | .text width => width
  | .object => 0

/-- The least type with room for two. -/
def promote : ElementType → ElementType → ElementType
  | .object, _ => .object
  | _, .object => .object
  | .text a, b => .text (max a b.textWidth)
  | a, .text b => .text (max a.textWidth b)
  | .float, _ => .float
  | _, .float => .float
  | .bool, b => b
  | a, .bool => a
  | .int, .int => .int
  | .word, .word => .word
  | .int, .word => .float
  | .word, .int => .float

theorem promote_self (t : ElementType) : promote t t = t := by
  cases t <;> simp [promote, textWidth]

end ElementType

/-- A number as a value. A NaN that is read out of a vector is a new one at each reading. -/
def Value.ofNumber (x : Binary64) : Value := if x.isNaN then .nan none else .num x

namespace Elements

variable {α : Type}

def type : Elements α → ElementType
  | .bools _ => .bool
  | .ints _ => .int
  | .words _ => .word
  | .floats _ => .float
  | .texts width _ => .text width
  | .objects _ => .object

/-- The elements as values of their own. -/
def items : Elements Value → List Value
  | .bools xs => xs.map .bool
  | .ints xs => xs.map .int
  | .words xs => xs.map fun (n : Nat) => Value.int (n : Int)
  | .floats xs => xs.map Value.ofNumber
  | .texts _ xs => xs.map .str
  | .objects xs => xs

def item? (elements : Elements Value) (i : Nat) : Option Value := elements.items[i]?

/-- The text that an element of a vector of texts becomes. -/
def textOf : Value → String
  | .bool b => if b then "True" else "False"
  | .int i => toString i
  | .num x => x.text
  | .nan _ => "nan"
  | .str s => s
  | _ => ""

def floatOf : Value → Binary64
  | .bool b => Binary64.ofRatio false b.toNat 1
  | .int i => Binary64.ofRatio (i < 0) i.natAbs 1
  | .num x => x
  | _ => Binary64.nan

def intOf : Value → Int
  | .bool b => b.toNat
  | .int i => i
  | _ => 0

/-- Elements of a type, from values that it has room for. -/
def ofItems (type : ElementType) (xs : List Value) : Elements Value :=
  match type with
  | .bool => .bools (xs.map fun x => intOf x ≠ 0)
  | .int => .ints (xs.map intOf)
  | .word => .words (xs.map fun x => wrapUnsigned (intOf x))
  | .float => .floats (xs.map floatOf)
  | .text width => .texts width (xs.map textOf)
  | .object => .objects xs

def cast (type : ElementType) (elements : Elements Value) : Elements Value :=
  if elements.type = type then elements else ofItems type elements.items

/-- A text as an element: the null characters at its end are lost. -/
def storedText (s : String) : String :=
  String.ofList (s.toList.reverse.dropWhile (· = '\x00')).reverse

/-- The elements of a vector that holds one value. -/
def single : Value → Elements Value
  | .bool b => .bools [b]
  | .int i =>
      if -Int.pow 2 63 ≤ i ∧ i < Int.pow 2 63 then .ints [i]
      else if 0 ≤ i ∧ i < Int.pow 2 64 then .words [i.toNat]
      else .objects [.int i]
  | .num x => .floats [x]
  | .nan _ => .floats [Binary64.nan]
  | .str s => .texts (max 1 s.length) [storedText s]
  | .vec v => v.elements
  | v => .objects [v]

/-- The elements of vectors one after the other. -/
def concat : List (Elements Value) → Elements Value
  | [] => .floats []
  | first :: rest =>
      let type := rest.foldl (fun type elements => type.promote elements.type) first.type
      ofItems type ((first :: rest).flatMap items)

/-- The elements of a vector made from a list of values; the empty one holds numbers. -/
def ofList (xs : List Value) : Elements Value := concat (xs.map single)

end Elements

end Quasi
