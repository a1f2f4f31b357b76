/-!
# Binary64 numbers

A number of the runtime that is not an integer is an IEEE 754 binary64 word. Every result that
has to be exact or correctly rounded (comparison with integers, quotients of integers, reading a
numeral) goes through `dyadic?` and `ofRatio`, which are integer arithmetic on the word.
-/

namespace Quasi

/-- A binary64 number, given by its word. -/
structure Binary64 where
  bits : UInt64
deriving DecidableEq, Repr

namespace Binary64

def toFloat (x : Binary64) : Float := Float.ofBits x.bits

def ofFloat (x : Float) : Binary64 := ⟨x.toBits⟩

instance : Inhabited Binary64 := ⟨⟨0⟩⟩

/-! ## The parts of a word -/

def negative (x : Binary64) : Bool := x.bits.toNat / Nat.pow 2 63 = 1

/-- The word without its sign. -/
def magnitude (x : Binary64) : Nat := x.bits.toNat % Nat.pow 2 63

/-- The word of the positive infinity. -/
def infinityWord : Nat := 2047 * Nat.pow 2 52

def isNaN (x : Binary64) : Bool := infinityWord < x.magnitude

def isInfinite (x : Binary64) : Bool := x.magnitude = infinityWord

def isFinite (x : Binary64) : Bool := x.magnitude < infinityWord

def isZero (x : Binary64) : Bool := x.magnitude = 0

/-- The integral significand and the exponent of its unit: a finite magnitude is the one times
two to the other. -/
def significand (x : Binary64) : Nat × Int :=
  let field : Nat := x.magnitude / Nat.pow 2 52
  let fraction : Nat := x.magnitude % Nat.pow 2 52
  if field = 0 then (fraction, -1074) else (fraction + Nat.pow 2 52, (field : Int) - 1075)

/-- A finite number as an integer times a power of two. -/
def dyadic? (x : Binary64) : Option (Int × Int) :=
  if x.isFinite then
    let (m, q) := x.significand
    some (if x.negative then -(m : Int) else m, q)
  else none

/-- A word from its sign and its magnitude. -/
def ofMagnitude (negative : Bool) (magnitude : Nat) : Binary64 :=
  ⟨UInt64.ofNat (magnitude + if negative then Nat.pow 2 63 else 0)⟩

def infinity (negative : Bool) : Binary64 := ofMagnitude negative infinityWord

def nan : Binary64 := ⟨0x7ff8000000000000⟩

def zero : Binary64 := ⟨0⟩

/-- The word with the opposite sign. -/
def neg (x : Binary64) : Binary64 := ofMagnitude (!x.negative) x.magnitude

/-! ## Rounding -/

/-- The integer nearest to a quotient; of two equally near ones the even one. -/
def nearest (num den : Nat) : Nat :=
  let quotient := num / den
  let remainder := num % den
  if 2 * remainder < den then quotient
  else if 2 * remainder = den then quotient + quotient % 2
  else quotient + 1

/-- A quotient over a power of two, as a quotient of naturals. -/
def scaled (num den : Nat) (exponent : Int) : Nat × Nat :=
  if exponent < 0 then (num * Nat.pow 2 (-exponent).toNat, den)
  else (num, den * Nat.pow 2 exponent.toNat)

/-- The number nearest to `num / den`, ties to the even significand, infinite past the largest
finite number. The unit of the result is the least one that leaves at most 53 bits. -/
def ofRatio (negative : Bool) (num den : Nat) : Binary64 :=
  if num = 0 ∨ den = 0 then ofMagnitude negative 0
  else
    let estimate : Int := max (-1074) ((Nat.log2 num : Int) - (Nat.log2 den : Int) - 53)
    let (n, d) := scaled num den estimate
    let unit := if n / d < Nat.pow 2 53 then estimate else estimate + 1
    let (n, d) := scaled num den unit
    ofMagnitude negative (min infinityWord ((unit + 1074).toNat * Nat.pow 2 52 + nearest n d))

/-- An integer times a power of two, rounded. -/
def ofDyadic (m q : Int) : Binary64 :=
  if q < 0 then ofRatio (m < 0) m.natAbs (Nat.pow 2 (-q).toNat)
  else ofRatio (m < 0) (m.natAbs * Nat.pow 2 q.toNat) 1

/-- The number nearest to an integer, unless that is infinite. -/
def ofInt? (i : Int) : Option Binary64 :=
  let x := ofRatio (i < 0) i.natAbs 1
  if x.isFinite then some x else none

/-- The quotient of two integers, unless it is too large. -/
def ofQuotient? (a b : Int) : Option Binary64 :=
  let x := ofRatio ((a < 0) != (b < 0)) a.natAbs b.natAbs
  if x.isFinite then some x else none

/-! ## Order -/

/-- How a number compares with an integer; no answer for NaN. -/
def compareInt? (x : Binary64) (i : Int) : Option Ordering :=
  if x.isNaN then none
  else
    match x.dyadic? with
    | some (m, q) =>
        if q < 0 then some (compare m (i * Int.pow 2 (-q).toNat))
        else some (compare (m * Int.pow 2 q.toNat) i)
    | none => some (if x.negative then .lt else .gt)

/-- How two numbers compare; no answer if one is NaN. The two zeros are equal. -/
def compare? (x y : Binary64) : Option Ordering :=
  if x.isNaN || y.isNaN then none
  else
    let key (z : Binary64) : Int := if z.negative then -(z.magnitude : Int) else z.magnitude
    some (compare (key x) (key y))

/-! ## Arithmetic -/

def add (x y : Binary64) : Binary64 := ofFloat (x.toFloat + y.toFloat)

def sub (x y : Binary64) : Binary64 := ofFloat (x.toFloat - y.toFloat)

def mul (x y : Binary64) : Binary64 := ofFloat (x.toFloat * y.toFloat)

def div (x y : Binary64) : Binary64 := ofFloat (x.toFloat / y.toFloat)

def pow (x y : Binary64) : Binary64 := ofFloat (Float.pow x.toFloat y.toFloat)

def sqrt (x : Binary64) : Binary64 := ofFloat x.toFloat.sqrt

/-- The remainder with the sign of the divisor. It is exact before the divisor is added to a
remainder of the other sign; a zero takes the divisor's sign. -/
def mod (x y : Binary64) : Binary64 :=
  if x.isNaN || y.isNaN || x.isInfinite || y.isZero then nan
  else
    match x.dyadic?, y.dyadic? with
    | some (m, q), some (n, r) =>
        let unit := min q r
        let a := m * Int.pow 2 (q - unit).toNat
        let b := n * Int.pow 2 (r - unit).toNat
        let remainder := Int.tmod a b
        if remainder = 0 then ofMagnitude y.negative 0
        else if decide (remainder < 0) == decide (b < 0) then ofDyadic remainder unit
        else add (ofDyadic remainder unit) y
    | _, _ =>
        if x.isZero then ofMagnitude y.negative 0
        else if x.negative = y.negative then x
        else y

/-- The integer that a finite number is, if it is one. -/
def toInt? (x : Binary64) : Option Int :=
  match x.dyadic? with
  | some (m, q) =>
      if q < 0 then
        let d : Int := Int.pow 2 (-q).toNat
        if m % d = 0 then some (m / d) else none
      else some (m * Int.pow 2 q.toNat)
  | none => none

theorem ofRatio_zero (negative : Bool) (den : Nat) :
    ofRatio negative 0 den = ofMagnitude negative 0 := by simp [ofRatio]

theorem nearest_self (n d : Nat) (h : 0 < d) : nearest (n * d) d = n := by
  simp [nearest, Nat.mul_div_cancel n h, h]

end Binary64

end Quasi
