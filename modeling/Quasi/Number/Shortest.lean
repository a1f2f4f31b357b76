import Quasi.Number.Binary64

/-!
# The shortest decimal of a number

`shortest` finds the decimal with the fewest digits that rounds to a given binary64 number, and
the nearest of those. The reals that round to a number form an interval, which includes its ends
exactly if the significand is even. If the interval holds a point of a decimal grid, it holds one
of the two grid points around the number itself, so only these two are tried on each grid.
-/

namespace Quasi

/-- A decimal: an integer times a power of ten. -/
structure Decimal where
  digits : Nat
  exponent : Int
deriving DecidableEq, Repr

namespace Decimal

/-- The decimal without trailing zeros. -/
def normalize : Decimal → Decimal
  | ⟨digits, exponent⟩ => go digits digits exponent
where
  /-- At most `fuel` zeros are cut. -/
  go : Nat → Nat → Int → Decimal
    | 0, digits, exponent => ⟨digits, exponent⟩
    | fuel + 1, digits, exponent =>
        if digits ≠ 0 ∧ digits % 10 = 0 then go fuel (digits / 10) (exponent + 1)
        else ⟨digits, exponent⟩

/-- The digits as text. -/
def text (d : Decimal) : List Char := Nat.toDigits 10 d.digits

/-- The place of the decimal point: the number of digits left of it. -/
def point (d : Decimal) : Int := d.text.length + d.exponent

end Decimal

namespace Binary64

/-- A quotient over a power of ten, as a quotient of naturals. -/
def scaledTen (num den : Nat) (exponent : Int) : Nat × Nat :=
  if exponent < 0 then (num * Nat.pow 10 (-exponent).toNat, den)
  else (num, den * Nat.pow 10 exponent.toNat)

/-- The interval of the reals that round to a positive number, in quarters of its unit: the
number, the two ends, and whether the ends belong. -/
structure Interval where
  value : Nat
  low : Nat
  high : Nat
  closed : Bool
deriving Repr

def interval (x : Binary64) : Interval :=
  let (m, q) := x.significand
  ⟨4 * m, 4 * m - (if m = Nat.pow 2 52 ∧ q ≠ -1074 then 1 else 2), 4 * m + 2, m % 2 = 0⟩

/-- A power of two as a quotient of naturals. -/
def powerOfTwo (exponent : Int) : Nat × Nat :=
  if exponent < 0 then (1, Nat.pow 2 (-exponent).toNat) else (Nat.pow 2 exponent.toNat, 1)

/-- The number of digits left of the decimal point, zero or less for a number below one tenth. -/
def decimalPoint (num den : Nat) : Int :=
  let estimate : Int := ((Nat.log2 num : Int) - (Nat.log2 den : Int)) * 30103 / 100000
  let candidates := [estimate - 1, estimate, estimate + 1, estimate + 2]
  (candidates.find? fun t => let (n, d) := scaledTen num den t; n < d).getD (estimate + 3)

/-- The multiple of `10 ^ exponent` next to `num / den` and inside the interval. -/
def onGrid? (range : Interval) (unitNum unitDen : Nat) (exponent : Int) : Option Nat :=
  let (n, d) := scaledTen unitNum unitDen exponent
  let below := range.value * n / d
  let inside (c : Nat) : Bool :=
    if range.closed then range.low * n ≤ c * d && c * d ≤ range.high * n
    else range.low * n < c * d && c * d < range.high * n
  match inside below, inside (below + 1) with
  | true, true =>
      let down := range.value * n - below * d
      let up := (below + 1) * d - range.value * n
      some (if down < up ∨ (down = up ∧ below % 2 = 0) then below else below + 1)
  | true, false => some below
  | false, true => some (below + 1)
  | false, false => none

/-- The shortest decimal of a finite number's magnitude. -/
def shortest (x : Binary64) : Decimal :=
  if x.isZero then ⟨0, 0⟩
  else
    let range := x.interval
    let (unitNum, unitDen) := powerOfTwo (x.significand.2 - 2)
    let point := decimalPoint (range.value * unitNum) unitDen
    let grids := (List.range 17).map fun n => point - (n + 1 : Nat)
    let found := grids.findSome? fun exponent =>
      (onGrid? range unitNum unitDen exponent).map (Decimal.mk · exponent)
    (found.getD ⟨0, 0⟩).normalize

end Binary64

end Quasi
