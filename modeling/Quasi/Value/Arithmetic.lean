import Quasi.Value.Equality

/-!
# Operators on plain values

Integers have any size, and comparing them with numbers or dividing them is exact before it is
rounded. An integer that is too large for a number makes an operation overflow. Operators also
join and repeat texts and lists, and order them item by item. Dividing a number by zero is no
fault: the quotient is infinite, or NaN.
-/

namespace Quasi

/-- Why an operator gives no value. -/
inductive OperatorFault where
  | operands
  | host (fault : HostFault)
deriving DecidableEq, Repr

abbrev Computed (α : Type) := Except OperatorFault α

def liftHost {α : Type} : Except HostFault α → Computed α
  | .ok a => .ok a
  | .error fault => .error (.host fault)

namespace Number

def toBinary64 : Number → Computed Binary64
  | .float x => .ok x
  | .int i =>
      match Binary64.ofInt? i with
      | some x => .ok x
      | none => .error (.host .overflow)

def toValue : Number → Value
  | .int i => .int i
  | .float x => Value.ofNumber x

/-- The quotient where the divisor is zero: infinite with the sign of the operands, or NaN. -/
def overZero (a b : Number) : Computed Binary64 := do
  let x ← a.toBinary64
  match b with
  | .int _ => .ok (x.div Binary64.zero)
  | .float y => .ok (x.div y)

/-- The remainder of integers, with the sign of the divisor. -/
def intMod (i j : Int) : Int := Int.fmod i j

/-- A power of two numbers that is not exact. A finite power is no infinity, except that zero has
infinite negative powers. -/
def floatPower (x y : Binary64) : Computed Binary64 :=
  let z := x.pow y
  if x.isFinite && y.isFinite && z.isInfinite && !x.isZero then .error (.host .overflow)
  else .ok z

def power : Number → Number → Computed Number
  | .int i, .int j =>
      if 0 ≤ j then .ok (.int (Int.pow i j.toNat))
      else do .ok (.float (← floatPower (← toBinary64 (.int i)) (← toBinary64 (.int j))))
  | a, b => do .ok (.float (← floatPower (← a.toBinary64) (← b.toBinary64)))

def divide : Number → Number → Computed Binary64
  | .int i, .int j =>
      if j = 0 then overZero (.int i) (.int j)
      else
        match Binary64.ofQuotient? i j with
        | some x => .ok x
        | none => .error (.host .overflow)
  | a, b => do .ok ((← a.toBinary64).div (← b.toBinary64))

def remainder : Number → Number → Computed Number
  | .int i, .int j =>
      if j = 0 then do
        let x ← toBinary64 (.int i)
        .ok (.float (x.mod Binary64.zero))
      else .ok (.int (intMod i j))
  | a, b => do .ok (.float ((← a.toBinary64).mod (← b.toBinary64)))

/-- The operation on integers where both operands are integers, and the one on numbers else. -/
def either (onInts : Int → Int → Int) (onFloats : Binary64 → Binary64 → Binary64) :
    Number → Number → Computed Number
  | .int i, .int j => .ok (.int (onInts i j))
  | a, b => do .ok (.float (onFloats (← a.toBinary64) (← b.toBinary64)))

end Number

namespace Operator

/-- Whether an ordering satisfies a comparison. -/
def holds : Operator → Ordering → Bool
  | .lt, .lt => true
  | .le, .lt => true
  | .le, .eq => true
  | .gt, .gt => true
  | .ge, .gt => true
  | .ge, .eq => true
  | .eq, .eq => true
  | .ne, .lt => true
  | .ne, .gt => true
  | _, _ => false

def isComparison : Operator → Bool
  | .eq | .ne | .lt | .le | .gt | .ge => true
  | _ => false

def isOrder : Operator → Bool
  | .lt | .le | .gt | .ge => true
  | _ => false

/-- The operation on numbers, comparisons apart. -/
def onNumbers (op : Operator) (a b : Number) : Computed Number :=
  match op with
  | .add => Number.either (· + ·) Binary64.add a b
  | .sub => Number.either (· - ·) Binary64.sub a b
  | .mul => Number.either (· * ·) Binary64.mul a b
  | .div => (Number.divide a b).map .float
  | .pow => Number.power a b
  | .mod => Number.remainder a b
  | _ => .error .operands

end Operator

namespace Value

/-- The items of a list, whatever its kind. -/
def listItems? : Value → Option (List Value)
  | .list items => some (items.map (·.item))
  | .sequence items => some items
  | _ => none

/-- How often an integer value repeats a text or list. -/
def repeatCount? : Value → Option Int
  | .bool b => some b.toNat
  | .int i => some i
  | _ => none

/-- `count` copies of a list one after the other. -/
def repeated {α : Type} (count : Int) (xs : List α) : Computed (List α) :=
  if count < -Int.pow 2 63 ∨ Int.pow 2 63 ≤ count then .error (.host .overflow)
  else .ok (List.replicate count.toNat xs).flatten

/-- The sum of two texts, lists or tuples: one after the other. -/
def join (a b : Value) : Computed Value :=
  match a, b with
  | .str s, .str t => .ok (.str (s ++ t))
  | .tuple xs, .tuple ys => .ok (.tuple (xs ++ ys))
  | a, b =>
      match a.listItems?, b.listItems? with
      | some xs, some ys => .ok (.sequence (xs ++ ys))
      | _, _ => .error .operands

/-- The product of a text, list or tuple and an integer. -/
def repetition (a b : Value) : Computed Value :=
  match a, b.repeatCount? with
  | .str s, some count => do .ok (.str (String.ofList (← repeated count s.toList)))
  | .tuple xs, some count => do .ok (.tuple (← repeated count xs))
  | a, some count =>
      match a.listItems? with
      | some xs => do .ok (.sequence (← repeated count xs))
      | none => .error .operands
  | _, none => .error .operands

def compareTexts (s t : String) : Ordering :=
  if s < t then .lt else if t < s then .gt else .eq

/-- Whether two values stand in an order. Lists are ordered by their first items that differ. -/
def ordered (op : Operator) : Nat → Value → Value → Computed Bool
  | 0, _, _ => .error .operands
  | fuel + 1, a, b =>
      match a.number?, b.number? with
      | some x, some y => .ok ((x.compare? y).elim false op.holds)
      | _, _ =>
          match a, b with
          | .str s, .str t => .ok (op.holds (compareTexts s t))
          | .tuple xs, .tuple ys => orderedItems op fuel xs ys
          | a, b =>
              match a.listItems?, b.listItems? with
              | some xs, some ys => orderedItems op fuel xs ys
              | _, _ => .error .operands
where
  /-- Whether two lists of items stand in an order. -/
  orderedItems (op : Operator) (fuel : Nat) : List Value → List Value → Computed Bool
    | [], [] => .ok (op.holds .eq)
    | [], _ :: _ => .ok (op.holds .lt)
    | _ :: _, [] => .ok (op.holds .gt)
    | x :: xs, y :: ys => do
        if ← liftHost (same x y) then orderedItems op fuel xs ys else ordered op fuel x y

mutual

/-- How deep lists are nested in a value, itself included. -/
def nesting : Value → Nat
  | .list items => nestingTagged items + 1
  | .sequence items => nestingItems items + 1
  | .tuple items => nestingItems items + 1
  | _ => 1

def nestingItems : List Value → Nat
  | [] => 0
  | v :: rest => max v.nesting (nestingItems rest)

def nestingTagged : List (Tagged Value) → Nat
  | [] => 0
  | ⟨_, v⟩ :: rest => max v.nesting (nestingTagged rest)

end

/-- The value of an operator at two values neither of which is a vector. -/
def operatePlain (op : Operator) (a b : Value) : Computed Value :=
  match op with
  | .eq => (liftHost (equal a b)).map .bool
  | .ne => (liftHost (differs a b)).map .bool
  | op =>
      if op.isOrder then (ordered op (a.nesting + 1) a b).map .bool
      else
        match a.number?, b.number? with
        | some x, some y => (op.onNumbers x y).map Number.toValue
        | _, _ =>
            match op with
            | .add => join a b
            | .mul => if b.repeatCount?.isSome then repetition a b else repetition b a
            | _ => .error .operands

/-- The negative of a value that is no vector. -/
def negatePlain : Value → Computed Value
  | .bool b => .ok (.int (-(b.toNat : Int)))
  | .int i => .ok (.int (-i))
  | .num x => .ok (.num x.neg)
  | .nan _ => .ok (.nan none)
  | _ => .error .operands

end Value

end Quasi
