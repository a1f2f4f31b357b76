import Quasi.Value.Arithmetic

/-!
# Operators on vectors

Operators work element by element, on vectors of one length or where one of the two has length
one. The elements first become of one type; a single integer or number does not widen the integers
or numbers beside it. Integers wrap around, and dividing by zero is no fault.
-/

namespace Quasi

namespace Elements

/-- The type of the elements of two operands, and the operands in it. -/
def unify (a b : Value) : Computed (Elements Value × Elements Value) :=
  let xs := a.operandElements
  let ys := b.operandElements
  let fits (i : Int) : ElementType → Bool
    | .int => -Int.pow 2 63 ≤ i && i < Int.pow 2 63
    | .word => 0 ≤ i && i < Int.pow 2 64
    | _ => true
  match a, b with
  | .int i, _ =>
      match ys.type with
      | .bool => if fits i .int then .ok (.ints [i], ys.cast .int) else .error (.host .overflow)
      | .int => if fits i .int then .ok (.ints [i], ys) else .error (.host .overflow)
      | .word => if fits i .word then .ok (.words [i.toNat], ys) else .error (.host .overflow)
      | .float =>
          match Binary64.ofInt? i with
          | some x => .ok (.floats [x], ys)
          | none => .error (.host .overflow)
      | _ => .ok (xs, ys)
  | _, .int i =>
      match xs.type with
      | .bool => if fits i .int then .ok (xs.cast .int, .ints [i]) else .error (.host .overflow)
      | .int => if fits i .int then .ok (xs, .ints [i]) else .error (.host .overflow)
      | .word => if fits i .word then .ok (xs, .words [i.toNat]) else .error (.host .overflow)
      | .float =>
          match Binary64.ofInt? i with
          | some x => .ok (xs, .floats [x])
          | none => .error (.host .overflow)
      | _ => .ok (xs, ys)
  | _, _ =>
      let type := xs.type.promote ys.type
      match type, xs.type, ys.type with
      | .text _, .text _, .text _ => .ok (xs, ys)
      | .text _, _, _ => .error .operands
      | type, _, _ => .ok (xs.cast type, ys.cast type)

/-- The operation on all pairs of items of two lists. -/
def zipAll {α β γ : Type} (f : α → β → Computed γ) (xs : List α) (ys : List β) :
    Computed (List γ) := do
  (← liftHost (Value.broadcast xs ys)).mapM fun (x, y) => f x y

/-- An operation that never fails. -/
def pure₂ {α β γ : Type} (f : α → β → γ) (x : α) (y : β) : Computed γ := .ok (f x y)

def intPower (i j : Int) : Computed Int :=
  if j < 0 then .error (.host (.value "")) else .ok (wrapSigned (Int.pow i j.toNat))

def arithmeticInts (op : Operator) (xs ys : List Int) : Computed (Elements Value) :=
  match op with
  | .add => (zipAll (pure₂ fun i j => wrapSigned (i + j)) xs ys).map .ints
  | .sub => (zipAll (pure₂ fun i j => wrapSigned (i - j)) xs ys).map .ints
  | .mul => (zipAll (pure₂ fun i j => wrapSigned (i * j)) xs ys).map .ints
  | .pow => (zipAll intPower xs ys).map .ints
  | .mod => (zipAll (pure₂ fun i j => if j = 0 then 0 else Number.intMod i j) xs ys).map .ints
  | _ =>
      let float (i : Int) := Binary64.ofRatio (i < 0) i.natAbs 1
      (zipAll (pure₂ fun i j => (float i).div (float j)) xs ys).map .floats

def arithmeticWords (op : Operator) (xs ys : List Nat) : Computed (Elements Value) :=
  match op with
  | .add => (zipAll (pure₂ fun (i j : Nat) => wrapUnsigned (i + j)) xs ys).map .words
  | .sub => (zipAll (pure₂ fun (i j : Nat) => wrapUnsigned ((i : Int) - j)) xs ys).map .words
  | .mul => (zipAll (pure₂ fun (i j : Nat) => wrapUnsigned (i * j)) xs ys).map .words
  | .pow => (zipAll (pure₂ fun (i j : Nat) => wrapUnsigned (Int.pow i j)) xs ys).map .words
  | .mod => (zipAll (pure₂ fun (i j : Nat) => if j = 0 then 0 else i % j) xs ys).map .words
  | _ =>
      let float (i : Nat) := Binary64.ofRatio false i 1
      (zipAll (pure₂ fun i j => (float i).div (float j)) xs ys).map .floats

def arithmeticFloats (op : Operator) (xs ys : List Binary64) : Computed (Elements Value) :=
  let f : Binary64 → Binary64 → Binary64 := match op with
    | .add => Binary64.add
    | .sub => Binary64.sub
    | .mul => Binary64.mul
    | .pow => Binary64.pow
    | .mod => Binary64.mod
    | _ => Binary64.div
  (zipAll (pure₂ f) xs ys).map .floats

/-- Arithmetic on elements of one type. -/
def arithmetic (op : Operator) (xs ys : Elements Value) : Computed (Elements Value) :=
  match xs, ys with
  | .bools as, .bools bs =>
      match op with
      | .add => (zipAll (pure₂ or) as bs).map .bools
      | .mul => (zipAll (pure₂ and) as bs).map .bools
      | .sub => .error .operands
      | op => arithmeticInts op (as.map fun b => (b.toNat : Int)) (bs.map fun b => (b.toNat : Int))
  | .ints as, .ints bs => arithmeticInts op as bs
  | .words as, .words bs => arithmeticWords op as bs
  | .floats as, .floats bs => arithmeticFloats op as bs
  | .texts w as, .texts w' bs =>
      match op with
      | .add => (zipAll (pure₂ (· ++ ·)) as bs).map (.texts (w + w'))
      | _ => .error .operands
  | xs, ys => (zipAll (Value.operatePlain op) xs.items ys.items).map .objects

/-- The truth of one comparison of elements. -/
def compareItems (op : Operator) (x y : Value) : Computed Bool := do
  match ← Value.operatePlain op x y with
  | .bool b => .ok b
  | _ => .error .operands

end Elements

namespace Value

/-- The value of an operator where one operand is a vector. -/
def operateVector (op : Operator) (a b : Value) : Computed Value :=
  match op with
  | .eq => (liftHost (elementsEqual a.operandElements b.operandElements)).map fun bs =>
      .vec ⟨0, .bools bs⟩
  | .ne => (liftHost (elementsEqual a.operandElements b.operandElements)).map fun bs =>
      .vec ⟨0, .bools (bs.map not)⟩
  | op => do
      if op.isOrder then
        match a.operandElements.type, b.operandElements.type with
        | .text _, .text _ => pure ()
        | .text _, _ => .error .operands
        | _, .text _ => .error .operands
        | _, _ => pure ()
        let pairs ← liftHost (broadcast a.operandElements.items b.operandElements.items)
        .ok (.vec ⟨0, .bools (← pairs.mapM fun (x, y) => Elements.compareItems op x y)⟩)
      else
        let (xs, ys) ← Elements.unify a b
        .ok (.vec ⟨0, ← Elements.arithmetic op xs ys⟩)

/-- The value of a binary operator. A NaN and a vector in the result are new ones. -/
def operate (op : Operator) (a b : Value) : Computed Value :=
  if a.isVector || b.isVector then operateVector op a b else operatePlain op a b

/-- The negative of a value. -/
def negate : Value → Computed Value
  | .vec ⟨_, .ints xs⟩ => .ok (.vec ⟨0, .ints (xs.map fun i => wrapSigned (-i))⟩)
  | .vec ⟨_, .words xs⟩ => .ok (.vec ⟨0, .words (xs.map fun (n : Nat) => wrapUnsigned (-(n : Int)))⟩)
  | .vec ⟨_, .floats xs⟩ => .ok (.vec ⟨0, .floats (xs.map Binary64.neg)⟩)
  | .vec ⟨_, .objects xs⟩ => do .ok (.vec ⟨0, .objects (← xs.mapM negatePlain)⟩)
  | .vec _ => .error .operands
  | v => negatePlain v

/-- The elements of a vector turned into their opposite truth values. -/
def notElements (elements : Elements Value) : Except HostFault (Elements Value) :=
  match elements with
  | .texts _ _ => .error .type
  | .bools bs => .ok (.bools (bs.map not))
  | elements => .ok (.bools (elements.items.map fun x => !(truth x).toOption.getD true))

end Value

namespace Elements

/-- The sum of numbers. Up to seven are added one after the other; more are added in eight columns
and the columns in pairs; more than 128 are halved first. -/
def pairwiseSum : Nat → List Binary64 → Binary64
  | fuel, xs =>
      let n := xs.length
      if n < 8 then xs.foldl Binary64.add (Binary64.ofMagnitude true 0)
      else
        match fuel with
        | 0 => xs.foldl Binary64.add Binary64.zero
        | fuel + 1 =>
            if n ≤ 128 then
              let rows := n - n % 8
              let column (k : Nat) : Binary64 :=
                let picked := ((xs.take rows).zipIdx.filter fun (_, i) => i % 8 = k).map (·.1)
                match picked with
                | [] => Binary64.zero
                | first :: rest => rest.foldl Binary64.add first
              let pairs := Binary64.add
                (Binary64.add (Binary64.add (column 0) (column 1))
                  (Binary64.add (column 2) (column 3)))
                (Binary64.add (Binary64.add (column 4) (column 5))
                  (Binary64.add (column 6) (column 7)))
              (xs.drop rows).foldl Binary64.add pairs
            else
              let half := n / 2 - n / 2 % 8
              Binary64.add (pairwiseSum fuel (xs.take half)) (pairwiseSum fuel (xs.drop half))

/-- The sum of the elements of a vector: integers wrap around, truth values count as integers. -/
def sum (elements : Elements Value) : Except HostFault Value :=
  match elements with
  | .bools xs => .ok (.int (wrapSigned (xs.foldl (fun n b => n + (b.toNat : Int)) 0)))
  | .ints xs => .ok (.int (wrapSigned (xs.foldl (· + ·) 0)))
  | .words xs => .ok (.int (wrapUnsigned (xs.foldl (fun (n i : Nat) => n + i) 0 : Nat)))
  | .floats xs => .ok (Value.ofNumber (Binary64.add Binary64.zero (pairwiseSum xs.length xs)))
  | .texts _ _ => .error .type
  | .objects [] => .ok (.int 0)
  | .objects (x :: xs) =>
      xs.foldlM (fun total x =>
        match Value.operatePlain .add total x with
        | .ok v => .ok v
        | .error .operands => .error .type
        | .error (.host fault) => .error fault) x

/-- The mean of the elements of a vector. -/
def mean (elements : Elements Value) : Except HostFault Value :=
  let count : Value := .int elements.length
  let share (total : Value) : Except HostFault Value :=
    match Value.operatePlain .div total count with
    | .ok v => .ok v
    | .error .operands => .error .type
    | .error (.host fault) => .error fault
  match elements with
  | .texts _ _ => .error .type
  | .objects xs => do share (← sum (.objects xs))
  | elements =>
      let xs := elements.items.map floatOf
      let total := Binary64.add Binary64.zero (pairwiseSum xs.length xs)
      .ok (Value.ofNumber (total.div (floatOf count)))

/-- The square roots of the elements; a negative number has none. -/
def sqrt (elements : Elements Value) : Except HostFault (Elements Value) :=
  match elements with
  | .texts _ _ => .error .type
  | .objects _ => .error .type
  | elements => .ok (.floats (elements.items.map fun x => (floatOf x).sqrt))

end Elements

end Quasi
