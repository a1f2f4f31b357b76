import Quasi.Form.Member
import Quasi.Library.Arguments
import Quasi.Vector.Arithmetic

/-!
# Data primitives

Operators, lists and vectors, and their elements.
-/

namespace Quasi

namespace Library

/-! ## Operators -/

def operator (op : Operator) (args : List Value) : Run Value := do
  let (a, b) ← twoArgs op.name args
  match Value.operate op a b with
  | .ok v => Run.own v
  | .error .operands => Run.failType (.operand op.name)
  | .error (.host fault) => Run.failHost fault

/-- A binary operator; with one argument, plus gives it back and minus its negative. -/
def operatorOrSign (op : Operator) (args : List Value) : Run Value := do
  match op, args with
  | .add, [x] => pure x
  | .sub, [x] =>
      match x.negate with
      | .ok v => Run.own v
      | .error .operands => Run.failType .negation
      | .error (.host fault) => Run.failHost fault
  | op, args => operator op args

def not (args : List Value) : Run Value := do
  match ← oneArg "!" args with
  | .vec v => do
      let elements ← Run.orFailHost (Value.notElements v.elements)
      Run.own (.vec ⟨0, elements⟩)
  | x => do pure (.bool !(← Run.orFail .type (x.condition "!")))

def identical (args : List Value) : Run Value := do
  let (a, b) ← twoArgs "identical" args
  pure (.bool (← Run.orFailHost (Value.identical a b)))

/-! ## Lists and vectors -/

/-- Whether a value among the arguments makes `c` give a list. -/
def makesList : Value → Bool
  | .list _ => true
  | .sequence _ => true
  | .tuple _ => true
  | .code _ => true
  | .quosure _ _ => true
  | _ => false

/-- The items that an argument of `c` adds to a list. -/
def listParts (t : Tagged Value) : List (Tagged Value) :=
  match t.item with
  | .list items => items
  | .sequence items => items.map .bare
  | .tuple items => items.map .bare
  | _ => [t]

/-- The arguments of a primitive in order, positional ones first. -/
def tagged (args : List Value) (named : Bindings Value) : List (Tagged Value) :=
  args.map .bare ++ named.map fun (name, v) => ⟨some name, v⟩

def isNullValue : Value → Bool
  | .null => true
  | _ => false

/-- Join values to a vector, or to a list if one of them is a list or code. -/
def combine (args : List Value) (named : Bindings Value) : Run Value := do
  let parts := tagged args named
  if parts.any fun t => makesList t.item then pure (.list (parts.flatMap listParts))
  else
    match (parts.map (·.item)).filter fun v => !isNullValue v with
    | [] => pure .null
    | values => Run.own (.vec ⟨0, Elements.concat (values.map Elements.single)⟩)

def length (args : List Value) : Run Value := do
  let x ← oneArg "length" args
  let n := match x with
    | .null => 0
    | .list items => items.length
    | .sequence items => items.length
    | .tuple items => items.length
    | .mapping entries => entries.length
    | .vec v => v.elements.length
    | .dots entries => entries.length
    | .code (.call _ slots) => slots.length + 1
    | .code (.formals items) => items.length
    | _ => 1
  match x with
  | .env e => pure (.int ((← get).names e).length)
  | _ => pure (.int n)

def texts (names : List String) : Value := .sequence (names.map .str)

/-- The names of the elements of a value; an element without a name has the empty one. -/
def names (args : List Value) : Run Value := do
  match ← oneArg "names" args with
  | .list items =>
      if Tagged.anyTag items then pure (texts (items.map fun t => t.tag.getD "")) else pure .null
  | .env e => pure (texts (sortTexts ((← get).names e)))
  | .mask m => pure (texts ((← get).dataNames m))
  | .mapping entries => pure (texts (Bindings.names entries))
  | .code (.call _ slots) => pure (texts ("" :: slots.map fun slot => slot.tag.getD ""))
  | _ => pure .null

/-- The element of a value at a position counted from zero. -/
def elementAt (m : Machine) (x : Value) (n : Nat) : Run (Option Value) := do
  match x with
  | .list items => pure (items[n]?.map (·.item))
  | .sequence items => pure items[n]?
  | .tuple items => pure items[n]?
  | .str text => pure (text.toList[n]?.map fun c => .str (String.singleton c))
  | .vec v => (v.elements.items[n]?).mapM Run.own
  | .dots entries => (entries[n]?).mapM fun t => Machine.forceValue m none t.item
  | .code (.call head slots) => pure ((Expr.part? head slots n).map .code)
  | .code (.formals items) => pure (items[n]?.map fun item => .code item.2)
  | .mapping _ => Run.failHost .key
  | _ => pure none

/-- The position that a subscript gives. -/
def subscript (i : Value) : Run Int := do
  match i with
  | .int i => pure i
  | .num x =>
      match x.toInt? with
      | some i => pure i
      | none =>
          if x.isInfinite then Run.failHost .overflow
          else Run.failType (.subscript (← Run.format i))
  | .nan _ => Run.failHost (.value "")
  | i => Run.failType (.subscript (← Run.format i))

/-- An element by its name, or by its position counted from one. -/
def element (m : Machine) (args : List Value) : Run Value := do
  match ← twoArgs "[[" args with
  | (x, .str name) => Machine.getMember m x name
  | (x, i) => do
      let i ← subscript i
      if i < 1 then Run.failType (.outOfBounds i)
      else
        match ← elementAt m x (i - 1).toNat with
        | some v => pure v
        | none => Run.failType (.outOfBounds i)

/-! ## Numbers -/

def sum (args : List Value) : Run Value := do
  match args with
  | [] => pure (.int 0)
  | args => do
      let sums ← args.mapM fun a => Run.orFailHost (Elements.sum a.operandElements)
      Run.own (← Run.orFailHost (Elements.sum (Elements.ofList sums)))

def mean (args : List Value) : Run Value := do
  let x ← oneArg "mean" args
  Run.own (← Run.orFailHost (Elements.mean x.operandElements))

def sqrt (args : List Value) : Run Value := do
  let x ← oneArg "sqrt" args
  let roots ← Run.orFailHost (Elements.sqrt x.operandElements)
  let isList := match x with
    | .vec _ => true
    | .list _ => true
    | .sequence _ => true
    | .tuple _ => true
    | _ => false
  match isList, roots.items with
  | false, [root] => Run.own root
  | _, _ => Run.own (.vec ⟨0, roots⟩)

end Library

end Quasi
