import Quasi.Machine.Basic
import Quasi.Expr.Position
import Quasi.Value.Equality

/-!
# Arguments of primitives

A primitive gets evaluated arguments, by position and by name. Each counts its positional
arguments, and takes a named one that it does not know no notice of.
-/

namespace Quasi

namespace Library

def oneArg (name : String) (args : List Value) : Run Value := do
  match args with
  | [x] => pure x
  | args => Run.failArity (.count name 1 1 args.length)

def twoArgs (name : String) (args : List Value) : Run (Value × Value) := do
  match args with
  | [x, y] => pure (x, y)
  | args => Run.failArity (.count name 2 2 args.length)

/-- Refuse fewer or more positional arguments than a primitive takes. -/
def checkCount (name : String) (least most : Nat) (args : List Value) : Run Unit := do
  if args.length < least ∨ most < args.length then
    Run.failArity (.count name least most args.length)

/-- An argument by name, or by position, or its default. -/
def argument (named : Bindings Value) (name : String) (args : List Value) (position : Nat)
    (default : Value) : Value :=
  (named.get? name).getD (args[position]?.getD default)

/-- A flag that is given by name. -/
def namedFlag (named : Bindings Value) (name : String) : Run Bool := do
  match named.get? name with
  | some v => Run.orFailHost v.truth
  | none => pure true

/-- The text that a text or symbol is. -/
def textArg (v : Value) : Run String := do
  match v with
  | .str text => pure text
  | .code (.symbol name) => pure name
  | v => Run.failType (.textExpected (← Run.format v))

def envArg (name : String) (v : Value) : Run EnvId := do
  match v with
  | .env e => pure e
  | v => Run.failType (.environmentExpected name (← Run.format v))

def quosureArg (name : String) (v : Value) : Run (Expr × EnvId) := do
  match v with
  | .quosure e env => pure (e, env)
  | v => Run.failType (.quosureArgument name (← Run.format v))

/-- An item of `...` as a pair of its name and its value. -/
def entryPair (t : Tagged Value) : Value :=
  .tuple [match t.tag with | some tag => .str tag | none => .absent, t.item]

/-- The items that a value is gone through by. -/
def iterate (v : Value) : Run (List Value) := do
  match v with
  | .null => pure []
  | .list items => pure (items.map (·.item))
  | .sequence items => pure items
  | .tuple items => pure items
  | .mapping entries => pure (entries.map fun entry => .str entry.1)
  | .vec v => v.elements.items.mapM Run.own
  | .str text => pure (text.toList.map fun c => .str (String.singleton c))
  | .dots entries => pure (entries.map entryPair)
  | .code (.call head slots) => pure (.code head :: slots.map fun slot => .code slot.item)
  | .code (.formals items) =>
      pure (items.map fun (name, default) => .tuple [.str name, .code default])
  | _ => Run.failHost .type

/-- The integer that a value is rounded to, toward zero. -/
def toInteger (v : Value) : Except HostFault Int :=
  match v with
  | .bool b => .ok b.toNat
  | .int i => .ok i
  | .num x =>
      match x.dyadic? with
      | some (m, q) => .ok (if q < 0 then Int.tdiv m (Int.pow 2 (-q).toNat) else m * Int.pow 2 q.toNat)
      | none => .error (if x.isNaN then .value "" else .overflow)
  | .nan _ => .error (.value "")
  | .str text =>
      match Numeral.integer? text with
      | some i => .ok i
      | none => .error (.value "")
  | .vec ⟨_, .ints [i]⟩ => .ok i
  | .vec ⟨_, .bools [b]⟩ => .ok b.toNat
  | _ => .error .type

def sortTexts (texts : List String) : List String :=
  texts.mergeSort fun a b => !decide (b < a)

end Library

end Quasi
