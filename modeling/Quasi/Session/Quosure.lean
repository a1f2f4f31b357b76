import Quasi.Session.Environment

/-!
# Working with quosures

Making quosures and taking them apart, and comparing values.
-/

namespace Quasi

namespace Session

/-- The quosure of an expression in an environment. -/
def quosureIn (e : Expr) (env : Value) : Run Value := do
  match env with
  | .env home => pure (.quosure e home)
  | v => Run.failType (.quosureEnvironment v.typeName)

def makeQuosure (code env : Value) : Run Value := do
  match code with
  | .quosure _ _ => Run.failType .quosureInQuosure
  | code => quosureIn code.toExpr env

/-- A quosure as it is, and anything else with an environment. -/
def asQuosure (v env : Value) : Run Value := do
  match v with
  | .quosure e home => pure (.quosure e home)
  | v => quosureIn v.toExpr env

def quosureExpr (v : Value) : Value :=
  match v with
  | .quosure e _ => .code e
  | v => v

def quosureEnv (v : Value) : Run Value := do
  match v with
  | .quosure _ home => pure (.env home)
  | _ => Run.failType .quosureExpected

/-! ## Comparing -/

def equal (a b : Value) : Run Value := do
  match Value.operate .eq a b with
  | .ok v => Run.own v
  | .error (.host fault) => Run.failHost fault
  | .error .operands => Run.failHost .type

/-- Whether a value can be changed in place, and so has no hash. -/
def isMutable : Value → Bool
  | .list _ => true
  | .sequence _ => true
  | .mapping _ => true
  | .vec _ => true
  | _ => false

/-- Whether two values have one hash: equal values have. -/
def sameHash (a b : Value) : Run Value := do
  if isMutable a || isMutable b then Run.failHost .type
  else pure (.bool (← Run.orFailHost (Value.same a b)))

/-- Whether two values are one object, as far as values tell. -/
def isSame (a b : Value) : Value :=
  .bool (a.typeName = b.typeName && (Value.same a b).toOption.getD false)

end Session

end Quasi
