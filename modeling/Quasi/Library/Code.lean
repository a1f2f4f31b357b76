import Quasi.Machine.Masks
import Quasi.Library.Arguments
import Quasi.Quotation.Rewrite
import Quasi.Quotation.Splice

/-!
# Code primitives

Quosures, masks, symbols and calls as values.
-/

namespace Quasi

namespace Library

def evalTidy (m : Machine) (ctx : EvaluatorId) (args : List Value) (named : Bindings Value)
    (env : EnvId) : Run Value := do
  checkCount "eval_tidy" 1 3 args
  let data := match argument named "data" args 1 .absent with
    | .null => .absent
    | data => data
  let home ← envArg "env" (argument named "env" args 2 (.env env))
  Machine.evalTidy m ctx (args.getD 0 .null) data (some home)

def newDataMask (args : List Value) : Run Value := do
  pure (.mask (← Machine.maskOver args .empty))

def asDataMask (args : List Value) : Run Value := do
  pure (.mask (← Machine.asMask (← oneArg "as_data_mask" args) none))

def quoGetExpr (args : List Value) : Run Value := do
  let (e, _) ← quosureArg "quo_get_expr" (← oneArg "quo_get_expr" args)
  pure (.code e)

def quoGetEnv (args : List Value) : Run Value := do
  let (_, env) ← quosureArg "quo_get_env" (← oneArg "quo_get_env" args)
  pure (.env env)

def newQuosure (args : List Value) (named : Bindings Value) (env : EnvId) : Run Value := do
  checkCount "new_quosure" 1 2 args
  let home ← envArg "env" (argument named "env" args 1 (.env env))
  pure (.quosure (args.getD 0 .null).toExpr home)

def quoSquash (args : List Value) : Run Value := do
  pure (.code (← oneArg "quo_squash" args).squash)

def asLabel (args : List Value) : Run Value := do
  pure (.str (← Run.label (← oneArg "as_label" args)))

/-- A test of the only argument. -/
def predicate (name : String) (test : Value → Bool) (args : List Value) : Run Value := do
  pure (.bool (test (← oneArg name args)))

/-- A test of the expression of the quosure that is the only argument. -/
def quosurePredicate (name : String) (test : Expr → Bool) (args : List Value) : Run Value := do
  let (e, _) ← quosureArg name (← oneArg name args)
  pure (.bool (test e))

def isQuosure : Value → Bool
  | .quosure _ _ => true
  | _ => false

def isEnvironment : Value → Bool
  | .env _ => true
  | _ => false

def isCall : Expr → Bool
  | .call _ _ => true
  | _ => false

/-- Whether a value is an expression that satisfies a test. -/
def isCode (test : Expr → Bool) : Value → Bool
  | .code e => test e
  | _ => false

def isSymbol (e : Expr) : Bool := e.symbolName?.isSome

def sym (args : List Value) : Run Value := do
  pure (.code (.symbol (← textArg (← oneArg "sym" args))))

/-- The symbols of a list or vector of texts, with the names of a list. -/
def syms (args : List Value) : Run Value := do
  let items := match ← oneArg "syms" args with
    | .list items => items
    | v => v.operandElements.items.map .bare
  pure (.list (← items.mapM fun t => do
    pure ⟨t.tag, .code (.symbol (← textArg t.item))⟩))

/-- The head that a value gives a call: a text names it. -/
def headOf : Value → Expr
  | .str name => .symbol name
  | v => v.toExpr

/-- A call of a head with positional and named arguments. -/
def makeCall (head : Value) (args : List Value) (named : Bindings Value) : Expr :=
  .call (headOf head)
    (args.map Value.toSlot ++ named.map fun (name, v) => ⟨some name, v.toExpr⟩)

def call2 (args : List Value) (named : Bindings Value) : Run Value := do
  match args with
  | [] => Run.failArity .noHead
  | head :: rest =>
      if named.contains "head" || named.contains "args" then Run.failHost .type
      else pure (.code (makeCall head rest named))

end Library

end Quasi
