import Quasi.Quotation.Capture
import Quasi.Session.Evaluation

/-!
# Working with promises

Making promises, forcing them and reading what they have come to.
-/

namespace Quasi

namespace Session

/-- A promise of an expression in an environment, for the given evaluator. -/
def promiseOf (code env : Value) (ctx : Option EvaluatorId) : Run Value := do
  let env ← envOrNone env
  pure (.promise (← Run.newPromise ⟨code.toExpr, env, ctx, false, .unforced⟩))

/-- A promise for the given evaluator or for one of its own. -/
def makePromise (code env : Value) (ctx : Option EvaluatorId) : Run Value := do
  promiseOf code env (some (← context ctx))

/-- A promise that has its value, and code if any is given. -/
def settledPromise (v code : Value) : Run Value := do
  match code with
  | .absent => Machine.givenPromise v
  | code => do
      pure (.promise (← Run.newPromise ⟨code.toExpr, none, none, false, .given v⟩))

def delayedAssign (code evalEnv assignEnv : Value) (name : String) (ctx : Option EvaluatorId) :
    Run Value := do
  let p ← promiseOf code evalEnv ctx
  Run.define (← envOf assignEnv) name p
  pure p

def force (v : Value) (ctx : Option EvaluatorId) : Run Value := do
  Machine.forceValue (← machine) ctx v

/-- The promise that a value is. -/
def promiseRef (v : Value) : Run PromiseId := do
  match v with
  | .promise p => pure p
  | _ => Run.failHost .attribute

def promiseValue (v : Value) : Run Value := do
  match ((← get).promise (← promiseRef v)).progress with
  | .value v => pure v
  | .given v => pure v
  | .failed _ => pure .absent
  | _ => Run.fail (.force .unforced)

/-- Whether a promise is settled, whether it failed, whether it was given its value, and whether
it belongs to no environment. -/
def promiseInfo (v : Value) : Run Value := do
  let promise := (← get).promise (← promiseRef v)
  let (settled, failed, given) := match promise.progress with
    | .value _ => (true, false, false)
    | .given _ => (true, false, true)
    | .failed _ => (true, true, false)
    | _ => (false, false, false)
  pure (.sequence [.bool settled, .bool failed, .bool given, .bool promise.env.isNone])

def quoteCaller (v : Value) : Run Value := do
  match v with
  | .promise p => do pure (.code (← Machine.capturedCode p))
  | v => Run.failType (.promiseExpected v.typeName)

end Session

end Quasi
