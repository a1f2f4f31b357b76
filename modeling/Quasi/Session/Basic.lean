import Quasi.Machine.Eval
import Quasi.Reader.Parser

/-!
# Sessions

A session has a base environment that offers the built-in functions, a global environment below it
for the bindings of its user, and an evaluator for all requests. Reading and evaluating go hand in
hand: what stands before a mistake in a source is evaluated.
-/

namespace Quasi

namespace Session

def baseEnv : EnvId := .scope 0

def globalEnv : EnvId := .scope 1

def evaluator : EvaluatorId := HostFunction.sessionEvaluator

/-- The bindings of a base environment. -/
def builtins (home : EnvId) : Bindings Value :=
  Builtin.all.map fun b => (b.name, .builtin b home)

/-- A new environment that offers the built-in functions. -/
def newBase : Run EnvId := do
  let home := EnvId.scope (← get).scopes.size
  Run.newScope .empty (builtins home) (some "base")

/-- A machine with room for the deepest evaluator. -/
def machine : Run Machine := do
  let depth := (← get).evaluators.foldl (fun depth e => max depth e.maxDepth) 0
  pure (Machine.ofLevel (Machine.levelsFor depth))

/-- The number of calls that a new evaluator admits. -/
def settingsDepth : Run Int := do
  match (← get).settings.maxDepth with
  | .ok depth => pure depth
  | .error fault => Run.failHost (.value fault.message)

/-- The evaluator that is given, or a new one without a global environment. -/
def context (ctx : Option EvaluatorId) : Run EvaluatorId := do
  match ctx with
  | some ctx => pure ctx
  | none => do Run.newEvaluator none (← settingsDepth)

/-! ## Reading -/

def syntaxFailure {α : Type} (fault : SyntaxFault) : Run α := Run.fail (.syntaxError fault)

/-- The only expression of a source. -/
def parseOne (source : String) : Run Expr :=
  Run.orFail .syntaxError (Reader.parseOne (Reader.lex source))

/-- Evaluate expressions one after the other, each as a request; gives the value of the last. -/
def evaluateAll (ctx : EvaluatorId) (env : EnvId) : List Expr → Value → Run Value
  | [], last => pure last
  | e :: rest, _ => do
      let v ← Machine.evaluate (← machine) ctx e env
      evaluateAll ctx env rest v

/-- Evaluate every expression of a source. -/
def evalSource (source : String) (env : EnvId) : Run Value := do
  let (exprs, fault) := Reader.parseAll (Reader.lex source)
  let last ← evaluateAll evaluator env exprs .null
  match fault with
  | some fault => syntaxFailure fault
  | none => pure last

/-- Start a session: its environments, its evaluator and the code that it begins with. Host
functions are bound once that code was evaluated. -/
def start (prelude : String) (maxDepth : Option Int) (host : List HostFunction) : Run Unit := do
  let base ← newBase
  let global ← Run.newScope base [] (some "global")
  let depth ← match maxDepth with
    | some depth => pure depth
    | none => settingsDepth
  let _ ← Run.newEvaluator (some global) depth
  let _ ← evalSource prelude global
  host.forM fun fn => Run.define global fn.name (.host fn)

end Session

end Quasi
