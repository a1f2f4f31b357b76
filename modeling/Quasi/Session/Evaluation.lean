import Quasi.Session.Environment

/-!
# Evaluating from outside

Requests to evaluate expressions, under a mask or for every row of a table, calls of functions, and
frames that a host opens itself.
-/

namespace Quasi

namespace Session

/-- Evaluate an expression as a request, in the global environment if none is given. -/
def evalExpr (code env : Value) : Run Value := do
  let env := (← envOrNone env).getD globalEnv
  Machine.evaluate (← machine) evaluator code.toExpr env

def evaluate (code env : Value) (ctx : Option EvaluatorId) : Run Value := do
  let ctx ← context ctx
  match env with
  | .env e => do Machine.evaluate (← machine) ctx code.toExpr e
  | _ => Machine.request ctx (Machine.evalNowhere code.toExpr)

/-- Evaluate a source with data in front of an environment. -/
def evalTidySource (source : String) (data env : Value) : Run Value := do
  let e ← parseOne source
  let env := (← envOrNone env).getD globalEnv
  let m ← machine
  Machine.request evaluator (Machine.evalTidy m evaluator (.code e) data (some env))

def evalTidy (code data env : Value) (ctx : Option EvaluatorId) : Run Value := do
  let ctx ← context ctx
  let env ← envOrNone env
  let m ← machine
  Machine.request ctx (Machine.evalTidy m ctx code data env)

def evalRows (code table env : Value) (ctx : Option EvaluatorId) : Run Value := do
  let ctx ← context ctx
  let env ← envOrNone env
  let m ← machine
  pure (.sequence (← Machine.request ctx (Machine.evalRows m ctx code table env)))

/-! ## Calls and frames -/

/-- The named arguments that a value gives. -/
def namedArgs (v : Value) : Run (Bindings Value) := do
  match v with
  | .mapping entries => pure entries
  | .absent => pure []
  | .null => pure []
  | _ => Run.failHost .type

def callFunction (fn args named : Value) : Run Value := do
  let args ← Library.iterate args
  let named ← namedArgs named
  (← machine).call evaluator fn args named globalEnv

def apply (fn call env : Value) : Run Value := do
  let e ← envOf env
  match call with
  | .code (.call head slots) => do
      Machine.apply (← machine) evaluator fn (.call head slots) slots e
  | _ => Run.failHost .attribute

/-- The depth of the stack, the number of environments under evaluation, and whether the evaluator
is idle. -/
def status : Run Value := do
  let e := (← get).evaluator evaluator
  pure (.sequence [.int e.depth, .int e.targets.length, .bool e.frames.isEmpty])

def traceCalls : Run Value := do
  pure (Library.texts (← Machine.traceCalls evaluator))

/-- An exit action of a host frame: the label that it notes, and how it is registered. -/
structure HostExit where
  label : String
  add : Bool
  after : Bool

/-- Open a frame in an environment, register exit actions on it and unwind it; gives its depth and
the labels that were noted, in order. -/
def hostFrame (env : Value) (exits : List HostExit) : Run Value := do
  let e ← envOf env
  modify fun s => { s with notes := #[] }
  let handlers := exits.foldl
    (fun handlers exit => registerExit handlers (.note exit.label) exit.add exit.after) []
  let depth ← Machine.inFrame (← machine) evaluator (Expr.apply "frame" []) e none none handlers
    (do pure (.int ((← get).evaluator evaluator).depth))
  pure (.sequence [depth, Library.texts (← get).notes.toList])

/-- Frames leave the stack in order only: one that was never pushed cannot be popped. -/
def popForeignFrame : Run Value := do
  Machine.popFrame evaluator (← Run.freshId)
  pure .absent

end Session

end Quasi
