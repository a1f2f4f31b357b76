import Quasi.Machine.Basic
import Quasi.Quotation.Injection
import Quasi.Quotation.Substitute

/-!
# Capturing arguments

A function can see the code that its caller wrote for an argument as long as the promise of the
argument is unforced. What is injected into that code is expanded where the caller wrote it. A
captured quosure keeps the environment of the code beside it.
-/

namespace Quasi

namespace Machine

/-- The code of a promise that is not settled. A promise that was given its value yields that. -/
def capturedCode (p : PromiseId) : Run Expr := do
  let promise := (← get).promise p
  match promise.progress with
  | .given v => pure v.toExpr
  | .value _ => Run.fail (.force (.spent promise.code.plain))
  | .failed _ => Run.fail (.force (.spent promise.code.plain))
  | _ => pure promise.code

/-- What the argument that an expression names is bound to. -/
def argumentBinding (arg : Expr) (env : EnvId) : Run Value := do
  match arg.symbolName? with
  | some name => Run.binding env name
  | none => Run.failType (.argumentName arg.plain)

/-- The code of an argument with its injections expanded in the environment it belongs to. -/
def expandIn (m : Machine) (ctx : EvaluatorId) (home : Option EnvId) (code : Expr) : Run Expr := do
  match home with
  | some env => if code.containsInjection then m.expand ctx code env else pure code
  | none => pure code

/-- The code that a binding of an argument stands for. -/
def codeOf (m : Machine) (ctx : EvaluatorId) : Value → Run Expr
  | .promise p => do
      let code ← capturedCode p
      expandIn m ctx ((← get).promise p).env code
  | v => pure v.toExpr

/-- The quosure that a binding of an argument stands for. One that the code embeds is taken out. -/
def quosureOf (m : Machine) (ctx : EvaluatorId) : Value → Run Value
  | .promise p => do
      let code ← capturedCode p
      let home := ((← get).promise p).env
      match ← expandIn m ctx home code with
      | .const (.quosure e env) => pure (.quosure e env)
      | code => pure (.quosure code (home.getD .empty))
  | v => pure (.quosure v.toExpr .empty)

def captureCode (m : Machine) (ctx : EvaluatorId) (arg : Expr) (env : EnvId) : Run Expr := do
  codeOf m ctx (← argumentBinding arg env)

def captureQuosure (m : Machine) (ctx : EvaluatorId) (arg : Expr) (env : EnvId) : Run Value := do
  quosureOf m ctx (← argumentBinding arg env)

/-- Capture every argument that `...` stands for, missing ones apart. -/
def captureDots (capture : Value → Run Value) :
    List (Tagged Value) → Run (List (Tagged Value))
  | [] => pure []
  | t :: rest => do
      match t.item with
      | .code .missing => captureDots capture rest
      | item => do
          let captured ← capture item
          pure (⟨t.tag, captured⟩ :: (← captureDots capture rest))

/-! ## Substituting from a value -/

/-- Substitute from an environment, unless it is the global one, or from named values. -/
def substituteFrom (ctx : EvaluatorId) (source : Value) (e : Expr) : Run Expr := do
  let s ← get
  match source with
  | .env env =>
      if (s.evaluator ctx).globalEnv = some env then pure e
      else pure (Substitution.substitute s (s.slot? env) e)
  | .mapping entries => pure (Substitution.substitute s (Bindings.get? entries) e)
  | .list items => pure (Substitution.substitute s (Bindings.get? (Tagged.toBindings items)) e)
  | _ => Run.failType .substituteSource

end Machine

end Quasi
