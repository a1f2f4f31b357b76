import Quasi.Store.Environment
import Quasi.Printer.Deparse
import Quasi.Printer.Inspect

/-!
# Machines

A machine evaluates expressions and calls functions in an evaluator. Everything that evaluation is
made of is defined over a machine that is given: forcing promises and looking names up here, calls
and special forms in the modules after this one. Evaluation itself ties the knot, with a machine
that nests one level less.
-/

namespace Quasi

structure Machine where
  /-- The value of an expression in an environment. -/
  eval : EvaluatorId → Expr → EnvId → Run Value
  /-- The value of a function at evaluated arguments, some of them named. -/
  call : EvaluatorId → Value → List Value → Bindings Value → EnvId → Run Value
  /-- A template with its injections expanded. -/
  expand : EvaluatorId → Expr → EnvId → Run Expr

/-- The machine that has no room for any nesting. -/
def Machine.exhausted : Machine where
  eval _ _ _ := Run.raise .overflow
  call _ _ _ _ _ := Run.raise .overflow
  expand _ _ _ := Run.raise .overflow

/-- Whether a call's head may evaluate to a value. -/
def Value.isInvocable : Value → Bool
  | .closure _ => true
  | .builtin _ _ => true
  | .host _ => true
  | _ => false

namespace Machine

/-! ## Promises -/

/-- The value of an expression that belongs to no environment: there are no names. -/
def evalNowhere : Expr → Run Value
  | .const (.quosure _ _) => Run.failHost .attribute
  | .const v => pure v
  | .formals items => pure (.code (.formals items))
  | .missing => Run.fail (.missingArgument none)
  | .symbol name =>
      if name = dotsName then Run.fail (.general .dotsContext) else Run.failHost .attribute
  | .call _ _ => Run.failHost .attribute

def begin (p : PromiseId) : Run Unit := modify fun s => s.begin p

def abandon (p : PromiseId) (signal : Signal) : Run Unit := modify fun s => s.abandon p signal

def settle (p : PromiseId) (progress : Progress) : Run Unit := modify fun s => s.settle p progress

/-- End the evaluation of a promise. A value or a failure settles it; if the evaluation is left in
another way the next force starts it again. -/
def conclude (p : PromiseId) : Except Signal Value → Run Unit
  | .ok v => settle p (.value v)
  | .error (.failure f) => settle p (.failed f)
  | .error signal => abandon p signal

/-- The value of the code of a promise. -/
def evalPromise (m : Machine) (ctx : EvaluatorId) (promise : Promise) : Run Value :=
  match promise.env with
  | some env => m.eval ctx promise.code env
  | none => evalNowhere promise.code

/-- Evaluate the code of a promise that is not settled. -/
def runPromise (m : Machine) (ctx : EvaluatorId) (p : PromiseId) : Run Value := do
  let promise := (← get).promise p
  begin p
  Run.trace fun _ => "forcing promise " ++ promise.code.plain
  let outcome ← Run.attempt (evalPromise m ctx promise)
  conclude p outcome
  Run.resume outcome

/-- The value of a promise: what it was settled with, or else the value of its code in the given
evaluator or in its own. -/
def force (m : Machine) (ctx : Option EvaluatorId) (p : PromiseId) : Run Value := do
  let promise := (← get).promise p
  match promise.progress with
  | .value v => pure v
  | .given v => pure v
  | .failed f => Run.raise (.failure f)
  | .forcing => Run.fail (.force .circular)
  | .unforced =>
      match ctx <|> promise.evaluator with
      | none => Run.fail (.force .noEvaluator)
      | some ctx => runPromise m ctx p
  | .interrupted =>
      match ctx <|> promise.evaluator with
      | none => Run.fail (.force .noEvaluator)
      | some ctx => do
          Run.warn "restarting interrupted promise evaluation"
          runPromise m ctx p

/-- The value itself, or the value of the promise that it is. -/
def forceValue (m : Machine) (ctx : Option EvaluatorId) : Value → Run Value
  | .promise p => force m ctx p
  | v => pure v

/-! ## Looking names up -/

/-- What the nearest binding of a name holds, a promise being forced. -/
def lookup (m : Machine) (env : EnvId) (name : String) : Run Value := do
  match ← Run.binding env name with
  | .code .missing => Run.fail (.missingArgument (some name))
  | v => forceValue m none v

/-- The first function that a name is bound to in a list of environments. Promises on the way are
forced, and what is no function is passed over. -/
def firstFunction (m : Machine) (name : String) : List EnvId → Run (Option Value)
  | [] => pure none
  | env :: rest => do
      match (← get).slot? env name with
      | none => firstFunction m name rest
      | some v => do
          let v ← forceValue m none v
          if v.isInvocable then pure (some v) else firstFunction m name rest

/-- The nearest function that a name is bound to. -/
def lookupFunction (m : Machine) (env : EnvId) (name : String) : Run Value := do
  match ← firstFunction m name ((← get).chain env).1 with
  | some fn => pure fn
  | none => do
      Run.reachEnd env
      Run.fail (.lookup (.noFunction name))

/-- What the sources of data of a mask have under a name. -/
def lookupData (m : Machine) (mask : MaskId) (name : String) : Run Value := do
  match (← get).data? mask name with
  | some v => forceValue m none (← Run.own v)
  | none => Run.fail (.ambiguousName name)

/-! ## Dots -/

/-- The entries that `...` stands for. -/
def dotsOf (env : EnvId) : Run (List (Tagged Value)) := do
  match ← Run.find env dotsName with
  | none => Run.fail (.general .dotsContext)
  | some found =>
      match (← get).slot? found dotsName with
      | some (.dots entries) => pure entries
      | _ => Run.fail (.general .dotsContext)

/-- The position in `...` that a name such as `..2` stands for. -/
def dotsPosition? (name : String) : Option Nat :=
  match Name.withoutNewline name.toList with
  | '.' :: '.' :: first :: rest =>
      if first ≠ '0' ∧ (first :: rest).all Char.isDigit then
        some (Text.numeralValue (first :: rest))
      else none
  | _ => none

def evalSymbol (m : Machine) (ctx : EvaluatorId) (name : String) (env : EnvId) : Run Value := do
  if name = dotsName then Run.fail (.general .dotsContext)
  else
    match dotsPosition? name with
    | none => lookup m env name
    | some n =>
        match (← dotsOf env)[n - 1]? with
        | none => Run.fail (.general (.dotsCount n))
        | some ⟨_, .code .missing⟩ => Run.fail (.missingArgument (some name))
        | some ⟨_, v⟩ => forceValue m (some ctx) v

end Machine

end Quasi
