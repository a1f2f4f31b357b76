import Quasi.Machine.Masks
import Quasi.Library.Arguments

/-!
# Environment primitives

Making and reading environments, finding the calls under way, and evaluating code in a given
place.
-/

namespace Quasi

namespace Library

def newEnv (args : List Value) (named : Bindings Value) (env : EnvId) : Run Value := do
  let parent ← envArg "parent" (argument named "parent" args 0 (.env env))
  pure (.env (← Run.newScope parent [] none))

def environment (args : List Value) (named : Bindings Value) (env : EnvId) : Run Value := do
  match argument named "fun" args 0 .null with
  | .null => pure (.env env)
  | .closure c => pure (.env ((← get).closure c).env)
  | _ => pure .null

def parentFrame (ctx : EvaluatorId) (args : List Value) (named : Bindings Value) (env : EnvId) :
    Run Value := do
  let n ← Run.orFailHost (toInteger (argument named "n" args 0 (.int 1)))
  pure (.env (← Machine.parentFrame ctx n.toNat env))

def parentEnv (args : List Value) : Run Value := do
  let e ← envArg "env" (← oneArg "parent.env" args)
  match (← get).parent? e with
  | some parent => pure (.env parent)
  | none => Run.fail (.lookup .parentOfRoot)

def sysCall (ctx : EvaluatorId) (env : EnvId) : Run Value := do
  match ← Machine.functionFrame ctx env with
  | some frame => pure (.code frame.call)
  | none => pure .null

def sysFunction (ctx : EvaluatorId) (env : EnvId) : Run Value := do
  match (← Machine.functionFrame ctx env).bind (·.function) with
  | some c => pure (.closure c)
  | none => pure .null

/-- The environment that is given by name or by position. -/
def place (args : List Value) (named : Bindings Value) (position : Nat) (env : EnvId) :
    Run EnvId :=
  envArg "envir" (argument named "envir" args position (.env env))

def assign (args : List Value) (named : Bindings Value) (env : EnvId) : Run Value := do
  checkCount "assign" 2 3 args
  let name ← textArg (args.getD 0 .null)
  let v := args.getD 1 .null
  let target ← place args named 2 env
  Run.define target name v
  pure v

def get (m : Machine) (args : List Value) (named : Bindings Value) (env : EnvId) : Run Value := do
  checkCount "get" 1 2 args
  let name ← textArg (args.getD 0 .null)
  let target ← place args named 1 env
  if ← namedFlag named "inherits" then Machine.lookup m target name
  else
    match (← MonadState.get).slot? target name with
    | some v => do Machine.forceValue m none (← Run.own v)
    | none => Run.fail (.lookup (.unbound name))

def exists? (args : List Value) (named : Bindings Value) (env : EnvId) : Run Value := do
  checkCount "exists" 1 2 args
  let name ← textArg (args.getD 0 .null)
  let target ← place args named 1 env
  if ← namedFlag named "inherits" then pure (.bool (← Run.find target name).isSome)
  else pure (.bool ((← MonadState.get).slot? target name).isSome)

def rm (args : List Value) (named : Bindings Value) (env : EnvId) : Run Value := do
  let target ← envArg "envir" ((named.get? "envir").getD (.env env))
  args.forM fun arg => do Run.unbind target (← textArg arg)
  pure .null

/-- Evaluate code in an environment, under a mask, or where named values are bound. -/
def evalCode (m : Machine) (ctx : EvaluatorId) (args : List Value) (named : Bindings Value)
    (env : EnvId) : Run Value := do
  checkCount "eval" 1 3 args
  let code := (args.getD 0 .null).toExpr
  let envir := argument named "envir" args 1 (.env env)
  let enclos ← envArg "enclos" (argument named "enclos" args 2 (.env env))
  match envir with
  | .mask mask => Run.under mask enclos fun bottom => Machine.evalIn m ctx code bottom
  | .list items => do
      Machine.evalIn m ctx code (← Run.newScope enclos (Tagged.toBindings items) none)
  | .mapping entries => do
      Machine.evalIn m ctx code (← Run.newScope enclos entries none)
  | envir => do Machine.evalIn m ctx code (← envArg "envir" envir)

end Library

end Quasi
