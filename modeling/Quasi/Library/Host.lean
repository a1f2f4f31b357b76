import Quasi.Machine.Frames
import Quasi.Library.Arguments

/-!
# Host functions

What a session may offer to evaluated code beside the primitives: noting values, counting, failing
and nesting a request in the one under way.
-/

namespace Quasi

namespace HostFunction

/-- The evaluator of a session, which is made first. -/
def sessionEvaluator : EvaluatorId := ⟨0⟩

/-- The arguments of a function with the given formals, each exactly once. -/
def bindArgs (formals : List String) (args : List Value) (named : Bindings Value) :
    Run (List Value) := do
  let later := formals.drop args.length
  if formals.length < args.length ∨ named.length ≠ later.length then Run.failHost .type
  else
    let rest ← later.mapM fun name => do
      match named.get? name with
      | some v => pure v
      | none => Run.failHost .type
    pure (args ++ rest)

/-- Count once more, and give the count. -/
def count : Run Nat := do
  modify fun s => { s with ticks := s.ticks + 1 }
  pure (← get).ticks

/-- A new environment below the innermost frame of an evaluator, or else below its global one. -/
def environmentBelow (ctx : EvaluatorId) : Run (Option EnvId) := do
  let e := (← get).evaluator ctx
  match e.frames with
  | frame :: _ => pure (some frame.env)
  | [] => pure e.globalEnv

def apply (m : Machine) (fn : HostFunction) (args : List Value) (named : Bindings Value) :
    Run Value := do
  match fn with
  | .collect =>
      pure (.list (args.map .bare ++ named.map fun (name, v) => ⟨some name, v⟩))
  | .record =>
      match ← bindArgs ["x"] args named with
      | [v] => do
          modify fun s => { s with recorded := s.recorded.push v }
          pure v
      | _ => Run.failHost .type
  | .nested =>
      match ← bindArgs ["expr", "env"] args named with
      | [v, .env env] => Machine.evaluate m sessionEvaluator v.toExpr env
      | [v, _] => Machine.request sessionEvaluator (Machine.evalNowhere v.toExpr)
      | _ => Run.failHost .type
  | .tick => do
      let _ ← bindArgs [] args named
      pure (.int (10 * (← count)))
  | .fail => do
      let _ ← bindArgs [] args named
      let _ ← count
      Run.failHost (.value "host failure")
  | .overflow => do
      let _ ← bindArgs [] args named
      Run.raise .overflow
  | .flaky => do
      let _ ← bindArgs [] args named
      if (← count) = 1 then Run.raise .overflow else pure (.str "recovered")
  | .newenv => do
      let _ ← bindArgs [] args named
      pure (.env (← Run.newScope ((← environmentBelow sessionEvaluator).getD .empty) [] none))

end HostFunction

end Quasi
