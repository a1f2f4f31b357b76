import Quasi.Machine.Apply

/-!
# Laziness forms

`missing` tells whether an argument was supplied, through promises that only pass another argument
on. `delayedAssign` binds a name to a promise.
-/

namespace Quasi

namespace Machine

variable (m : Machine) (ctx : EvaluatorId)

/-- Whether a binding counts as not supplied, if that is clear after `steps` promises. -/
def isMissing? (s : Store) : Nat → Value → Option Bool
  | 0, _ => none
  | steps + 1, v =>
      match v with
      | .code .missing => some true
      | .dots entries => some entries.isEmpty
      | .promise p =>
          let promise := s.promise p
          if promise.isDefault then some true
          else
            match promise.progress, promise.code, promise.env with
            | .value _, _, _ => some false
            | .given _, _, _ => some false
            | .failed _, _, _ => some false
            | _, .symbol name, some env =>
                match s.slot? env name with
                | some v => isMissing? s steps v
                | none => some false
            | _, _, _ => some false
      | _ => some false

/-- Whether a binding counts as not supplied. Only a circle of promises leaves this open. -/
def isMissing (v : Value) : Run Bool := do
  let s ← get
  match isMissing? s (s.promises.size + 2) v with
  | some b => pure b
  | none => Run.raise .overflow

def missingForm (slots : List Slot) (env : EnvId) : Run Value := do
  match slots with
  | [⟨_, .symbol name⟩] => do
      match (← get).slot? env name with
      | some v => pure (.bool (← isMissing v))
      | none =>
          if name = dotsName then pure (.bool true) else Run.failType (.notArgument name)
  | _ => Run.failArity .oneName

/-- The environment that a slot gives, or the one that evaluates the form. -/
def environmentSlot (e : Option Expr) (env : EnvId) : Run Value := do
  match e with
  | some e => m.eval ctx e env
  | none => pure (.env env)

def delayedAssignForm (slots : List Slot) (env : EnvId) : Run Value := do
  let matched ← matchSlots ["x", "value", "eval.env", "assign.env"] slots
  match matched.get? "x", matched.get? "value" with
  | some x, some code => do
      let name ← match ← m.eval ctx x env with
        | .code (.symbol name) => pure name
        | .str name => pure name
        | _ => Run.failType .delayedName
      let evalEnv ← environmentSlot m ctx (matched.get? "eval.env") env
      let assignEnv ← environmentSlot m ctx (matched.get? "assign.env") env
      match evalEnv, assignEnv with
      | .env evalEnv, .env assignEnv => do
          let p ← Run.newPromise ⟨code, some evalEnv, some ctx, false, .unforced⟩
          Run.define assignEnv name (.promise p)
          pure .null
      | _, _ => Run.failType .delayedEnvironment
  | _, _ => Run.failArity .nameAndExpression

end Machine

end Quasi
