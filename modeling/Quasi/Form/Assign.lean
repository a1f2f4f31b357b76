import Quasi.Machine.Frames

/-!
# Assignment forms

`<-` and `=` bind in the environment that evaluates them. `<<-` changes the nearest binding above
it, or binds in the global environment if there is none. The first name that a closure is assigned
to becomes its own.
-/

namespace Quasi

namespace Machine

variable (m : Machine) (ctx : EvaluatorId)

def assignmentTarget (target : Expr) : Run String := do
  match target with
  | .symbol name => pure name
  | .const (.str text) => pure text
  | e => Run.fail (.binding (.badTarget e.plain))

/-- Give a closure its name, unless it has one. -/
def nameClosure (v : Value) (name : String) : Run Unit := do
  match v with
  | .closure c =>
      modify fun s => s.setClosure c fun closure =>
        { closure with name := closure.name <|> some name }
  | _ => pure ()

/-- The name and the value of an assignment. -/
def assignment (slots : List Slot) (env : EnvId) : Run (String × Value) := do
  match slots with
  | [target, value] => do
      let name ← assignmentTarget target.item
      let v ← m.eval ctx value.item env
      nameClosure v name
      pure (name, v)
  | _ => Run.failArity .targetAndValue

def assignForm (slots : List Slot) (env : EnvId) : Run Value := do
  let (name, v) ← assignment m ctx slots env
  Run.define env name v
  pure v

def superAssignForm (slots : List Slot) (env : EnvId) : Run Value := do
  let (name, v) ← assignment m ctx slots env
  let above ← match (← get).parent? env with
    | some parent => Run.find parent name
    | none => pure none
  match above, ((← get).evaluator ctx).globalEnv with
  | some place, _ => Run.define place name v
  | none, some global => Run.define global name v
  | none, none => Run.fail (.binding (.noGlobal name))
  pure v

end Machine

end Quasi
