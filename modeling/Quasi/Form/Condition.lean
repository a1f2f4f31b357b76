import Quasi.Form.Control

/-!
# Condition forms

`on.exit` registers code on the frame of the function that evaluates it. `tryCatch` hands a failure
of its expression to the first handler that is registered for one of the failure's classes; neither
a `return` nor nesting that is too deep is such a failure. `finally` is evaluated last.
-/

namespace Quasi

namespace Machine

variable (m : Machine) (ctx : EvaluatorId)

/-- A flag of `on.exit`. -/
def exitFlag (e : Option Expr) (env : EnvId) (default : Bool) : Run Bool := do
  match e with
  | none => pure default
  | some .missing => pure default
  | some e => conditionOf m ctx "on.exit" e env

/-- Whether an exit expression registers nothing. -/
def isNoExit : Expr → Bool
  | .missing => true
  | .const .null => true
  | _ => false

/-- What `on.exit` asks of the exit actions of a frame, if anything. -/
def exitRegistration? (expr : Expr) (env : EnvId) (add after : Bool) : Option Registration :=
  if isNoExit expr then if add then none else some .clear
  else some (.exit (.evaluate expr env) add after)

def onExitForm (slots : List Slot) (env : EnvId) : Run Value := do
  let matched ← matchSlots ["expr", "add", "after"] slots
  let expr := (matched.get? "expr").getD .missing
  let add ← exitFlag m ctx (matched.get? "add") env true
  let after ← exitFlag m ctx (matched.get? "after") env false
  match ← functionFrame ctx env with
  | none => Run.trace fun _ => "on.exit() outside of a function is ignored"
  | some frame =>
      match exitRegistration? expr env add after with
      | none => pure ()
      | some r => register ctx frame.id r
  pure .null

/-- The parts of a `tryCatch`. -/
structure TryParts where
  body : Option Expr := none
  last : Option Expr := none
  handlers : List (String × Expr) := []

def tryParts : List Slot → TryParts → Run TryParts
  | [], parts => pure { parts with handlers := parts.handlers.reverse }
  | ⟨tag, e⟩ :: rest, parts =>
      match tag with
      | none =>
          if parts.body.isSome then Run.failArity .oneBody
          else tryParts rest { parts with body := some e }
      | some name =>
          if name = "finally" then tryParts rest { parts with last := some e }
          else if name = "expr" then tryParts rest { parts with body := some e }
          else tryParts rest { parts with handlers := (name, e) :: parts.handlers }

def evalHandlers (env : EnvId) : List (String × Expr) → Run (List (String × Value))
  | [] => pure []
  | (name, e) :: rest => do
      let v ← m.eval ctx e env
      pure ((name, v) :: (← evalHandlers env rest))

/-- Evaluate an expression and hand its failure to the first handler that is registered for it. -/
def guarded (env : EnvId) (handlers : List (String × Value)) (body : Expr) : Run Value :=
  Run.orElse (m.eval ctx body env) fun f =>
    match handlers.find? fun handler => f.cause.classes.contains handler.1 with
    | none => Run.raise (.failure f)
    | some (name, handler) => do
        Run.trace fun _ => s!"tryCatch handler `{name}` caught " ++ f.cause.typeName
        m.call ctx handler [.failure f] [] env

def tryCatchForm (slots : List Slot) (env : EnvId) : Run Value := do
  let parts ← tryParts slots {}
  let handlers ← evalHandlers m ctx env parts.handlers
  let body := match parts.body with
    | none => pure .null
    | some body => guarded m ctx env handlers body
  match parts.last with
  | none => body
  | some last => Run.andFinally body (do let _ ← m.eval ctx last env)

end Machine

end Quasi
