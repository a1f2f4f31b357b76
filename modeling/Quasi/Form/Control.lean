import Quasi.Machine.Apply
import Quasi.Value.Equality

/-!
# Control forms

Blocks, parentheses, conditions, `return`, function expressions and local scopes. A form decides
itself which of its slots it evaluates, and when.
-/

namespace Quasi

namespace Machine

variable (m : Machine) (ctx : EvaluatorId)

def blockForm (env : EnvId) : List Slot → Run Value
  | [] => pure .null
  | [slot] => m.eval ctx slot.item env
  | slot :: rest => do
      let _ ← m.eval ctx slot.item env
      blockForm env rest

def parenForm (slots : List Slot) (env : EnvId) : Run Value := do
  match slots with
  | [slot] => m.eval ctx slot.item env
  | _ => Run.failArity .oneInParens

/-- Evaluate a condition of `form`. -/
def conditionOf (form : String) (e : Expr) (env : EnvId) : Run Bool := do
  Run.orFail .type ((← m.eval ctx e env).condition form)

def ifForm (slots : List Slot) (env : EnvId) : Run Value := do
  match slots with
  | [test, yes] =>
      if ← conditionOf m ctx "if" test.item env then m.eval ctx yes.item env else pure .null
  | [test, yes, no] =>
      if ← conditionOf m ctx "if" test.item env then m.eval ctx yes.item env
      else m.eval ctx no.item env
  | _ => Run.failArity .arms

def andForm (slots : List Slot) (env : EnvId) : Run Value := do
  match slots with
  | [a, b] =>
      if ← conditionOf m ctx "&&" a.item env then
        pure (.bool (← conditionOf m ctx "&&" b.item env))
      else pure (.bool false)
  | _ => Run.failArity (.twoOperands "&&")

def orForm (slots : List Slot) (env : EnvId) : Run Value := do
  match slots with
  | [a, b] =>
      if ← conditionOf m ctx "||" a.item env then pure (.bool true)
      else pure (.bool (← conditionOf m ctx "||" b.item env))
  | _ => Run.failArity (.twoOperands "||")

def returnForm (slots : List Slot) (env : EnvId) : Run Value := do
  if 1 < slots.length then Run.failArity .oneReturn
  else
    let v ← match slots with
      | slot :: _ => m.eval ctx slot.item env
      | [] => pure .null
    match ← returnTarget ctx env with
    | none => Run.fail (.general .noFunctionToReturn)
    | some target => Run.raise (.returning v target)

/-- The body that several body forms make together. -/
def bodyOf : List Slot → Expr
  | [] => .const .null
  | [slot] => slot.item
  | slots => .call (.symbol "\x7b") (slots.map fun slot => .bare slot.item)

def functionForm (slots : List Slot) (env : EnvId) : Run Value := do
  match slots with
  | [] => Run.failArity .noFormals
  | first :: body => do
      let formals ← match first.item with
        | .formals items => pure items
        | .const .null => pure []
        | e => Run.fail (.syntaxError (.badFormals e.plain))
      pure (.closure (← Run.newClosure ⟨formals, bodyOf body, env, none⟩))

/-- Evaluate an expression in a given environment or in a fresh one of its own. -/
def localForm (slots : List Slot) (env : EnvId) : Run Value := do
  let matched ← matchSlots ["expr", "envir"] slots
  match matched.get? "expr" with
  | none => Run.failArity .noLocalExpression
  | some expr => do
      let place ← match matched.get? "envir" with
        | some e => do
            match ← m.eval ctx e env with
            | .env place => pure place
            | _ => Run.failType .localEnvironment
        | none => Run.newScope env [] none
      evalIn m ctx expr place

end Machine

end Quasi
