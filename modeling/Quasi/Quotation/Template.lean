import Quasi.Quotation.Capture
import Quasi.Quotation.Splice

/-!
# Expanding templates

A template is rebuilt with every injection replaced: operands are evaluated where the template is
built, from left to right, and their values become parts of the tree.
-/

namespace Quasi

namespace Machine

/-- The items of a value as slots, a NaN in a vector being a new one. -/
def splicedItems (v : Value) : Run (List Slot) := do
  let items ← Run.orFail .callable v.spliceItems
  items.mapM fun slot => do
    match slot.item with
    | .const (.nan none) => pure ⟨slot.tag, .const (← Run.own (.nan none))⟩
    | _ => pure slot

/-- The quosure of the argument that an expression names. -/
def embrace (m : Machine) (ctx : EvaluatorId) (arg : Expr) (env : EnvId) : Run Value := do
  match arg.symbolName? with
  | some _ => captureQuosure m ctx arg env
  | none => Run.fail (.template .badEmbrace)

/-- The name that the left side of a name injection gives. -/
def injectedName (m : Machine) (ctx : EvaluatorId) (lhs : Expr) (env : EnvId) : Run String := do
  let v ← match lhs.injection? with
    | some (.unquote operand) => m.eval ctx operand env
    | _ =>
        match lhs with
        | .const v => pure v
        | e => pure (.code e)
  match v with
  | .code (.symbol name) => pure name
  | .str text => pure text
  | _ => Run.fail (.template .badName)

/-- Refuse what cannot be injected into the head or the bare name of a call. -/
def checkCall (head : Expr) (slots : List Slot) : Run Unit := do
  match head.memberHead?, slots with
  | some name, _ :: second :: _ =>
      if second.item.injection?.isSome then Run.fail (.template (.nameSlot name))
  | _, _ => pure ()
  match head.injection? with
  | some (.splice _) => Run.fail (.callable .spliceIntoHead)
  | _ => pure ()

mutual

/-- The template with its injections expanded; splices have no place outside argument lists. -/
def expandTemplate (m : Machine) (ctx : EvaluatorId) (env : EnvId) : Expr → Run Expr
  | .call head slots =>
      match (Expr.call head slots).injection? with
      | some (.unquote operand) => do pure (← m.eval ctx operand env).toExpr
      | some (.embrace operand) => do pure (← embrace m ctx operand env).toExpr
      | some (.splice _) => Run.fail (.template .spliceOutside)
      | none => do
          checkCall head slots
          let head' ← expandTemplate m ctx env head
          pure (.call head' (← expandSlots m ctx env head slots))
  | .formals items => do pure (.formals (← expandFormals m ctx env items))
  | e => pure e
termination_by structural e => e

/-- The slots of a call, spliced items and injected names in place. -/
def expandSlots (m : Machine) (ctx : EvaluatorId) (env : EnvId) (head : Expr) :
    List (Tagged Expr) → Run (List (Tagged Expr))
  | [] => pure []
  | ⟨tag, e⟩ :: rest => do
      let here ← match e.injection?, tag, e.nameAssign? with
        | some (.splice _), some name, _ => Run.fail (.template (.namedSplice name))
        | some (.splice operand), none, _ => do
            let items ← splicedItems (← m.eval ctx operand env)
            Run.trace fun _ =>
              s!"spliced {items.length} argument(s) into " ++ head.plain
            pure items
        | _, none, some (lhs, _) => do
            let name ← injectedName m ctx lhs env
            pure [⟨some name, ← expandAssigned m ctx env e⟩]
        | _, tag, _ => do pure [⟨tag, ← expandTemplate m ctx env e⟩]
      pure (here ++ (← expandSlots m ctx env head rest))
termination_by structural slots => slots

/-- The right side of a name injection. -/
def expandAssigned (m : Machine) (ctx : EvaluatorId) (env : EnvId) : Expr → Run Expr
  | .call _ [_, ⟨_, rhs⟩] => expandTemplate m ctx env rhs
  | e => pure e
termination_by structural e => e

def expandFormals (m : Machine) (ctx : EvaluatorId) (env : EnvId) :
    List (String × Expr) → Run (List (String × Expr))
  | [] => pure []
  | (name, e) :: rest => do
      let e' ← expandTemplate m ctx env e
      pure ((name, e') :: (← expandFormals m ctx env rest))
termination_by structural items => items

end

/-- The slots of a list of templates, as if they were the arguments of one call. -/
def expandList (m : Machine) (ctx : EvaluatorId) (env : EnvId) (slots : List Slot) :
    Run (List Slot) :=
  expandSlots m ctx env (.symbol "list") slots

end Machine

end Quasi
