import Quasi.Machine.Frames
import Quasi.Value.Equality

/-!
# Evaluation under a mask

Under a mask, names are looked up in the data first and behind it in the environment of the
expression. Descending into an embedded quosure, the mask falls back to the environment of that
quosure for as long as it is evaluated.
-/

namespace Quasi

/-- The source of data that a value is. -/
def Value.asScope : Value → Except TypeFault DataScope
  | .table t => .ok (.table t)
  | .env e => .ok (.env e)
  | .vec _ => .error .tableExpected
  | .mapping entries => .ok (.mapping entries)
  | .list items => .ok (.mapping (Tagged.toBindings items))
  | .code (.formals items) =>
      .ok (.mapping (items.map fun (name, default) => (name, .tuple [.str name, .code default])))
  | v => .error (.noScope v.typeName)

namespace Machine

/-- A column of a table, from a vector or a list. -/
def column (v : Value) : Run (Vec Value) := do
  let elements ← match v with
    | .vec _ => pure v
    | .list _ => Run.own (.vec ⟨0, v.operandElements⟩)
    | .sequence _ => Run.own (.vec ⟨0, v.operandElements⟩)
    | .tuple _ => Run.own (.vec ⟨0, v.operandElements⟩)
    | _ => Run.failHost .type
  match elements with
  | .vec column => pure column
  | _ => Run.failHost .type

def tableColumns : Bindings Value → Run (Bindings (Vec Value))
  | [] => pure []
  | (name, v) :: rest => do
      let c ← column v
      pure ((name, c) :: (← tableColumns rest))

/-- A table of named columns, which must have one length. -/
def newTable (columns : Bindings Value) : Run (Table Value) := do
  let columns ← tableColumns columns
  let lengths := (columns.map fun c => c.2.elements.length).eraseDups
  if 1 < lengths.length then
    let sorted := lengths.mergeSort (fun a b => decide (a ≤ b))
    Run.failType (.tableLengths (bracketed "[" "]" (sorted.map toString)))
  else pure ⟨← Run.freshId, columns⟩

/-- The table that a value is or that its columns make. -/
def asTable (v : Value) : Run (Table Value) := do
  match v with
  | .mapping columns => newTable columns
  | v =>
      match ← Run.orFail .type v.asScope with
      | .table t => pure t
      | _ => Run.fail (.general .rowsNeedTable)

/-- A mask over values, asked in order. -/
def maskOver (sources : List Value) (home : EnvId) : Run MaskId := do
  let scopes ← sources.mapM fun v => Run.orFail .type v.asScope
  Run.newMask scopes home

/-- The mask that a value is, or one over it. It falls back to an environment if one is given. -/
def asMask (data : Value) (home : Option EnvId) : Run MaskId := do
  match data, home with
  | .mask m, none => pure m
  | .mask m, some home => do
      let _ ← Run.rechain m home
      pure m
  | .absent, home => maskOver [] (home.getD .empty)
  | .sequence sources, home => maskOver sources (home.getD .empty)
  | .tuple sources, home => maskOver sources (home.getD .empty)
  | data, home => maskOver [data] (home.getD .empty)

/-- Evaluate an embedded quosure in its own environment, behind the mask if there is one. -/
def evalQuosure (m : Machine) (ctx : EvaluatorId) (expr : Expr) (home env : EnvId) :
    Run Value := do
  match ← Run.findMask env with
  | none => m.eval ctx expr home
  | some mask => Run.under mask home fun bottom => m.eval ctx expr bottom

/-- Evaluate an expression or quosure with names resolved in a mask first. -/
def evalUnder (m : Machine) (ctx : EvaluatorId) (code : Value) (mask : MaskId)
    (env : Option EnvId) : Run Value := do
  let (body, home) ← match code, env with
    | .quosure e home, _ => pure (e, home)
    | v, some env => pure (v.toExpr, env)
    | v, none => do pure (v.toExpr, ← topEnv ctx)
  Run.under mask home fun bottom => evalIn m ctx body bottom

/-- Evaluate with data in front of the environment. -/
def evalTidy (m : Machine) (ctx : EvaluatorId) (code data : Value) (env : Option EnvId) :
    Run Value := do
  evalUnder m ctx code (← asMask data none) env

/-- Evaluate once for every row of a table. -/
def evalRows (m : Machine) (ctx : EvaluatorId) (code table : Value) (env : Option EnvId) :
    Run (List Value) := do
  let t ← asTable table
  (List.range t.rowCount).mapM fun i => do
    evalUnder m ctx code (← Run.newMask [.row t i] .empty) env

end Machine

end Quasi
