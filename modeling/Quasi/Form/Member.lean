import Quasi.Machine.Basic

/-!
# Member access

`($ target name)` gives the element of a value that has the name, and `NULL` if it has none. What
is no container shows its own parts: a call its head, a closure its formals, a failure its message.
-/

namespace Quasi

namespace Machine

variable (m : Machine) (ctx : EvaluatorId)

def textOrAbsent : Option String → Value
  | some text => .str text
  | none => .absent

/-- A part of a value that is no container; nothing if it has no such part. -/
def partOf (s : Store) (v : Value) (name : String) : Value :=
  match v, name with
  | .quosure e _, "expr" => .code e
  | .quosure _ env, "env" => .env env
  | .closure c, "formals" => .code (.formals (s.closure c).formals)
  | .closure c, "body" => .code (s.closure c).body
  | .closure c, "env" => .env (s.closure c).env
  | .closure c, "name" => textOrAbsent (s.closure c).name
  | .builtin b _, "name" => .str b.name
  | .code (.symbol id), "id" => .str id
  | .code (.const v), "value" => v
  | .code (.call head _), "head" => .code head
  | .code (.call _ slots), "args" => .tuple (slots.map .slot)
  | .code (.call head _), "head_name" => textOrAbsent head.symbolName?
  | .slot slot, "name" => textOrAbsent slot.tag
  | .slot slot, "value" => .code slot.item
  | .failure f, "message" => if f.cause.isHost then .null else .str f.cause.message
  | .failure f, "call" =>
      if f.cause.isHost then .null
      else
        match (s.incident f).call with
        | some call => .code call
        | none => .absent
  | .failure f, "trace" =>
      if f.cause.isHost then .null
      else
        match (s.incident f).trace with
        | some calls => .sequence (calls.map .str)
        | none => .absent
  | _, _ => .null

def getMember (target : Value) (name : String) : Run Value := do
  match target with
  | .pronoun .data mask => lookupData m mask name
  | .pronoun .env mask => lookup m ((← get).mask mask).home name
  | .env env =>
      match (← get).slot? env name with
      | none => pure .null
      | some v => forceValue m none (← Run.own v)
  | .list items => pure ((Tagged.get? items name).getD .null)
  | .mapping entries => pure ((Bindings.get? entries name).getD .null)
  | .null => Run.failType .atomicMember
  | .bool _ => Run.failType .atomicMember
  | .int _ => Run.failType .atomicMember
  | .num _ => Run.failType .atomicMember
  | .nan _ => Run.failType .atomicMember
  | .str _ => Run.failType .atomicMember
  | .vec _ => Run.failType .atomicMember
  | v => pure (partOf (← get) v name)

def memberForm (slots : List Slot) (env : EnvId) : Run Value := do
  match slots with
  | [target, name] => do
      let v ← m.eval ctx target.item env
      match name.item with
      | .symbol name => getMember m v name
      | .const (.str name) => getMember m v name
      | e => Run.failType (.memberName e.plain)
  | _ => Run.failArity .targetAndName

end Machine

end Quasi
