import Quasi.Expr.Position
import Quasi.Printer.Inspect
import Quasi.Quotation.Injection
import Quasi.Quotation.Splice

/-!
# Editing templates by position

A path of positions leads from the root of a template to one of its parts, and `unquote` puts a
value there as a tree of its own. `unquoteSplice` replaces an argument slot by any number of slots.
Neither reaches the bare name of a member access.
-/

namespace Quasi

namespace Template

def checkMemberSlot (head : Expr) (i : Nat) : Except Cause Unit :=
  match head.memberHead? with
  | some name => if i = 2 then .error (.template (.nameSlot name)) else .ok ()
  | none => .ok ()

/-- Apply an edit to the call and position that a path leads to. -/
def edit (change : Expr → List Slot → Nat → Except Cause Expr) :
    Expr → Int → List Int → Except Cause Expr
  | .call head slots, i, rest =>
      match position? (slots.length + 1) i with
      | .error j => .error (.template (.outOfRange j (slots.length + 1)))
      | .ok n =>
          match rest with
          | [] => change head slots n
          | next :: rest => do
              let part ← edit change ((Expr.part? head slots n).getD .missing) next rest
              .ok (Expr.setPart head slots n part)
  | e, i, _ => .error (.template (.noSuchPosition i e.plain))
termination_by _ _ rest => rest.length

/-- The template with the part at a path replaced by a value. The empty path is the whole. -/
def unquote (template : Expr) (path : List Int) (v : Value) : Except Cause Expr :=
  match path with
  | [] => .ok v.toExpr
  | i :: rest =>
      edit (fun head slots n => do
        checkMemberSlot head n
        .ok (Expr.setPart head slots n v.toExpr)) template i rest

/-- The template with the slot at a path replaced by the items of a value. -/
def unquoteSplice (template : Expr) (path : List Int) (v : Value) : Except Cause Expr :=
  match path with
  | [] => .error (.callable .spliceWithoutSlot)
  | i :: rest =>
      match v.spliceItems with
      | .error fault => .error (.callable fault)
      | .ok items =>
          edit (fun head slots n =>
            match n with
            | 0 => .error (.callable .spliceIntoHead)
            | k + 1 => do
                checkMemberSlot head (k + 1)
                .ok (.call head (slots.take k ++ items ++ slots.drop (k + 1)))) template i rest

end Template

end Quasi
