import Quasi.Expr.Basic

/-!
# Rewriting code

`rewriteMembers` turns accesses by bare name into accesses by text, whose second slot takes any
expression. `squash` puts the expression of every embedded quosure in the place of the quosure.
-/

namespace Quasi

namespace Expr

/-- The name that the second slot of a member access spells. -/
def bareName? : Expr → Option String
  | .symbol name => some name
  | .const (.str text) => some text
  | _ => none

/-- A member access with its name as a text, and any other call as it is. -/
def memberByText (head : Expr) (slots : List Slot) : Expr :=
  match slots with
  | [target, name] =>
      if head.isSymbol "$" then
        match name.item.bareName? with
        | some label => .call (.symbol "[[") [target, .bare (.const (.str label))]
        | none => .call head slots
      else .call head slots
  | slots => .call head slots

mutual

def rewriteMembers : Expr → Expr
  | .call head slots => memberByText head.rewriteMembers (rewriteSlots slots)
  | .formals items => .formals (rewriteFormals items)
  | e => e

def rewriteSlots : List (Tagged Expr) → List (Tagged Expr)
  | [] => []
  | ⟨tag, e⟩ :: rest => ⟨tag, e.rewriteMembers⟩ :: rewriteSlots rest

def rewriteFormals : List (String × Expr) → List (String × Expr)
  | [] => []
  | (name, e) :: rest => (name, e.rewriteMembers) :: rewriteFormals rest

end

mutual

def squash : Expr → Expr
  | .const (.quosure e _) => e.squash
  | .call head slots => .call head.squash (squashSlots slots)
  | .formals items => .formals (squashFormals items)
  | e => e

def squashSlots : List (Tagged Expr) → List (Tagged Expr)
  | [] => []
  | ⟨tag, e⟩ :: rest => ⟨tag, e.squash⟩ :: squashSlots rest

def squashFormals : List (String × Expr) → List (String × Expr)
  | [] => []
  | (name, e) :: rest => (name, e.squash) :: squashFormals rest

end

end Expr

/-- The expression of a quosure or the expression that a value is, without embedded quosures. -/
def Value.squash : Value → Expr
  | .quosure e _ => e.squash
  | v => v.toExpr.squash

end Quasi
