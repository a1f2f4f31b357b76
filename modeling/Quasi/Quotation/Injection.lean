import Quasi.Expr.Basic

/-!
# Injection operators

Inside a template, `(!! x)` stands for the value of `x`, `(!!! xs)` for the items of `xs` as
arguments, and embracing an argument for the quosure of that argument. Each takes one operand. The
second argument of a member access is a bare name, into which nothing can be injected.
-/

namespace Quasi

inductive Injection where
  | unquote (operand : Expr)
  | splice (operand : Expr)
  | embrace (operand : Expr)

def unquoteName : String := "!!"

def spliceName : String := "!!!"

def embraceName : String := "\x7b\x7b"

def nameAssignName : String := ":="

namespace Expr

/-- The injection that an expression is. -/
def injection? : Expr → Option Injection
  | .call (.symbol name) [⟨_, operand⟩] =>
      if name = unquoteName then some (.unquote operand)
      else if name = spliceName then some (.splice operand)
      else if name = embraceName then some (.embrace operand)
      else none
  | _ => none

/-- The two sides of an injected argument name. -/
def nameAssign? : Expr → Option (Expr × Expr)
  | .call (.symbol name) [⟨_, lhs⟩, ⟨_, rhs⟩] =>
      if name = nameAssignName then some (lhs, rhs) else none
  | _ => none

/-- The head of a call whose second argument is a bare name. -/
def memberHead? (head : Expr) : Option String :=
  head.symbolName?.filter fun name => name = "$" || name = "@"

mutual

/-- Whether anything is injected somewhere in an expression. -/
def containsInjection : Expr → Bool
  | .call head slots =>
      (Expr.call head slots).injection?.isSome || head.containsInjection || anyInjection slots
  | .formals items => anyFormalInjection items
  | _ => false

def anyInjection : List (Tagged Expr) → Bool
  | [] => false
  | ⟨_, e⟩ :: rest => e.containsInjection || anyInjection rest

def anyFormalInjection : List (String × Expr) → Bool
  | [] => false
  | (_, e) :: rest => e.containsInjection || anyFormalInjection rest

end

end Expr

end Quasi
