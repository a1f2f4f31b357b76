import Quasi.Store.Environment

/-!
# Substitution

The symbols of an expression are replaced by what a table of bindings gives for them: a promise
gives its code and any other value itself. Where `...` stands as an argument, its entries take its
place. Missing arguments and unbound symbols stay as they are.
-/

namespace Quasi

namespace Substitution

variable (s : Store) (bound : String → Option Value)

/-- What stands for a value in code. -/
def codeOf : Value → Expr
  | .promise p => (s.promise p).code
  | v => v.toExpr

def symbolValue (name : String) : Expr :=
  match bound name with
  | none => .symbol name
  | some (.code .missing) => .symbol name
  | some (.dots _) => .symbol name
  | some v => codeOf s v

/-- The entries that take the place of an argument, if it is `...` and there are any. -/
def entries? (e : Expr) : Option (List (Tagged Value)) :=
  if e.isSymbol dotsName then
    match bound dotsName with
    | some (.dots entries) => some entries
    | _ => none
  else none

mutual

def substitute : Expr → Expr
  | .symbol name => symbolValue s bound name
  | .call head slots => .call (substitute head) (substituteSlots slots)
  | .formals items => .formals (substituteFormals items)
  | e => e

def substituteSlots : List (Tagged Expr) → List (Tagged Expr)
  | [] => []
  | ⟨tag, e⟩ :: rest =>
      match entries? bound e with
      | some entries => entries.map (Tagged.map (codeOf s)) ++ substituteSlots rest
      | none => ⟨tag, substitute e⟩ :: substituteSlots rest

def substituteFormals : List (String × Expr) → List (String × Expr)
  | [] => []
  | (name, e) :: rest => (name, substitute e) :: substituteFormals rest

end

end Substitution

end Quasi
