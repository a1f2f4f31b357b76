import Quasi.Printer.Deparse

/-!
# Laying calls out

A call that is too long for one line is broken: the head stays beside the parenthesis and every
argument gets a line of its own. Below a given depth of arguments only dots are shown.
-/

namespace Quasi

/-- How wide a line may be and how deep arguments are shown. -/
structure Layout where
  width : Int := 80
  depth : Int := 8

/-- The parts of a call on one line, or one part a line if they do not fit. `indent` counts the
steps of two columns by which the lines after the first are moved. -/
def Layout.arrange (layout : Layout) (indent : Nat) (parts : List String) : String :=
  let line := "(" ++ " ".intercalate parts ++ ")"
  if ¬ line.toList.contains '\n' ∧ (line.length + indent * 2 : Int) ≤ layout.width then line
  else "(" ++ ("\n" ++ String.ofList (List.replicate (2 * indent + 2) ' ')).intercalate parts ++ ")"

mutual

/-- The text of an expression that is an argument `level` calls deep. -/
def Expr.layOut (layout : Layout) (indent : Nat) (level : Nat) : Expr → String
  | .call head slots =>
      if layout.depth ≤ level then "..."
      else
        layout.arrange indent
          (head.layOut layout (indent + 1) level :: layOutSlots layout (indent + 1) (level + 1) slots)
  | e => if layout.depth ≤ level then "..." else e.deparse
termination_by structural e => e

def layOutSlots (layout : Layout) (indent : Nat) (level : Nat) :
    List (Tagged Expr) → List String
  | [] => []
  | ⟨some tag, expr⟩ :: rest =>
      (":" ++ Name.deparse tag ++ " " ++ expr.layOut layout indent level) ::
        layOutSlots layout indent level rest
  | ⟨none, expr⟩ :: rest =>
      expr.layOut layout indent level :: layOutSlots layout indent level rest
termination_by structural slots => slots

end

/-- The text of a value where an expression is expected, calls laid out. -/
def Value.layOut (layout : Layout) (indent : Nat) : Value → String
  | .code e => e.layOut layout indent 0
  | v => if layout.depth ≤ 0 then "..." else v.deparseAtom

end Quasi
