import Quasi.Expr.TypeName
import Quasi.Number.Numeral
import Quasi.Reader.Atom

/-!
# Deparsing

The one-line text of an expression, in the form that the reader accepts. Names that would not be
read back as symbols stand between backquotes. Constants without a written form are shown by their
type, and an embedded quosure by its expression after a caret.
-/

namespace Quasi

open Reader

namespace Name

/-- The name without one newline at its end. -/
def withoutNewline (name : List Char) : List Char :=
  if name.getLast? = some '\n' then name.dropLast else name

/-- Whether a name has the form of a word that starts with neither a colon nor a caret. A newline
at its end does not count. -/
def isPlain (name : String) : Bool :=
  match withoutNewline name.toList with
  | [] => false
  | c :: rest => c ≠ ':' && c ≠ '^' && isWordChar c && rest.all isWordChar

/-- The name between backquotes, with backquotes and backslashes escaped. -/
def backquoted (name : String) : String :=
  let escape (c : Char) : List Char := if c = '\\' ∨ c = backquote then ['\\', c] else [c]
  String.ofList (backquote :: name.toList.flatMap escape ++ [backquote])

def deparse (name : String) : String :=
  if name = ":" ∨ name = ":=" then name
  else if isPlain name && (literal? name).isNone && (Numeral.number? name).isNone then name
  else backquoted name

end Name

/-- The text of a number. -/
def Binary64.literal (x : Binary64) : String :=
  if x.isNaN then "NaN"
  else if x.isInfinite then if x.negative then "-Inf" else "Inf"
  else x.text

/-- The call that makes a vector of elements with the given texts. -/
def vectorText (elements : List String) : String :=
  if elements.isEmpty then "NULL" else "(c " ++ " ".intercalate elements ++ ")"

mutual

def Expr.deparse : Expr → String
  | .const value => value.deparseAtom
  | .symbol name => Name.deparse name
  | .call head slots => "(" ++ " ".intercalate (head.deparse :: deparseSlots slots) ++ ")"
  | .formals items => "(" ++ " ".intercalate (deparseFormals items) ++ ")"
  | .missing => "<missing>"

/-- The texts of argument slots, each name before its value. -/
def deparseSlots : List (Tagged Expr) → List String
  | [] => []
  | ⟨some tag, expr⟩ :: rest => (":" ++ Name.deparse tag) :: expr.deparse :: deparseSlots rest
  | ⟨none, expr⟩ :: rest => expr.deparse :: deparseSlots rest

def deparseFormals : List (String × Expr) → List String
  | [] => []
  | (name, default) :: rest =>
      (if default.isMissing then Name.deparse name
       else "(" ++ Name.deparse name ++ " " ++ default.deparse ++ ")") :: deparseFormals rest

/-- The text of a constant with a given value. -/
def Value.deparseAtom : Value → String
  | .null => "NULL"
  | .absent => "NULL"
  | .bool b => if b then "TRUE" else "FALSE"
  | .str s => Text.StringLiteral.quote s
  | .num x => x.literal
  | .nan _ => "NaN"
  | .int i => toString i
  | .vec ⟨_, .bools xs⟩ => vectorText (xs.map fun b => if b then "TRUE" else "FALSE")
  | .vec ⟨_, .ints xs⟩ => vectorText (xs.map toString)
  | .vec ⟨_, .words xs⟩ => vectorText (xs.map toString)
  | .vec ⟨_, .floats xs⟩ => vectorText (xs.map Binary64.literal)
  | .vec ⟨_, .texts _ xs⟩ => vectorText (xs.map Text.StringLiteral.quote)
  | .vec ⟨_, .objects xs⟩ => vectorText (deparseAtoms xs)
  | .quosure expr _ => "^" ++ expr.deparse
  | value => "<" ++ value.typeName ++ ">"

def deparseAtoms : List Value → List String
  | [] => []
  | value :: rest => value.deparseAtom :: deparseAtoms rest

end

/-- The text of a value where an expression is expected. -/
def Value.deparse : Value → String
  | .code e => e.deparse
  | v => v.deparseAtom

end Quasi
