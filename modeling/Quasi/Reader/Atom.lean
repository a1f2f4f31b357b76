import Quasi.Expr.Basic
import Quasi.Number.Numeral
import Quasi.Reader.Token

/-!
# Atoms

What a single token denotes: a word is a literal, a numeral or a symbol, and a backquoted name is
a symbol whatever it spells.
-/

namespace Quasi.Reader

/-- The words that denote constants. The literal for NaN is one object wherever it is written. -/
def literal? (word : String) : Option Value :=
  if word = "TRUE" then some (.bool true)
  else if word = "FALSE" then some (.bool false)
  else if word = "NULL" then some .null
  else if word = "Inf" then some (.num (Binary64.infinity false))
  else if word = "-Inf" then some (.num (Binary64.infinity true))
  else if word = "NaN" then some (.nan (some 0))
  else none

def atom (word : String) : Expr :=
  match literal? word with
  | some value => .const value
  | none =>
      match Numeral.read? word.toList with
      | some numeral =>
          .const (if numeral.isIntegral then .int numeral.intValue else .num numeral.value)
      | none => .symbol word

/-- The name between backquotes. A backslash stands for the character after it, except that one at
the end of a line stands for itself. -/
def unescape : List Char → List Char
  | '\\' :: c :: rest => if c = '\n' then '\\' :: c :: unescape rest else c :: unescape rest
  | c :: rest => c :: unescape rest
  | [] => []

/-- The characters of a token without its first and last one. -/
def inner (token : String) : List Char := (token.toList.drop 1).dropLast

def backquotedName (token : String) : String := String.ofList (unescape (inner token))

/-- The text of a string token. -/
def stringText? (token : String) : Except Text.StringLiteral.Fault String :=
  (Text.StringLiteral.decode (inner token)).map String.ofList

end Quasi.Reader
