import Quasi.Text.Digit
import Quasi.Text.Printable
import Quasi.Text.Surrogate

/-!
# Quoted texts

Messages show a text between single quotes, or between double quotes if it holds a single quote
and no double quote. What does not print is shown by its code point.
-/

namespace Quasi.Text.Quoted

/-- The quotation mark that surrounds a text. -/
def mark (text : List Char) : Char :=
  if text.contains '\'' && !text.contains '"' then '"' else '\''

/-- How one character shows inside the quotation mark `quote`. -/
def shown (quote c : Char) : List Char :=
  if c = quote ∨ c = '\\' then ['\\', c]
  else if c = '\n' then ['\\', 'n']
  else if c = '\r' then ['\\', 'r']
  else if c = '\t' then ['\\', 't']
  else
    match loneSurrogate? c with
    | some unit => '\\' :: 'u' :: hex 4 unit
    | none =>
        if isPrintable c then [c]
        else if c.toNat < 0x100 then '\\' :: 'x' :: hex 2 c.toNat
        else if c.toNat < 0x10000 then '\\' :: 'u' :: hex 4 c.toNat
        else '\\' :: 'U' :: hex 8 c.toNat

def quote (text : String) : String :=
  let q := mark text.toList
  String.ofList (q :: text.toList.flatMap (shown q) ++ [q])

example : quote "it's" = "\"it's\"" := by decide +kernel
example : quote "\x01é" = "'\\x01é'" := by decide +kernel

end Quasi.Text.Quoted
