import Quasi.Library.Arguments

/-!
# Text primitives

Printing values and joining their texts.
-/

namespace Quasi

namespace Library

def write (text : String) : Run Unit := modify fun s => { s with out := s.out ++ text }

/-- The text of a value that is joined with others; a text stands for itself. -/
def itemText (v : Value) : Run String := do
  match v with
  | .str text => pure text
  | v => Run.format v

/-- The text of a value; the elements of a vector are joined with spaces. -/
def partText (v : Value) : Run String := do
  match v with
  | .vec v => do pure (" ".intercalate (← v.elements.items.mapM itemText))
  | v => itemText v

/-- The text between the parts that are joined. -/
def separator (named : Bindings Value) : Run String := do
  match named.get? "sep" with
  | none => pure " "
  | some (.str sep) => pure sep
  | some _ => Run.failHost .attribute

def joinParts (sep : String) (args : List Value) : Run String := do
  pure (sep.intercalate (← args.mapM partText))

def paste (args : List Value) (named : Bindings Value) : Run Value := do
  let sep ← separator named
  pure (.str (← joinParts sep args))

def paste0 (args : List Value) : Run Value := do
  pure (.str (← joinParts "" args))

def print (args : List Value) : Run Value := do
  let x ← oneArg "print" args
  write ((← Run.format x) ++ "\n")
  pure x

def cat (args : List Value) (named : Bindings Value) : Run Value := do
  let sep ← separator named
  write (← joinParts sep args)
  pure .null

def deparse (args : List Value) : Run Value := do
  pure (.str (← oneArg "deparse" args).toExpr.deparse)

end Library

end Quasi
