import Quasi.Library.Arguments

/-!
# Function primitives

Calling a function for every element of a list, or with the elements of a list.
-/

namespace Quasi

namespace Library

def lapply (m : Machine) (ctx : EvaluatorId) (args : List Value) (named : Bindings Value)
    (env : EnvId) : Run Value := do
  match args with
  | xs :: fn :: extra => do
      let items ← match xs with
        | .list items => pure items
        | .mapping entries => pure (entries.map fun (key, v) => ⟨some key, v⟩)
        | xs => do pure ((← iterate xs).map .bare)
      pure (.list (← items.mapM fun t => do
        pure ⟨t.tag, ← m.call ctx fn (t.item :: extra) named env⟩))
  | _ => Run.failArity .listAndFunction

/-- The arguments that a list stands for: positional ones, and those with a name. Of two with one
name the later counts. -/
def splitArgs (items : List (Tagged Value)) : List Value × Bindings Value :=
  (items.filterMap fun t => if t.name?.isNone then some t.item else none,
    Bindings.ofPairs (items.filterMap fun t => t.name?.map (·, t.item)))

def doCall (m : Machine) (ctx : EvaluatorId) (args : List Value) (env : EnvId) : Run Value := do
  checkCount "do.call" 1 2 args
  let fn ← match args.getD 0 .null with
    | .str name => Machine.lookupFunction m env name
    | .code (.symbol name) => Machine.lookupFunction m env name
    | fn => pure fn
  let items ← match (args[1]? : Option Value) with
    | none => pure []
    | some (.list items) => pure items
    | some v => do pure ((← iterate v).map .bare)
  let (positional, byName) := splitArgs items
  m.call ctx fn positional byName env

end Library

end Quasi
