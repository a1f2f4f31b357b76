import Quasi.Session.Environment

/-!
# Working with masks

Making masks and tables, and looking into them without evaluating code.
-/

namespace Quasi

namespace Session

def newDataMask (sources : List Value) (env : Value) : Run Value := do
  let env := (← envOrNone env).getD .empty
  pure (.mask (← Machine.maskOver sources env))

/-- A mask over data. A mask itself is made to fall back to the environment, if one is given. -/
def asDataMask (data env : Value) : Run Value := do
  pure (.mask (← Machine.asMask data (← envOrNone env)))

def maskRef (v : Value) : Run MaskId := do
  match v with
  | .mask m => pure m
  | _ => Run.failHost .attribute

def maskHas (mask : Value) (name : String) : Run Value := do
  let m ← maskRef mask
  pure (.bool ((← get).data? m name).isSome)

def maskLookup (mask : Value) (name : String) : Run Value := do
  Machine.lookupData (← machine) (← maskRef mask) name

def maskNames (mask : Value) : Run Value := do
  let m ← maskRef mask
  pure (Library.texts ((← get).dataNames m))

def maskBottom (mask : Value) : Run Value := do
  pure (.env (.bottom (← maskRef mask)))

def bottomNames (mask : Value) : Run Value := do
  let m ← maskRef mask
  pure (Library.texts ((← get).names (.bottom m)))

def findMask (env : Value) : Run Value := do
  match ← Run.findMask (← envOf env) with
  | some m => pure (.mask m)
  | none => pure .absent

/-! ## Tables and other sources of data -/

def table (columns : Value) : Run Value := do
  match columns with
  | .mapping columns => do pure (.table (← Machine.newTable columns))
  | .vec _ => Run.failType .tableExpected
  | _ => Run.failHost .attribute

def tableRef (v : Value) : Run (Table Value) := do
  match v with
  | .table t => pure t
  | _ => Run.failHost .attribute

/-- The row of a table at a position; negative ones count from the end. -/
def rowAt (v : Value) (i : Int) : Run DataScope := do
  let t ← tableRef v
  match position? t.rowCount i with
  | .ok n => pure (.row t n)
  | .error _ => Run.failHost .index

/-- What a source of data has under a name. -/
def dataGet (scope : DataScope) (name : String) : Run (Option Value) := do
  ((← get).dataSlot? scope name).mapM Run.own

def row (v : Value) (i : Int) : Run Value := do
  let scope ← rowAt v i
  let names := (← get).scopeNames scope
  pure (.sequence (← names.mapM fun name => do
    pure (.sequence [.str name, (← dataGet scope name).getD .absent])))

def rowGet (v : Value) (i : Int) (name : String) : Run (Option Value) := do
  dataGet (← rowAt v i) name

def scopeNames (v : Value) : Run Value := do
  let scope ← Run.orFail .type v.asScope
  pure (Library.texts ((← get).scopeNames scope))

def scopeGet (v : Value) (name : String) : Run (Option Value) := do
  dataGet (← Run.orFail .type v.asScope) name

end Session

end Quasi
