import Quasi.Session.Basic

/-!
# Working with environments

What a session can do with environments from outside: making them, binding and looking names up,
and walking their chains.
-/

namespace Quasi

namespace Session

/-- The environment that a value is. -/
def envOf (v : Value) : Run EnvId := do
  match v with
  | .env e => pure e
  | _ => Run.failHost .attribute

/-- The environment that a value is; none where nothing is given. -/
def envOrNone (v : Value) : Run (Option EnvId) := do
  match v with
  | .absent => pure none
  | v => do pure (some (← envOf v))

/-- A new environment below a given one; otherwise below what the evaluator is executing, or else
below a new base environment. -/
def newEnvironment (parent : Value) (ctx : Option EvaluatorId) : Run Value := do
  let parent ← match ← envOrNone parent, ctx with
    | some parent, _ => pure parent
    | none, some ctx =>
        match ← HostFunction.environmentBelow ctx with
        | some below => pure below
        | none => newBase
    | none, none => newBase
  pure (.env (← Run.newScope parent [] none))

def namedEnvironment (parent : Value) (name : Option String) : Run Value := do
  pure (.env (← Run.newScope ((← envOrNone parent).getD .empty) [] name))

def bind (env v : Value) (name : String) : Run Value := do
  Run.define (← envOf env) name v
  pure env

/-- Bind a name that is given as a text or a symbol. -/
def bindKey (env key v : Value) : Run Value := do
  match ← envOf env, key with
  | .empty, _ => Run.fail (.binding .emptyEnvironment)
  | e, .str name => Run.define e name v
  | e, .code (.symbol name) => Run.define e name v
  | _, key => Run.fail (.binding (.badName (← Run.inspect key)))
  pure .absent

/-- A new environment with one binding. -/
def extend (parent v : Value) (name : String) : Run Value := do
  let e ← Run.newScope ((← envOrNone parent).getD .empty) [] none
  Run.define e name v
  pure (.env e)

def lookup (env : Value) (name : String) (callable : Bool) : Run Value := do
  let e ← envOf env
  let m ← machine
  if callable then Machine.lookupFunction m e name else Machine.lookup m e name

def unbind (env : Value) (name : String) : Run Value := do
  Run.unbind (← envOf env) name
  pure env

def rebind (env v : Value) (name : String) : Run Value := do
  Run.rebind (← envOf env) name v
  pure .absent

def find (env : Value) (name : String) : Run Value := do
  match ← Run.find (← envOf env) name with
  | some e => pure (.env e)
  | none => pure .absent

def binding (env : Value) (name : String) : Run Value := do
  Run.binding (← envOf env) name

/-- What an environment itself binds a name to. -/
def localBinding (env : Value) (name : String) : Run (Option Value) := do
  let e ← envOf env
  ((← get).slot? e name).mapM Run.own

/-- Whether an environment itself binds the name that a text or symbol is. -/
def contains (env key : Value) : Run Value := do
  let e ← envOf env
  let s ← get
  match key with
  | .str name => pure (.bool (s.slot? e name).isSome)
  | .code (.symbol name) => pure (.bool (s.slot? e name).isSome)
  | _ => pure (.bool false)

def envNames (env : Value) : Run Value := do
  let e ← envOf env
  pure (Library.texts (Library.sortTexts ((← get).names e)))

def parents (env : Value) : Run Value := do
  pure (.sequence ((← Run.parents (← envOf env)).map .env))

/-- Whether an environment is on the chain of another. -/
def isAncestor (env other : Value) : Run Value := do
  let e ← envOf env
  pure (.bool (← Run.search (← envOf other) fun _ f => f = e).isSome)

def isEmpty (env : Value) : Run Value := do
  pure (.bool (decide ((← envOf env) = .empty)))

end Session

end Quasi
