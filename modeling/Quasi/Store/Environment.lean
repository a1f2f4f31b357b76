import Quasi.Store.Basic
import Quasi.Text.Digit
import Quasi.Vector.Basic

/-!
# Environments

An environment binds names, and a name that it does not bind is looked up where it hangs off. The
bottom environment of a mask shows the bindings made under the mask, then those of its sources of
data. Chains end at the empty environment, unless a mask was made to hang off itself; a search
along such a chain that finds nothing does not end.
-/

namespace Quasi

namespace Store

def parent? (s : Store) : EnvId → Option EnvId
  | .empty => none
  | .scope i => some (s.scope i).parent
  | .bottom m => some (s.mask m).home

/-- The number of environments other than the empty one. -/
def environmentCount (s : Store) : Nat := s.scopes.size + s.masks.size

/-- The environments from one on, at most as many as given, and whether the chain ends there. -/
def walk (s : Store) : Nat → EnvId → List EnvId × Bool
  | 0, _ => ([], false)
  | steps + 1, e =>
      match s.parent? e with
      | none => ([e], true)
      | some parent =>
          let (rest, ends) := s.walk steps parent
          (e :: rest, ends)

/-- The environments of a chain and whether the chain ends. -/
def chain (s : Store) (e : EnvId) : List EnvId × Bool := s.walk (s.environmentCount + 2) e

/-! ## Local bindings -/

/-- The column of a table with a name. -/
def column? (t : Table Value) (name : String) : Option (Vec Value) :=
  Bindings.get? t.columns name

/-- What a mask binds a name to: by an assignment under it, or else by its first source of data
that has the name. Masks see only masks made before them. -/
def maskSlot? (s : Store) (m : Nat) (name : String) : Option Value :=
  match (s.mask ⟨m⟩).vars.get? name with
  | some v => some v
  | none =>
      (s.mask ⟨m⟩).scopes.findSome? fun
        | .mapping entries => entries.get? name
        | .env .empty => none
        | .env (.scope i) => (s.scope i).vars.get? name
        | .env (.bottom m') => if _h : m'.index < m then s.maskSlot? m'.index name else none
        | .table t => (column? t name).map .vec
        | .row t i => (column? t name).bind fun column => column.elements.item? i
termination_by m

/-- What an environment itself binds a name to. -/
def slot? (s : Store) (e : EnvId) (name : String) : Option Value :=
  match e with
  | .empty => none
  | .scope i => (s.scope i).vars.get? name
  | .bottom m => s.maskSlot? m.index name

/-- What a source of data has under a name. -/
def dataSlot? (s : Store) (scope : DataScope) (name : String) : Option Value :=
  match scope with
  | .mapping entries => entries.get? name
  | .env e => s.slot? e name
  | .table t => (column? t name).map .vec
  | .row t i => (column? t name).bind fun column => column.elements.item? i

/-- What the sources of data of a mask have under a name, the first that has it. -/
def data? (s : Store) (m : MaskId) (name : String) : Option Value :=
  (s.mask m).scopes.findSome? fun scope => s.dataSlot? scope name

def distinct (names : List String) : List String := names.eraseDups

def maskNames (s : Store) (m : Nat) : List String :=
  distinct ((s.mask ⟨m⟩).vars.names ++ (s.mask ⟨m⟩).scopes.flatMap fun
    | .mapping entries => entries.names
    | .env .empty => []
    | .env (.scope i) => (s.scope i).vars.names
    | .env (.bottom m') => if _h : m'.index < m then s.maskNames m'.index else []
    | .table t => t.columns.map (·.1)
    | .row t _ => t.columns.map (·.1))
termination_by m

/-- The names that an environment itself binds, in order. -/
def names (s : Store) (e : EnvId) : List String :=
  match e with
  | .empty => []
  | .scope i => (s.scope i).vars.names
  | .bottom m => s.maskNames m.index

def scopeNames (s : Store) : DataScope → List String
  | .mapping entries => entries.names
  | .env e => s.names e
  | .table t => t.columns.map (·.1)
  | .row t _ => t.columns.map (·.1)

/-- The names that the sources of data of a mask have. -/
def dataNames (s : Store) (m : MaskId) : List String :=
  distinct ((s.mask m).scopes.flatMap s.scopeNames)

/-- The bindings that an environment holds itself, data apart. -/
def vars (s : Store) (e : EnvId) : Bindings Value :=
  match e with
  | .empty => []
  | .scope i => (s.scope i).vars
  | .bottom m => (s.mask m).vars

def setVars (s : Store) (e : EnvId) (f : Bindings Value → Bindings Value) : Store :=
  match e with
  | .empty => s
  | .scope i => s.setScope i fun scope => { scope with vars := f scope.vars }
  | .bottom m => s.setMask m fun mask => { mask with vars := f mask.vars }

/-! ## Names of environments -/

def envName? (s : Store) : EnvId → Option String
  | .empty => some "empty"
  | .scope i => (s.scope i).name
  | .bottom _ => some "data mask"

/-- The number that stands for an environment without a name. -/
def address (e : EnvId) : String :=
  let number := match e with
    | .empty => 0
    | .scope i => 2 * i + 1
    | .bottom m => 2 * m.index + 2
  "0x7f" ++ String.ofList (Text.hex 10 (16 * number))

def label (s : Store) (e : EnvId) : String :=
  match (s.envName? e).filter (· ≠ "") with
  | some name => name
  | none => address e

def showEnv (s : Store) (e : EnvId) : String := "<environment: " ++ s.label e ++ ">"

end Store

namespace Run

/-- Search a chain to its end in vain. On a chain that does not end, so does the search. -/
def reachEnd (e : EnvId) : Run Unit := do
  if ((← get).chain e).2 then pure () else throw .endless

/-- The first environment on a chain that satisfies a test, if any. -/
def search (e : EnvId) (test : Store → EnvId → Bool) : Run (Option EnvId) := do
  let s ← get
  match (s.chain e).1.find? (test s) with
  | some found => pure (some found)
  | none => do
      reachEnd e
      pure none

/-- All environments of a chain. -/
def parents (e : EnvId) : Run (List EnvId) := do
  reachEnd e
  pure ((← get).chain e).1

/-- The nearest environment that binds a name. -/
def find (e : EnvId) (name : String) : Run (Option EnvId) :=
  search e fun s env => (s.slot? env name).isSome

/-- What the nearest binding of a name holds, a promise as it is. -/
def binding (e : EnvId) (name : String) : Run Value := do
  match ← find e name with
  | none => fail (.lookup (.unbound name))
  | some env =>
      match (← get).slot? env name with
      | some v => own v
      | none => fail (.lookup (.unbound name))

def define (e : EnvId) (name : String) (v : Value) : Run Unit := do
  match e with
  | .empty => fail (.binding .emptyEnvironment)
  | e => modify fun s => s.setVars e fun vars => vars.set name v

/-- Remove a binding that an environment holds itself. -/
def unbind (e : EnvId) (name : String) : Run Unit := do
  if ((← get).vars e).contains name then
    modify fun s => s.setVars e fun vars => vars.erase name
  else fail (.lookup (.unboundHere name))

/-- Change the nearest binding of a name. -/
def rebind (e : EnvId) (name : String) (v : Value) : Run Unit := do
  match ← find e name with
  | none => fail (.lookup (.unboundSet name))
  | some env => define env name v

/-- The innermost mask whose bottom environment is on a chain. -/
def findMask (e : EnvId) : Run (Option MaskId) := do
  match ← search e fun _ env => match env with | .bottom _ => true | _ => false with
  | some (.bottom m) => pure (some m)
  | _ => pure none

/-- Make a mask fall back to another environment; gives the one it fell back to before. -/
def rechain (m : MaskId) (home : EnvId) : Run EnvId := do
  let s ← get
  let previous := (s.mask m).home
  set (s.rechain m home)
  if previous ≠ home then
    trace fun _ => "data mask rechained onto " ++ s.showEnv home
  pure previous

/-- A run under a mask that falls back to another environment meanwhile. -/
def under {α : Type} (m : MaskId) (home : EnvId) (body : EnvId → Run α) : Run α := do
  let previous ← rechain m home
  andFinally (body (.bottom m)) (do let _ ← rechain m previous)

end Run

end Quasi
