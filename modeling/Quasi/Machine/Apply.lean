import Quasi.Arguments.Matching
import Quasi.Machine.Frames

/-!
# Calls of closures

A call binds its arguments in a fresh environment that hangs off the environment where the
function was made, and evaluates the body there in a frame of its own. Arguments are promises over
the caller's environment; formals that got none are promises of their defaults over the fresh
environment, or missing.
-/

namespace Quasi

namespace Machine

/-- How an argument is shown that nothing takes. -/
def describe (s : Store) : Value → String
  | .promise p => (s.promise p).code.deparse
  | .code e => e.deparse
  | v => (s.inspect Run.showDepth v).getD "..."

/-- Match arguments to formals. Whether names may be abbreviated is read from the settings once
exact names are matched. -/
def matchFormals {α : Type} (formals : List String) (describe : α → String)
    (supplied : List (Tagged α)) (call : Option Expr) : Run (Matched α) := do
  let toFailure {β : Type} : Except ArityFault β → Run β
    | .ok b => pure b
    | .error fault => Run.failWith (.arity fault) call
  let state ← toFailure (Matching.exactRound formals [] (Matching.number supplied))
  match (← get).settings.partialMatching with
  | .error fault => Run.failHost (.value fault.message)
  | .ok partialNames => toFailure (Matching.finish formals describe partialNames state)

/-- The argument slots of a form by the names that they match. -/
def matchSlots (names : List String) (slots : List Slot) : Run (Bindings Expr) := do
  pure (← matchFormals names Expr.deparse slots none).bound

/-! ## Arguments -/

/-- One promise for every slot, and the entries of the caller's `...` where it stands. -/
def promiseArgs (ctx : EvaluatorId) (env : EnvId) : List Slot → Run (List (Tagged Value))
  | [] => pure []
  | ⟨tag, e⟩ :: rest => do
      if e.isMissing then
        pure (⟨tag, .code .missing⟩ :: (← promiseArgs ctx env rest))
      else if e.isSymbol dotsName then
        let entries ← dotsOf env
        pure (entries ++ (← promiseArgs ctx env rest))
      else
        let p ← Run.newPromise ⟨e, some env, some ctx, false, .unforced⟩
        pure (⟨tag, .promise p⟩ :: (← promiseArgs ctx env rest))

/-- The values of arguments, the named ones apart. No name may be given twice. -/
def forceArgs (m : Machine) (ctx : EvaluatorId) (call : Expr) :
    List (Tagged Value) → List Value → Bindings Value → Run (List Value × Bindings Value)
  | [], positional, named => pure (positional.reverse, named)
  | t :: rest, positional, named => do
      match t.item with
      | .code .missing => Run.failWith (.missingArgument none) (some call)
      | item => do
          let v ← forceValue m (some ctx) item
          match t.name? with
          | none => forceArgs m ctx call rest (v :: positional) named
          | some name =>
              if named.contains name then Run.failWith (.arity (.nameTwice name)) (some call)
              else forceArgs m ctx call rest positional (named.set name v)

/-- Evaluate argument slots from left to right. -/
def evalArgs (m : Machine) (ctx : EvaluatorId) (slots : List Slot) (env : EnvId) (call : Expr) :
    Run (List Value × Bindings Value) := do
  forceArgs m ctx call (← promiseArgs ctx env slots) [] []

/-! ## Calls -/

/-- Bind formals in a fresh environment. -/
def bindFormals (ctx : EvaluatorId) (env : EnvId) (matched : Matched Value) :
    List (String × Expr) → Run Unit
  | [] => pure ()
  | (name, default) :: rest => do
      if name = dotsName then Run.define env name (.dots matched.dots)
      else
        match matched.bound.get? name, default with
        | some (.code .missing), .missing => Run.define env name (.code .missing)
        | none, .missing => Run.define env name (.code .missing)
        | some (.code .missing), default => bindDefault name default
        | none, default => bindDefault name default
        | some v, _ => Run.define env name v
      bindFormals ctx env matched rest
where
  bindDefault (name : String) (default : Expr) : Run Unit := do
    let p ← Run.newPromise ⟨default, some env, some ctx, true, .unforced⟩
    Run.define env name (.promise p)

/-- Take up the code of a closure. -/
def useClosure (c : ClosureId) : Run Closure := do
  let s ← get
  set (s.use (.closure c) (some (s.closure c).env))
  pure (s.closure c)

/-- The value of a closure at arguments that were promised already. -/
def applyClosure (m : Machine) (ctx : EvaluatorId) (c : ClosureId)
    (supplied : List (Tagged Value)) (call : Expr) (caller : EnvId) : Run Value := do
  let closure ← useClosure c
  let env ← Run.newScope closure.env [] none
  let s ← get
  let matched ← matchFormals (closure.formals.map (·.1)) (describe s) supplied (some call)
  bindFormals ctx env matched closure.formals
  inFrame m ctx call env (some c) (some caller) [] (m.eval ctx closure.body env)

/-- A promise that has its value from the start. -/
def givenPromise (v : Value) : Run Value := do
  let code := match v with
    | .code e => e.quoted
    | v => .const v
  pure (.promise (← Run.newPromise ⟨code, none, none, false, .given v⟩))

/-- The code that evaluates to a value: a symbol or call is quoted. -/
def quotedValue : Value → Expr
  | .code (.symbol name) => (Expr.symbol name).quoted
  | .code (.call head slots) => (Expr.call head slots).quoted
  | v => v.toExpr

/-- The name by which a function is called that was not looked up. -/
def functionLabel (s : Store) (fn : Value) : String :=
  let name := match fn with
    | .closure c => (s.closure c).name
    | .builtin b _ => some b.name
    | .env e => s.envName? e
    | .slot t => t.tag
    | _ => none
  (name.filter (· ≠ "")).getD "FUN"

/-- The call that applying a function to values stands for. -/
def callOf (s : Store) (fn : Value) (args : List Value) (named : Bindings Value) : Expr :=
  .call (.symbol (functionLabel s fn))
    (args.map (fun v => Tagged.bare (quotedValue v)) ++
      named.map fun (name, v) => ⟨some name, quotedValue v⟩)

end Machine

end Quasi
