import Quasi.Machine.Basic

/-!
# Frames

An evaluator keeps a stack of the calls that are under way. A frame leaves the stack after its
exit actions ran, however its call ends. `return` finds the call that it ends by the environment
that evaluates it: the nearest one on the chain that belongs to a frame or to an expression which
is being evaluated in an environment of its own.
-/

namespace Quasi

namespace Evaluator

/-- The calls under way, outermost first. -/
def calls (e : Evaluator) : List Expr := (e.frames.map (·.call)).reverse

/-- The innermost frame whose environment is the given one. -/
def frameOf? (e : Evaluator) (env : EnvId) : Option Frame := e.frames.find? (·.env = env)

/-- The frame with a number. -/
def frame? (e : Evaluator) (id : Nat) : Option Frame := e.frames.find? (·.id = id)

/-- Change the exit actions of the frame with a number. -/
def setHandlers (e : Evaluator) (id : Nat) (f : List ExitAction → List ExitAction) : Evaluator :=
  { e with
    frames := e.frames.map fun frame =>
      if frame.id = id then { frame with handlers := f frame.handlers } else frame }

end Evaluator

/-- The exit actions after one more is registered: first by default and last with `after`; without
`add` the others are dropped. -/
def registerExit (handlers : List ExitAction) (action : ExitAction) (add after : Bool) :
    List ExitAction :=
  let kept := if add then handlers else []
  if after then kept ++ [action] else action :: kept

def Registration.apply : Registration → List ExitAction → List ExitAction
  | .clear, _ => []
  | .exit action add after, handlers => registerExit handlers action add after

def Store.register (s : Store) (ctx : EvaluatorId) (id : Nat) (r : Registration) : Store :=
  (s.setEvaluator ctx fun e => e.setHandlers id r.apply).record (.registered ctx id r)

namespace Machine

/-- The frame of the function that an environment belongs to. -/
def functionFrame (ctx : EvaluatorId) (env : EnvId) : Run (Option Frame) := do
  match ← Run.search env fun s e => ((s.evaluator ctx).frameOf? e).isSome with
  | none => pure none
  | some found => pure (((← get).evaluator ctx).frameOf? found)

/-- The environment whose evaluation a `return` in an environment ends. -/
def returnTarget (ctx : EvaluatorId) (env : EnvId) : Run (Option EnvId) :=
  Run.search env fun s e =>
    ((s.evaluator ctx).frameOf? e).isSome || (s.evaluator ctx).targets.contains e

/-- The global environment of an evaluator; the empty one if it has none. -/
def topEnv (ctx : EvaluatorId) : Run EnvId := do
  pure (((← get).evaluator ctx).globalEnv.getD .empty)

/-- The environment from which the function of an environment was called, `n` calls up. -/
def parentFrame (ctx : EvaluatorId) : Nat → EnvId → Run EnvId
  | 0, env => pure env
  | n + 1, env => do
      match (← functionFrame ctx env).bind (·.caller) with
      | some caller => parentFrame ctx n caller
      | none => topEnv ctx

def traceCalls (ctx : EvaluatorId) : Run (List String) := do
  pure (((← get).evaluator ctx).calls.map Expr.deparse)

/-- Push a frame with exit actions; gives the number by which it is known. -/
def pushFrame (ctx : EvaluatorId) (call : Expr) (env : EnvId) (function : Option ClosureId)
    (caller : Option EnvId) (handlers : List ExitAction) : Run Nat := do
  let e := (← get).evaluator ctx
  if e.maxDepth ≤ e.depth then Run.failWith .recursion (some call)
  else do
    let id ← Run.freshId
    modify fun s =>
      (s.setEvaluator ctx fun e =>
        { e with
          frames := ⟨id, call, env, function, caller, handlers⟩ :: e.frames
          depth := e.depth + 1 }).record (.entered ctx (e.depth + 1) (e.frames.length + 1))
    Run.trace fun _ => s!"enter frame {e.depth + 1}: " ++ call.deparse
    pure id

/-- Refuse to pop a frame that is not the innermost. -/
def misplaced (ctx : EvaluatorId) : Run Unit := do
  modify fun s => s.record (.misplaced ctx)
  Run.failHost .state

/-- Take a frame off the stack, which must be the innermost. -/
def popFrame (ctx : EvaluatorId) (id : Nat) : Run Unit := do
  let e := (← get).evaluator ctx
  match e.frames with
  | [] => misplaced ctx
  | frame :: rest =>
      if frame.id ≠ id then misplaced ctx
      else do
        modify fun s =>
          (s.setEvaluator ctx fun e => { e with frames := rest, depth := e.depth - 1 }).record
            (.left ctx (e.depth - 1) rest.length)
        Run.trace fun _ => s!"leave frame {e.depth}: " ++ frame.call.deparse

def runExit (m : Machine) (ctx : EvaluatorId) : ExitAction → Run Unit
  | .evaluate expr env => do let _ ← m.eval ctx expr env
  | .note label => modify fun s => { s with notes := s.notes.push label }

/-- Run exit actions in order, whatever becomes of each. The first fault is kept unless something
else is on its way already; the others are logged. -/
def runExits (m : Machine) (ctx : EvaluatorId) (pending : Bool) :
    List ExitAction → Option Signal → Run (Option Signal)
  | [], first => pure first
  | action :: rest, first => do
      match ← Run.attempt (runExit m ctx action) with
      | .ok _ => runExits m ctx pending rest first
      | .error signal =>
          if pending || first.isSome then do
            Run.warn ("exit handler failed while unwinding: " ++ (← Run.signalText signal))
            runExits m ctx pending rest first
          else runExits m ctx pending rest (some signal)

def setHandlers (ctx : EvaluatorId) (id : Nat) (f : List ExitAction → List ExitAction) : Run Unit :=
  modify fun s => s.setEvaluator ctx fun e => e.setHandlers id f

def register (ctx : EvaluatorId) (id : Nat) (r : Registration) : Run Unit :=
  modify fun s => s.register ctx id r

/-- Take the exit actions of a frame, so that each runs at most once. -/
def takeExits (ctx : EvaluatorId) (id : Nat) : Run (List ExitAction) := do
  match ((← get).evaluator ctx).frame? id with
  | none => pure []
  | some frame => do
      setHandlers ctx id fun _ => []
      pure frame.handlers

/-- Run the exit actions of a frame and take it off the stack. If nothing is on its way, the first
fault of an exit action is what remains. -/
def unwind (m : Machine) (ctx : EvaluatorId) (id : Nat) (pending : Bool) : Run Unit := do
  let actions ← takeExits ctx id
  let first ← runExits m ctx pending actions none
  popFrame ctx id
  match first with
  | some signal => Run.raise signal
  | none => pure ()

/-- Note the calls under way on a failure that unwinds its first frame. -/
def noteFailure (ctx : EvaluatorId) (f : FailureRef) : Run Unit := do
  let s ← get
  if !f.cause.isHost && (s.incident f).trace.isNone then
    let e := s.evaluator ctx
    let calls ← traceCalls ctx
    modify fun s => s.setIncident f fun incident =>
      { trace := some calls
        call := incident.call <|> e.frames.head?.map (·.call) }
    Run.trace fun _ => "failure in " ++ calls.getLast?.getD "<top>" ++ ": " ++ f.cause.message

/-- Run in a frame of its own and unwind the frame. A `return` in the environment of the frame
ends the run with a value. -/
def inFrame (m : Machine) (ctx : EvaluatorId) (call : Expr) (env : EnvId)
    (function : Option ClosureId) (caller : Option EnvId) (handlers : List ExitAction)
    (body : Run Value) : Run Value := do
  let id ← pushFrame ctx call env function caller handlers
  match ← Run.attempt body with
  | .ok v => do
      unwind m ctx id false
      pure v
  | .error (.returning v target) =>
      if target = env then do
        unwind m ctx id false
        pure v
      else do
        unwind m ctx id true
        Run.raise (.returning v target)
  | .error (.failure f) => do
      noteFailure ctx f
      unwind m ctx id true
      Run.raise (.failure f)
  | .error .overflow => do
      unwind m ctx id true
      Run.raise .overflow

/-! ## Scopes of evaluation -/

/-- Run with an environment that `return` can end. -/
def inTarget (ctx : EvaluatorId) (env : EnvId) (body : Run Value) : Run Value := do
  modify fun s => s.setEvaluator ctx fun e => { e with targets := env :: e.targets }
  let outcome ← Run.attempt body
  modify fun s => s.setEvaluator ctx fun e => { e with targets := e.targets.drop 1 }
  match outcome with
  | .error (.returning v target) =>
      if target = env then pure v else Run.raise (.returning v target)
  | outcome => Run.resume outcome

/-- Evaluate in an environment that `return` can end. -/
def evalIn (m : Machine) (ctx : EvaluatorId) (expr : Expr) (env : EnvId) : Run Value :=
  inTarget ctx env (m.eval ctx expr env)

/-- The lowest `count` items of a stack. -/
def restore {α : Type} (count : Nat) (stack : List α) : List α := stack.drop (stack.length - count)

/-- One request to an evaluator. It leaves the stack as it was. Nesting that is too deep is a
failure of the request, and so is a `return` that reaches an idle evaluator. -/
def request {α : Type} (ctx : EvaluatorId) (action : Run α) : Run α := do
  let before := (← get).evaluator ctx
  let outcome ← Run.attempt action
  modify fun s => s.setEvaluator ctx fun e =>
    { e with
      frames := restore before.frames.length e.frames
      depth := before.depth
      targets := restore before.targets.length e.targets }
  match outcome with
  | .error (.returning v target) =>
      if before.frames.isEmpty then Run.fail (.general .noFunctionToReturn)
      else Run.raise (.returning v target)
  | .error .overflow => Run.fail .recursion
  | outcome => Run.resume outcome

/-- The value of an expression, as a request. -/
def evaluate (m : Machine) (ctx : EvaluatorId) (expr : Expr) (env : EnvId) : Run Value :=
  request ctx (m.eval ctx expr env)

end Machine

end Quasi
