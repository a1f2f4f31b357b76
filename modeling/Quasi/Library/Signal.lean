import Quasi.Machine.Frames
import Quasi.Library.Text

/-!
# Signalling primitives

Failing with a message, warning, and looking into a failure that was caught.
-/

namespace Quasi

namespace Library

/-- The classes that a failure is given. -/
def classNames (v : Value) : Run (List String) := do
  match v with
  | .str name => pure [name]
  | v => do
      pure ((← iterate v).filterMap fun
        | .str name => some name
        | _ => none)

/-- Fail with a message made of the arguments, or with a failure that was caught. -/
def stop (ctx : EvaluatorId) (args : List Value) (named : Bindings Value) (env : EnvId) :
    Run Value := do
  match args with
  | [.failure f] => Run.raise (.failure f)
  | args => do
      let message ← joinParts "" args
      let call ← match ← Machine.functionFrame ctx env with
        | none => pure none
        | some frame => do
            pure (if ← namedFlag named "call." then some frame.call else none)
      let classes ← match named.get? "class" with
        | some v => classNames v
        | none => pure []
      Run.failWith (.user message classes) call

def warning (ctx : EvaluatorId) (args : List Value) (env : EnvId) : Run Value := do
  let message ← joinParts "" args
  match ← Machine.functionFrame ctx env with
  | some frame => Run.warn ("Warning in " ++ frame.call.deparse ++ ": " ++ message)
  | none => Run.warn ("Warning: " ++ message)
  pure (.str message)

def message (args : List Value) : Run Value := do
  let text ← joinParts "" args
  modify fun s => { s with err := s.err ++ text ++ "\n" }
  pure .null

def conditionMessage (args : List Value) : Run Value := do
  match ← oneArg "conditionMessage" args with
  | .failure f => pure (.str f.cause.message)
  | v => do pure (.str (← Run.plainText v))

def conditionCall (args : List Value) : Run Value := do
  match ← oneArg "conditionCall" args with
  | .failure f =>
      match f.cause.isHost, ((← get).incident f).call with
      | false, some call => pure (.code call)
      | _, _ => pure .null
  | _ => pure .null

end Library

end Quasi
