import Quasi.Expr.TypeName
import Quasi.Settings.Logging

/-!
# The store

Everything that has an identity lives in the store and is referred to by its index: scopes, masks,
promises, closures, failures and evaluators. A `Run` works on a store and ends with a value or is
interrupted; either way the store keeps what was done to it.
-/

namespace Quasi

/-- An ordinary environment: its own bindings and the environment that it hangs off. -/
structure Scope where
  vars : Bindings Value
  parent : EnvId
  name : Option String

/-- A source of data for a mask. An environment shows only its own bindings, and a row of a table
its cells. -/
inductive DataScope where
  | mapping (entries : Bindings Value)
  | env (e : EnvId)
  | table (t : Table Value)
  | row (t : Table Value) (index : Nat)

/-- A data mask: what was bound under it, its sources of data in the order in which they are
asked, and the environment behind them. -/
structure Mask where
  vars : Bindings Value
  scopes : List DataScope
  home : EnvId

/-- How far a promise has come. Once it has a value or has failed it never changes again. -/
inductive Progress where
  | unforced
  | interrupted
  | forcing
  | value (v : Value)
  | failed (f : FailureRef)
  | given (v : Value)

/-- A suspended computation. A settled one has given its environment up. -/
structure Promise where
  code : Expr
  env : Option EnvId
  evaluator : Option EvaluatorId
  isDefault : Bool
  progress : Progress

structure Closure where
  formals : List (String × Expr)
  body : Expr
  env : EnvId
  name : Option String

/-- What is noted about a failure while it unwinds: the call that failed and the calls that were
under way, outermost first. -/
structure Incident where
  call : Option Expr
  trace : Option (List String)

/-- What a frame does when it unwinds. -/
inductive ExitAction where
  | evaluate (expr : Expr) (env : EnvId)
  | note (label : String)

/-- What is asked of the exit actions of a frame: to drop them, or to take one more. Without `add`
the others are dropped; with `after` it runs after the others. -/
inductive Registration where
  | clear
  | exit (action : ExitAction) (add after : Bool)

/-- One call under way. The number tells it from all other frames. -/
structure Frame where
  id : Nat
  call : Expr
  env : EnvId
  function : Option ClosureId
  caller : Option EnvId
  handlers : List ExitAction

/-- An evaluator: its global environment, the calls under way and the environments in which an
expression is being evaluated, both innermost first. The depth is counted apart. -/
structure Evaluator where
  globalEnv : Option EnvId
  maxDepth : Int
  frames : List Frame
  depth : Int
  targets : List EnvId

/-- Why a run ends without a value: a failure, a `return` on its way to the environment it ends,
nesting that is too deep, or a chain of environments that leads into itself. -/
inductive Interrupt where
  | failure (f : FailureRef)
  | returning (value : Value) (target : EnvId)
  | overflow
  | endless

/-- An interrupt that can be caught. A search without an end is the only one that cannot. -/
inductive Signal where
  | failure (f : FailureRef)
  | returning (value : Value) (target : EnvId)
  | overflow

def Signal.interrupt : Signal → Interrupt
  | .failure f => .failure f
  | .returning v target => .returning v target
  | .overflow => .overflow

/-- What keeps code together with the environment it belongs to. -/
inductive Holder where
  | promise (p : PromiseId)
  | closure (c : ClosureId)

/-- What a store went through and does not show any more: the evaluations of promises, masks that
were made to hang off another environment, code that was kept and taken up again, and frames that
came and went. -/
inductive Event where
  | begun (p : PromiseId)
  | settled (p : PromiseId)
  | abandoned (p : PromiseId) (signal : Signal)
  /-- A mask fell back to another environment; all masks as they were from then on. -/
  | rechained (m : MaskId) (masks : Array Mask)
  /-- Code was kept with an environment, or evaluated with it; all masks as they were then. -/
  | captured (holder : Holder) (env : EnvId) (masks : Array Mask)
  | used (holder : Holder) (env : EnvId) (masks : Array Mask)
  /-- A frame was pushed or popped; the depth and the number of frames from then on. -/
  | entered (ctx : EvaluatorId) (depth : Int) (frames : Nat)
  | left (ctx : EvaluatorId) (depth : Int) (frames : Nat)
  /-- A frame was to be popped that was not the innermost. -/
  | misplaced (ctx : EvaluatorId)
  /-- Something was asked of the exit actions of a frame. -/
  | registered (ctx : EvaluatorId) (id : Nat) (registration : Registration)

/-- The identity of the literal NaN; all others are handed out later. -/
def literalId : Nat := 0

structure Store where
  scopes : Array Scope := #[]
  masks : Array Mask := #[]
  promises : Array Promise := #[]
  closures : Array Closure := #[]
  failures : Array Incident := #[]
  evaluators : Array Evaluator := #[]
  /-- The identity that the next vector, table or NaN gets. -/
  nextId : Nat := literalId + 1
  settings : Settings := []
  /-- Whether records below warnings are kept. -/
  verbose : Bool := false
  out : String := ""
  err : String := ""
  log : Array LogRecord := #[]
  /-- The values that were given to `record`. -/
  recorded : Array Value := #[]
  /-- The labels that exit actions noted. -/
  notes : Array String := #[]
  ticks : Nat := 0
  /-- What happened so far, latest first. No run reads it. -/
  history : List Event := []

instance : Inhabited Scope := ⟨[], .empty, none⟩
instance : Inhabited Mask := ⟨[], [], .empty⟩
instance : Inhabited Promise := ⟨.missing, none, none, false, .given .null⟩
instance : Inhabited Closure := ⟨[], .missing, .empty, none⟩
instance : Inhabited Incident := ⟨none, none⟩
instance : Inhabited Evaluator := ⟨none, 0, [], 0, []⟩

namespace Store

def scope (s : Store) (i : Nat) : Scope := s.scopes.getD i default

def mask (s : Store) (m : MaskId) : Mask := s.masks.getD m.index default

def promise (s : Store) (p : PromiseId) : Promise := s.promises.getD p.index default

def closure (s : Store) (c : ClosureId) : Closure := s.closures.getD c.index default

def incident (s : Store) (f : FailureRef) : Incident := s.failures.getD f.index default

def evaluator (s : Store) (ctx : EvaluatorId) : Evaluator := s.evaluators.getD ctx.index default

def setScope (s : Store) (i : Nat) (f : Scope → Scope) : Store :=
  { s with scopes := s.scopes.modify i f }

def setMask (s : Store) (m : MaskId) (f : Mask → Mask) : Store :=
  { s with masks := s.masks.modify m.index f }

def setPromise (s : Store) (p : PromiseId) (f : Promise → Promise) : Store :=
  { s with promises := s.promises.modify p.index f }

def setClosure (s : Store) (c : ClosureId) (f : Closure → Closure) : Store :=
  { s with closures := s.closures.modify c.index f }

def setIncident (s : Store) (f : FailureRef) (g : Incident → Incident) : Store :=
  { s with failures := s.failures.modify f.index g }

def setEvaluator (s : Store) (ctx : EvaluatorId) (f : Evaluator → Evaluator) : Store :=
  { s with evaluators := s.evaluators.modify ctx.index f }

/-- An environment that exists as it is, and the empty one for any other reference. -/
def known (s : Store) : EnvId → EnvId
  | .empty => .empty
  | .scope i => if i < s.scopes.size then .scope i else .empty
  | .bottom m => if m.index < s.masks.size then .bottom m else .empty

def record (s : Store) (event : Event) : Store := { s with history := event :: s.history }

def capture (s : Store) (holder : Holder) : Option EnvId → Store
  | none => s
  | some env => s.record (.captured holder env s.masks)

def use (s : Store) (holder : Holder) : Option EnvId → Store
  | none => s
  | some env => s.record (.used holder env s.masks)

/-! ## Changes -/

def addScope (s : Store) (scope : Scope) : Store :=
  { s with scopes := s.scopes.push { scope with parent := s.known scope.parent } }

def addMask (s : Store) (mask : Mask) : Store :=
  { s with masks := s.masks.push { mask with home := s.known mask.home } }

def addPromise (s : Store) (promise : Promise) : Store :=
  let env := promise.env.map s.known
  { s with promises := s.promises.push { promise with env := env } }.capture
    (.promise ⟨s.promises.size⟩) env

def addClosure (s : Store) (closure : Closure) : Store :=
  let env := s.known closure.env
  { s with closures := s.closures.push { closure with env := env } }.capture
    (.closure ⟨s.closures.size⟩) (some env)

/-- Mark a promise as being evaluated. -/
def begin (s : Store) (p : PromiseId) : Store :=
  let t := s.setPromise p fun promise => { promise with progress := .forcing }
  (t.record (.begun p)).use (.promise p) (s.promise p).env

/-- Mark a promise as left in the middle of its evaluation. -/
def abandon (s : Store) (p : PromiseId) (signal : Signal) : Store :=
  let t := s.setPromise p fun promise => { promise with progress := .interrupted }
  t.record (.abandoned p signal)

/-- End a promise with its outcome. It needs its environment no more. -/
def settle (s : Store) (p : PromiseId) (progress : Progress) : Store :=
  let t := s.setPromise p fun promise => { promise with progress := progress, env := none }
  t.record (.settled p)

/-- Make a mask fall back to another environment. -/
def rechain (s : Store) (m : MaskId) (home : EnvId) : Store :=
  let t := s.setMask m fun mask => { mask with home := s.known home }
  t.record (.rechained m t.masks)

end Store

/-! ## Runs -/

abbrev Run := EStateM Interrupt Store

namespace Run

variable {α : Type}

def raise (signal : Signal) : Run α := throw signal.interrupt

/-- What a run ended with, as a value. An endless search is never caught. -/
def attempt (action : Run α) : Run (Except Signal α) := fun s =>
  match action s with
  | .ok a s' => .ok (.ok a) s'
  | .error (.failure f) s' => .ok (.error (.failure f)) s'
  | .error (.returning v target) s' => .ok (.error (.returning v target)) s'
  | .error .overflow s' => .ok (.error .overflow) s'
  | .error .endless s' => .error .endless s'

/-- Go on with what a run ended with. -/
def resume : Except Signal α → Run α
  | .ok a => pure a
  | .error signal => raise signal

/-- A run that is followed by another whichever way it ends. -/
def andFinally (action : Run α) (last : Run Unit) : Run α := do
  let outcome ← attempt action
  last
  resume outcome

/-- A run whose failure is handed to a handler. -/
def orElse (action : Run α) (handler : FailureRef → Run α) : Run α := do
  match ← attempt action with
  | .error (.failure f) => handler f
  | outcome => resume outcome

/-- A new failure. -/
def failWith (cause : Cause) (call : Option Expr) : Run α := do
  let s ← get
  set { s with failures := s.failures.push ⟨call, none⟩ }
  raise (.failure ⟨s.failures.size, cause⟩)

def fail (cause : Cause) : Run α := failWith cause none

def failHost (fault : HostFault) : Run α := fail (.host fault)

def failType (fault : TypeFault) : Run α := fail (.type fault)

def failArity (fault : ArityFault) : Run α := fail (.arity fault)

/-- The value of a computation, its fault turned into a failure. -/
def orFail {ε : Type} (toCause : ε → Cause) : Except ε α → Run α
  | .ok a => pure a
  | .error fault => fail (toCause fault)

def orFailHost : Except HostFault α → Run α := orFail .host

def logRecord (level : LogLevel) (message : String) : Run Unit :=
  modify fun s => { s with log := s.log.push ⟨level, message⟩ }

def warn (message : String) : Run Unit := logRecord .warning message

/-- A record that only a verbose store keeps. -/
def trace (message : Unit → String) : Run Unit := do
  if (← get).verbose then logRecord .debug (message ())

def freshId : Run Nat := do
  let s ← get
  set { s with nextId := s.nextId + 1 }
  pure s.nextId

def newScope (parent : EnvId) (vars : Bindings Value) (name : Option String) : Run EnvId := do
  let s ← get
  set (s.addScope ⟨vars, parent, name⟩)
  pure (.scope s.scopes.size)

def newPromise (promise : Promise) : Run PromiseId := do
  let s ← get
  set (s.addPromise promise)
  pure ⟨s.promises.size⟩

def newClosure (closure : Closure) : Run ClosureId := do
  let s ← get
  set (s.addClosure closure)
  pure ⟨s.closures.size⟩

/-- A new mask over sources of data. Its own bindings start with the two pronouns. -/
def newMask (scopes : List DataScope) (home : EnvId) : Run MaskId := do
  let s ← get
  let m : MaskId := ⟨s.masks.size⟩
  let vars := [(Pronoun.data.name, .pronoun .data m), (Pronoun.env.name, .pronoun .env m)]
  set (s.addMask ⟨vars, scopes, home⟩)
  pure m

def newEvaluator (globalEnv : Option EnvId) (maxDepth : Int) : Run EvaluatorId := do
  let s ← get
  set { s with evaluators := s.evaluators.push ⟨globalEnv, maxDepth, [], 0, []⟩ }
  pure ⟨s.evaluators.size⟩

/-- A value that was just made, with an identity of its own where it needs one. -/
def own : Value → Run Value
  | .nan none => do pure (.nan (some (← freshId)))
  | .vec ⟨0, elements⟩ => do pure (.vec ⟨← freshId, elements⟩)
  | v => pure v

end Run

end Quasi
