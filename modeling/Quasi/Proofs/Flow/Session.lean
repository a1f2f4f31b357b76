import Quasi.Proofs.Flow.Bracket
import Quasi.Proofs.Flow.Evaluation
import Quasi.Session.Code
import Quasi.Session.Mask
import Quasi.Session.Promise

/-!
# Sessions follow every closed flow

Whatever a session is asked for follows a closed flow, as far as masks may be made to fall back to
other environments for good. What holds of a blank store and is kept by every request holds of all
stores that a session can come to.
-/

namespace Quasi

namespace Session

/-- What a session can be asked for. Whatever reads a value or edits code is one request here: it
ends with a value, which may be new, or with a failure, and does nothing else to the store. -/
inductive Request where
  | read (outcome : Except Cause Value)
  | start (prelude : String) (maxDepth : Option Int) (host : List HostFunction)
  | evalSource (source : String) (env : EnvId)
  | evalExpr (code env : Value)
  | evaluate (code env : Value) (ctx : Option EvaluatorId)
  | evalTidySource (source : String) (data env : Value)
  | evalTidy (code data env : Value) (ctx : Option EvaluatorId)
  | evalRows (code table env : Value) (ctx : Option EvaluatorId)
  | callFunction (fn args named : Value)
  | apply (fn call env : Value)
  | hostFrame (env : Value) (exits : List HostExit)
  | popForeignFrame
  | baseEnvironment
  | newEnvironment (parent : Value) (ctx : Option EvaluatorId)
  | namedEnvironment (parent : Value) (name : Option String)
  | bind (env v : Value) (name : String)
  | bindKey (env key v : Value)
  | extend (parent v : Value) (name : String)
  | lookup (env : Value) (name : String) (callable : Bool)
  | unbind (env : Value) (name : String)
  | rebind (env v : Value) (name : String)
  | find (env : Value) (name : String)
  | binding (env : Value) (name : String)
  | parents (env : Value)
  | isAncestor (env other : Value)
  | newDataMask (sources : List Value) (env : Value)
  | asDataMask (data env : Value)
  | maskLookup (mask : Value) (name : String)
  | findMask (env : Value)
  | makePromise (code env : Value) (ctx : Option EvaluatorId)
  | promiseOf (code env : Value) (ctx : Option EvaluatorId)
  | settledPromise (v code : Value)
  | delayedAssign (code evalEnv assignEnv : Value) (name : String) (ctx : Option EvaluatorId)
  | force (v : Value) (ctx : Option EvaluatorId)
  | makeClosure (formals body env : Value) (name : Option String)

def Request.run : Request → Run Value
  | .read outcome => do Run.own (← Run.orFail id outcome)
  | .start prelude maxDepth host => do
      Session.start prelude maxDepth host
      pure .absent
  | .evalSource source env => Session.evalSource source env
  | .evalExpr code env => Session.evalExpr code env
  | .evaluate code env ctx => Session.evaluate code env ctx
  | .evalTidySource source data env => Session.evalTidySource source data env
  | .evalTidy code data env ctx => Session.evalTidy code data env ctx
  | .evalRows code table env ctx => Session.evalRows code table env ctx
  | .callFunction fn args named => Session.callFunction fn args named
  | .apply fn call env => Session.apply fn call env
  | .hostFrame env exits => Session.hostFrame env exits
  | .popForeignFrame => Session.popForeignFrame
  | .baseEnvironment => do pure (.env (← Session.newBase))
  | .newEnvironment parent ctx => Session.newEnvironment parent ctx
  | .namedEnvironment parent name => Session.namedEnvironment parent name
  | .bind env v name => Session.bind env v name
  | .bindKey env key v => Session.bindKey env key v
  | .extend parent v name => Session.extend parent v name
  | .lookup env name callable => Session.lookup env name callable
  | .unbind env name => Session.unbind env name
  | .rebind env v name => Session.rebind env v name
  | .find env name => Session.find env name
  | .binding env name => Session.binding env name
  | .parents env => Session.parents env
  | .isAncestor env other => Session.isAncestor env other
  | .newDataMask sources env => Session.newDataMask sources env
  | .asDataMask data env => Session.asDataMask data env
  | .maskLookup mask name => Session.maskLookup mask name
  | .findMask env => Session.findMask env
  | .makePromise code env ctx => Session.makePromise code env ctx
  | .promiseOf code env ctx => Session.promiseOf code env ctx
  | .settledPromise v code => Session.settledPromise v code
  | .delayedAssign code evalEnv assignEnv name ctx =>
      Session.delayedAssign code evalEnv assignEnv name ctx
  | .force v ctx => Session.force v ctx
  | .makeClosure formals body env name => Session.makeClosure formals body env name

/-- A store that a session can come to: a blank one, or what a request leaves behind. -/
inductive Reachable : Store → Prop where
  | blank (settings : Settings) (verbose : Bool) :
      Reachable { settings := settings, verbose := verbose }
  | request {s t : Store} (hs : Reachable s) (r : Request) (h : r.run.EndsIn s t) : Reachable t

/-- A store that a session can come to from another one by further requests. -/
inductive After (s : Store) : Store → Prop where
  | refl : After s s
  | request {t u : Store} (ht : After s t) (r : Request) (h : r.run.EndsIn t u) : After s u

end Session

namespace Flow

variable {F : Flow} [F.Closed] {α : Type} (ctx : EvaluatorId) (env v code : Value) (name : String)

/-! ## Reading and starting -/

theorem machine_eq (s : Store) : ∃ n, Session.machine s = .ok (Machine.ofLevel n) s := by
  simp only [Session.machine, Run.get_bind]
  exact ⟨_, rfl⟩

/-- A session works with a machine that is made for the store as it is. -/
instance holds_machine (f : Machine → Run α) [hf : ∀ n, F.Holds (f (Machine.ofLevel n))] :
    F.Holds (Session.machine >>= f) where
  ends {s t} h := by
    obtain ⟨n, hn⟩ := machine_eq s
    rcases h.of_bind with ⟨m, u, hm, h⟩ | ⟨x, h⟩
    · rw [hn] at hm
      cases hm
      exact (hf n).ends h
    · rw [hn] at h
      cases h
  lost {s t} h := by
    obtain ⟨n, hn⟩ := machine_eq s
    rcases h.of_bind with ⟨m, u, hm, h⟩ | h
    · rw [hn] at hm
      cases hm
      exact (hf n).lost h
    · rw [Run.LostIn, hn] at h
      cases h

instance : F.Holds Session.newBase := by unfold Session.newBase; infer_instance

instance : F.Holds Session.settingsDepth := by
  unfold Session.settingsDepth
  apply Holds.andThen
  intro s
  split <;> infer_instance

instance (ctx : Option EvaluatorId) : F.Holds (Session.context ctx) := by
  unfold Session.context
  split <;> infer_instance

instance (fault : SyntaxFault) : F.Holds (Session.syntaxFailure fault : Run α) := by
  unfold Session.syntaxFailure; infer_instance

instance (source : String) : F.Holds (Session.parseOne source) := by
  unfold Session.parseOne; infer_instance

instance (env : EnvId) (exprs : List Expr) (last : Value) :
    F.Holds (Session.evaluateAll ctx env exprs last) := by
  induction exprs generalizing last with
  | nil => unfold Session.evaluateAll; infer_instance
  | cons e rest ih => unfold Session.evaluateAll; infer_instance

instance (source : String) (env : EnvId) : F.Holds (Session.evalSource source env) := by
  unfold Session.evalSource
  apply Holds.andThen
  intro last
  split <;> infer_instance

instance (prelude : String) (maxDepth : Option Int) (host : List HostFunction) :
    F.Holds (Session.start prelude maxDepth host) := by
  unfold Session.start
  apply Holds.andThen
  intro base
  apply Holds.andThen
  intro global
  split <;> infer_instance

/-! ## Evaluating -/

instance : F.Holds (Session.envOf v) := by
  unfold Session.envOf
  split <;> infer_instance

instance : F.Holds (Session.envOrNone v) := by
  unfold Session.envOrNone
  split <;> infer_instance

instance : F.Holds (Session.evalExpr code env) := by unfold Session.evalExpr; infer_instance

instance (ctx : Option EvaluatorId) : F.Holds (Session.evaluate code env ctx) := by
  unfold Session.evaluate
  apply Holds.andThen
  intro ctx
  split <;> infer_instance

instance (source : String) (data : Value) : F.Holds (Session.evalTidySource source data env) := by
  unfold Session.evalTidySource; infer_instance

instance (data : Value) (ctx : Option EvaluatorId) :
    F.Holds (Session.evalTidy code data env ctx) := by
  unfold Session.evalTidy; infer_instance

instance (table : Value) (ctx : Option EvaluatorId) :
    F.Holds (Session.evalRows code table env ctx) := by
  unfold Session.evalRows; infer_instance

instance : F.Holds (Session.namedArgs v) := by
  unfold Session.namedArgs
  split <;> infer_instance

instance (fn args named : Value) : F.Holds (Session.callFunction fn args named) := by
  unfold Session.callFunction; infer_instance

instance (fn call : Value) : F.Holds (Session.apply fn call env) := by
  unfold Session.apply
  apply Holds.andThen
  intro e
  split <;> infer_instance

instance (exits : List Session.HostExit) : F.Holds (Session.hostFrame env exits) := by
  have hnotes : F.Holds (modify fun s => { s with notes := #[] } : Run Unit) :=
    .of_aside fun _ => ⟨Nat.le_refl _, rfl, rfl, rfl, rfl, rfl, rfl, rfl⟩
  unfold Session.hostFrame
  infer_instance

/-! ## Environments and masks -/

instance (parent : Value) (ctx : Option EvaluatorId) :
    F.Holds (Session.newEnvironment parent ctx) := by
  unfold Session.newEnvironment
  apply Holds.andThen
  intro given
  split
  · infer_instance
  · apply Holds.andThen
    intro below
    split <;> infer_instance
  · infer_instance

instance (parent : Value) (name : Option String) :
    F.Holds (Session.namedEnvironment parent name) := by
  unfold Session.namedEnvironment; infer_instance

instance : F.Holds (Session.bind env v name) := by unfold Session.bind; infer_instance

instance (key : Value) : F.Holds (Session.bindKey env key v) := by
  unfold Session.bindKey
  apply Holds.andThen
  intro e
  split <;> infer_instance

instance (parent : Value) : F.Holds (Session.extend parent v name) := by
  unfold Session.extend; infer_instance

instance (callable : Bool) : F.Holds (Session.lookup env name callable) := by
  unfold Session.lookup; infer_instance

instance : F.Holds (Session.unbind env name) := by unfold Session.unbind; infer_instance

instance : F.Holds (Session.rebind env v name) := by unfold Session.rebind; infer_instance

instance : F.Holds (Session.find env name) := by
  unfold Session.find
  apply Holds.andThen
  intro e
  apply Holds.andThen
  intro found
  split <;> infer_instance

instance : F.Holds (Session.binding env name) := by unfold Session.binding; infer_instance

instance : F.Holds (Session.parents env) := by unfold Session.parents; infer_instance

instance (other : Value) : F.Holds (Session.isAncestor env other) := by
  unfold Session.isAncestor; infer_instance

instance (sources : List Value) : F.Holds (Session.newDataMask sources env) := by
  unfold Session.newDataMask; infer_instance

instance (mask : Value) : F.Holds (Session.maskRef mask) := by
  unfold Session.maskRef
  split <;> infer_instance

instance (mask : Value) : F.Holds (Session.maskLookup mask name) := by
  unfold Session.maskLookup; infer_instance

instance : F.Holds (Session.findMask env) := by
  unfold Session.findMask
  apply Holds.andThen
  intro e
  apply Holds.andThen
  intro found
  split <;> infer_instance

/-! ## Promises and closures -/

instance (ctx : Option EvaluatorId) : F.Holds (Session.promiseOf code env ctx) := by
  unfold Session.promiseOf; infer_instance

instance (ctx : Option EvaluatorId) : F.Holds (Session.makePromise code env ctx) := by
  unfold Session.makePromise; infer_instance

instance : F.Holds (Session.settledPromise v code) := by
  unfold Session.settledPromise
  split <;> infer_instance

instance (evalEnv assignEnv : Value) (ctx : Option EvaluatorId) :
    F.Holds (Session.delayedAssign code evalEnv assignEnv name ctx) := by
  unfold Session.delayedAssign; infer_instance

instance (ctx : Option EvaluatorId) : F.Holds (Session.force v ctx) := by
  unfold Session.force; infer_instance

instance (items : List (String × Expr)) : F.Holds (Session.formalsOf items) := by
  unfold Session.formalsOf
  split <;> infer_instance

instance : F.Holds (Session.nameText v) := by unfold Session.nameText; infer_instance

instance (item : Value) : F.Holds (Session.formalOf item) := by
  unfold Session.formalOf
  split
  · infer_instance
  · infer_instance
  · apply Holds.andThen
    intro parts
    split <;> infer_instance

instance (items : Value) (defaults : Bindings Value) :
    F.Holds (Session.makeFormals items defaults) := by
  unfold Session.makeFormals; infer_instance

instance (formals body : Value) (name : Option String) :
    F.Holds (Session.makeClosure formals body env name) := by
  unfold Session.makeClosure
  split <;> infer_instance

/-! ## Requests -/

instance [F.Rechains] (data : Value) (home : Option EnvId) :
    F.Holds (Machine.asMask data home) := by
  unfold Machine.asMask
  split <;> infer_instance

instance [F.Rechains] (data : Value) : F.Holds (Session.asDataMask data env) := by
  unfold Session.asDataMask; infer_instance

/-- Every request follows a closed flow, up to two by which the host reaches into a session: to pop a
frame out of order, and to make a mask fall back to another environment for good. -/
theorem holds_request_of (r : Session.Request)
    (hforeign : r = .popForeignFrame → F.Holds Session.popForeignFrame)
    (hmask : ∀ data env, r = .asDataMask data env → F.Holds (Session.asDataMask data env)) :
    F.Holds r.run := by
  unfold Session.Request.run
  cases r
  case popForeignFrame => exact hforeign rfl
  case asDataMask data env => exact hmask data env rfl
  all_goals infer_instance

/-- Every request follows a closed flow that lets masks be rechained. The only frame that is popped
out of order is one that the host pops itself. -/
theorem holds_request [F.Rechains] (r : Session.Request)
    (hforeign : r = .popForeignFrame → F.Holds Session.popForeignFrame) : F.Holds r.run :=
  holds_request_of r hforeign fun _ _ _ => inferInstance

/-- What every single request keeps is kept for good. -/
theorem keeps_of_after [F.Rechains] [F.Holds Session.popForeignFrame] {s t : Store}
    (h : Session.After s t) : F.Keeps s t := by
  induction h with
  | refl => exact F.refl s
  | request ht r h ih => exact F.trans ih ((holds_request r fun _ => inferInstance).ends h)

end Flow

end Quasi
