import Quasi.Machine.Apply
import Quasi.Machine.Masks
import Quasi.Proofs.Flow.Steps

/-!
# Machines that follow a flow

Masks, promises, frames, return targets and requests change the store when they are entered and
again when they are left, and a flow may hold of both changes together only. A flow that is closed
under them is followed by everything that is made of a machine that follows it: forcing, looking
names up, calls and evaluation under a mask.
-/

namespace Quasi

namespace Flow

/-- A flow that is followed by what encloses runs that follow it. -/
class Closed (F : Flow) : Prop where
  under {α : Type} (m : MaskId) (home : EnvId) (body : EnvId → Run α) :
    (∀ e, F.Holds (body e)) → F.Holds (Run.under m home body)
  force (m : Machine) (ctx : Option EvaluatorId) (p : PromiseId) :
    (∀ ctx e env, F.Holds (m.eval ctx e env)) → F.Holds (m.force ctx p)
  inFrame (m : Machine) (ctx : EvaluatorId) (call : Expr) (env : EnvId)
    (function : Option ClosureId) (caller : Option EnvId) (handlers : List ExitAction)
    (body : Run Value) : (∀ ctx e env, F.Holds (m.eval ctx e env)) → F.Holds body →
    F.Holds (m.inFrame ctx call env function caller handlers body)
  inTarget (ctx : EvaluatorId) (env : EnvId) (body : Run Value) :
    F.Holds body → F.Holds (Machine.inTarget ctx env body)
  request {α : Type} (ctx : EvaluatorId) (action : Run α) :
    F.Holds action → F.Holds (Machine.request ctx action)

/-- A machine whose runs follow a flow. -/
class Obeys (F : Flow) (m : Machine) : Prop where
  eval (ctx : EvaluatorId) (e : Expr) (env : EnvId) : F.Holds (m.eval ctx e env)
  call (ctx : EvaluatorId) (fn : Value) (args : List Value) (named : Bindings Value)
    (env : EnvId) : F.Holds (m.call ctx fn args named env)
  expand (ctx : EvaluatorId) (e : Expr) (env : EnvId) : F.Holds (m.expand ctx e env)

attribute [instance] Obeys.eval Obeys.call Obeys.expand

variable {F : Flow} [F.Closed] {m : Machine} [F.Obeys m] {α : Type} (ctx : EvaluatorId)

instance (mask : MaskId) (home : EnvId) (body : EnvId → Run α) [h : ∀ e, F.Holds (body e)] :
    F.Holds (Run.under mask home body) := Closed.under mask home body h

instance (ctx : Option EvaluatorId) (p : PromiseId) : F.Holds (m.force ctx p) :=
  Closed.force m ctx p inferInstance

instance (call : Expr) (env : EnvId) (function : Option ClosureId) (caller : Option EnvId)
    (handlers : List ExitAction) (body : Run Value) [h : F.Holds body] :
    F.Holds (m.inFrame ctx call env function caller handlers body) :=
  Closed.inFrame m ctx call env function caller handlers body inferInstance h

instance (action : Run α) [h : F.Holds action] : F.Holds (Machine.request ctx action) :=
  Closed.request ctx action h

instance (expr : Expr) (env : EnvId) : F.Holds (m.evalIn ctx expr env) :=
  Closed.inTarget ctx env _ inferInstance

instance (expr : Expr) (env : EnvId) : F.Holds (m.evaluate ctx expr env) := by
  unfold Machine.evaluate; infer_instance

/-! ## Promises and look-ups -/

omit [F.Closed] in
instance (e : Expr) : F.Holds (Machine.evalNowhere e) := by
  unfold Machine.evalNowhere
  split <;> infer_instance

instance (ctx : Option EvaluatorId) (v : Value) : F.Holds (m.forceValue ctx v) := by
  unfold Machine.forceValue
  split <;> infer_instance

instance (env : EnvId) (name : String) : F.Holds (m.lookup env name) := by
  unfold Machine.lookup
  apply Holds.andThen
  intro v
  split <;> infer_instance

instance (name : String) (chain : List EnvId) : F.Holds (m.firstFunction name chain) := by
  induction chain with
  | nil => unfold Machine.firstFunction; infer_instance
  | cons env rest ih =>
      unfold Machine.firstFunction
      apply Holds.andThen
      intro s
      split <;> infer_instance

instance (env : EnvId) (name : String) : F.Holds (m.lookupFunction env name) := by
  unfold Machine.lookupFunction
  apply Holds.andThen
  intro s
  apply Holds.andThen
  intro found
  split <;> infer_instance

instance (mask : MaskId) (name : String) : F.Holds (m.lookupData mask name) := by
  unfold Machine.lookupData
  apply Holds.andThen
  intro s
  split <;> infer_instance

instance (env : EnvId) : F.Holds (Machine.dotsOf env) := by
  unfold Machine.dotsOf
  apply Holds.andThen
  intro found
  split
  · infer_instance
  · apply Holds.andThen
    intro s
    split <;> infer_instance

instance (name : String) (env : EnvId) : F.Holds (m.evalSymbol ctx name env) := by
  unfold Machine.evalSymbol
  split
  · infer_instance
  · split
    · infer_instance
    · apply Holds.andThen
      intro entries
      split <;> infer_instance

/-! ## Frames -/

instance (env : EnvId) : F.Holds (Machine.functionFrame ctx env) := by
  unfold Machine.functionFrame
  apply Holds.andThen
  intro found
  split <;> infer_instance

instance (env : EnvId) : F.Holds (Machine.returnTarget ctx env) := by
  unfold Machine.returnTarget; infer_instance

instance : F.Holds (Machine.topEnv ctx) := by unfold Machine.topEnv; infer_instance

instance (n : Nat) (env : EnvId) : F.Holds (Machine.parentFrame ctx n env) := by
  induction n generalizing env with
  | zero => unfold Machine.parentFrame; infer_instance
  | succ n ih =>
      unfold Machine.parentFrame
      apply Holds.andThen
      intro frame
      split <;> infer_instance

instance (id : Nat) (r : Registration) : F.Holds (Machine.register ctx id r) :=
  .of_modify fun s => F.registered s ctx id r

/-! ## Calls -/

instance (formals : List String) (describe : α → String) (supplied : List (Tagged α))
    (call : Option Expr) : F.Holds (Machine.matchFormals formals describe supplied call) := by
  have htoFailure {β : Type} (r : Except ArityFault β) : F.Holds (match r with
      | .ok b => pure b
      | .error fault => Run.failWith (.arity fault) call : Run β) := by split <;> infer_instance
  unfold Machine.matchFormals
  apply Holds.bind (htoFailure _)
  intro state
  apply Holds.andThen
  intro s
  split
  · infer_instance
  · exact htoFailure _

instance (names : List String) (slots : List Slot) : F.Holds (Machine.matchSlots names slots) := by
  unfold Machine.matchSlots; infer_instance

instance (env : EnvId) (slots : List Slot) : F.Holds (Machine.promiseArgs ctx env slots) := by
  induction slots with
  | nil => unfold Machine.promiseArgs; infer_instance
  | cons slot rest ih => unfold Machine.promiseArgs; infer_instance

instance (call : Expr) (supplied : List (Tagged Value)) (positional : List Value)
    (named : Bindings Value) : F.Holds (m.forceArgs ctx call supplied positional named) := by
  induction supplied generalizing positional named with
  | nil => unfold Machine.forceArgs; infer_instance
  | cons t rest ih =>
      unfold Machine.forceArgs
      split
      · infer_instance
      · apply Holds.andThen
        intro v
        split <;> infer_instance

instance (slots : List Slot) (env : EnvId) (call : Expr) :
    F.Holds (m.evalArgs ctx slots env call) := by
  unfold Machine.evalArgs; infer_instance

instance (env : EnvId) (name : String) (default : Expr) :
    F.Holds (Machine.bindFormals.bindDefault ctx env name default) := by
  unfold Machine.bindFormals.bindDefault; infer_instance

instance (env : EnvId) (matched : Matched Value) (formals : List (String × Expr)) :
    F.Holds (Machine.bindFormals ctx env matched formals) := by
  induction formals with
  | nil => unfold Machine.bindFormals; infer_instance
  | cons formal rest ih =>
      unfold Machine.bindFormals
      extract_lets last
      have hlast (x : Unit) : F.Holds (last x) := ih
      split
      · infer_instance
      · split <;> infer_instance

omit [F.Closed] in
instance (c : ClosureId) : F.Holds (Machine.useClosure c) :=
  .of_value fun s => ⟨s.closure c, _, rfl, F.used s c⟩

instance (c : ClosureId) (supplied : List (Tagged Value)) (call : Expr) (caller : EnvId) :
    F.Holds (m.applyClosure ctx c supplied call caller) := by
  unfold Machine.applyClosure; infer_instance

instance (v : Value) : F.Holds (Machine.givenPromise v) := by
  unfold Machine.givenPromise; infer_instance

/-! ## Masks -/

instance (v : Value) : F.Holds (Machine.column v) := by
  unfold Machine.column
  extract_lets last
  have hlast (elements : Value) : F.Holds (last elements) := by unfold last; split <;> infer_instance
  split <;> infer_instance

instance (columns : Bindings Value) : F.Holds (Machine.tableColumns columns) := by
  induction columns with
  | nil => unfold Machine.tableColumns; infer_instance
  | cons column rest ih => unfold Machine.tableColumns; infer_instance

instance (columns : Bindings Value) : F.Holds (Machine.newTable columns) := by
  unfold Machine.newTable; infer_instance

instance (v : Value) : F.Holds (Machine.asTable v) := by
  unfold Machine.asTable
  split
  · infer_instance
  · apply Holds.andThen
    intro scope
    split <;> infer_instance

instance (sources : List Value) (home : EnvId) : F.Holds (Machine.maskOver sources home) := by
  unfold Machine.maskOver; infer_instance

/-- A mask stays where it is unless an environment is given for it. -/
instance (data : Value) : F.Holds (Machine.asMask data none) := by
  unfold Machine.asMask
  split <;> first | infer_instance | contradiction

instance (expr : Expr) (home env : EnvId) : F.Holds (m.evalQuosure ctx expr home env) := by
  unfold Machine.evalQuosure
  apply Holds.andThen
  intro mask
  split <;> infer_instance

instance (code : Value) (mask : MaskId) (env : Option EnvId) :
    F.Holds (m.evalUnder ctx code mask env) := by
  unfold Machine.evalUnder
  extract_lets last
  have hlast (part : Expr × EnvId) : F.Holds (last part) := by unfold last; infer_instance
  split <;> infer_instance

instance (code data : Value) (env : Option EnvId) : F.Holds (m.evalTidy ctx code data env) := by
  unfold Machine.evalTidy; infer_instance

instance (code table : Value) (env : Option EnvId) : F.Holds (m.evalRows ctx code table env) := by
  unfold Machine.evalRows; infer_instance

end Flow

end Quasi
