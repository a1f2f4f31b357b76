import Quasi.Machine.Eval
import Quasi.Proofs.Flow.Library

/-!
# Evaluation follows every closed flow

Each step of a machine follows a flow if the machine below it does, so that by induction on the
levels of nesting every evaluation does.
-/

namespace Quasi

namespace Flow

variable {F : Flow} [F.Closed] {m : Machine} [F.Obeys m] (ctx : EvaluatorId) (env : EnvId)

instance (form : SpecialForm) (slots : List Slot) : F.Holds (m.applyForm ctx form slots env) := by
  unfold Machine.applyForm
  cases form <;> infer_instance

instance (fn : Primitive) (args : List Value) (named : Bindings Value) :
    F.Holds (m.applyPrimitive ctx fn args named env) := by
  unfold Machine.applyPrimitive
  cases fn <;> infer_instance

instance (fn : Value) (call : Expr) (slots : List Slot) :
    F.Holds (m.apply ctx fn call slots env) := by
  unfold Machine.apply
  split <;> infer_instance

instance (head : Expr) (slots : List Slot) : F.Holds (m.evalCall ctx head slots env) := by
  unfold Machine.evalCall
  dsimp only
  split <;> infer_instance

instance (e : Expr) : F.Holds (m.evalStep ctx e env) := by
  unfold Machine.evalStep
  split <;> infer_instance

instance (fn : Value) (args : List Value) (named : Bindings Value) :
    F.Holds (m.callStep ctx fn args named env) := by
  unfold Machine.callStep
  apply Holds.andThen
  intro s
  dsimp only
  split
  case h_2 => split <;> infer_instance
  all_goals infer_instance

/-- A machine follows a flow if the one that it uses does. -/
instance obeys_above : F.Obeys (Machine.above m) where
  eval ctx e env := inferInstanceAs (F.Holds (m.evalStep ctx e env))
  call ctx fn args named env := inferInstanceAs (F.Holds (m.callStep ctx fn args named env))
  expand ctx e env := inferInstanceAs (F.Holds (m.expandTemplate ctx env e))

omit [F.Closed] in
theorem obeys_exhausted : F.Obeys Machine.exhausted where
  eval _ _ _ := inferInstanceAs (F.Holds (Run.raise .overflow))
  call _ _ _ _ _ := inferInstanceAs (F.Holds (Run.raise .overflow))
  expand _ _ _ := inferInstanceAs (F.Holds (Run.raise .overflow))

/-- Evaluation follows every closed flow, with room for any number of levels of nesting. -/
instance obeys_ofLevel (n : Nat) : F.Obeys (Machine.ofLevel n) := by
  induction n with
  | zero => exact obeys_exhausted
  | succ n ih => exact obeys_above

end Flow

end Quasi
