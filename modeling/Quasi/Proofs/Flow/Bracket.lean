import Quasi.Proofs.Flow.Machine
import Quasi.Session.Evaluation

/-!
# Flows of single changes

Where a flow allows each change by itself that is made when a mask, a promise or a frame is entered
or left, it is followed by all that happens in between as well.
-/

namespace Quasi

namespace Flow

variable {F : Flow} {m : Machine} {α : Type}

/-- A flow that lets masks fall back to other environments. -/
class Rechains (F : Flow) : Prop where
  rechain (s : Store) (m : MaskId) (home : EnvId) : F.Keeps s (s.rechain m home)

/-- A flow that lets promises be evaluated. -/
class Forces (F : Flow) : Prop where
  begin (s : Store) (p : PromiseId) : F.Keeps s (s.begin p)
  abandon (s : Store) (p : PromiseId) (x : Signal) : F.Keeps s (s.abandon p x)
  settle (s : Store) (p : PromiseId) (progress : Progress) : F.Keeps s (s.settle p progress)

/-- Whether an event is about the stack of an evaluator. -/
def ofStack : Event → Bool
  | .entered _ _ _ => true
  | .left _ _ _ => true
  | .misplaced _ => true
  | _ => false

/-- A flow that lets stacks change. -/
class Stacks (F : Flow) : Prop where
  evaluator (s : Store) (ctx : EvaluatorId) (f : Evaluator → Evaluator) :
    F.Keeps s (s.setEvaluator ctx f)
  event (s : Store) (event : Event) : ofStack event = true → F.Keeps s (s.record event)

/-- A flow that lets exit actions be taken from a frame. -/
class Takes (F : Flow) : Prop where
  take (s : Store) (ctx : EvaluatorId) (id : Nat) :
    F.Keeps s (s.setEvaluator ctx fun e => e.setHandlers id fun _ => [])

instance [F.Stacks] : F.Takes := ⟨fun s ctx _ => Stacks.evaluator s ctx _⟩

/-! ## Masks and promises -/

instance [F.Rechains] (mask : MaskId) (home : EnvId) : F.Holds (Run.rechain mask home) := by
  refine .of_get_set (fun s => Rechains.rechain s mask home) fun s => ?_
  split <;> infer_instance

theorem holds_under [F.Rechains] (mask : MaskId) (home : EnvId) (body : EnvId → Run α)
    (h : ∀ e, F.Holds (body e)) : F.Holds (Run.under mask home body) := by
  unfold Run.under
  infer_instance

instance [F.Forces] (p : PromiseId) : F.Holds (Machine.begin p) :=
  .of_modify fun s => Forces.begin s p

instance [F.Forces] (p : PromiseId) (outcome : Except Signal Value) :
    F.Holds (Machine.conclude p outcome) := by
  have habandon (x : Signal) : F.Holds (Machine.abandon p x) :=
    .of_modify fun s => Forces.abandon s p x
  have hsettle (progress : Progress) : F.Holds (Machine.settle p progress) :=
    .of_modify fun s => Forces.settle s p progress
  unfold Machine.conclude
  split <;> infer_instance

theorem holds_evalPromise (ctx : EvaluatorId) (promise : Promise)
    (h : ∀ ctx e env, F.Holds (m.eval ctx e env)) : F.Holds (m.evalPromise ctx promise) := by
  unfold Machine.evalPromise
  split <;> infer_instance

theorem holds_force [F.Forces] (ctx : Option EvaluatorId) (p : PromiseId)
    (h : ∀ ctx e env, F.Holds (m.eval ctx e env)) : F.Holds (m.force ctx p) := by
  have heval (ctx : EvaluatorId) (promise : Promise) : F.Holds (m.evalPromise ctx promise) :=
    holds_evalPromise ctx promise h
  have hrun (ctx : EvaluatorId) : F.Holds (m.runPromise ctx p) := by
    unfold Machine.runPromise
    infer_instance
  unfold Machine.force
  apply Holds.andThen
  intro s
  dsimp only
  split
  case h_5 => split <;> infer_instance
  case h_6 => split <;> infer_instance
  all_goals infer_instance

/-! ## Exit actions -/

section Exits

variable [∀ ctx e env, F.Holds (m.eval ctx e env)] (ctx : EvaluatorId)

instance (action : ExitAction) : F.Holds (m.runExit ctx action) := by
  cases action with
  | evaluate expr env => unfold Machine.runExit; infer_instance
  | note label => exact .of_aside fun _ => ⟨Nat.le_refl _, rfl, rfl, rfl, rfl, rfl, rfl, rfl⟩

instance (pending : Bool) (actions : List ExitAction) (first : Option Signal) :
    F.Holds (m.runExits ctx pending actions first) := by
  induction actions generalizing first with
  | nil => unfold Machine.runExits; infer_instance
  | cons action rest ih =>
      unfold Machine.runExits
      apply Holds.andThen
      intro outcome
      split <;> infer_instance

omit [∀ ctx e env, F.Holds (m.eval ctx e env)] in
instance [F.Takes] (id : Nat) : F.Holds (Machine.takeExits ctx id) := by
  have htake : F.Holds (Machine.setHandlers ctx id fun _ => []) :=
    .of_modify fun s => Takes.take s ctx id
  unfold Machine.takeExits
  apply Holds.andThen
  intro s
  split <;> infer_instance

omit [∀ ctx e env, F.Holds (m.eval ctx e env)] in
instance (f : FailureRef) : F.Holds (Machine.noteFailure ctx f) := by
  refine .of_value fun s => ?_
  rw [Machine.noteFailure_eq]
  split
  next h =>
    rw [Bool.and_eq_true, Bool.not_eq_true', Option.isNone_iff_eq_none] at h
    obtain ⟨t, ht, haside⟩ := trace_eq_ok (fun _ => "failure in " ++
      ((s.evaluator ctx).calls.map Expr.deparse).getLast?.getD "<top>" ++ ": " ++ f.cause.message)
      (Machine.noted s ctx f)
    exact ⟨⟨⟩, t, ht, F.trans (F.noted s ctx f h.1 h.2) (F.aside haside)⟩
  next => exact ⟨⟨⟩, s, rfl, F.refl s⟩

end Exits

/-! Nothing interrupts what is done between the end of a call and the popping of its frame. -/

section Quiet

open Run (Quiet)

instance (signal : Signal) : Quiet (Run.signalText signal) := by
  unfold Run.signalText
  split <;> infer_instance

instance (message : String) : Quiet (Run.warn message) := by
  unfold Run.warn Run.logRecord; infer_instance

instance (ctx : EvaluatorId) (pending : Bool) (actions : List ExitAction)
    (first : Option Signal) : Quiet (m.runExits ctx pending actions first) := by
  induction actions generalizing first with
  | nil => unfold Machine.runExits; infer_instance
  | cons action rest ih =>
      unfold Machine.runExits
      have hlast (outcome : Except Signal Unit) : Quiet (match outcome with
          | .ok _ => m.runExits ctx pending rest first
          | .error signal =>
              if pending || first.isSome then do
                Run.warn ("exit handler failed while unwinding: " ++ (← Run.signalText signal))
                m.runExits ctx pending rest first
              else m.runExits ctx pending rest (some signal)) := by
        split <;> infer_instance
      infer_instance

instance (ctx : EvaluatorId) (id : Nat) : Quiet (Machine.takeExits ctx id) := by
  have hlast (s : Store) : Quiet (match (s.evaluator ctx).frame? id with
      | none => pure []
      | some frame => do
          Machine.setHandlers ctx id fun _ => []
          pure frame.handlers) := by
    unfold Machine.setHandlers
    split <;> infer_instance
  unfold Machine.takeExits
  infer_instance

instance (ctx : EvaluatorId) (f : FailureRef) : Quiet (Machine.noteFailure ctx f) := by
  unfold Machine.noteFailure Machine.traceCalls; infer_instance

end Quiet

/-! ## Stacks -/

instance [F.Stacks] (ctx : EvaluatorId) (f : Evaluator → Evaluator) :
    F.Holds (modify fun s => s.setEvaluator ctx f : Run PUnit) :=
  .of_modify fun s => Stacks.evaluator s ctx f

instance [F.Stacks] (ctx : EvaluatorId) (call : Expr) (env : EnvId) (function : Option ClosureId)
    (caller : Option EnvId) (handlers : List ExitAction) :
    F.Holds (Machine.pushFrame ctx call env function caller handlers) := by
  have hpush (f : Evaluator → Evaluator) (depth : Int) (frames : Nat) : F.Holds (modify fun s =>
      (s.setEvaluator ctx f).record (.entered ctx depth frames) : Run PUnit) :=
    .of_modify fun s => F.trans (Stacks.evaluator s ctx f) (Stacks.event _ _ rfl)
  unfold Machine.pushFrame
  infer_instance

instance [F.Stacks] (ctx : EvaluatorId) (id : Nat) : F.Holds (Machine.popFrame ctx id) := by
  have hpop (f : Evaluator → Evaluator) (depth : Int) (frames : Nat) : F.Holds (modify fun s =>
      (s.setEvaluator ctx f).record (.left ctx depth frames) : Run PUnit) :=
    .of_modify fun s => F.trans (Stacks.evaluator s ctx f) (Stacks.event _ _ rfl)
  have hmisplaced : F.Holds (modify fun s => s.record (.misplaced ctx) : Run PUnit) :=
    .of_modify fun s => Stacks.event s _ rfl
  unfold Machine.popFrame Machine.misplaced
  apply Holds.andThen
  intro s
  dsimp only
  split <;> infer_instance

instance [F.Stacks] [∀ ctx e env, F.Holds (m.eval ctx e env)] (ctx : EvaluatorId) (id : Nat)
    (pending : Bool) : F.Holds (m.unwind ctx id pending) := by
  unfold Machine.unwind
  apply Holds.andThen
  intro actions
  apply Holds.andThen
  intro first
  apply Holds.andThen
  intro _
  split <;> infer_instance

theorem holds_inFrame [F.Stacks] (ctx : EvaluatorId) (call : Expr) (env : EnvId)
    (function : Option ClosureId) (caller : Option EnvId) (handlers : List ExitAction)
    (body : Run Value) (heval : ∀ ctx e env, F.Holds (m.eval ctx e env)) (hbody : F.Holds body) :
    F.Holds (m.inFrame ctx call env function caller handlers body) := by
  unfold Machine.inFrame
  apply Holds.andThen
  intro id
  apply Holds.andThen
  intro outcome
  split <;> infer_instance

theorem holds_inTarget [F.Stacks] (ctx : EvaluatorId) (env : EnvId) (body : Run Value)
    (hbody : F.Holds body) : F.Holds (Machine.inTarget ctx env body) := by
  unfold Machine.inTarget
  apply Holds.andThen
  intro _
  apply Holds.andThen
  intro outcome
  apply Holds.andThen
  intro _
  split <;> infer_instance

theorem holds_stackRequest [F.Stacks] (ctx : EvaluatorId) (action : Run α)
    (haction : F.Holds action) : F.Holds (Machine.request ctx action) := by
  unfold Machine.request
  apply Holds.andThen
  intro s
  apply Holds.andThen
  intro outcome
  apply Holds.andThen
  intro _
  split <;> infer_instance

/-- A flow that allows every change is closed. -/
theorem Closed.of_changes [F.Rechains] [F.Forces] [F.Stacks] : F.Closed where
  under := holds_under
  force _ := holds_force
  inFrame _ := holds_inFrame
  inTarget := holds_inTarget
  request := holds_stackRequest

instance [F.Stacks] : F.Holds Session.popForeignFrame := by
  unfold Session.popForeignFrame
  infer_instance

end Flow

end Quasi
