import Quasi.Proofs.Exit.Flow

/-!
# The exit actions of a call

Once the body of a call has ended, the exit actions of its frame run one after the other while the
frame is still the innermost one. A fault of one of them keeps none of the others from running, and
counts only if nothing else is on its way.
-/

namespace Quasi

open Run (bind_eq_ok bind_of_ok attempt_of_signal attempt_eq_ok)

variable {m : Machine} {ctx : EvaluatorId} {id : Nat} {below : List Frame} {s t u v : Store}

/-! ## Runs of exit actions -/

/-- Whether a frame is the innermost one, on top of others. -/
def OnTop (ctx : EvaluatorId) (id : Nat) (below : List Frame) (s : Store) : Prop :=
  ∃ frame : Frame, frame.id = id ∧ (s.evaluator ctx).stack.frames = frame :: below

theorem OnTop.step (h : OnTop ctx id below s) (hst : StackStep s t) : OnTop ctx id below t := by
  rw [OnTop, hst.stack ctx]
  exact h

/-- Runs of exit actions with what they ended with. Each starts where the one before it ended, but
for what was logged, and the frame is the innermost one then. -/
inductive ExitRuns (m : Machine) (ctx : EvaluatorId) (id : Nat) (below : List Frame) :
    Store → List (ExitAction × Except Signal Unit) → Store → Prop where
  | nil {s : Store} : ExitRuns m ctx id below s [] s
  | cons {s t u : Store} {action : ExitAction} {outcome : Except Signal Unit}
      {log : Array LogRecord} {runs : List (ExitAction × Except Signal Unit)}
      (htop : OnTop ctx id below s)
      (hrun : Run.attempt (m.runExit ctx action) s = .ok outcome t)
      (hrest : ExitRuns m ctx id below { t with log := log } runs u) :
      ExitRuns m ctx id below s ((action, outcome) :: runs) u

/-- The fault of an exit action. -/
def fault? : Except Signal Unit → Option Signal
  | .ok _ => none
  | .error x => some x

/-- The first fault of some exit actions. -/
def firstFault (runs : List (ExitAction × Except Signal Unit)) : Option Signal :=
  runs.findSome? fun run => fault? run.2

/-- Logging the fault of an exit action changes nothing but the log. -/
theorem exists_log {α : Type} (x : Signal) (s : Store) : ∃ log, ∀ k : Run α, (do
    Run.warn ("exit handler failed while unwinding: " ++ (← Run.signalText x))
    k) s = k { s with log := log } := by
  cases x <;> exact ⟨_, fun _ => rfl⟩

section Runs

variable {pending : Bool} {actions : List ExitAction} {first result : Option Signal}

/-- After one exit action the others run, up to what is logged. -/
theorem exists_runExits_rest (pending : Bool) {action : ExitAction} (rest : List ExitAction)
    (first : Option Signal) {outcome : Except Signal Unit}
    (ht : Run.attempt (m.runExit ctx action) s = .ok outcome t) :
    ∃ log, m.runExits ctx pending (action :: rest) first s =
      m.runExits ctx pending rest (if pending then first else first <|> fault? outcome)
        { t with log := log } := by
  rw [Machine.runExits, bind_of_ok ht]
  cases outcome with
  | ok _ => exact ⟨t.log, by cases pending <;> cases first <;> rfl⟩
  | error x =>
      obtain ⟨log, hlog⟩ := exists_log (α := Option Signal) x t
      cases pending with
      | true => exact ⟨log, hlog _⟩
      | false =>
          cases first with
          | none => exact ⟨t.log, rfl⟩
          | some y => exact ⟨log, hlog _⟩

variable [∀ ctx e env, Flow.stacks.Holds (m.eval ctx e env)]

theorem OnTop.run (h : OnTop ctx id below s) {action : ExitAction} {outcome : Except Signal Unit}
    {log : Array LogRecord} (ht : Run.attempt (m.runExit ctx action) s = .ok outcome t) :
    OnTop ctx id below { t with log := log } := by
  have hrun : Flow.stacks.Holds (Run.attempt (m.runExit ctx action)) := inferInstance
  have hlog : StackStep t { t with log := log } := .of_eq rfl rfl
  exact (h.step (hrun.of_ok ht)).step hlog

/-- All exit actions run. The first fault is what comes out, unless there is one already or a
signal is on its way. -/
theorem exitRuns_of_ok (htop : OnTop ctx id below s)
    (h : m.runExits ctx pending actions first s = .ok result u) :
    ∃ runs, ExitRuns m ctx id below s runs u ∧ runs.map (·.1) = actions ∧
      result = if pending then first else first <|> firstFault runs := by
  induction actions generalizing s first with
  | nil =>
      cases h
      exact ⟨[], .nil, rfl, by simp [firstFault]⟩
  | cons action rest ih =>
      obtain ⟨outcome, t, ht, -⟩ := bind_eq_ok h
      obtain ⟨log, hrest⟩ := exists_runExits_rest pending rest first ht
      obtain ⟨runs, hruns, hactions, hresult⟩ := ih (htop.run ht) (hrest ▸ h)
      refine ⟨_, .cons htop ht hruns, congrArg (action :: ·) hactions, ?_⟩
      rw [hresult]
      cases pending <;> cases first <;> cases outcome <;> rfl

end Runs

/-! ## The end of a call -/

namespace Machine

/-- What is noted when the body of a call has failed. -/
def noteEnd (ctx : EvaluatorId) : Except Signal Value → Run Unit
  | .error (.failure f) => noteFailure ctx f
  | _ => pure ()

/-- The value that the body of a call ended with, be it by a `return`. -/
def bodyValue? (env : EnvId) : Except Signal Value → Option Value
  | .ok v => some v
  | .error (.returning v target) => if target = env then some v else none
  | .error _ => none

/-- What a call ends with: what else its body ended with, or the value of its body unless there is
a fault. -/
def callOutcome (env : EnvId) (outcome : Except Signal Value) (fault : Option Signal) :
    Except Signal Value :=
  match bodyValue? env outcome, fault with
  | none, _ => outcome
  | some v, none => .ok v
  | some _, some x => .error x

theorem leave_eq (env : EnvId) (outcome : Except Signal Value) : m.leave ctx env id outcome = (do
    noteEnd ctx outcome
    m.unwind ctx id (bodyValue? env outcome).isNone
    Run.resume (callOutcome env outcome none)) := by
  rcases outcome with (f | ⟨v, target⟩ | _) | v
  · rfl
  · by_cases h : target = env
    · simp only [leave, noteEnd, bodyValue?, callOutcome, if_pos h, pure_bind]
      rfl
    · simp only [leave, noteEnd, bodyValue?, callOutcome, if_neg h, pure_bind]
      rfl
  · rfl
  · rfl

theorem noteFailure_eq_ok (ctx : EvaluatorId) (f : FailureRef) (u : Store) :
    ∃ v, noteFailure ctx f u = .ok ⟨⟩ v ∧ v.evaluators = u.evaluators ∧ v.history = u.history ∧
      u.nextId ≤ v.nextId := by
  rw [noteFailure_eq]
  split
  · obtain ⟨v, hv, haside⟩ := Flow.trace_eq_ok
      (fun _ => "failure in " ++ ((u.evaluator ctx).calls.map Expr.deparse).getLast?.getD "<top>" ++
        ": " ++ f.cause.message) (noted u ctx f)
    exact ⟨v, hv, haside.evaluators, haside.history, haside.nextId⟩
  · exact ⟨u, rfl, rfl, rfl, Nat.le_refl _⟩

theorem noteEnd_eq_ok (ctx : EvaluatorId) (outcome : Except Signal Value) (u : Store) :
    ∃ v, noteEnd ctx outcome u = .ok ⟨⟩ v ∧ v.evaluators = u.evaluators ∧ v.history = u.history ∧
      u.nextId ≤ v.nextId := by
  rcases outcome with (f | ⟨v, target⟩ | _) | v
  · exact noteFailure_eq_ok ctx f u
  · exact ⟨u, rfl, rfl, rfl, Nat.le_refl _⟩
  · exact ⟨u, rfl, rfl, rfl, Nat.le_refl _⟩
  · exact ⟨u, rfl, rfl, rfl, Nat.le_refl _⟩

/-- The exit actions of the innermost frame are taken. -/
theorem takeExits_eq_ok {frame : Frame} {rest : List Frame}
    (h : (u.evaluator ctx).frames = frame :: rest) : takeExits ctx frame.id u =
      .ok frame.handlers (u.setEvaluator ctx fun e => e.setHandlers frame.id fun _ => []) := by
  have hframe : (u.evaluator ctx).frame? frame.id = some frame := by
    rw [Evaluator.frame?, h]
    exact List.find?_cons_of_pos (by simp)
  simp only [takeExits, Run.get_bind, hframe]
  rfl

theorem popFrame_of_top (h : OnTop ctx id below u) : ∃ v, popFrame ctx id u = .ok ⟨⟩ v := by
  obtain ⟨top, rfl, hstack⟩ := h
  obtain ⟨frame, rest, hframes, rfl, -⟩ := List.map_eq_cons_iff.mp hstack
  obtain ⟨v, hv, -⟩ := popFrame_eq_ok hframes
  exact ⟨v, hv⟩

section Leave

variable [∀ ctx e env, Flow.stacks.Holds (m.eval ctx e env)] {env : EnvId}
  {outcome result : Except Signal Value} {actions : List ExitAction} {u₁ : Store}

omit [∀ ctx e env, Flow.stacks.Holds (m.eval ctx e env)] in
theorem leave_of_taken
    (htake : (do noteEnd ctx outcome; takeExits ctx id) u = .ok actions u₁) :
    m.leave ctx env id outcome u = (do
      let first ← m.runExits ctx (bodyValue? env outcome).isNone actions none
      popFrame ctx id
      Run.resume (first.elim (callOutcome env outcome none) .error)) u₁ := by
  obtain ⟨_, w, hnote, htake⟩ := bind_eq_ok htake
  rw [leave_eq, bind_of_ok hnote, unwind, bind_assoc, bind_of_ok htake]
  simp only [bind_assoc]
  refine congrFun (bind_congr fun first => bind_congr fun _ => ?_) u₁
  cases first <;> rfl

/-- A call ends after its exit actions ran and its frame was popped. -/
theorem leave_of_ok (htake : (do noteEnd ctx outcome; takeExits ctx id) u = .ok actions u₁)
    (htop : OnTop ctx id below u₁) (h : Run.attempt (m.leave ctx env id outcome) u = .ok result v) :
    ∃ runs u₂, ExitRuns m ctx id below u₁ runs u₂ ∧ runs.map (·.1) = actions ∧
      popFrame ctx id u₂ = .ok ⟨⟩ v ∧ result = callOutcome env outcome (firstFault runs) := by
  rw [Run.attempt_congr (leave_of_taken htake)] at h
  obtain ⟨first, w, hw, -⟩ := (Run.endsIn_of_attempt h).of_quiet
  have hruns : Flow.stacks.Holds (m.runExits ctx (bodyValue? env outcome).isNone actions none) :=
    inferInstance
  obtain ⟨v', hpop⟩ := popFrame_of_top (htop.step (hruns.of_ok hw))
  rw [Run.attempt_congr (bind_of_ok hw), Run.attempt_congr (bind_of_ok hpop),
    Run.attempt_resume] at h
  cases h
  obtain ⟨runs, hexits, hactions, rfl⟩ := exitRuns_of_ok htop hw
  refine ⟨runs, w, hexits, hactions, hpop, ?_⟩
  cases hvalue : bodyValue? env outcome with
  | none => simp only [callOutcome, hvalue, Option.isNone_none, if_true, Option.elim_none]
  | some x => cases hfault : firstFault runs <;> simp [callOutcome, hvalue]

end Leave

/-! ## Calls of closures -/

/-- What a call of a closure does before its body is evaluated: its arguments are bound. -/
def bindClosure (ctx : EvaluatorId) (c : ClosureId) (supplied : List (Tagged Value)) (call : Expr) :
    Run (Expr × EnvId) := do
  let closure ← useClosure c
  let env ← Run.newScope closure.env [] none
  let s ← get
  let matched ← matchFormals (closure.formals.map (·.1)) (describe s) supplied (some call)
  bindFormals ctx env matched closure.formals
  pure (closure.body, env)

theorem applyClosure_eq (m : Machine) (ctx : EvaluatorId) (c : ClosureId)
    (supplied : List (Tagged Value)) (call : Expr) (caller : EnvId) :
    m.applyClosure ctx c supplied call caller = (do
      let (body, env) ← bindClosure ctx c supplied call
      let id ← pushFrame ctx call env (some c) (some caller) []
      m.leave ctx env id (← Run.attempt (m.eval ctx body env))) := by
  simp only [applyClosure, bindClosure, inFrame_eq, bind_assoc, pure_bind]

instance {F : Flow} [F.Closed] (c : ClosureId) (supplied : List (Tagged Value)) (call : Expr) :
    F.Holds (bindClosure ctx c supplied call) := by
  unfold bindClosure
  infer_instance

section Push

variable {call : Expr} {env : EnvId} {function : Option ClosureId} {caller : Option EnvId}
  {handlers : List ExitAction}

/-- A frame that was pushed is the innermost one, with the exit actions that it was given. -/
theorem pushFrame_frames (h : pushFrame ctx call env function caller handlers s = .ok id t) :
    id < t.nextId ∧ (t.evaluator ctx).frames =
      ⟨id, call, env, function, caller, handlers⟩ :: (s.evaluator ctx).frames := by
  by_cases hfull : (s.evaluator ctx).maxDepth ≤ (s.evaluator ctx).depth
  · simp only [pushFrame, Run.get_bind, if_pos hfull] at h
    cases h
  · obtain ⟨t', ht', haside⟩ := pushFrame_eq_ok hfull call env function caller handlers
    cases h.symm.trans ht'
    let numbered : Store := { s with nextId := s.nextId + 1 }
    let frame : Frame := ⟨s.nextId, call, env, function, caller, handlers⟩
    have hindex : ctx.index < numbered.evaluators.size := Pushed.index_lt_of_depth_lt hfull
    have hnext : numbered.nextId ≤ t.nextId := haside.nextId
    have hevaluator : t.evaluator ctx = (Pushed.store numbered ctx frame).evaluator ctx := by
      simp only [Store.evaluator, haside.evaluators]
      rfl
    refine ⟨hnext, ?_⟩
    rw [hevaluator, Pushed.evaluator_store numbered frame hindex, if_pos rfl]
    rfl

theorem pushFrame_top (h : pushFrame ctx call env function caller handlers s = .ok id t) :
    OnTop ctx id (s.evaluator ctx).stack.frames t := by
  refine ⟨⟨id, call, env, function, caller, []⟩, rfl, ?_⟩
  rw [Evaluator.stack, (pushFrame_frames h).2]
  rfl

/-- The exit actions that are taken are what the registrations in the course of the body make of
those that the frame was pushed with. -/
theorem take_applied (outcome : Except Signal Value)
    (h : pushFrame ctx call env function caller handlers s = .ok id t) (hbody : ExitStep t u) :
    ∃ registered u₁, u.registrations ctx id = t.registrations ctx id ++ registered ∧
      (do noteEnd ctx outcome; takeExits ctx id) u =
        .ok (Registration.applyAll registered handlers) u₁ ∧
      StackStep u u₁ ∧ id < u₁.nextId ∧ u₁.registrations ctx id = u.registrations ctx id ∧
      ∃ frame rest, (u₁.evaluator ctx).frames = frame :: rest ∧ frame.id = id ∧
        frame.handlers = [] := by
  obtain ⟨hid, hframes⟩ := pushFrame_frames h
  have hstep := hbody.frames ctx
  rw [hframes] at hstep
  obtain ⟨frame, rest, hframe, -, heq⟩ := List.forall₂_cons_left_iff.mp hstep
  obtain ⟨registered, hregistered, hexits⟩ := hframe.exits
  obtain ⟨w, hnote, hevaluators, hhistory, hnext⟩ := noteEnd_eq_ok ctx outcome u
  have hnoted : (w.evaluator ctx).frames = frame :: rest := by
    simp only [Store.evaluator, hevaluators]
    exact heq
  have hframeId : frame.id = id := hframe.id_eq
  have htake := takeExits_eq_ok hnoted
  rw [hframeId] at htake
  have htaken : StackStep w (w.setEvaluator ctx fun e => e.setHandlers id fun _ => []) :=
    .of_setHandlers id fun _ => []
  have hindex : ctx.index < w.evaluators.size := by
    refine Decidable.byContradiction fun hnone => ?_
    simp [Store.evaluator, Array.getD, hnone, Inhabited.default] at hnoted
  refine ⟨registered, _, hregistered, ?_, (StackStep.of_eq hevaluators hhistory).trans htaken,
    ?_, ?_, ?_⟩
  · rw [bind_of_ok hnote, htake, hexits hid]
  · exact Nat.lt_of_lt_of_le hid (Nat.le_trans hbody.nextId hnext)
  · change w.registrations ctx id = u.registrations ctx id
    rw [Store.registrations, Store.registrations, hhistory]
  · rw [Store.evaluator_setEvaluator, if_pos ⟨rfl, hindex⟩, Evaluator.setHandlers, hnoted,
      List.map_cons, if_pos hframeId]
    exact ⟨_, _, rfl, hframeId, rfl⟩

/-- The exit actions of a call are what the registrations in the course of its body lead to. -/
theorem take_registered (outcome : Except Signal Value)
    (h : pushFrame ctx call env function caller [] s = .ok id t) (hbody : ExitStep t u) :
    ∃ registered u₁, u.registrations ctx id = t.registrations ctx id ++ registered ∧
      (do noteEnd ctx outcome; takeExits ctx id) u = .ok (Registration.order registered) u₁ ∧
      StackStep u u₁ := by
  obtain ⟨registered, u₁, hregistered, htake, htaken, -⟩ := take_applied outcome h hbody
  rw [Registration.applyAll_eq_order] at htake
  exact ⟨registered, u₁, hregistered, htake, htaken⟩

end Push

/-- An exit action that fails. -/
def failingExit : Expr := .call (.const (.int 1)) []

/-- A body that registers two exit actions, the first of which runs last. -/
def exitBody : Expr :=
  let onExit (slots : List Slot) := .bare (.call (.const (.builtin (.special .onExit) .empty)) slots)
  .call (.const (.builtin (.special .block) .empty))
    [onExit [.bare (.const (.int 2)), ⟨some "after", .const (.bool true)⟩],
      onExit [.bare failingExit], .bare (.const (.int 7))]

def exiting : Store :=
  ({ evaluators := #[⟨none, 10, [], 0, []⟩] } : Store).addClosure ⟨[], exitBody, .empty, none⟩

end Machine

end Quasi
