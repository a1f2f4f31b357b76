import Quasi.Proofs.Exit.Call
import Quasi.Proofs.Trace.Trail

/-!
# The trace of a failed call

When a failure leaves the body of a call, the frame of the call is the innermost one. So the first
call of which it leaves the body notes the stack in which the body ran, and all calls that it leaves
afterwards find the trace there already.
-/

namespace Quasi

open Run (bind_of_ok attempt_eq_ok attempt_of_signal)

/-- The calls under way are the same in stacks that are the same. -/
theorem Evaluator.calls_eq (e : Evaluator) : e.calls = (e.stack.frames.map (·.call)).reverse := by
  rw [calls, stack, List.map_map]
  rfl

theorem StackStep.calls {s t : Store} (h : StackStep s t) (ctx : EvaluatorId) :
    (t.evaluator ctx).calls = (s.evaluator ctx).calls := by
  rw [Evaluator.calls_eq, Evaluator.calls_eq, h.stack ctx]

namespace Machine

variable {ctx : EvaluatorId} {s t u v w : Store} {f : FailureRef}

/-- A failure that leaves a body has a trace then: the one it had, or else the calls under way. -/
theorem noteFailure_trace (ctx : EvaluatorId) (hhost : f.cause.isHost = false)
    (hf : f.index < u.failures.size) : ∃ v, noteFailure ctx f u = .ok ⟨⟩ v ∧
      (v.incident f).trace = some ((u.incident f).trace.getD
        ((u.evaluator ctx).calls.map Expr.deparse)) := by
  rw [noteFailure_eq, hhost]
  cases htrace : (u.incident f).trace with
  | some trace =>
      refine ⟨u, rfl, ?_⟩
      rw [htrace]
      rfl
  | none =>
      obtain ⟨v, hv, haside⟩ := Flow.trace_eq_ok (fun _ => "failure in " ++
        ((u.evaluator ctx).calls.map Expr.deparse).getLast?.getD "<top>" ++ ": " ++ f.cause.message)
        (noted u ctx f)
      refine ⟨v, hv, ?_⟩
      rw [Store.incident, haside.failures]
      exact (Store.incident_noted u ctx f f).trans (if_pos ⟨rfl, hf⟩)

section Call

variable {n : Nat} {c : ClosureId} {supplied : List (Tagged Value)} {call body : Expr}
  {caller env : EnvId} {id : Nat}

/-- A call whose body fails notes the failure and goes on from there. -/
theorem applyClosure_of_failure
    (hbind : bindClosure ctx c supplied call s = .ok (body, env) w)
    (hpush : pushFrame ctx call env (some c) (some caller) [] w = .ok id t)
    (hbody : (ofLevel n).eval ctx body env t = .error (Signal.failure f).interrupt u) :
    (ofLevel n).applyClosure ctx c supplied call caller s =
      (ofLevel n).leave ctx env id (.error (.failure f)) u := by
  rw [applyClosure_eq]
  exact (bind_of_ok hbind).trans ((bind_of_ok hpush).trans (bind_of_ok (attempt_of_signal hbody)))

/-- A call whose body fails ends by the failure, whatever its exit actions do. -/
theorem ends_by_failure
    (hbind : bindClosure ctx c supplied call s = .ok (body, env) w)
    (hpush : pushFrame ctx call env (some c) (some caller) [] w = .ok id t)
    (hbody : (ofLevel n).eval ctx body env t = .error (Signal.failure f).interrupt u)
    (hend : ((ofLevel n).applyClosure ctx c supplied call caller).EndsIn s v) :
    (ofLevel n).applyClosure ctx c supplied call caller s =
      .error (Signal.failure f).interrupt v := by
  have hexits : Flow.exits.Holds ((ofLevel n).eval ctx body env) := inferInstance
  have hstacks : Flow.stacks.Holds ((ofLevel n).eval ctx body env) := inferInstance
  have hends : ((ofLevel n).eval ctx body env).EndsIn t u := .signal _ hbody
  obtain ⟨registered, u₁, -, htake, htaken⟩ :=
    take_registered (.error (.failure f)) hpush (hexits.ends hends)
  have htop : OnTop ctx id (w.evaluator ctx).stack.frames u₁ :=
    ((pushFrame_top hpush).step (hstacks.ends hends)).step htaken
  have hleave := applyClosure_of_failure hbind hpush hbody
  have hresult (result : Except Signal Value)
      (h : Run.attempt ((ofLevel n).leave ctx env id (.error (.failure f))) u = .ok result v) :
      result = .error (.failure f) := by
    obtain ⟨runs, u₂, -, -, -, hresult⟩ := leave_of_ok htake htop h
    exact hresult
  rw [hleave]
  cases hend with
  | value x hx =>
      have hattempt : Run.attempt ((ofLevel n).leave ctx env id (.error (.failure f))) u =
          .ok (.ok x) v := by simp only [Run.attempt, ← hleave, hx]
      cases hresult _ hattempt
  | signal x hx =>
      rw [hleave] at hx
      cases hresult _ (attempt_of_signal hx)
      exact hx

/-- The trace of a failure. A call whose body fails ends by the failure, if it ends. From then on, and
whatever is evaluated, forced or asked for, the trace of the failure is of the calls that were under
way in the body, from the outermost one to this call. Only if it has left the body of another call
before, the trace is of the calls under way then. -/
theorem trace_of_failure
    (hbind : bindClosure ctx c supplied call s = .ok (body, env) w)
    (hpush : pushFrame ctx call env (some c) (some caller) [] w = .ok id t)
    (hbody : (ofLevel n).eval ctx body env t = .error (Signal.failure f).interrupt u)
    (hhost : f.cause.isHost = false) (hf : f.index < u.failures.size)
    (hend : ((ofLevel n).applyClosure ctx c supplied call caller).EndsIn s v) :
    (ofLevel n).applyClosure ctx c supplied call caller s =
      .error (Signal.failure f).interrupt v ∧
    (∀ later, Session.Onwards v later → (later.incident f).trace =
      some ((u.incident f).trace.getD (((s.evaluator ctx).calls ++ [call]).map Expr.deparse))) ∧
    (∀ trace, (t.incident f).trace = none → (u.incident f).trace = some trace →
      ∃ moment ctx', t.Trail moment ∧ (moment.incident f).trace = none ∧
        trace = (moment.evaluator ctx').calls.map Expr.deparse) := by
  have hends : ((ofLevel n).eval ctx body env).EndsIn t u := .signal _ hbody
  have hstacks : Flow.stacks.Holds ((ofLevel n).eval ctx body env) := inferInstance
  have htraces : Flow.traces.Holds ((ofLevel n).eval ctx body env) := inferInstance
  have hbound : Flow.stacks.Holds (bindClosure ctx c supplied call) := inferInstance
  have hcalls : (u.evaluator ctx).calls = (s.evaluator ctx).calls ++ [call] := by
    rw [StackStep.calls (hstacks.ends hends), Evaluator.calls, (pushFrame_frames hpush).2,
      List.map_cons, List.reverse_cons, ← StackStep.calls (hbound.of_ok hbind)]
    rfl
  have hfails := ends_by_failure hbind hpush hbody hend
  obtain ⟨noted, hnoted, htrace⟩ := noteFailure_trace ctx hhost hf
  rw [hcalls] at htrace
  refine ⟨hfails, fun later hlater => ?_, fun trace ht hu => ?_⟩
  · have hrest : Flow.traces.Holds (do
        (ofLevel n).unwind ctx id true
        Run.raise (.failure f) : Run Value) := inferInstance
    have hleave : (do
        (ofLevel n).unwind ctx id true
        Run.raise (.failure f) : Run Value) noted = .error (Signal.failure f).interrupt v :=
      (bind_of_ok hnoted).symm.trans
        ((applyClosure_of_failure hbind hpush hbody).symm.trans hfails)
    have htrail : noted.Trail later := (hrest.ends (.signal _ hleave)).trans hlater.trail
    exact htrail.keeps htrace
  · exact (htraces.ends hends).exists_noted ht hu

end Call

/-- A closure the body of which looks up a name that is not bound, and what calls it. -/
def failing : Store :=
  ({ evaluators := #[⟨none, 10, [], 0, []⟩] } : Store).addClosure
    ⟨[], .symbol "x", .empty, none⟩

/-- The call that fails is the only one in the trace. -/
theorem trace_of_failure_failing : ∃ f v,
    (ofLevel 2).applyClosure ⟨0⟩ ⟨0⟩ [] (.apply "f" []) .empty failing =
      .error (Signal.failure f).interrupt v ∧
    ∀ later, Session.Onwards v later → (later.incident f).trace = some ["(f)"] := by
  have hbind : bindClosure ⟨0⟩ ⟨0⟩ [] (.apply "f" []) failing = .ok (.symbol "x", .scope 0) _ := rfl
  obtain ⟨hfails, htrace, -⟩ := trace_of_failure (n := 2) hbind
    (show pushFrame ⟨0⟩ (.apply "f" []) (.scope 0) (some ⟨0⟩) (some .empty) [] _ = _ from rfl)
    (f := ⟨0, _⟩) rfl rfl (by decide) (.signal _ rfl)
  exact ⟨_, _, hfails, htrace⟩

/-- A failure of an exit action leaves its call without a trace. -/
theorem exit_failure_untraced : ∃ f v,
    (ofLevel 8).applyClosure ⟨0⟩ ⟨0⟩ [] .missing .empty exiting =
      .error (Signal.failure f).interrupt v ∧
    f.cause.isHost = false ∧ (v.incident f).trace = none := ⟨_, _, rfl, rfl, rfl⟩

end Machine

end Quasi
