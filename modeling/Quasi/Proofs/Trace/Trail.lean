import Mathlib.Logic.Relation
import Quasi.Proofs.Flow.Session
import Quasi.Proofs.Return.Inside
import Quasi.Proofs.Store

/-!
# The traces of failures

A failure is raised without a trace. The calls under way are noted with it once, at some moment while
it unwinds, and what was noted stays: whatever is evaluated, forced or asked for afterwards, nothing
changes a trace that is there.
-/

namespace Quasi

open Relation (ReflTransGen)

namespace Store

/-- A single change, as far as traces go: failures keep theirs, and new ones have none; or the calls
under way are noted with a failure that has none. -/
inductive Tracing : Store → Store → Prop where
  | kept {s t : Store} (h : ∀ f, (t.incident f).trace = (s.incident f).trace) : Tracing s t
  | noted (s : Store) (ctx : EvaluatorId) (f : FailureRef) (hhost : f.cause.isHost = false)
      (hnone : (s.incident f).trace = none) : Tracing s (Machine.noted s ctx f)

/-- Such changes one after the other. -/
def Trail : Store → Store → Prop := ReflTransGen Tracing

variable {s t : Store} {f : FailureRef} {trace : List String}

theorem incident_noted (s : Store) (ctx : EvaluatorId) (f g : FailureRef) :
    ((Machine.noted s ctx f).incident g).trace =
      if g.index = f.index ∧ f.index < s.failures.size then
        some ((s.evaluator ctx).calls.map Expr.deparse)
      else (s.incident g).trace := by
  rw [Machine.noted, Store.incident, Store.setIncident, getD_modify]
  split <;> rfl

theorem incident_push (s : Store) (call : Option Expr) (f : FailureRef) :
    (({ s with failures := s.failures.push ⟨call, none⟩ } : Store).incident f).trace =
      (s.incident f).trace := by
  rw [Store.incident, getD_push]
  split
  next h =>
    -- there is no incident at the new place before
    rw [Store.incident, Array.getD_eq_getD_getElem?, h, Array.getElem?_size]
    rfl
  next => rfl

theorem Tracing.of_failures (h : t.failures = s.failures) : s.Tracing t :=
  .kept fun f => by simp only [Store.incident, h]

/-- A trace is never changed. -/
theorem Tracing.keeps (h : s.Tracing t) (hs : (s.incident f).trace = some trace) :
    (t.incident f).trace = some trace := by
  cases h with
  | kept h => exact (h f).trans hs
  | noted ctx g hhost hnone =>
      rw [incident_noted, if_neg, hs]
      rintro ⟨hindex, -⟩
      rw [Store.incident, hindex] at hs
      exact absurd (hnone.symm.trans hs) nofun

theorem Trail.keeps (h : s.Trail t) (hs : (s.incident f).trace = some trace) :
    (t.incident f).trace = some trace := by
  induction h with
  | refl => exact hs
  | tail _ hstep ih => exact hstep.keeps ih

/-- A trace that comes to be is of the calls under way at some moment. -/
theorem Trail.exists_noted (h : s.Trail t) (hs : (s.incident f).trace = none)
    (ht : (t.incident f).trace = some trace) : ∃ u ctx, s.Trail u ∧ (u.incident f).trace = none ∧
      trace = (u.evaluator ctx).calls.map Expr.deparse := by
  induction h with
  | refl =>
      rw [hs] at ht
      cases ht
  | @tail u v hu hstep ih =>
      cases hnone : (u.incident f).trace with
      | some earlier =>
          have hsame := hstep.keeps hnone
          rw [ht, Option.some_inj] at hsame
          exact ih (hsame ▸ hnone)
      | none =>
          cases hstep with
          | kept h => exact absurd ((h f).symm.trans ht) (by rw [hnone]; nofun)
          | noted ctx g =>
              rw [incident_noted] at ht
              split at ht
              · exact ⟨u, ctx, hu, hnone, (Option.some.inj ht).symm⟩
              · rw [hnone] at ht
                cases ht

end Store

namespace Flow

open Store (Tracing Trail)

/-- Failures are noted once. -/
def traces : Flow where
  Keeps := Trail
  Lost := Trail
  refl _ := .refl
  trans := .trans
  lost_trans := .trans
  astray _ := .refl
  aside h := .single (.of_failures h.failures)
  failure s call := .single (.kept (Store.incident_push s call))
  noted s ctx f hhost hnone := .single (.noted s ctx f hhost hnone)
  scope _ _ := .single (.of_failures rfl)
  mask _ _ := .single (.of_failures rfl)
  promise _ p _ := .single (.of_failures (by unfold Store.addPromise; cases p.env <;> rfl))
  closure _ _ := .single (.of_failures rfl)
  used _ _ := .single (.of_failures rfl)
  evaluator _ _ _ := .single (.of_failures rfl)
  vars _ e _ := .single (.of_failures (by cases e <;> rfl))
  closureName _ _ _ := .single (.of_failures rfl)
  registered _ _ _ _ := .single (.of_failures rfl)

instance : traces.Rechains := ⟨fun _ _ _ => .single (.of_failures rfl)⟩

instance : traces.Forces where
  begin s p := by
    cases h : (s.promise p).env <;> simp only [Store.begin, h] <;> exact .single (.of_failures rfl)
  abandon _ _ _ := .single (.of_failures rfl)
  settle _ _ _ := .single (.of_failures rfl)

instance : traces.Stacks where
  evaluator _ _ _ := .single (.of_failures rfl)
  event _ _ _ := .single (.of_failures rfl)

instance : traces.Closed := .of_changes

end Flow

/-! ## What may come afterwards -/

namespace Session

/-- Where a store may get to from some moment on: something is evaluated, a promise is forced or
notes what its evaluation ended with, the bodies of calls having ended the calls end, and requests
follow. -/
inductive Onwards : Store → Store → Prop where
  | refl (s : Store) : Onwards s s
  | eval {s t u : Store} {n : Nat} {ctx : EvaluatorId} {e : Expr} {env : EnvId} (h : Onwards s t)
      (hrun : ((Machine.ofLevel n).eval ctx e env).EndsIn t u) : Onwards s u
  | force {s t u : Store} {n : Nat} {ctx : Option EvaluatorId} {p : PromiseId} (h : Onwards s t)
      (hrun : ((Machine.ofLevel n).force ctx p).EndsIn t u) : Onwards s u
  | conclude {s t u : Store} {p : PromiseId} {outcome : Except Signal Value} (h : Onwards s t)
      (hrun : (Machine.conclude p outcome).EndsIn t u) : Onwards s u
  | leave {s t u : Store} {n : Nat} {ctx : EvaluatorId} {env : EnvId} {id : Nat}
      {outcome : Except Signal Value} (h : Onwards s t)
      (hrun : ((Machine.ofLevel n).leave ctx env id outcome).EndsIn t u) : Onwards s u
  | request {s t u : Store} {r : Request} (h : Onwards s t) (hrun : r.run.EndsIn t u) : Onwards s u

instance {F : Flow} [F.Stacks] {m : Machine} [∀ ctx e env, F.Holds (m.eval ctx e env)]
    (ctx : EvaluatorId) (env : EnvId) (id : Nat) (outcome : Except Signal Value) :
    F.Holds (m.leave ctx env id outcome) := by
  unfold Machine.leave
  split
  · infer_instance
  · split <;> infer_instance
  · infer_instance
  · infer_instance

theorem Onwards.trail {s t : Store} (h : Onwards s t) : s.Trail t := by
  have hrun {α : Type} {a : Run α} {u v : Store} (ha : Flow.traces.Holds a) (h : s.Trail u)
      (hrun : a.EndsIn u v) : s.Trail v := ReflTransGen.trans h (ha.ends hrun)
  induction h with
  | refl => exact .refl
  | eval _ h ih => exact hrun inferInstance ih h
  | force _ h ih => exact hrun inferInstance ih h
  | conclude _ h ih => exact hrun inferInstance ih h
  | leave _ h ih => exact hrun inferInstance ih h
  | @request _ _ r _ h ih => exact hrun (Flow.holds_request r fun _ => inferInstance) ih h

end Session

end Quasi
