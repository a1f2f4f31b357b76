import Quasi.Proofs.Flow.Session
import Quasi.Proofs.Promise.Flow

/-!
# Promises run once

In every session the evaluations of a promise follow one another, a further one only where the last
was left without a failure, and the first outcome is the outcome for good.
-/

namespace Quasi

namespace Session

variable {s t : Store} {p : PromiseId}

theorem coursed_blank (settings : Settings) (verbose : Bool) :
    Store.Coursed { settings := settings, verbose := verbose } := fun _ => .fresh rfl

theorem promiseStep_request (r : Request) (h : r.run.EndsIn s t) : PromiseStep s t := by
  have hholds : Flow.promises.Holds r.run := Flow.holds_request r fun _ => inferInstance
  exact hholds.ends h

theorem Reachable.coursed (hs : Reachable s) : s.Coursed := by
  induction hs with
  | blank settings verbose => exact coursed_blank settings verbose
  | request hs r h ih => exact (promiseStep_request r h).coursed ih

/-- Between requests no promise is being evaluated. -/
theorem Reachable.not_forcing (hs : Reachable s) (p : PromiseId) :
    (s.promise p).progress ≠ .forcing := by
  induction hs with
  | blank settings verbose => simp [Store.promise, Inhabited.default]
  | request hs r h ih => exact fun hp => ih ((promiseStep_request r h).forcing p hp)

/-- Every promise runs once. Its evaluations follow one another, also in a request that is lost in a
search, and none is under way between requests. Neither a later request nor any evaluation touches
a promise that is settled, nor an evaluation one that is being evaluated; forcing the first gives
its outcome and forcing the second is a failure, and neither does anything else. -/
theorem promises_run_once (hs : Reachable s) (p : PromiseId) :
    RunOnce p (s.eventsOf p) ∧
    (∀ (r : Request) (t : Store), r.run.LostIn s t → RunOnce p (t.eventsOf p)) ∧
    (s.promise p).progress ≠ .forcing ∧
    (∀ t, After s t → p.index < s.promises.size → (s.promise p).progress.outcome?.isSome →
      s.SamePromise t p) ∧
    (∀ (n : Nat) (ctx : EvaluatorId) (e : Expr) (env : EnvId) (u v : Store),
      ((Machine.ofLevel n).eval ctx e env).EndsIn u v → p.index < u.promises.size →
      (u.promise p).progress.isIdle = false → u.SamePromise v p) ∧
    (∀ (m : Machine) (ctx : Option EvaluatorId) (u : Store) (outcome : Except Signal Value),
      (u.promise p).progress.outcome? = some outcome →
      m.force ctx p u = Run.resume outcome u) ∧
    (∀ (m : Machine) (ctx : Option EvaluatorId) (u : Store), (u.promise p).progress = .forcing →
      m.force ctx p u = .error (.failure ⟨u.failures.size, .force .circular⟩)
        { u with failures := u.failures.push ⟨none, none⟩ }) := by
  refine ⟨(hs.coursed p).runOnce, ?_, hs.not_forcing p, ?_, ?_,
    fun m ctx u outcome h => Machine.force_settled h m ctx,
    fun m ctx u h => Machine.force_forcing h m ctx⟩
  · intro r t h
    have hholds : Flow.promises.Holds r.run := Flow.holds_request r fun _ => inferInstance
    exact (hholds.lost h hs.coursed p).runOnce
  · intro t ht hp hsome
    have hstep : PromiseStep s t := Flow.keeps_of_after (F := Flow.promises) ht
    exact hstep.kept p hp (Progress.isIdle_eq_false hsome)
  · intro n ctx e env u v h hp hheld
    have hholds : Flow.promises.Holds ((Machine.ofLevel n).eval ctx e env) := inferInstance
    exact (hholds.ends h).kept p hp hheld

/-- A promise of a constant that was forced. -/
theorem promises_run_once_constant : ∃ s : Store, Reachable s ∧
    s.eventsOf ⟨0⟩ = [.settled ⟨0⟩, .begun ⟨0⟩] ∧ ∀ t, After s t →
      ∀ (m : Machine) (ctx : Option EvaluatorId), m.force ctx ⟨0⟩ t = .ok (.int 7) t := by
  have hs : Reachable _ := .request (.request (.blank [] false)
    (.makePromise (.int 7) .absent (some ⟨0⟩)) (.value _ rfl)) (.force (.promise ⟨0⟩) none)
    (.value _ rfl)
  refine ⟨_, hs, rfl, ?_⟩
  intro t ht m ctx
  obtain ⟨-, -, -, hafter, -, hforce, -⟩ := promises_run_once hs ⟨0⟩
  have hsame := hafter t ht (by decide) rfl
  exact hforce m ctx t (.ok (.int 7)) (by rw [hsame.promise]; rfl)

end Session

end Quasi
