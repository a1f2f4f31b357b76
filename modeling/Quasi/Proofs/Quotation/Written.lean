import Quasi.Form.Quote
import Quasi.Proofs.Store
import Quasi.Proofs.Flow.Basic

/-!
# What capturing starts from

Capturing an argument reads the code that was written for it and the environment it was written in,
and expands what is injected into the code there.
-/

namespace Quasi

open Run (bind_of_ok)

/-- The code that was written for a promise. Once a promise has come to a value or to a failure its
code is gone, unless it was given its value. -/
def Promise.written? (promise : Promise) : Option Expr :=
  match promise.progress with
  | .given v => some v.toExpr
  | .value _ => none
  | .failed _ => none
  | _ => some promise.code

/-- The code that was written for an argument, and the environment that it was written in. -/
def Store.written? (s : Store) : Value → Option (Expr × Option EnvId)
  | .promise p => (s.promise p).written?.map (·, (s.promise p).env)
  | v => some (v.toExpr, none)

namespace Machine

variable {m : Machine} {ctx : EvaluatorId} {s : Store} {p : PromiseId} {v : Value} {e : Expr}
  {home : Option EnvId}

theorem capturedCode_of_written (h : (s.promise p).written? = some e) :
    capturedCode p s = .ok e s := by
  rw [capturedCode, Run.get_bind]
  cases hp : (s.promise p).progress with
  | value v | failed f =>
      rw [Promise.written?, hp] at h
      cases h
  | _ =>
      rw [Promise.written?, hp] at h
      cases h
      rfl

/-- Capturing the code of an argument expands what was written for it. -/
theorem codeOf_of_written (h : s.written? v = some (e, home)) :
    m.codeOf ctx v s = m.expandIn ctx home e s := by
  cases v with
  | promise p =>
      obtain ⟨code, hcode, heq⟩ := Option.map_eq_some_iff.mp h
      cases heq
      rw [codeOf, bind_of_ok (capturedCode_of_written hcode)]
      rfl
  | _ =>
      cases h
      rfl

/-- Capturing the quosure of an argument keeps the environment it was written in beside its code. -/
theorem quosureOf_of_written (h : s.written? (.promise p) = some (e, home)) :
    m.quosureOf ctx (.promise p) s = (do
      pure (quosureAround (home.getD .empty) (← m.expandIn ctx home e)) : Run Value) s := by
  obtain ⟨code, hcode, heq⟩ := Option.map_eq_some_iff.mp h
  cases heq
  rw [quosureOf, bind_of_ok (capturedCode_of_written hcode), Run.get_bind]
  refine congrFun (bind_congr fun code => ?_) s
  unfold quosureAround
  split <;> simp_all only

end Machine

end Quasi
