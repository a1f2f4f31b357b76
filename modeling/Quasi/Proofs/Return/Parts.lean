import Quasi.Proofs.Flow.Evaluation
import Quasi.Proofs.Return.Inside

/-!
# Where code is evaluated

The parts of a run in which programs have a `return` evaluated behind a layer: the code of promises
and closures, the expression, the handlers and the last part of a `tryCatch`, exit actions,
expressions with an environment or a mask of their own, and requests of host functions.
-/

namespace Quasi

variable {m : Machine} {ctx : EvaluatorId} {env : EnvId} {s t u : Store}

/-- The code of a promise is evaluated behind a layer of its own. -/
theorem inside_force {p : PromiseId} (h : (s.promise p).progress = .unforced) :
    ∃ t, Inside (m.evalPromise ctx (s.promise p)) t (m.force (some ctx) p) s [.promise p] := by
  obtain ⟨t, ht, -⟩ := Flow.trace_eq_ok
    (fun _ => "forcing promise " ++ (s.promise p).code.plain) (s.begin p)
  refine ⟨t, ?_⟩
  apply Inside.rest (a := (get : Run Store)) rfl
  dsimp only
  rw [h]
  apply Inside.rest (a := (get : Run Store)) rfl
  apply Inside.rest (a := Machine.begin p) rfl
  apply Inside.rest (a := Run.trace _) ht
  exact .promise .here

/-- An expression with an environment of its own is evaluated in a scope. -/
theorem inside_evalIn (expr : Expr) : Inside (m.eval ctx expr env) (Flow.targeted s ctx env)
    (m.evalIn ctx expr env) s [.scope ctx env] := .scope .here

/-- Under a mask the scope is that of the mask, and the mask is put back behind it. -/
theorem inside_under {mask : MaskId} {home previous : EnvId} (expr : Expr)
    (h : Run.rechain mask home s = .ok previous t) :
    Inside (m.eval ctx expr (.bottom mask)) (Flow.targeted t ctx (.bottom mask))
      (Run.under mask home fun bottom => m.evalIn ctx expr bottom) s
      [.scope ctx (.bottom mask), .followed (do let _ ← Run.rechain mask previous)] := by
  apply Inside.rest (a := Run.rechain _ _) h
  exact .followed (inside_evalIn expr)

/-- The code of a closure is evaluated as the body of a call, once its arguments are bound. -/
theorem inside_applyClosure {c : ClosureId} {closure : Closure} {supplied : List (Tagged Value)}
    {matched : Matched Value} {call : Expr} {caller : EnvId} {id : Nat} {t₁ t₂ t₃ t₄ : Store}
    (huse : Machine.useClosure c s = .ok closure t₁)
    (hscope : Run.newScope closure.env [] none t₁ = .ok env t₂)
    (hmatch : Machine.matchFormals (closure.formals.map (·.1)) (Machine.describe t₂) supplied
      (some call) t₂ = .ok matched t₃)
    (hbind : Machine.bindFormals ctx env matched closure.formals t₃ = .ok ⟨⟩ t₄)
    (hpush : Machine.pushFrame ctx call env (some c) (some caller) [] t₄ = .ok id t) :
    Inside (m.eval ctx closure.body env) t (m.applyClosure ctx c supplied call caller) s
      [.body m ctx env id] := by
  apply Inside.rest (a := Machine.useClosure _) huse
  apply Inside.rest (a := Run.newScope _ _ _) hscope
  apply Inside.rest (a := (get : Run Store)) rfl
  apply Inside.rest (a := Machine.matchFormals _ _ _ _) hmatch
  apply Inside.rest (a := Machine.bindFormals _ _ _ _) hbind
  exact .body hpush .here

/-- A request of a host function is one behind a layer. -/
theorem inside_nested {args : List Value} {named : Bindings Value} {v : Value}
    (h : HostFunction.bindArgs ["expr", "env"] args named s = .ok [v, .env env] t) :
    Inside (m.eval HostFunction.sessionEvaluator v.toExpr env) t
      (HostFunction.nested.apply m args named) s
      [.request HostFunction.sessionEvaluator (t.evaluator HostFunction.sessionEvaluator)] := by
  apply Inside.rest (a := HostFunction.bindArgs _ _ _) h
  exact .request .here

/-! ## `tryCatch` -/

section Try

variable [Flow.stacks.Obeys m] {slots : List Slot} {parts : Machine.TryParts}
  {handlers : List (String × Value)} {body last : Expr}

/-- The layer of the last part of a `tryCatch`, if it has one. -/
def lastLayers (m : Machine) (ctx : EvaluatorId) (env : EnvId) (parts : Machine.TryParts) :
    List Layer :=
  (parts.last.map fun last => Layer.followed (do let _ ← m.eval ctx last env)).toList

theorem inside_guarded {β : Type} {b : Run β} {w : Store} {layers : List Layer}
    (hparts : Machine.tryParts slots {} s = .ok parts t)
    (hhandlers : m.evalHandlers ctx env parts.handlers t = .ok handlers u)
    (hbody : parts.body = some body)
    (h : Inside b w (m.guarded ctx env handlers body) u layers) :
    Inside b w (m.tryCatchForm ctx slots env) s (layers ++ lastLayers m ctx env parts) := by
  apply Inside.rest (a := Machine.tryParts _ _) hparts
  apply Inside.rest (a := m.evalHandlers _ _ _) hhandlers
  rw [hbody, lastLayers]
  cases parts.last with
  | none =>
      rw [Option.map_none, Option.toList_none, List.append_nil]
      exact h
  | some last => exact .followed h

/-- The expression of a `tryCatch` is evaluated in front of its last part. -/
theorem inside_tryBody (hparts : Machine.tryParts slots {} s = .ok parts t)
    (hhandlers : m.evalHandlers ctx env parts.handlers t = .ok handlers u)
    (hbody : parts.body = some body) :
    Inside (m.eval ctx body env) u (m.tryCatchForm ctx slots env) s
      (lastLayers m ctx env parts) :=
  inside_guarded hparts hhandlers hbody (.guarded .here)

/-- So is the handler that takes its failure. -/
theorem inside_tryHandler {f : FailureRef} {name : String} {handler : Value} {w : Store}
    (hparts : Machine.tryParts slots {} s = .ok parts t)
    (hhandlers : m.evalHandlers ctx env parts.handlers t = .ok handlers u)
    (hbody : parts.body = some body) (hfails : m.eval ctx body env u = .error (.failure f) w)
    (hfind : (handlers.find? fun handler => f.cause.classes.contains handler.1) =
      some (name, handler)) :
    ∃ w', Inside (m.call ctx handler [.failure f] [] env) w' (m.tryCatchForm ctx slots env) s
      (lastLayers m ctx env parts) := by
  obtain ⟨w', hw', -⟩ := Flow.trace_eq_ok
    (fun _ => s!"tryCatch handler `{name}` caught " ++ f.cause.typeName) w
  have hguarded : Inside (m.call ctx handler [.failure f] [] env) w'
      (m.guarded ctx env handlers body) u [] := by
    apply Inside.rest (a := Run.attempt _) (Run.attempt_of_signal (x := .failure f) hfails)
    dsimp only
    rw [hfind]
    exact .rest hw' .here
  exact ⟨w', inside_guarded hparts hhandlers hbody hguarded⟩

/-- The last part of a `tryCatch` is evaluated behind no layer. -/
theorem inside_tryLast {outcome : Except Signal Value} {w : Store}
    (hparts : Machine.tryParts slots {} s = .ok parts t)
    (hhandlers : m.evalHandlers ctx env parts.handlers t = .ok handlers u)
    (hbody : parts.body = some body) (hlast : parts.last = some last)
    (hends : Run.attempt (m.guarded ctx env handlers body) u = .ok outcome w) :
    Inside (m.eval ctx last env) w (m.tryCatchForm ctx slots env) s [] := by
  apply Inside.rest (a := Machine.tryParts _ _) hparts
  apply Inside.rest (a := m.evalHandlers _ _ _) hhandlers
  rw [hbody, hlast]
  apply Inside.rest (a := Run.attempt _) hends
  exact .first (.first .here)

end Try

/-! ## Exit actions -/

/-- An exit action of a call whose body ended with a value is evaluated behind two layers. -/
theorem inside_exit [∀ ctx e env, Flow.stacks.Holds (m.eval ctx e env)] {call : Expr}
    {function : Option ClosureId} {caller : Option EnvId} {start : List ExitAction}
    {body : Run Value} [Flow.stacks.Holds body] {id : Nat} {v : Value}
    {done rest : List ExitAction} {action : ExitAction} {first : Option Signal} {t₁ t₂ t₃ : Store}
    (hpush : Machine.pushFrame ctx call env function caller start s = .ok id t)
    (hbody : body t = .ok v t₁)
    (htake : Machine.takeExits ctx id t₁ = .ok (done ++ action :: rest) t₂)
    (hdone : m.runExits ctx false done none t₂ = .ok first t₃) :
    Inside (m.runExit ctx action) t₃ (m.inFrame ctx call env function caller start body) s
      [.exit m ctx id false first rest, .ending env] := by
  have hattempt : Run.attempt body t = .ok (.ok v) t₁ := by rw [Run.attempt, hbody]
  exact .ending hpush hattempt (.first (.exit htake hdone .here))

end Quasi
