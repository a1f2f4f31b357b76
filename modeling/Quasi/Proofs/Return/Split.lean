import Quasi.Proofs.Return.Inside

/-!
# Splitting layers

Each layer around a part of a run belongs to a run of its own: a call, a scope, a request, the
unwinding of a frame. The layers inside of it lie around the part in that run, and the layers
outside of it lie around that run.
-/

namespace Quasi

/-- The run that a layer belongs to, and the run behind the layer, with the stores in which they
start. -/
inductive Layer.Wraps : Layer → {γ δ : Type} → Run γ → Store → Run δ → Store → Prop where
  | body {m : Machine} {ctx : EvaluatorId} {call : Expr} {env : EnvId}
      {function : Option ClosureId} {caller : Option EnvId} {handlers : List ExitAction}
      {body : Run Value} {id : Nat} {s t : Store}
      (hpush : Machine.pushFrame ctx call env function caller handlers s = .ok id t) :
      Wraps (.body m ctx env id) (m.inFrame ctx call env function caller handlers body) s body t
  | ending {m : Machine} {ctx : EvaluatorId} {call : Expr} {env : EnvId}
      {function : Option ClosureId} {caller : Option EnvId} {handlers : List ExitAction}
      {body : Run Value} {id : Nat} {outcome : Except Signal Value} {s t t' : Store}
      (hpush : Machine.pushFrame ctx call env function caller handlers s = .ok id t)
      (hbody : Run.attempt body t = .ok outcome t') :
      Wraps (.ending env) (m.inFrame ctx call env function caller handlers body) s
        (m.leave ctx env id outcome) t'
  | exit {m : Machine} {ctx : EvaluatorId} {id : Nat} {pending : Bool} {action : ExitAction}
      {done rest : List ExitAction} {first : Option Signal} {s t t' : Store}
      (htake : Machine.takeExits ctx id s = .ok (done ++ action :: rest) t)
      (hdone : m.runExits ctx pending done none t = .ok first t') :
      Wraps (.exit m ctx id pending first rest) (m.unwind ctx id pending) s
        (m.runExit ctx action) t'
  | scope {ctx : EvaluatorId} {env : EnvId} {body : Run Value} {s : Store} :
      Wraps (.scope ctx env) (Machine.inTarget ctx env body) s body (Flow.targeted s ctx env)
  | request {α : Type} {ctx : EvaluatorId} {a : Run α} {s : Store} :
      Wraps (.request ctx (s.evaluator ctx)) (Machine.request ctx a) s a s
  | promise {a : Run Value} {p : PromiseId} {s : Store} :
      Wraps (.promise p) (do
        let outcome ← Run.attempt a
        Machine.conclude p outcome
        Run.resume outcome) s a s
  | followed {α : Type} {a : Run α} {last : Run Unit} {s : Store} :
      Wraps (.followed last) (Run.andFinally a last) s a s

variable {α β : Type} {b : Run β} {u : Store} {a : Run α} {s : Store}

/-- A part of a run within the run that a layer belongs to, and that within another run. -/
structure Between (b : Run β) (u : Store) (a : Run α) (s : Store) (inner : List Layer)
    (layer : Layer) (outer : List Layer) {γ δ : Type} (c : Run γ) (t : Store) (d : Run δ)
    (t' : Store) : Prop where
  outside : Inside c t a s outer
  wraps : layer.Wraps c t d t'
  inside : Inside b u d t' inner

/-- Of two ways to split layers, one has the outermost layer in the middle or in the back. -/
theorem concat_split {layers inner outer : List Layer} {added layer : Layer}
    (h : layers ++ [added] = inner ++ layer :: outer) :
    (layers = inner ∧ added = layer ∧ outer = []) ∨
      ∃ outer', layers = inner ++ layer :: outer' ∧ outer = outer' ++ [added] := by
  rcases List.eq_nil_or_concat outer with rfl | ⟨outer', last, rfl⟩
  · obtain ⟨hlayers, hadded⟩ := List.append_inj' h rfl
    cases hadded
    exact .inl ⟨hlayers, rfl, rfl⟩
  · rw [List.concat_eq_append, ← List.cons_append, ← List.append_assoc] at h
    obtain ⟨hlayers, hadded⟩ := List.append_inj' h rfl
    cases hadded
    exact .inr ⟨outer', hlayers, by rw [List.concat_eq_append]⟩

/-- One more layer on the outside is the one to split at, or stays outside. -/
theorem split_concat {α' : Type} {a' : Run α'} {s' : Store} {layers inner outer : List Layer}
    {added layer : Layer} (h : Inside b u a s layers) (hwraps : added.Wraps a' s' a s)
    (houtside : ∀ {γ : Type} {c : Run γ} {t : Store} {outer : List Layer},
      Inside c t a s outer → Inside c t a' s' (outer ++ [added]))
    (ih : ∀ outer, layers = inner ++ layer :: outer → ∃ (γ δ : Type) (c : Run γ) (t : Store)
      (d : Run δ) (t' : Store), Between b u a s inner layer outer c t d t')
    (hsplit : layers ++ [added] = inner ++ layer :: outer) :
    ∃ (γ δ : Type) (c : Run γ) (t : Store) (d : Run δ) (t' : Store),
      Between b u a' s' inner layer outer c t d t' := by
  rcases concat_split hsplit with ⟨rfl, rfl, rfl⟩ | ⟨outer', hlayers, rfl⟩
  · exact ⟨_, _, a', s', a, s, .here, hwraps, h⟩
  · obtain ⟨γ, δ, c, t, d, t', hbetween⟩ := ih outer' hlayers
    exact ⟨γ, δ, c, t, d, t', { hbetween with outside := houtside hbetween.outside }⟩

theorem Inside.split {layers inner outer : List Layer} {layer : Layer}
    (h : Inside b u a s layers) (hsplit : layers = inner ++ layer :: outer) :
    ∃ (γ δ : Type) (c : Run γ) (t : Store) (d : Run δ) (t' : Store),
      Between b u a s inner layer outer c t d t' := by
  induction h generalizing outer with
  | here => simp at hsplit
  | first h ih =>
      obtain ⟨γ, δ, c, t, d, t', hbetween⟩ := ih hsplit
      exact ⟨γ, δ, c, t, d, t', { hbetween with outside := hbetween.outside.first }⟩
  | rest ha h ih =>
      obtain ⟨γ, δ, c, t, d, t', hbetween⟩ := ih hsplit
      exact ⟨γ, δ, c, t, d, t', { hbetween with outside := hbetween.outside.rest ha }⟩
  | guarded h ih =>
      obtain ⟨γ, δ, c, t, d, t', hbetween⟩ := ih hsplit
      exact ⟨γ, δ, c, t, d, t', { hbetween with outside := hbetween.outside.guarded }⟩
  | followed h ih => exact split_concat h .followed .followed (fun _ => ih) hsplit
  | promise h ih => exact split_concat h .promise .promise (fun _ => ih) hsplit
  | body hpush h ih => exact split_concat h (.body hpush) (.body hpush) (fun _ => ih) hsplit
  | ending hpush hbody h ih =>
      exact split_concat h (.ending hpush hbody) (.ending hpush hbody) (fun _ => ih) hsplit
  | exit htake hdone h ih =>
      exact split_concat h (.exit htake hdone) (.exit htake hdone) (fun _ => ih) hsplit
  | scope h ih => exact split_concat h .scope .scope (fun _ => ih) hsplit
  | request h ih => exact split_concat h .request .request (fun _ => ih) hsplit

end Quasi
