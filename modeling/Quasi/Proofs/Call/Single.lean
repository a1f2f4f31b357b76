import Quasi.Proofs.Call.Binding

/-!
# Calls of closures with one formal

The environment of such a call binds the formal and nothing else. All other names stand there for
what they stand for where the closure was made.
-/

namespace Quasi

open Run (bind_of_ok)

/-- One formal takes the only argument of a call, if there is one. -/
theorem matchArguments_single {α : Type} {x : String} (hx : x ≠ dotsName) (describe : α → String)
    (partialNames : Bool) (v : Option α) :
    matchArguments [x] describe partialNames (v.toList.map Tagged.bare) =
      .ok ⟨v.toList.map (x, ·), []⟩ := by
  have hformals : Matching.beforeDots [x] = [x] :=
    List.takeWhile_cons_of_pos (decide_eq_true hx)
  cases v with
  | none => cases partialNames <;> rfl
  | some v =>
      have hexact : Matching.exactRound [x] [] (Matching.number [Tagged.bare v]) =
        .ok ⟨[], [⟨1, .bare v⟩]⟩ := rfl
      have hopen : ((Matching.beforeDots [x]).filter fun formal =>
          !Bindings.contains ([] : Bindings α) formal) = [x] := by
        rw [hformals]
        rfl
      change (Matching.exactRound [x] [] (Matching.number [Tagged.bare v]) >>= _) = _
      rw [hexact]
      change Matching.finish [x] describe partialNames ⟨[], [⟨1, .bare v⟩]⟩ = _
      unfold Matching.finish
      cases partialNames <;>
      · change Matching.positionRound describe _ [] ((Matching.beforeDots [x]).filter _) _ = _
        rw [hopen]
        rfl

namespace Machine

variable {ctx : EvaluatorId} {s t t' u : Store} {calls : List Activation}

/-- What has changed when calls are under way: the store has grown and their frames were pushed. -/
structure Passed (ctx : EvaluatorId) (calls : List Activation) (s t : Store) : Prop where
  grows : s.Grows t
  clear : Clear ctx calls (s.evaluator ctx).frames t
  depth : (t.evaluator ctx).depth = (s.evaluator ctx).depth + calls.length
  maxDepth : (t.evaluator ctx).maxDepth = (s.evaluator ctx).maxDepth

namespace Passed

theorem refl (ctx : EvaluatorId) (s : Store) : Passed ctx [] s s := ⟨.refl s, .nil, by simp, rfl⟩

theorem trans {inner outer : List Activation} (h : Passed ctx outer s t)
    (h' : Passed ctx inner t t') : Passed ctx (inner ++ outer) s t' where
  grows := h.grows.trans h'.grows
  clear := h'.clear.append h.clear
  depth := by
    rw [h'.depth, h.depth, List.length_append]
    omega
  maxDepth := h'.maxDepth.trans h.maxDepth

/-- What was done before without any evaluator does not matter. -/
theorem of_evaluators (h : Passed ctx calls t t') (hgrows : s.Grows t)
    (hst : t.evaluators = s.evaluators) : Passed ctx calls s t' := by
  have heq : t.evaluator ctx = s.evaluator ctx := by simp only [Store.evaluator, hst]
  exact ⟨hgrows.trans h.grows, heq ▸ h.clear, heq ▸ h.depth, heq ▸ h.maxDepth⟩

end Passed

/-- A formal without a default is bound to the only argument of a call, or to nothing. -/
theorem bindClosure_single {pm : Bool} (hpm : t.settings.partialMatching = .ok pm) {g : ClosureId}
    {x : String} (hx : x ≠ dotsName) (hformals : (t.closure g).formals = [(x, .missing)])
    (ctx : EvaluatorId) (v : Option Value) (call : Expr) :
    bindClosure ctx g (v.toList.map Tagged.bare) call t =
      .ok ((t.closure g).body, .scope t.scopes.size)
        ((opened t g).setVars (.scope t.scopes.size) fun vars =>
          vars.set x (v.getD (.code .missing))) := by
  have hbound : boundTo? ⟨v.toList.map (x, ·), []⟩ x .missing = some (v.getD (.code .missing)) := by
    unfold boundTo?
    rw [if_neg hx]
    cases v with
    | none => rfl
    | some v =>
        have hget : Bindings.get? [(x, v)] x = some v := if_pos rfl
        simp only [Option.toList_some, List.map_cons, List.map_nil, hget]
        cases v with
        | code e => cases e <;> rfl
        | _ => rfl
  rw [bindClosure_eq hpm, hformals]
  have hmatch := matchArguments_single hx (describe (opened t g)) pm v
  rw [List.map_singleton, hmatch]
  dsimp only
  rw [bind_of_ok (bindFormals_single hbound _)]
  rfl

/-- If the flag that matching reads is none, the call fails. -/
theorem bindClosure_unreadable {fault : SettingFault}
    (hflag : t.settings.partialMatching = .error fault) {g : ClosureId} {x : String}
    (hformals : (t.closure g).formals = [(x, .missing)]) (ctx : EvaluatorId) (v : Option Value)
    (call : Expr) :
    ∃ r u, bindClosure ctx g (v.toList.map Tagged.bare) call t =
      .error (.failure ⟨r, .host (.value fault.message)⟩) u := by
  have hopened : (opened t g).settings.partialMatching = .error fault := hflag
  have hexact : Matching.exactRound [x] [] (Matching.number (v.toList.map Tagged.bare)) =
      .ok ⟨[], Matching.number (v.toList.map Tagged.bare)⟩ := by
    cases v <;> rfl
  obtain ⟨r, u, hmatch⟩ : ∃ r u, matchFormals [x] (describe (opened t g))
      (v.toList.map Tagged.bare) (some call) (opened t g) =
        .error (.failure ⟨r, .host (.value fault.message)⟩) u := by
    unfold matchFormals
    rw [hexact]
    simp only [pure_bind, Run.get_bind, hopened]
    exact ⟨_, _, rfl⟩
  refine ⟨r, u, ?_⟩
  rw [bindClosure_opened, hformals]
  exact Run.bind_of_error hmatch

/-- A call whose only formal is bound to a value evaluates its body in an environment that binds
this formal alone. -/
theorem applyClosure_single {g : ClosureId} {supplied : List (Tagged Value)} {call : Expr}
    {x : String} {b : Value}
    (hbind : bindClosure ctx g supplied call t = .ok ((t.closure g).body, .scope t.scopes.size)
      ((opened t g).setVars (.scope t.scopes.size) fun vars => vars.set x b))
    (henv : t.known (t.closure g).env = (t.closure g).env)
    (hroom : (t.evaluator ctx).depth < (t.evaluator ctx).maxDepth) (m : Machine)
    (caller : EnvId) :
    ∃ activation t', m.applyClosure ctx g supplied call caller t =
        within ctx [activation] (m.eval ctx (t.closure g).body (.scope t.scopes.size)) t' ∧
      Passed ctx [activation] t t' ∧ t'.promises = t.promises ∧
      t.scopes.size < t'.scopes.size ∧
      t'.scope t.scopes.size = ⟨[(x, b)], (t.closure g).env, none⟩ := by
  obtain ⟨id, t', heq, hentered⟩ := applyClosure_entered hbind hroom m caller
  have hmade : t.scopes.size < (opened t g).scopes.size := by
    rw [size_scopes_opened]
    exact Nat.lt_succ_self _
  refine ⟨⟨m, .scope t.scopes.size, id⟩, t', heq, ?_, hentered.promises, ?_, ?_⟩
  · exact {
      grows := ((opened_grows t g).setVars (Nat.le_refl _) _).trans hentered.grows
      clear := hentered.clear _ _
      depth := hentered.depth
      maxDepth := hentered.maxDepth }
  · rw [hentered.scopes]
    exact Nat.lt_of_lt_of_eq hmade Array.size_modify.symm
  · simp only [Store.scope, hentered.scopes]
    refine (scope_setVars hmade _).trans ?_
    rw [scope_opened, henv]
    rfl

section Names

variable {i : Nat} {x : String} {b : Value} {env : EnvId}

theorem slot?_single (h : t.scope i = ⟨[(x, b)], env, none⟩) (name : String) :
    t.slot? (.scope i) name = if x = name then some b else none :=
  congrArg (fun scope => scope.vars.get? name) h

/-- Names other than the formal stand for the same function as where the closure was made. -/
theorem calls_single {name : String} {fn : Value} (hs : s.Whole) (hst : s.Grows t)
    (henv : s.known env = env) (h : s.Calls env name fn) (hi : s.scopes.size ≤ i ∧ i < t.scopes.size)
    (hscope : t.scope i = ⟨[(x, b)], env, none⟩)
    (hother : x ≠ name ∨ t.ready? b = some b ∧ b.isInvocable = false) :
    t.Calls (.scope i) name fn := by
  refine h.below hs hst henv hi (congrArg Scope.parent hscope) fun v hv => ?_
  rw [slot?_single hscope] at hv
  obtain ⟨hx, heq⟩ := Option.ite_none_right_eq_some.mp hv
  cases heq
  exact ⟨_, hother.resolve_left (not_not_intro hx)⟩

end Names

end Machine

end Quasi
