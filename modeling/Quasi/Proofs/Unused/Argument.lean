import Quasi.Proofs.Unused.Leaving

/-!
# Unused arguments

An argument for a formal that neither the body of a closure nor a default names is never evaluated.
Whatever expression it is, the call ends in the same way, and what it leaves in the store differs in
nothing but that expression, where it is kept or shown.
-/

namespace Quasi

open Run (bind_of_ok bind_of_error)

/-- A promise of an argument waits to be forced, as nothing has happened to it since. -/
structure Store.Waits (s t : Store) (p : PromiseId) (e : Expr) (env : EnvId) (ctx : EvaluatorId) :
    Prop where
  promise : t.promise p = ⟨e, some env, some ctx, false, .unforced⟩
  events : t.eventsOf p = s.eventsOf p

theorem leads_known {s : Store} {e f : EnvId} (hs : s.Whole) (he : s.known e = e)
    (h : s.Leads e f) : s.known f = f := by
  induction h with
  | refl => exact he
  | step hp _ ih => exact ih (hs.known_parent hp)

namespace Around

variable (call : Around) (head e : Expr)

/-- The expression of a call with an argument. -/
def expr : Expr := .call head (call.slots e)

/-- What the call of a closure with an argument comes to. -/
def result (s : Store) (ctx : EvaluatorId) (c : ClosureId) (caller : EnvId) (m : Machine) :
    EStateM.Result Interrupt Store (Except Signal Value) :=
  Run.attempt (m.apply ctx (.closure c) (call.expr head e) (call.slots e) caller) s

end Around

namespace Unused

variable {s t t' : Store} {ctx : EvaluatorId} {c : ClosureId} {caller : EnvId} {call : Around}
  {x : String} {e e' : Expr}

/-- Once the arguments are bound, the environments of the call are what they were, but for the one
that was made. -/
theorem places (h : Unused s c caller call x)
    (hbound : (spare s ctx c caller call x e').Bound e t t') :
    (spare s ctx c caller call x e').Places t' := by
  let sp := spare s ctx c caller call x e'
  cases hbound with
  | intro hgrows hscope hparent hbinds hkeeps hevaluators hlog =>
    have hold {env : EnvId} (henv : sp.Old env) : s.known env = env := by
      rcases henv with henv | henv
      · exact leads_known h.whole h.known_caller henv
      · exact leads_known h.whole h.known_home henv
    have hparents {env p : EnvId} (henv : sp.Old env) (hp : s.parent? env = some p) : sp.Old p :=
      henv.imp (·.trans (.of_parent hp)) (·.trans (.of_parent hp))
    constructor
    case known =>
      intro env henv
      rcases henv with henv | rfl
      · exact hgrows.known (hold henv)
      · exact Store.known_eq_scope.mpr hscope.2
    case parent =>
      intro env p henv hp
      rcases henv with henv | rfl
      · rw [hgrows.parent? (hold henv)] at hp
        exact hparents henv hp
      · cases hp
        exact .inr (hparent ▸ .refl _)
    case binds =>
      intro env name p henv hv
      rcases henv with henv | ⟨rfl, hname⟩
      · rw [hgrows.slot? h.whole (hold henv)] at hv
        obtain ⟨hp, hidle⟩ := h.settled henv hv
        have hne : p ≠ sp.promise := fun hsame => by
          have hindex : p.index = s.promises.size + call.before.length :=
            congrArg PromiseId.index hsame
          omega
        exact ⟨hne, fun _ => hidle⟩
      · exact hbinds name p hname hv

/-- The arguments of the call are promised before they are bound. -/
theorem apply_closure (h : Unused s c caller call x) (he : e.isPromised = true) (m : Machine)
    (ctx : EvaluatorId) (head : Expr) :
    m.apply ctx (.closure c) (call.expr head e) (call.slots e) caller s = (do
      let (body, env) ← Machine.bindClosure ctx c
        (Reading.awaited s.promises.size (call.slots e)) (call.expr head e)
      let id ← Machine.pushFrame ctx (call.expr head e) env (some c) (some caller) []
      m.leave ctx env id (← Run.attempt (m.eval ctx body env))) (promised s ctx caller call e) := by
  have hpromised := Machine.promiseArgs_apply ctx caller (h.isPromised_slots he) s
  rw [← Machine.applyClosure_eq]
  exact bind_of_ok hpromised

/-! ## Both calls -/

section Ends

variable {n : Nat} {head : Expr} {outcome : Except Signal Value} {u u' : Store}
  {ev : Array Evaluator}
  (hrun : call.result head e' s ctx c caller (Regular.machine n) = .ok outcome t')

/-- The calls end in the same way, in stores that differ in what is kept or shown of the
argument. -/
def EndAlike (s : Store) (ctx : EvaluatorId) (c : ClosureId) (caller : EnvId) (call : Around)
    (x : String) (n : Nat) (head e e' : Expr) (outcome : Except Signal Value) (t' : Store) : Prop :=
  call.result head e' s ctx c caller (.ofLevel n) = .ok outcome t' ∧
    ∃ t ev, call.result head e s ctx c caller (.ofLevel n) = .ok outcome t ∧
      (spare s ctx c caller call x e').Ending e ((s.evaluator ctx).calls.map Expr.deparse)
        (call.expr head e) (call.expr head e') ev ev t t'

include hrun

/-- A call that fails before its body is evaluated. -/
theorem endAlike_of_failure {f : FailureRef}
    (hfails : ∀ m : Machine, m.apply ctx (.closure c) (call.expr head e) (call.slots e) caller s =
      .error (.failure f) u)
    (hfails' : ∀ m : Machine,
      m.apply ctx (.closure c) (call.expr head e') (call.slots e') caller s =
        .error (.failure f) u')
    (hending : (spare s ctx c caller call x e').Ending e
      ((s.evaluator ctx).calls.map Expr.deparse) (call.expr head e) (call.expr head e') ev ev u u') :
    EndAlike s ctx c caller call x n head e e' outcome t' := by
  have hresult' (m : Machine) :
      call.result head e' s ctx c caller m = .ok (.error (.failure f)) u' :=
    Run.attempt_of_signal (x := .failure f) (hfails' m)
  cases (hresult' _).symm.trans hrun
  exact ⟨hresult' _, u, ev, Run.attempt_of_signal (x := .failure f) (hfails _), hending⟩

/-- A call whose body is evaluated in a frame of its own. -/
theorem endAlike_of_pushed (h : Unused s c caller call x) {id : Nat}
    (hctx : ctx.index < s.evaluators.size)
    (hpushed : ∀ m : Machine, m.apply ctx (.closure c) (call.expr head e) (call.slots e) caller s =
      Machine.within ctx [⟨m, .scope s.scopes.size, id⟩]
        (m.eval ctx (s.closure c).body (.scope s.scopes.size)) u)
    (hpushed' : ∀ m : Machine,
      m.apply ctx (.closure c) (call.expr head e') (call.slots e') caller s =
        Machine.within ctx [⟨m, .scope s.scopes.size, id⟩]
          (m.eval ctx (s.closure c).body (.scope s.scopes.size)) u')
    (hrelated : (spare s ctx c caller call x e').Related e
      (Spare.pushed s.evaluators ctx
        ⟨id, call.expr head e, .scope s.scopes.size, some c, some caller, []⟩)
      (Spare.pushed s.evaluators ctx
        ⟨id, call.expr head e', .scope s.scopes.size, some c, some caller, []⟩) u u') :
    EndAlike s ctx c caller call x n head e e' outcome t' := by
  let env : EnvId := .scope s.scopes.size
  let body := (s.closure c).body
  have hresult (m : Machine) : call.result head e s ctx c caller m =
      Run.attempt (Machine.within ctx [⟨m, env, id⟩] (m.eval ctx body env)) u :=
    Run.attempt_congr (hpushed m)
  have hresult' (m : Machine) : call.result head e' s ctx c caller m =
      Run.attempt (Machine.within ctx [⟨m, env, id⟩] (m.eval ctx body env)) u' :=
    Run.attempt_congr (hpushed' m)
  rw [hresult'] at hrun
  cases hbody : Run.attempt ((Regular.machine n).eval ctx body env) u' with
  | error i v' =>
      obtain ⟨rfl, -⟩ := Run.attempt_eq_error hbody
      -- A body that is not regular is lost, and so is the call.
      have hlost : Machine.within ctx [⟨Regular.machine n, env, id⟩]
          ((Regular.machine n).eval ctx body env) u' = (throw .endless : Run Value) v' :=
        bind_of_error hbody
      rw [Run.attempt_congr hlost] at hrun
      cases hrun
  | ok ended v' =>
      let sp := spare s ctx c caller call x e'
      let pushed (e : Expr) := Spare.pushed s.evaluators ctx
        ⟨id, call.expr head e, env, some c, some caller, []⟩
      have hencloses : Encloses sp.Reads sp.Open (sp.Related e (pushed e) (pushed e')) :=
        Spare.encloses_related (Spare.sameGlobals_pushed s.evaluators ctx _ _)
      have hreads : sp.Reads body env := .inr ⟨rfl, h.body⟩
      have hmatch := (hencloses.agrees_eval n ctx hreads u u' hrelated).attempt
      rw [hbody] at hmatch
      obtain ⟨v, hv, hafter⟩ := hmatch.of_value
      -- From the store of the other call, evaluation comes to what regular evaluation comes to.
      have hmatch' : Run.Matches Eq (Run.attempt ((Machine.ofLevel n).eval ctx body env) u')
          (Run.attempt ((Regular.machine n).eval ctx body env) u') :=
        (encloses_eq.agrees_eval n ctx trivial u' u' rfl).attempt
      rw [hbody] at hmatch'
      obtain ⟨w, hw, rfl⟩ := hmatch'.of_value
      obtain ⟨t, t₁, popped, hleave, hleave', hending⟩ := hafter.leave hctx rfl rfl rfl rfl ended env
      cases (Machine.attempt_leave ⟨_, env, id⟩ hbody (hleave' _)).symm.trans hrun
      exact ⟨(hresult' _).trans (Machine.attempt_leave ⟨_, env, id⟩ hw (hleave' _)), t, popped,
        (hresult _).trans (Machine.attempt_leave ⟨_, env, id⟩ hv (hleave _)), hending⟩

theorem endAlike (h : Unused s c caller call x) (he : e.isPromised = true)
    (he' : e'.isPromised = true) : EndAlike s ctx c caller call x n head e e' outcome t' := by
  let outer := (s.evaluator ctx).calls.map Expr.deparse
  have happly (m : Machine) := h.apply_closure he m ctx head
  have happly' (m : Machine) := h.apply_closure he' m ctx head
  rcases h.binding_cases ctx e' with ⟨u', hbinding', hbinding⟩ | ⟨cause, own, hfailed⟩
  · have hbound' := hbinding' (call.expr head e')
    obtain ⟨u, hbound, hspare⟩ := hbinding (call.expr head e) e
    have hcalled (m : Machine) := (happly m).trans (bind_of_ok hbound)
    have hcalled' (m : Machine) := (happly' m).trans (bind_of_ok hbound')
    have hending := hspare.ending outer (call.expr head e) (call.expr head e')
    obtain ⟨hu, hu'⟩ := hending.evaluators
    by_cases hfull : (s.evaluator ctx).maxDepth ≤ (s.evaluator ctx).depth
    · obtain ⟨f, w, w', hw, hw', hfailed⟩ := hending.failWith .recursion true
      refine endAlike_of_failure hrun (f := f) (fun m => (hcalled m).trans (bind_of_error ?_))
        (fun m => (hcalled' m).trans (bind_of_error ?_)) hfailed
      · exact (pushFrame_of_full (by rwa [Store.evaluator, hu]) ..).trans (hw _)
      · exact (pushFrame_of_full (by rwa [Store.evaluator, hu']) ..).trans (hw' _)
    · obtain ⟨id, w, w', hw, hw', hrelated⟩ := hspare.push (h.places hspare) hfull
        (call.expr head e) (call.expr head e') (.scope s.scopes.size) (some c) (some caller)
      exact endAlike_of_pushed hrun h (Pushed.index_lt_of_depth_lt hfull)
        (fun m => (hcalled m).trans (bind_of_ok hw)) (fun m => (hcalled' m).trans (bind_of_ok hw'))
        hrelated
  · have hopening := (h.bound_opening ctx e e').ending outer (call.expr head e) (call.expr head e')
    obtain ⟨f, w, w', hw, hw', hending⟩ := hopening.failWith cause own
    exact endAlike_of_failure hrun
      (fun m => (happly m).trans (bind_of_error ((hfailed (call.expr head e) e).trans (hw _))))
      (fun m => (happly' m).trans (bind_of_error ((hfailed (call.expr head e') e').trans (hw' _))))
      hending

end Ends

/-- The promise of the argument waits where the one call ended and where the other did. -/
theorem waits_of_ending {outer : List String} {note note' : Expr} {ev ev' : Array Evaluator}
    (h : (spare s ctx c caller call x e').Ending e outer note note' ev ev' t t') :
    s.Waits t ⟨s.promises.size + call.before.length⟩ e caller ctx ∧
      s.Waits t' ⟨s.promises.size + call.before.length⟩ e' caller ctx := by
  cases h with
  | @intro t' log failures hkeeps =>
    refine ⟨⟨?_, hkeeps.events⟩, hkeeps.argument, hkeeps.events⟩
    have hargument : t'.promise ⟨s.promises.size + call.before.length⟩ =
        ⟨e', some caller, some ctx, false, .unforced⟩ := hkeeps.argument
    refine (getD_modify ..).trans ((if_pos ⟨rfl, hkeeps.index_lt⟩).trans ?_)
    exact congrArg (fun promise : Promise => { promise with code := e }) hargument

/-- An argument that is not used is not evaluated and does not matter. Calls of a closure that
differ in it alone have the same value, or fail with the same cause, and change the store in the
same way. In both stores the promise of the argument still waits. This is so of all regular code:
regular evaluation of the body, which evaluates the defaults and the other arguments that it comes
by, has an outcome. -/
theorem argument_does_not_matter (h : Unused s c caller call x) (he : e.isPromised = true)
    (he' : e'.isPromised = true) (head : Expr) (n : Nat) {outcome : Except Signal Value}
    (hrun : call.result head e' s ctx c caller (Regular.machine n) = .ok outcome t') :
    let p : PromiseId := ⟨s.promises.size + call.before.length⟩
    (call.result head e' s ctx c caller (.ofLevel n) = .ok outcome t' ∧
      s.Waits t' p e' caller ctx) ∧
    ∃ t, call.result head e s ctx c caller (.ofLevel n) = .ok outcome t ∧
      s.Waits t p e caller ctx ∧
      t.SameBut p e ((s.evaluator ctx).calls.map Expr.deparse) (call.expr head e)
        (call.expr head e') t' := by
  obtain ⟨hresult', t, ev, hresult, hending⟩ := endAlike hrun h he he'
  obtain ⟨hwaits, hwaits'⟩ := waits_of_ending hending
  exact ⟨⟨hresult', hwaits'⟩, t, hresult, hwaits, hending.sameBut⟩

/-- A closure that names only its second formal, which defaults to a number. -/
def sparing : Store where
  scopes := #[⟨[("list", .builtin (.primitive .list) .empty), ("z", .int 7)], .empty, none⟩]
  closures := #[⟨[("x", .missing), ("y", .symbol "z")],
    .apply "list" [.symbol "y", .symbol "y"], .scope 0, none⟩]
  evaluators := #[⟨some (.scope 0), 10, [], 0, []⟩]

/-- A call of the closure with an argument for the first formal alone. -/
def sparingCall : Around := ⟨[], none, []⟩

theorem unused_sparing : Unused sparing ⟨0⟩ (.scope 0) sparingCall "x" where
  whole := Store.whole_of_single rfl rfl rfl rfl
  known_caller := rfl
  known_home := rfl
  settled {env name p} henv hv := by
    have hchain : sparing.Leads (.scope 0) env := henv.elim id id
    cases hchain with
    | refl =>
      change Bindings.get? [("list", Value.builtin (.primitive .list) .empty), ("z", .int 7)] name =
        some (.promise p) at hv
      simp only [Bindings.get?] at hv
      split at hv
      · cases hv
      · split at hv <;> cases hv
    | step hp rest =>
      cases hp
      cases rest with
      | refl => cases hv
      | step hp => cases hp
  formals := by decide
  body := by decide
  defaults := by decide
  others := by decide
  isFor {partialNames} _ := by
    have hmatch : matchArguments ["x", "y"] (fun _ => "") partialNames (positionsOf [none]) =
        .ok ⟨[("x", 0)], []⟩ := by
      cases partialNames <;> rfl
    exact isFor_of_ok _ hmatch rfl

/-- A call of a function that does not exist is as good an argument as a constant. -/
theorem failing_argument_does_not_matter : ∃ t t',
    sparingCall.result (.symbol "f") (.apply "boom" []) sparing ⟨0⟩ ⟨0⟩ (.scope 0) (.ofLevel 5) =
      .ok (.ok (.list [.bare (.int 7), .bare (.int 7)])) t ∧
    sparing.Waits t ⟨0⟩ (.apply "boom" []) (.scope 0) ⟨0⟩ ∧
    t.SameBut ⟨0⟩ (.apply "boom" []) [] (.apply "f" [.apply "boom" []]) (.apply "f" [.const .null])
      t' := by
  have hrun : ∃ t', sparingCall.result (.symbol "f") (.const .null) sparing ⟨0⟩ ⟨0⟩ (.scope 0)
    (Regular.machine 5) = .ok (.ok (.list [.bare (.int 7), .bare (.int 7)])) t' := ⟨_, rfl⟩
  obtain ⟨t', ht'⟩ := hrun
  obtain ⟨-, t, ht, hwaits, hsame⟩ := argument_does_not_matter unused_sparing
    (e := .apply "boom" []) rfl rfl (.symbol "f") 5 ht'
  exact ⟨t, t', ht, hwaits, hsame⟩

end Unused

end Quasi
