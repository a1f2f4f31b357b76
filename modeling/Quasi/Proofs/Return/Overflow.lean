import Quasi.Proofs.Exit.Call
import Quasi.Proofs.Promise.Flow
import Quasi.Proofs.Return.Parts
import Quasi.Proofs.Return.Session
import Quasi.Proofs.Return.Split

/-!
# Overflows

An evaluation that nests too deeply for the host ends by a signal that is no outcome of evaluated
code. It goes through promises, which can be forced again, through guarded expressions, whose
handlers are not asked, and through calls and scopes, up to the nearest request. There it becomes an
ordinary failure. That is the end of it only if the request lies within no other one.
-/

namespace Quasi

open Run (bind_of_ok attempt_of_signal)

variable {α β : Type} {b : Run β} {u w : Store} {a : Run α} {s : Store} {layers : List Layer}

/-- The overflow of a part of a run gets through all layers up to the end of a run around it. -/
def OverflowEnds (b : Run β) (u w : Store) {γ : Type} (c : Run γ) (t w' : Store) : Prop :=
  ∃ layers, Inside b u c t layers ∧ (∀ k ∈ layers, k.Lets .overflow) ∧
    Layer.passOut .overflow layers w = .ok () w'

theorem OverflowEnds.eq {γ : Type} {c : Run γ} {t w' : Store} (h : OverflowEnds b u w c t w')
    (hb : b u = .error .overflow w) : c t = .error .overflow w' := by
  obtain ⟨layers, hinside, hlets, hout⟩ := h
  exact hinside.passed (x := .overflow) nofun hb hlets hout

/-! ## Promises -/

/-- A promise whose evaluation was left by an overflow is as it was, and forcing it again evaluates
its code again. -/
structure Restarts (s t : Store) (p : PromiseId) : Prop where
  promise : t.promise p = { s.promise p with progress := .interrupted }
  again : ∀ (m : Machine) (given : Option EvaluatorId) (ctx : EvaluatorId),
    (given <|> (s.promise p).evaluator) = some ctx → ∃ u,
    Inside (m.evalPromise ctx (s.promise p)) u (m.force given p) t [.promise p]

theorem inside_force_again {m : Machine} {given : Option EvaluatorId} {ctx : EvaluatorId}
    {p : PromiseId} (hctx : (given <|> (s.promise p).evaluator) = some ctx)
    (h : (s.promise p).progress = .interrupted) :
    ∃ t, Inside (m.evalPromise ctx (s.promise p)) t (m.force given p) s [.promise p] := by
  let warned : Store :=
    { s with log := s.log.push ⟨.warning, "restarting interrupted promise evaluation"⟩ }
  obtain ⟨t, ht, -⟩ := Flow.trace_eq_ok
    (fun _ => "forcing promise " ++ (s.promise p).code.plain) (warned.begin p)
  refine ⟨t, ?_⟩
  apply Inside.rest (a := (get : Run Store)) rfl
  dsimp only
  rw [h, hctx]
  apply Inside.rest (a := Run.warn _) (t := warned) rfl
  apply Inside.rest (a := (get : Run Store)) rfl
  apply Inside.rest (a := Machine.begin p) rfl
  apply Inside.rest (a := Run.trace _) ht
  exact .promise .here

theorem promise_begin {p : PromiseId} (hp : p.index < s.promises.size) :
    (s.begin p).promise p = { s.promise p with progress := .forcing } := by
  have hset := s.promise_setPromise p (fun promise => { promise with progress := .forcing }) p
  rw [if_pos ⟨rfl, hp⟩] at hset
  rw [← hset, Store.begin]
  cases (s.promise p).env <;> rfl

theorem promise_abandon {p : PromiseId} (hp : p.index < s.promises.size) (x : Signal) :
    (s.abandon p x).promise p = { s.promise p with progress := .interrupted } := by
  have hset := s.promise_setPromise p (fun promise => { promise with progress := .interrupted }) p
  rw [if_pos ⟨rfl, hp⟩] at hset
  exact hset

/-- How the evaluation of a promise begins. -/
def Machine.startPromise (p : PromiseId) : Run Unit := do
  let promise := (← get).promise p
  begin p
  Run.trace fun _ => "forcing promise " ++ promise.code.plain

/-- An overflow of the code of a promise leaves the promise to be forced again. -/
theorem runPromise_overflow {n : Nat} {ctx : EvaluatorId} {p : PromiseId} {t t' w' : Store}
    (hidle : (t.promise p).progress.isIdle = true) (hstart : Machine.startPromise p t = .ok () t')
    (heval : (Machine.ofLevel n).evalPromise ctx (t.promise p) t' = .error .overflow w') :
    (Machine.ofLevel n).runPromise ctx p t = .error .overflow (w'.abandon p .overflow) ∧
      Restarts t (w'.abandon p .overflow) p := by
  have hindex := Store.index_lt_of_idle hidle
  have hforcing := promise_begin hindex
  obtain ⟨t'', htrace, haside⟩ := Flow.trace_eq_ok
    (fun _ => "forcing promise " ++ (t.promise p).code.plain) (t.begin p)
  have hends : Machine.startPromise p t = .ok () t'' := htrace
  cases hstart.symm.trans hends
  have hrun : (Machine.ofLevel n).runPromise ctx p t =
      .error .overflow (w'.abandon p .overflow) := by
    have hsplit : (Machine.ofLevel n).runPromise ctx p t = (do
        let outcome ← Run.attempt ((Machine.ofLevel n).evalPromise ctx (t.promise p))
        Machine.conclude p outcome
        Run.resume outcome) t' := bind_of_ok htrace
    rw [hsplit, bind_of_ok (attempt_of_signal (x := .overflow) heval)]
    rfl
  have hkept : w'.promise p = (t.begin p).promise p := by
    have hholds : Flow.promises.Holds ((Machine.ofLevel n).evalPromise ctx (t.promise p)) :=
      Flow.holds_evalPromise ctx _ inferInstance
    have hstep : PromiseStep (t.begin p) w' :=
      (Flow.promises.aside haside).trans (hholds.ends (.signal .overflow heval))
    exact (hstep.forcing_kept (by rw [hforcing])).promise
  have hpromise : (w'.abandon p .overflow).promise p =
      { t.promise p with progress := .interrupted } := by
    have hexists : p.index < w'.promises.size := by
      refine PromiseStep.index_lt_of_forcing ?_
      rw [hkept, hforcing]
    rw [promise_abandon hexists, hkept, hforcing]
  refine ⟨hrun, hpromise, fun m given ev hev => ?_⟩
  have hinterrupted : ((w'.abandon p .overflow).promise p).progress = .interrupted := by
    rw [hpromise]
  obtain ⟨v, hagain⟩ : ∃ v, Inside (m.evalPromise ev ((w'.abandon p .overflow).promise p)) v
      (m.force given p) (w'.abandon p .overflow) [.promise p] :=
    inside_force_again (by rw [hpromise, hev]) hinterrupted
  rw [hpromise] at hagain
  exact ⟨v, hagain⟩

/-! ## Handlers, requests and exit actions -/

/-- No handler is asked about an overflow: the guarded expression is all that is evaluated. -/
theorem guarded_overflow {m : Machine} {ctx : EvaluatorId} {env : EnvId}
    {handlers : List (String × Value)} {body : Expr} {t w' : Store}
    (h : m.eval ctx body env t = .error .overflow w') :
    m.guarded ctx env handlers body t = .error .overflow w' := by
  rw [Machine.guarded, Run.orElse, bind_of_ok (attempt_of_signal (x := .overflow) h)]
  rfl

/-- A request that overflows fails, however deep it was nested. -/
theorem request_overflow {γ : Type} {ctx : EvaluatorId} {c : Run γ} {t w' : Store}
    (h : c t = .error .overflow w') : ∃ f v, Machine.request ctx c t = .error (.failure f) v ∧
      f.cause = .recursion := by
  rw [request_of_signal (x := .overflow) h]
  exact ⟨_, _, rfl, rfl⟩

/-- An exit action that overflows while something else is on its way is logged only. -/
theorem runExits_overflow {m : Machine} {ctx : EvaluatorId} {pending : Bool} {action : ExitAction}
    {rest : List ExitAction} {first : Option Signal} {t w' : Store}
    (h : m.runExit ctx action t = .error .overflow w')
    (hheld : pending = true ∨ first.isSome = true) :
    ∃ log, m.runExits ctx pending (action :: rest) first t =
      m.runExits ctx pending rest first { w' with log := log } := by
  obtain ⟨log, hlog⟩ := exists_runExits_rest pending rest first
    (attempt_of_signal (x := .overflow) h)
  refine ⟨log, hlog.trans ?_⟩
  rcases hheld with rfl | hfirst
  · rfl
  · obtain ⟨x, rfl⟩ := Option.isSome_iff_exists.mp hfirst
    cases pending <;> rfl

/-! ## The way of an overflow -/

/-- The layer at which an overflow ends is that of a request, which fails instead. -/
def Reported (b : Run β) (u w : Store) (a : Run α) (s : Store) (inner : List Layer) (layer : Layer)
    (outer : List Layer) : Prop :=
  ∃ (ctx : EvaluatorId) (γ : Type) (c : Run γ) (t : Store),
    layer = .request ctx (t.evaluator ctx) ∧
    Inside (Machine.request ctx c) t a s outer ∧ Inside b u c t inner ∧
    ∀ w', Layer.passOut .overflow inner w = .ok () w' →
      ∃ f v, Machine.request ctx c t = .error (.failure f) v ∧ f.cause = .recursion

/-- The layer at which an overflow ends is that of an exit action of a frame which is left by
something else. The frame unwinds as if the action had ended. -/
def KeptBack (b : Run β) (u w : Store) (a : Run α) (s : Store) (inner : List Layer) (layer : Layer)
    (outer : List Layer) : Prop :=
  ∃ (m : Machine) (ctx : EvaluatorId) (id : Nat) (pending : Bool) (action : ExitAction)
    (first : Option Signal) (rest : List ExitAction) (t t' : Store),
    layer = .exit m ctx id pending first rest ∧ (pending = true ∨ first.isSome = true) ∧
    Inside (m.unwind ctx id pending) t a s outer ∧ Inside b u (m.runExit ctx action) t' inner ∧
    ∀ w', Layer.passOut .overflow inner w = .ok () w' →
      ∃ log, m.runExits ctx pending (action :: rest) first t' =
        m.runExits ctx pending rest first { w' with log := log }

theorem reported_or_keptBack {inner outer : List Layer} {layer : Layer}
    (h : Inside b u a s (inner ++ layer :: outer)) (hb : b u = .error .overflow w)
    (hlets : ∀ k ∈ inner, k.Lets .overflow) (hlayer : ¬ layer.Lets .overflow) :
    Reported b u w a s inner layer outer ∨ KeptBack b u w a s inner layer outer := by
  obtain ⟨γ, δ, c, t, d, t', houtside, hwraps, hinside⟩ := h.split rfl
  have hends (w' : Store) (hout : Layer.passOut .overflow inner w = .ok () w') :
      d t' = .error .overflow w' := hinside.passed (x := .overflow) nofun hb hlets hout
  cases hwraps with
  | @request _ ctx c t =>
      exact .inl ⟨ctx, _, c, t, rfl, houtside, hinside, fun w' hout =>
        request_overflow (hends w' hout)⟩
  | @exit m ctx id pending action done rest first t t₁ t' htake hdone =>
      have hheld : pending = true ∨ first.isSome = true := by
        cases pending with
        | true => exact .inl rfl
        | false =>
            cases first with
            | none => exact absurd ⟨rfl, rfl⟩ hlayer
            | some x => exact .inr rfl
      exact .inr ⟨m, ctx, id, pending, action, first, rest, t, t', rfl, hheld, houtside, hinside,
        fun w' hout => runExits_overflow (hends w' hout) hheld⟩
  | body => exact absurd nofun hlayer
  | scope => exact absurd nofun hlayer
  | ending => exact absurd trivial hlayer
  | promise => exact absurd trivial hlayer
  | followed => exact absurd trivial hlayer

/-- The innermost layer that does not let a signal through. -/
theorem exists_stop (x : Signal) (layers : List Layer) : (∀ k ∈ layers, k.Lets x) ∨
    ∃ inner layer outer, layers = inner ++ layer :: outer ∧ (∀ k ∈ inner, k.Lets x) ∧
      ¬ layer.Lets x := by
  induction layers with
  | nil => exact .inl nofun
  | cons k rest ih =>
      by_cases hk : k.Lets x
      · rcases ih with hall | ⟨inner, layer, outer, rfl, hinner, hlayer⟩
        · exact .inl (List.forall_mem_cons.mpr ⟨hk, hall⟩)
        · exact .inr ⟨k :: inner, layer, outer, rfl, List.forall_mem_cons.mpr ⟨hk, hinner⟩, hlayer⟩
      · exact .inr ⟨[], k, rest, rfl, nofun, hk⟩

/-- What an overflow does to the runs that it leaves: they end by it, whatever they are. A promise
among them can be forced again, and no handler of a guarded expression is asked. -/
structure Overflows (b : Run β) (u w : Store) : Prop where
  ends {γ : Type} {c : Run γ} {t w' : Store} (h : OverflowEnds b u w c t w') :
    c t = .error .overflow w'
  promise {n : Nat} {ctx : EvaluatorId} {p : PromiseId} {t t' w' : Store}
    (hidle : (t.promise p).progress.isIdle = true) (hstart : Machine.startPromise p t = .ok () t')
    (h : OverflowEnds b u w ((Machine.ofLevel n).evalPromise ctx (t.promise p)) t' w') :
    (Machine.ofLevel n).runPromise ctx p t = .error .overflow (w'.abandon p .overflow) ∧
      Restarts t (w'.abandon p .overflow) p
  guarded {m : Machine} {ctx : EvaluatorId} {env : EnvId} {handlers : List (String × Value)}
    {body : Expr} {t w' : Store} (h : OverflowEnds b u w (m.eval ctx body env) t w') :
    m.guarded ctx env handlers body t = .error .overflow w'

/-- An overflow is no outcome of what it leaves. If a part of a run overflows, all that lies around
it ends by the overflow too, once every layer on the way did what it does when it is left: promises
are not settled and handlers are not called. If a layer does not let it through, the innermost such
layer is a request, which fails instead, or an exit action of a frame that something else leaves.
The request is the outermost one if no request lies outside of it. -/
theorem overflow_ends_at_request (h : Inside b u a s layers) (hb : b u = .error .overflow w) :
    Overflows b u w ∧ ((∀ k ∈ layers, k.Lets .overflow) ∨
      ∃ inner layer outer, layers = inner ++ layer :: outer ∧ (∀ k ∈ inner, k.Lets .overflow) ∧
        (Reported b u w a s inner layer outer ∨ KeptBack b u w a s inner layer outer)) := by
  refine ⟨⟨fun hends => hends.eq hb, fun hidle hstart hends => ?_, fun hends => ?_⟩, ?_⟩
  · exact runPromise_overflow hidle hstart (hends.eq hb)
  · exact guarded_overflow (hends.eq hb)
  · rcases exists_stop .overflow layers with hlets | ⟨inner, layer, outer, rfl, hinner, hlayer⟩
    · exact .inl hlets
    · exact .inr ⟨inner, layer, outer, rfl, hinner, reported_or_keptBack h hb hinner hlayer⟩

namespace Session

/-- A call of a host function that overflows. -/
def overflowing : Expr := .call (.const (.host .overflow)) []

/-- A function that has it evaluated by a request of its own. -/
def nesting : Expr :=
  .call (.const (.host .nested))
    [.bare (.call (.const (.builtin (.special .quote) .empty)) [.bare overflowing]),
      .bare (.const (.env (.scope 0)))]

/-- The evaluator when the request is made. -/
def nestingEvaluator : Evaluator :=
  ⟨none, 100, [⟨1, heldCall, .scope 0, some ⟨0⟩, some .empty, []⟩], 1, []⟩

theorem inside_nesting : ∃ u layers,
    Inside (HostFunction.overflow.apply (Machine.ofLevel 4997) [] []) u callHeld.run
      (holding nesting) layers ∧
    layers = .request ⟨0⟩ nestingEvaluator :: [heldBody, heldRequest] := by
  apply Exists.intro
  apply Exists.intro
  apply And.intro
  · apply Inside.trans (inside_callHeld nesting)
    apply Inside.rest (a := Machine.eval _ ⟨0⟩ (.const (.host .nested)) (.scope 0)) rfl
    apply Inside.rest (a := Machine.evalArgs _ ⟨0⟩ _ (.scope 0) nesting) rfl
    apply Inside.rest (a := HostFunction.bindArgs _ _ _) rfl
    apply Inside.request
    apply Inside.rest (a := Machine.eval _ ⟨0⟩ (.const (.host .overflow)) (.scope 0)) rfl
    apply Inside.rest (a := Machine.evalArgs _ ⟨0⟩ [] (.scope 0) overflowing) rfl
    exact .here
  · rfl

/-- The nested request fails, and what lies outside of it gets an ordinary failure. -/
theorem overflow_ends_at_request_nesting :
    ∃ (u t v : Store) (f : FailureRef) (γ : Type) (c : Run γ),
      Inside (Machine.request ⟨0⟩ c) t callHeld.run (holding nesting) [heldBody, heldRequest] ∧
      Inside (HostFunction.overflow.apply (Machine.ofLevel 4997) [] []) u c t [] ∧
      Machine.request ⟨0⟩ c t = .error (.failure f) v ∧ f.cause = .recursion := by
  obtain ⟨u, _, h, rfl⟩ := inside_nesting
  have hrequest : ¬ (Layer.request ⟨0⟩ nestingEvaluator).Lets .overflow := by simp [Layer.Lets]
  obtain ⟨-, hlets | ⟨inner, layer, outer, hsplit, hinner, hstop⟩⟩ :=
    overflow_ends_at_request h (w := u) rfl
  · exact absurd (hlets _ List.mem_cons_self) hrequest
  cases inner with
  | cons k rest =>
      obtain ⟨rfl, -⟩ := List.cons.inj hsplit
      exact absurd (hinner _ List.mem_cons_self) hrequest
  | nil =>
      obtain ⟨rfl, rfl⟩ := List.cons.inj hsplit
      rcases hstop with ⟨ctx, γ, c, t, hlayer, houtside, hinside, hfails⟩ |
        ⟨m, ctx, id, pending, action, first, rest, t, t', hlayer, -⟩
      · obtain ⟨rfl, -⟩ := Layer.request.inj hlayer
        obtain ⟨f, v, hfailure, hcause⟩ := hfails u rfl
        exact ⟨u, t, v, f, γ, c, houtside, hinside, hfailure, hcause⟩
      · cases hlayer

end Session

end Quasi
