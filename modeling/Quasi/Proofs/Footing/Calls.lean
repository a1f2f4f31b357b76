import Quasi.Proofs.Footing.Basic

/-!
# Calls on a footing

A primitive forces its arguments, which are new promises, one after the other. A closure with one
formal binds it to a promise that stands for the value of the argument, be it forced or not, and
evaluates its body in a frame that is gone afterwards.
-/

namespace Quasi

open Run (bind_of_ok)
open Store (SameStack)

/-- An argument as it is written: it is there, and it does not stand for others. -/
def Expr.IsArgument (e : Expr) : Prop := e.isMissing = false ∧ e.isSymbol dotsName = false

/-- The promise of an argument. -/
def Promise.written (e : Expr) (env : EnvId) (ctx : EvaluatorId) : Promise :=
  ⟨e, some env, some ctx, false, .unforced⟩

namespace Machine

variable {m : Machine} {ctx : EvaluatorId} {env : EnvId} {s t : Store} {e : Expr}

theorem promiseArgs_cons (he : e.IsArgument) (rest : List Slot) :
    promiseArgs ctx env (.bare e :: rest) s =
      (do pure (.bare (.promise ⟨s.promises.size⟩) :: (← promiseArgs ctx env rest)) :
        Run (List (Tagged Value))) (s.addPromise (.written e env ctx)) := by
  rw [Tagged.bare, promiseArgs, if_neg (by simp [he.1]), if_neg (by simp [he.2])]
  rfl

theorem promise_addPromise_written (henv : s.known env = env) :
    (s.addPromise (.written e env ctx)).promise ⟨s.promises.size⟩ = .written e env ctx := by
  rw [Store.promise_addPromise, if_pos rfl, Promise.written, Option.map_some, henv]

/-- Two arguments are promised before either is evaluated. -/
theorem promiseArgs_pair (ctx : EvaluatorId) {a b : Expr} (ha : a.IsArgument) (hb : b.IsArgument)
    (henv : s.known env = env) : ∃ p q t,
    promiseArgs ctx env [.bare a, .bare b] s = .ok [.bare (.promise p), .bare (.promise q)] t ∧
      p.index = s.promises.size ∧ q.index = p.index + 1 ∧ t.promises.size = q.index + 1 ∧
      t.promise p = .written a env ctx ∧ t.promise q = .written b env ctx ∧ s.Grows t ∧
      t.evaluators = s.evaluators := by
  let u := s.addPromise (.written a env ctx)
  have hsize : u.promises.size = s.promises.size + 1 := Store.size_addPromise ..
  refine ⟨⟨s.promises.size⟩, ⟨u.promises.size⟩, u.addPromise (.written b env ctx), ?_, rfl, hsize,
    Store.size_addPromise .., ?_, ?_, ?_, ?_⟩
  · rw [promiseArgs_cons ha]
    exact bind_of_ok ((promiseArgs_cons hb []).trans rfl)
  · rw [Store.promise_addPromise, if_neg (by simp only [hsize]; omega)]
    exact promise_addPromise_written henv
  · exact promise_addPromise_written ((Store.known_addPromise ..).trans henv)
  · exact (Store.Grows.addPromise s _).trans (.addPromise u _)
  · exact (Store.evaluators_addPromise u _).trans (Store.evaluators_addPromise s _)

theorem forceArgs_pair (call : Expr) (p q : PromiseId) :
    forceArgs m ctx call [.bare (.promise p), .bare (.promise q)] [] [] = (do
      let a ← force m (some ctx) p
      let b ← force m (some ctx) q
      pure ([a, b], [])) := rfl

end Machine

namespace Footing

open Machine (promiseArgs_pair forceArgs_pair evalArgs ofLevel Activation Passed within)

variable {F : Footing} {ctx : EvaluatorId} {s t u : Store} {env : EnvId}

/-! ## Primitives -/

section Arguments

variable {levels n : Nat} {a b : Expr} {v : Value} {ways : Except Signal Value → Prop}
  (hF : F.holds s) (henv : s.known env = env) (ha : a.IsArgument) (hb : b.IsArgument)
  (hn : levels ≤ n) (hfirst : F.Yields ctx levels env a v)
  (hsecond : ∀ t, F.Goes ctx s t → F.Ends ctx t ((ofLevel n).eval ctx b env) ways)

include hF henv ha hb hn hfirst hsecond

/-- Two arguments are evaluated one after the other. The second one decides how this ends. -/
theorem ends_evalArgs (call : Expr) :
    F.Ends ctx s (evalArgs (ofLevel n) ctx [.bare a, .bare b] env call) fun outcome =>
      ∃ second, ways second ∧ outcome = second.map fun w => ([v, w], []) := by
  obtain ⟨p, q, made, hargs, hp, hq, hsize, hfirstCode, hsecondCode, hgrows, hevaluators⟩ :=
    promiseArgs_pair ctx ha hb henv
  have hnew (i : Nat) (hi : s.promises.size ≤ i) : ¬ F.reaches i := fun h =>
    absurd (F.exists_of_reaches hF i h) (Nat.not_lt.mpr hi)
  have hmade : SameStack ctx s made := .of_evaluators hevaluators
  -- forcing the first promise leaves the second one alone
  obtain ⟨_, t, hforce, rfl, ht, hadds, hstack, -⟩ :=
    ends_force (m := ofLevel n) (some ctx) (F.adds hF (hgrows.adds _)) (hnew _ (by omega))
      (by omega) hfirstCode rfl fun t ht _ _ => hfirst n hn t ht
  have hst : s.Adds (¬ F.reaches ·) t :=
    (hgrows.adds _).trans hadds |>.mono fun i hi hout => ⟨hout, by omega⟩
  have hqt : q.index < t.promises.size := Nat.lt_of_lt_of_le (by omega) hadds.promises
  have hlater {u : Store} (htu : t.Adds (fun i => ¬ F.reaches i ∧ i ≠ q.index) u) :
      s.Adds (¬ F.reaches ·) u := by
    have hst' : s.Adds (fun i => ¬ F.reaches i ∧ i ≠ q.index) t := hst.mono fun _ _ hi => hi.1
    exact (hst'.trans htu).mono fun i hi hout => ⟨hout, by omega⟩
  obtain ⟨second, u, hforce', hways, hu, hadds', hstack', -⟩ :=
    ends_force (m := ofLevel n) (some ctx) ht (hnew _ (by omega)) hqt
      ((hadds.promise q (by omega) ⟨hnew _ (by omega), by omega⟩).trans hsecondCode) rfl
      fun u hu hadds hstack' => hsecond u
        ⟨hu, hlater (hadds.mono fun _ _ hi => hi.2), (hmade.trans hstack).trans hstack'⟩
  have hgoes : F.Goes ctx s u := ⟨hu, hlater hadds', (hmade.trans hstack).trans hstack'⟩
  refine ⟨_, u, ?_, ⟨second, hways, rfl⟩, hgoes⟩
  have hstart : evalArgs (ofLevel n) ctx [.bare a, .bare b] env call s = (do
      let w ← (ofLevel n).force (some ctx) q
      pure ([v, w], [])) t := by
    rw [evalArgs, bind_of_ok hargs, forceArgs_pair, bind_of_ok (Run.ok_of_attempt hforce)]
  rw [Run.attempt_congr hstart]
  rcases Run.attempt_eq_ok hforce' with ⟨w, rfl, hw⟩ | ⟨x, rfl, hx⟩
  · exact Run.attempt_congr (bind_of_ok hw)
  · exact Run.attempt_of_signal (Run.bind_of_error hx)

/-- A primitive is applied to two arguments unless the second one ends otherwise. -/
theorem ends_primitive {name : String} {fn : Primitive} {home : EnvId}
    (hname : s.Calls env name (.builtin (.primitive fn) home))
    {ways' : Except Signal Value → Prop}
    (hvalue : ∀ w t, ways (.ok w) → F.Goes ctx s t →
      F.Ends ctx t (Machine.applyPrimitive (ofLevel n) ctx fn [v, w] [] env) ways')
    (hsignal : ∀ x, ways (.error x) → ways' (.error x)) :
    F.Ends ctx s ((ofLevel (n + 1)).eval ctx (.call (.symbol name) [.bare a, .bare b]) env) ways' := by
  refine .of_eq (Machine.eval_call_of_calls hname ctx _) (.refl hF) ?_
  refine (ends_evalArgs hF henv ha hb hn hfirst hsecond _).bind ?_ ?_
  · rintro ⟨args, named⟩ t ⟨second, hways, heq⟩ hgoes
    cases second with
    | error x => cases heq
    | ok w =>
        cases heq
        exact hvalue w t hways hgoes
  · rintro x ⟨second, hways, heq⟩
    cases second with
    | error x =>
        cases heq
        exact hsignal x hways
    | ok w => cases heq

end Arguments

section Values

variable {levels : Nat} {a b : Expr} {v w : Value}

/-- An expression that has values can be the argument of a call. -/
theorem Yields.isArgument {e : Expr} (h : F.Yields ctx levels env e v) (hF : F.holds s) :
    e.IsArgument := by
  obtain ⟨t, heval, -⟩ := (h (levels + 1) (Nat.le_succ levels) s hF).value
  refine ⟨?_, ?_⟩
  · cases e with
    | missing => cases heval
    | _ => rfl
  · cases e with
    | symbol name =>
        refine decide_eq_false fun hname => ?_
        subst hname
        cases heval
    | _ => rfl

/-- A primitive is applied to the values of two arguments. -/
theorem exists_primitive {fn : Primitive} {n : Nat} (hF : F.holds s) (henv : s.known env = env)
    (hname : s.Offers env (.primitive fn)) (hfirst : F.Yields ctx levels env a v)
    (hsecond : F.Yields ctx levels env b w) (hn : levels ≤ n) :
    ∃ t, (ofLevel (n + 1)).eval ctx (.apply fn.name [a, b]) env s =
      Machine.applyPrimitive (ofLevel n) ctx fn [v, w] [] env t := by
  obtain ⟨home, hname⟩ := hname
  have hargs : F.Ends ctx s
      (evalArgs (ofLevel n) ctx [.bare a, .bare b] env (.apply fn.name [a, b]))
      (· = .ok ([v, w], [])) := by
    refine (ends_evalArgs hF henv (hfirst.isArgument hF) (hsecond.isArgument hF) hn hfirst
      (fun t ht => hsecond n hn t ht.holds) _).mono ?_
    rintro _ ⟨_, rfl, rfl⟩
    rfl
  obtain ⟨t, ht, -⟩ := hargs.value
  exact ⟨t, (Machine.eval_call_of_calls hname ctx _).trans (bind_of_ok ht)⟩

end Values

/-- An operator on two arguments that have values. -/
theorem yields_operator {levels : Nat} {a b : Expr} {v w r : Value} {name : String} {op : Operator}
    {home : EnvId} (hknown : ∀ s, F.holds s → s.known env = env)
    (hname : ∀ s, F.holds s → s.Calls env name (.builtin (.primitive (.binary op)) home))
    (ha : a.IsArgument) (hb : b.IsArgument) (hfirst : F.Yields ctx levels env a v)
    (hsecond : F.Yields ctx levels env b w)
    (hvalue : Library.operatorOrSign op [v, w] = pure r) :
    F.Yields ctx (levels + 1) env (.call (.symbol name) [.bare a, .bare b]) r := by
  intro n hn s hs
  obtain ⟨n, rfl, hlevels⟩ := exists_level hn
  refine ends_primitive hs (hknown s hs) ha hb hlevels hfirst
    (fun t ht => hsecond n hlevels t ht.holds) (hname s hs) ?_ (fun _ hx => by cases hx)
  intro w' t hw' ht
  cases hw'
  exact ends_of_ok (congrFun hvalue t) (.refl ht.holds) rfl

/-! ## Closures with one formal -/

/-- A footing with a frame on it: an environment binds a formal to the promise of an argument, which
may have come to its value. -/
def framed (F : Footing) (i : Nat) (x : String) (p : PromiseId) (parent : EnvId) (promise : Promise)
    (v : Value) : Footing where
  holds s := F.holds s ∧ ¬ F.reaches p.index ∧ i < s.scopes.size ∧
    s.scope i = ⟨[(x, .promise p)], parent, none⟩ ∧ p.index < s.promises.size ∧
    (s.promise p = promise ∨ (s.promise p).progress = .value v)
  reaches j := F.reaches j ∨ j = p.index
  exists_of_reaches h j hj := by
    obtain ⟨hF, -, -, -, hp, -⟩ := h
    rcases hj with hj | rfl
    · exact F.exists_of_reaches hF j hj
    · exact hp
  adds {s t} h hst := by
    obtain ⟨hF, hout, hi, hscope, hp, hpromise⟩ := h
    have hkept : t.promise p = s.promise p := hst.promise p hp (.inr rfl)
    exact ⟨F.adds hF (hst.mono fun _ _ hj => .inl hj), hout, Nat.lt_of_lt_of_le hi hst.scopes,
      (hst.scope i hi).trans hscope, Nat.lt_of_lt_of_le hp hst.promises, by rwa [hkept]⟩

section Framed

variable {i levels : Nat} {x : String} {p : PromiseId} {parent : EnvId} {arg : Expr} {v : Value}

/-- The formal has the value of the argument. -/
theorem yields_formal (hx : x ≠ dotsName) (hposition : Machine.dotsPosition? x = none)
    (harg : F.Yields ctx levels env arg v) :
    (F.framed i x p parent (.written arg env ctx) v).Yields ctx (levels + 1) (.scope i) (.symbol x)
      v := by
  rintro n hn s ⟨hF, hout, hi, hscope, hp, hpromise⟩
  obtain ⟨n, rfl, hlevels⟩ := exists_level hn
  have hslot : s.slot? (.scope i) x = some (.promise p) := by
    rw [Machine.slot?_single hscope, if_pos rfl]
  have hbinding : Run.binding (.scope i) x s = .ok (.promise p) s :=
    Machine.binding_of_slot hslot rfl
  have heval : (ofLevel (n + 1)).eval ctx (.symbol x) (.scope i) s = (ofLevel n).force none p s := by
    change Machine.evalSymbol (ofLevel n) ctx x (.scope i) s = _
    rw [Machine.evalSymbol, if_neg hx, hposition]
    exact bind_of_ok hbinding
  rcases hpromise with hpromise | hvalue
  · obtain ⟨_, t, hforce, rfl, ht, hadds, hstack, hsettled⟩ :=
      ends_force (m := ofLevel n) none hF hout hp hpromise rfl
        fun t ht _ _ => harg n hlevels t ht
    refine ⟨_, t, (Run.attempt_congr heval).trans hforce, rfl, ?_, ?_, hstack⟩
    · exact ⟨ht, hout, Nat.lt_of_lt_of_le hi hadds.scopes, (hadds.scope i hi).trans hscope,
        Nat.lt_of_lt_of_le hp hadds.promises, .inr (hsettled v rfl)⟩
    · exact hadds.mono fun j _ hj => not_or.mp hj
  · have hs : (F.framed i x p parent (.written arg env ctx) v).holds s :=
      ⟨hF, hout, hi, hscope, hp, .inr hvalue⟩
    have hready : s.ready? (.promise p) = some v := by
      rw [Store.ready?, if_pos hp, hvalue]
      rfl
    have hforce : (ofLevel n).force none p s = .ok v s :=
      Machine.forceValue_of_ready (v := .promise p) hready
    exact ends_of_ok (heval.trans hforce) (.refl hs) rfl

end Framed

/-- No call under way has exit actions. -/
def Bare (ctx : EvaluatorId) (s : Store) : Prop :=
  ∀ frame ∈ (s.evaluator ctx).frames, frame.handlers = []

theorem Bare.sameStack (h : Bare ctx s) (hst : SameStack ctx s t) : Bare ctx t := by
  rw [Bare, hst.frames]
  exact h

theorem Bare.cleared (h : Bare ctx s) (id : Nat) :
    Machine.cleared id (s.evaluator ctx).frames = (s.evaluator ctx).frames := by
  refine (List.map_congr_left fun frame hframe => ?_).trans (List.map_id _)
  split
  · rw [← h frame hframe]
    rfl
  · rfl

theorem Bare.passed {call : Activation} (h : Bare ctx s) (hst : Passed ctx [call] s t) :
    Bare ctx t := by
  obtain ⟨frames, hframes, hall⟩ := hst.clear
  obtain ⟨frame, _, hframe, hnil, rfl⟩ := List.forall₂_cons_right_iff.mp hall
  cases List.forall₂_nil_right_iff.mp hnil
  intro other hother
  rw [hframes] at hother
  rcases List.mem_cons.mp hother with rfl | hother
  · exact hframe.2
  · exact h other hother

theorem noteEnd_grows (ctx : EvaluatorId) (outcome : Except Signal Value) (s : Store) :
    ∃ t, Machine.noteEnd ctx outcome s = .ok ⟨⟩ t ∧ s.Grows t ∧ t.evaluators = s.evaluators := by
  rcases outcome with (f | _ | _) | _
  · by_cases hnew : (!f.cause.isHost && (s.incident f).trace.isNone) = true
    · have hnoted : s.Grows (Machine.noted s ctx f) := .of_eq rfl rfl rfl rfl rfl
      refine ⟨_, (Machine.noteFailure_eq ctx f s).trans ((if_pos hnew).trans (trace_apply ..)), ?_, ?_⟩
      · exact hnoted.trans (Store.grows_traced _ _)
      · exact Store.evaluators_traced _ _
    · exact ⟨s, (Machine.noteFailure_eq ctx f s).trans (if_neg hnew), .refl s, rfl⟩
  · exact ⟨s, rfl, .refl s, rfl⟩
  · exact ⟨s, rfl, .refl s, rfl⟩
  · exact ⟨s, rfl, .refl s, rfl⟩

/-- The frame of a call that is left is gone, and nothing else has changed. -/
theorem exists_leave {call : Activation} {outcome : Except Signal Value} {w : Store}
    (hbare : Bare ctx s) (hpassed : Passed ctx [call] s t)
    (hnote : Machine.noteEnd ctx outcome u = .ok ⟨⟩ w) (hstack : SameStack ctx t w) :
    ∃ x, call.machine.leave ctx call.env call.id outcome u =
        Run.resume (Machine.callOutcome call.env outcome none) x ∧
      w.SameHeap x ∧ SameStack ctx s x := by
  obtain ⟨frames, hframes, hall⟩ := hpassed.clear
  obtain ⟨frame, _, hframe, hnil, rfl⟩ := List.forall₂_cons_right_iff.mp hall
  cases List.forall₂_nil_right_iff.mp hnil
  have htop : (w.evaluator ctx).frames = frame :: (s.evaluator ctx).frames :=
    hstack.frames.trans hframes
  have hctx : ctx.index < w.evaluators.size := Store.index_lt_of_frames htop
  obtain ⟨text, hleave⟩ := Machine.leave_of_frames call.env hnote hctx htop hframe.2
  rw [hbare.cleared, hframe.1] at hleave
  let taken := w.setEvaluator ctx fun e => e.setHandlers call.id fun _ => []
  let popped := Popped.store taken ctx (s.evaluator ctx).frames
  have htaken : ctx.index < taken.evaluators.size :=
    Nat.lt_of_lt_of_le hctx (Nat.le_of_eq Array.size_modify.symm)
  have hsame : taken.evaluator ctx = (w.evaluator ctx).setHandlers call.id fun _ => [] :=
    (w.evaluator_setEvaluator ..).trans (if_pos ⟨rfl, hctx⟩)
  have hdepth : (w.evaluator ctx).depth = (s.evaluator ctx).depth + 1 :=
    hstack.depth.trans hpassed.depth
  have hpopped : (popped.traced text).evaluator ctx = { taken.evaluator ctx with
      frames := (s.evaluator ctx).frames, depth := (taken.evaluator ctx).depth - 1 } := by
    rw [evaluator_traced]
    exact (Popped.evaluator_store taken _ htaken ctx).trans (if_pos rfl)
  have hheap : popped.SameHeap (popped.traced text) := popped.sameHeap_traced text
  refine ⟨popped.traced text, hleave call.machine,
    ⟨hheap.scopes, hheap.masks, hheap.promises, hheap.closures, hheap.settings⟩,
    by rw [hpopped], ?_, ?_⟩
  · rw [hpopped, hsame]
    change (w.evaluator ctx).depth - 1 = _
    omega
  · rw [hpopped, hsame]
    exact hstack.maxDepth.trans hpassed.maxDepth

/-- A call is left with what its body ended with, and its frame is gone. -/
theorem ends_within {G : Footing} {call : Activation} {body : Run Value}
    {ways : Except Signal Value → Prop} (hbare : Bare ctx s) (hpassed : Passed ctx [call] s t)
    (hout : ∀ outcome, ways outcome → Machine.callOutcome call.env outcome none = outcome)
    (hbody : G.Ends ctx t body ways) : ∃ outcome u,
      Run.attempt (within ctx [call] body) t = .ok outcome u ∧ ways outcome ∧ G.holds u ∧
      t.Adds (¬ G.reaches ·) u ∧ SameStack ctx s u := by
  obtain ⟨outcome, u, hrun, hways, hgoes⟩ := hbody
  obtain ⟨w, hnote, hgrows, hevaluators⟩ := noteEnd_grows ctx outcome u
  obtain ⟨x, hleave, hheap, hstack⟩ :=
    exists_leave hbare hpassed hnote (hgoes.stack.trans (.of_evaluators hevaluators))
  rw [hout outcome hways] at hleave
  have hleft : u.Grows x := hgrows.trans hheap.grows
  exact ⟨outcome, x, Machine.attempt_leave call hrun hleave, hways,
    G.adds hgoes.holds (hleft.adds _), hgoes.adds.trans (hleft.adds _), hstack⟩

section Unary

variable {base : Store} {pm : Bool} {g : ClosureId} {x name : String} {levels n : Nat}
  {arg : Expr} {v : Value} {ways : Except Signal Value → Prop} (hbase : base.Whole)
  (hpm : base.settings.partialMatching = .ok pm) (hx : x ≠ dotsName)
  (hformals : (base.closure g).formals = [(x, .missing)])
  (hhome : base.known (base.closure g).env = (base.closure g).env)
  (hgrown : ∀ t, F.holds t → base.Grows t)

include hbase hgrown hhome

/-- In a frame names other than the formal stand for the same functions as where the closure was
made. -/
theorem framed_calls {i : Nat} {p : PromiseId} {promise : Promise} {fn : Value}
    (hs : (F.framed i x p (base.closure g).env promise v).holds s) (hi : base.scopes.size ≤ i)
    (hname : base.Calls (base.closure g).env name fn) (hne : x ≠ name) :
    s.Calls (.scope i) name fn :=
  Machine.calls_single hbase (hgrown s hs.1) hhome hname ⟨hi, hs.2.2.1⟩ hs.2.2.2.1 (.inl hne)

include hpm hx hformals

omit hbase in
/-- A call of a closure with one formal evaluates its body in a frame that binds the formal to the
promise of the argument, if there is room for the frame. -/
theorem ends_unary (hs : F.holds s) (henv : s.known env = env) (hname : s.Calls env name (.closure g))
    (harg : arg.IsArgument)
    (hout : ∀ outcome, ways outcome → ∀ e, Machine.callOutcome e outcome none = outcome)
    (hbody : (s.evaluator ctx).depth < (s.evaluator ctx).maxDepth → Bare ctx s ∧
      ∀ i p t, base.scopes.size ≤ i →
        let G := F.framed i x p (base.closure g).env (.written arg env ctx) v
        G.holds t → Bare ctx t → (t.evaluator ctx).depth = (s.evaluator ctx).depth + 1 →
        (t.evaluator ctx).maxDepth = (s.evaluator ctx).maxDepth →
        G.Ends ctx t ((ofLevel n).eval ctx (base.closure g).body (.scope i)) ways)
    (hfull : (s.evaluator ctx).maxDepth ≤ (s.evaluator ctx).depth → ∀ r,
      ways (.error (.failure ⟨r, .recursion⟩))) :
    F.Ends ctx s ((ofLevel (n + 1)).eval ctx (.call (.symbol name) [.bare arg]) env) ways := by
  let p : PromiseId := ⟨s.promises.size⟩
  let t := s.addPromise (.written arg env ctx)
  have hst : s.Grows t := .addPromise s _
  have hstack : SameStack ctx s t := .of_evaluators (Store.evaluators_addPromise ..)
  have hgrows : base.Grows t := (hgrown s hs).trans hst
  have hclosure : t.closure g = base.closure g := hgrows.closure g
  have hbind := Machine.bindClosure_single (hgrows.settings ▸ hpm) hx (hclosure ▸ hformals) ctx
    (some (.promise p)) (.call (.symbol name) [.bare arg])
  have happly : (ofLevel (n + 1)).eval ctx (.call (.symbol name) [.bare arg]) env s =
      (ofLevel n).applyClosure ctx g [.bare (.promise p)] (.call (.symbol name) [.bare arg]) env t := by
    rw [Machine.eval_call_of_calls hname ctx]
    exact bind_of_ok (Machine.promiseArgs_cons harg [])
  by_cases hroom : (s.evaluator ctx).depth < (s.evaluator ctx).maxDepth
  · obtain ⟨hbare, hbody⟩ := hbody hroom
    have hknown : t.known (t.closure g).env = (t.closure g).env := hclosure ▸ hgrows.known hhome
    obtain ⟨call, u, heq, hpassed, -, hmade, hscope⟩ := Machine.applyClosure_single hbind hknown
      (hstack.depth.symm ▸ hstack.maxDepth.symm ▸ hroom) (ofLevel n) env
    rw [hclosure] at heq hscope
    have hp : p.index < t.promises.size := Store.lt_size_addPromise ..
    have hpromise : u.promise p = .written arg env ctx :=
      (hpassed.grows.promise p hp).trans (Machine.promise_addPromise_written henv)
    have hframed : (F.framed t.scopes.size x p (base.closure g).env (.written arg env ctx) v).holds u :=
      ⟨F.adds hs ((hst.trans hpassed.grows).adds _),
        fun h => Nat.lt_irrefl _ (F.exists_of_reaches hs _ h), hmade, hscope,
        Nat.lt_of_lt_of_le hp hpassed.grows.promises, .inl hpromise⟩
    have hends := hbody t.scopes.size p u (Nat.le_trans hgrows.scopes (Nat.le_refl _)) hframed
      ((hbare.sameStack hstack).passed hpassed) (by rw [hpassed.depth, hstack.depth]; rfl)
      (by rw [hpassed.maxDepth, hstack.maxDepth])
    obtain ⟨outcome, w, hrun, hways, hw, hadds, hleft⟩ :=
      ends_within (hbare.sameStack hstack) hpassed (fun o ho => hout o ho _) hends
    refine ⟨outcome, w, (Run.attempt_congr (happly.trans heq)).trans hrun, hways, hw.1, ?_,
      hstack.trans hleft⟩
    exact ((hst.trans hpassed.grows).adds _).trans hadds |>.mono fun i hi hout =>
      not_or.mpr ⟨hout, Nat.ne_of_lt hi⟩
  · have hnone := Int.not_lt.mp hroom
    have hnone' : (t.evaluator ctx).maxDepth ≤ (t.evaluator ctx).depth := by
      rw [hstack.depth, hstack.maxDepth]
      exact hnone
    obtain ⟨r, u, hfails, hbound, hevaluators⟩ := Machine.applyClosure_full hbind hnone' (ofLevel n) env
    have htu : t.Grows u := ((Machine.opened_grows t g).setVars (Nat.le_refl _) _).trans hbound
    exact ⟨.error (.failure ⟨r, .recursion⟩), u,
      Run.attempt_of_signal (x := .failure ⟨r, .recursion⟩) (happly.trans hfails), hfull hnone r,
      .of_grows hs (hst.trans htu) (hstack.trans (.of_evaluators hevaluators))⟩

end Unary

end Footing

end Quasi
