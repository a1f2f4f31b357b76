import Quasi.Proofs.Call.Single
import Quasi.Proofs.Quotation.Written

/-!
# Embracing

A function hands its argument on by embracing it, or by injecting the quosure that it captured. The
promise of the next function then has code that embeds a quosure once it is expanded, which capturing
takes out. However many functions lie between, the one that is called in the end captures what the
outermost call was written with, beside the environment of that call.
-/

namespace Quasi

open Run (bind_of_ok bind_of_error)

/-- A name stands for the form that captures the quosure of an argument. -/
def Store.Captures (s : Store) (env : EnvId) (enquo : String) : Prop :=
  ∃ home, s.Calls env enquo (.builtin (.special .capturedQuosure) home)

/-- How a function hands its argument on: embraced, or as the quosure that it captured. -/
inductive Passing where
  | embraced
  | unquoted (enquo : String)

namespace Passing

/-- What the next function is called with. -/
def code (x : String) : Passing → Expr
  | .embraced => .call (.symbol embraceName) [.bare (.symbol x)]
  | .unquoted enquo =>
      .call (.symbol unquoteName) [.bare (.call (.symbol enquo) [.bare (.symbol x)])]

/-- How many levels of evaluation it takes to expand this code. -/
def levels : Passing → Nat
  | .embraced => 1
  | .unquoted _ => 2

def levelsOf : List Passing → Nat
  | [] => 0
  | passing :: passings => passing.levels + levelsOf passings

/-- The name that has to stand for the form that captures. Embracing depends on no name. -/
def form? : Passing → Option String
  | .embraced => none
  | .unquoted enquo => some enquo

end Passing

/-- A closure with one formal, which has no default, made in an environment that exists. -/
structure Store.Unary (s : Store) (g : ClosureId) (x : String) : Prop where
  ordinary : x ≠ dotsName
  formals : (s.closure g).formals = [(x, .missing)]
  known : s.known (s.closure g).env = (s.closure g).env

/-- Calls of one closure get to another one through functions of one formal that hand it on, in the
given ways. The last one captures its argument. -/
inductive Embraces (s : Store) (last : ClosureId) : ClosureId → List Passing → Prop where
  | last {x enquo : String} (hlast : s.Unary last x)
      (hbody : (s.closure last).body = .call (.symbol enquo) [.bare (.symbol x)])
      (hne : x ≠ enquo) (hcaptures : s.Captures (s.closure last).env enquo) :
      Embraces s last last []
  | wrapper {g c : ClosureId} {x next : String} {passing : Passing} {passings : List Passing}
      (hg : s.Unary g x)
      (hbody : (s.closure g).body = .call (.symbol next) [.bare (passing.code x)])
      (hne : x ≠ next) (hnext : s.Calls (s.closure g).env next (.closure c))
      (hform : ∀ enquo ∈ passing.form?, x ≠ enquo ∧ s.Captures (s.closure g).env enquo)
      (rest : Embraces s last c passings) : Embraces s last g (passing :: passings)

theorem Embraces.of_chain {s : Store} {last g : ClosureId} {passings : List Passing}
    (h : Embraces s last g passings) : Embraces s last last [] := by
  induction h with
  | last hlast hbody hne hcaptures => exact .last hlast hbody hne hcaptures
  | wrapper _ _ _ _ _ _ ih => exact ih

theorem Embraces.unary {s : Store} {last g : ClosureId} {passings : List Passing}
    (h : Embraces s last g passings) : ∃ x, s.Unary g x := by
  cases h with
  | last hlast => exact ⟨_, hlast⟩
  | wrapper hg => exact ⟨_, hg⟩

namespace Machine

variable {m : Machine} {ctx : EvaluatorId} {s t u w : Store} {i : Nat} {x enquo : String}
  {v : Option Value} {quosure : Run Value}

/-- What a function is called with, captured in any larger store, is the quosure that a run ends
with. Embedded in code it is taken out again. -/
structure Supplies (m : Machine) (ctx : EvaluatorId) (t : Store) (v : Option Value)
    (quosure : Run Value) : Prop where
  own : Run.own (v.getD (.code .missing)) = pure (v.getD (.code .missing))
  captured (w : Store) : t.Grows w → m.quosureOf ctx (v.getD (.code .missing)) w = quosure w
  embedded (home : EnvId) : (do pure (quosureAround home (← quosure).toExpr) : Run Value) = quosure

theorem Supplies.grow (h : Supplies m ctx t v quosure) (ht : t.Grows u) :
    Supplies m ctx u v quosure where
  own := h.own
  captured w hw := h.captured w (ht.trans hw)
  embedded := h.embedded

/-! ## One frame -/

/-- In a frame with one formal an argument is what this formal is bound to. -/
theorem argumentBinding_single {env : EnvId} {b : Value} (hown : Run.own b = pure b)
    (hscope : w.scope i = ⟨[(x, b)], env, none⟩) :
    argumentBinding (.symbol x) (.scope i) w = .ok b w := by
  have hslot : w.slot? (.scope i) x = some b := (slot?_single hscope x).trans (if_pos rfl)
  exact binding_of_slot hslot hown

/-- Capturing the formal of a frame captures what the function was called with. -/
theorem captureQuosure_single {env : EnvId} (h : Supplies m ctx t v quosure)
    (hscope : t.scope i = ⟨[(x, v.getD (.code .missing))], env, none⟩) (ht : t.Grows w)
    (hi : i < t.scopes.size) :
    m.captureQuosure ctx (.symbol x) (.scope i) w = quosure w := by
  have hargument := argumentBinding_single h.own ((ht.scope i hi).trans hscope)
  rw [captureQuosure, bind_of_ok hargument]
  exact h.captured w ht

/-- A call of the form that captures. -/
theorem eval_captures {n : Nat} {env : EnvId} (h : s.Captures env enquo) (ctx : EvaluatorId)
    (x : String) :
    (ofLevel (n + 1)).eval ctx (.call (.symbol enquo) [.bare (.symbol x)]) env s =
      (ofLevel n).captureQuosure ctx (.symbol x) env s := by
  obtain ⟨home, h⟩ := h
  exact eval_call_of_calls h ctx _

/-- The code that hands a formal on embeds the quosure that is captured in its frame. -/
theorem expandIn_passing {a : Nat} {env : EnvId} (passing : Passing)
    (h : Supplies (ofLevel a) ctx t v quosure)
    (hscope : t.scope i = ⟨[(x, v.getD (.code .missing))], env, none⟩) (hi : i < t.scopes.size)
    (ht : t.Grows w) (hform : ∀ enquo ∈ passing.form?, w.Captures (.scope i) enquo) :
    (ofLevel (a + passing.levels)).expandIn ctx (some (.scope i)) (passing.code x) w =
      (do pure (← quosure).toExpr : Run Expr) w := by
  have hcapture := captureQuosure_single h hscope ht hi
  cases passing with
  | embraced =>
      change (do pure (← (ofLevel a).captureQuosure ctx (.symbol x) (.scope i)).toExpr : Run Expr) w
        = _
      simp only [bind, EStateM.bind, hcapture]
  | unquoted enquo =>
      have heval := eval_captures (n := a) (hform enquo rfl) ctx x
      change (do
        let q ← (ofLevel (a + 1)).eval ctx (.call (.symbol enquo) [.bare (.symbol x)]) (.scope i)
        pure q.toExpr : Run Expr) w = _
      simp only [bind, EStateM.bind, heval, hcapture]

/-- A promise of this code supplies the next function with the same. -/
theorem Supplies.pass {a : Nat} {env : EnvId} {p : PromiseId} (passing : Passing)
    (h : Supplies (ofLevel a) ctx t v quosure)
    (hscope : t.scope i = ⟨[(x, v.getD (.code .missing))], env, none⟩) (hi : i < t.scopes.size)
    (hform : ∀ w, t.Grows w → ∀ enquo ∈ passing.form?, w.Captures (.scope i) enquo)
    (ht : t.Grows u) (hp : p.index < u.promises.size)
    (hpromise : u.promise p = ⟨passing.code x, some (.scope i), some ctx, false, .unforced⟩) :
    Supplies (ofLevel (a + passing.levels)) ctx u (some (.promise p)) quosure where
  own := rfl
  captured w hw := by
    have hwritten : w.written? (.promise p) = some (passing.code x, some (.scope i)) := by
      simp only [Store.written?, hw.promise p hp, hpromise]
      rfl
    have hgrows := ht.trans hw
    have hexpand := expandIn_passing passing h hscope hi hgrows (hform w hgrows)
    have hembedded := congrFun (h.embedded (.scope i)) w
    rw [Option.getD_some, quosureOf_of_written hwritten]
    refine Eq.trans ?_ hembedded
    simp only [bind, EStateM.bind, hexpand]
    cases quosure w <;> rfl
  embedded := h.embedded

/-! ## Calls that hand their argument on -/

/-- An argument is promised as it is written. -/
theorem promiseArgs_written {e : Expr} (hpresent : e.isMissing = false)
    (hdots : e.isSymbol dotsName = false) (ctx : EvaluatorId) (env : EnvId) (s : Store) :
    promiseArgs ctx env [.bare e] s = .ok [.bare (.promise ⟨s.promises.size⟩)]
      (s.addPromise ⟨e, some env, some ctx, false, .unforced⟩) := by
  unfold promiseArgs Tagged.bare
  rw [if_neg (by simp [hpresent]), if_neg (by simp [hdots])]
  rfl

theorem promise_written {e : Expr} {env : EnvId} (henv : s.known env = env) (ctx : EvaluatorId) :
    (s.addPromise ⟨e, some env, some ctx, false, .unforced⟩).promise ⟨s.promises.size⟩ =
      ⟨e, some env, some ctx, false, .unforced⟩ := by
  rw [Store.promise_addPromise, if_pos rfl, Option.map_some, henv]

section Wrapper

variable {pm : Bool} (hs : u.Whole) (hpm : u.settings.partialMatching = .ok pm) (ht : u.Grows t)

include hs hpm ht

/-- In the frame of a call all names but the formal stand for the same functions as where the
closure was made. -/
theorem applyClosure_unary {g : ClosureId} (hg : u.Unary g x) (v : Option Value)
    (hroom : (t.evaluator ctx).depth < (t.evaluator ctx).maxDepth) (m : Machine) (call : Expr)
    (caller : EnvId) :
    ∃ i activation w, m.applyClosure ctx g (v.toList.map .bare) call caller t =
        within ctx [activation] (m.eval ctx (u.closure g).body (.scope i)) w ∧
      Passed ctx [activation] t w ∧ i < w.scopes.size ∧
      w.scope i = ⟨[(x, v.getD (.code .missing))], (u.closure g).env, none⟩ ∧
      ∀ w', w.Grows w' → ∀ name fn, u.Calls (u.closure g).env name fn → x ≠ name →
        w'.Calls (.scope i) name fn := by
  have hclosure := ht.closure g
  have hbind := bindClosure_single (ht.settings ▸ hpm) hg.ordinary (hclosure ▸ hg.formals) ctx v call
  have henv : t.known (t.closure g).env = (t.closure g).env := hclosure ▸ ht.known hg.known
  obtain ⟨activation, w, heq, hpassed, -, hmade, hscope⟩ :=
    applyClosure_single hbind henv hroom m caller
  rw [hclosure] at heq hscope
  refine ⟨_, activation, w, heq, hpassed, hmade, hscope, fun w' hw name fn hfn hne => ?_⟩
  exact calls_single hs ((ht.trans hpassed.grows).trans hw) hg.known hfn
    ⟨ht.scopes, Nat.lt_of_lt_of_le hmade hw.scopes⟩ ((hw.scope _ hmade).trans hscope) (.inl hne)

/-- The call of the last closure comes to capturing what the outermost one was called with. -/
theorem applyClosure_capturing {a : Nat} {last : ClosureId} (hlast : u.Unary last x)
    (hbody : (u.closure last).body = .call (.symbol enquo) [.bare (.symbol x)]) (hne : x ≠ enquo)
    (hcaptures : u.Captures (u.closure last).env enquo) (h : Supplies (ofLevel a) ctx t v quosure)
    (hroom : (t.evaluator ctx).depth < (t.evaluator ctx).maxDepth) (call : Expr) (caller : EnvId) :
    ∃ activation t', (ofLevel (a + 1)).applyClosure ctx last (v.toList.map .bare) call caller t =
      within ctx [activation] quosure t' ∧ Passed ctx [activation] t t' := by
  obtain ⟨i, activation, w, heq, hpassed, hmade, hscope, hcalls⟩ :=
    applyClosure_unary hs hpm ht hlast v hroom (ofLevel (a + 1)) call caller
  obtain ⟨home, hfn⟩ := hcaptures
  refine ⟨activation, w, heq.trans (within_congr ?_), hpassed⟩
  rw [hbody, eval_captures ⟨home, hcalls w (.refl w) enquo _ hfn hne⟩]
  exact captureQuosure_single (h.grow hpassed.grows) hscope (.refl w) hmade

/-- The call of a wrapper comes to the call of the next closure, supplied with the same. -/
theorem applyClosure_passing {a n : Nat} {g c : ClosureId} {next : String} {passing : Passing}
    (hg : u.Unary g x) (hbody : (u.closure g).body = .call (.symbol next) [.bare (passing.code x)])
    (hne : x ≠ next) (hnext : u.Calls (u.closure g).env next (.closure c))
    (hform : ∀ enquo ∈ passing.form?, x ≠ enquo ∧ u.Captures (u.closure g).env enquo)
    (h : Supplies (ofLevel a) ctx t v quosure)
    (hroom : (t.evaluator ctx).depth < (t.evaluator ctx).maxDepth) (call : Expr) (caller : EnvId) :
    ∃ activation call' env t' p,
      (ofLevel (n + 1)).applyClosure ctx g (v.toList.map .bare) call caller t =
        within ctx [activation] ((ofLevel n).applyClosure ctx c
          ((some (Value.promise p)).toList.map .bare) call' env) t' ∧
      Passed ctx [activation] t t' ∧
      Supplies (ofLevel (a + passing.levels)) ctx t' (some (.promise p)) quosure := by
  obtain ⟨i, activation, w, heq, hpassed, hmade, hscope, hcalls⟩ :=
    applyClosure_unary hs hpm ht hg v hroom (ofLevel (n + 1)) call caller
  let promise : Promise := ⟨passing.code x, some (.scope i), some ctx, false, .unforced⟩
  have hgrows : w.Grows (w.addPromise promise) := .addPromise w promise
  have hargs := promiseArgs_written (e := passing.code x) (by cases passing <;> rfl)
    (by cases passing <;> rfl) ctx (.scope i) w
  refine ⟨activation, .call (.symbol next) [.bare (passing.code x)], .scope i,
    w.addPromise promise, ⟨w.promises.size⟩, heq.trans (within_congr ?_), ?_, ?_⟩
  · rw [hbody, eval_call_of_calls (hcalls w (.refl w) next _ hnext hne) ctx]
    exact bind_of_ok hargs
  · exact hpassed.trans ((Passed.refl ctx _).of_evaluators hgrows (w.evaluators_addPromise promise))
  · refine (h.grow hpassed.grows).pass passing hscope hmade (fun w' hw enquo henquo => ?_) hgrows
      (w.lt_size_addPromise promise) (promise_written (Store.known_eq_scope.mpr hmade) ctx)
    obtain ⟨hne, home, hfn⟩ := hform enquo henquo
    exact ⟨home, hcalls w' hw enquo _ hfn hne⟩

/-- Behind any number of wrappers a call comes to capturing what the outermost closure was called
with. -/
theorem applyClosure_embraces {a : Nat} {g last : ClosureId} {passings : List Passing}
    (hchain : Embraces u last g passings) (h : Supplies (ofLevel a) ctx t v quosure)
    (hroom : (t.evaluator ctx).depth + passings.length < (t.evaluator ctx).maxDepth) (call : Expr)
    (caller : EnvId) :
    ∃ calls t',
      (ofLevel (a + Passing.levelsOf passings + passings.length + 1)).applyClosure ctx g
        (v.toList.map .bare) call caller t = within ctx calls quosure t' ∧
      calls.length = passings.length + 1 ∧ Passed ctx calls t t' := by
  induction hchain generalizing t v a call caller with
  | last hlast hbody hne hcaptures =>
      have hroom' : (t.evaluator ctx).depth < (t.evaluator ctx).maxDepth := by simpa using hroom
      obtain ⟨activation, t', heq, hpassed⟩ :=
        applyClosure_capturing hs hpm ht hlast hbody hne hcaptures h hroom' call caller
      exact ⟨[activation], t', heq, rfl, hpassed⟩
  | @wrapper g c x next passing passings hg hbody hne hnext hform _ ih =>
      rw [List.length_cons] at hroom
      have hroom' : (t.evaluator ctx).depth < (t.evaluator ctx).maxDepth := by omega
      obtain ⟨activation, call', env, t', p, heq, hpassed, h'⟩ := applyClosure_passing
        (n := a + passing.levels + Passing.levelsOf passings + passings.length + 1)
        hs hpm ht hg hbody hne hnext hform h hroom' call caller
      have hroom₁ : (t'.evaluator ctx).depth + passings.length < (t'.evaluator ctx).maxDepth := by
        rw [hpassed.depth, hpassed.maxDepth, List.length_singleton]
        omega
      obtain ⟨calls, t'', heq', hlength, hpassed'⟩ :=
        ih (ht.trans hpassed.grows) h' hroom₁ call' env
      refine ⟨calls ++ [activation], t'', ?_, by simp [hlength], hpassed.trans hpassed'⟩
      have hlevel : a + Passing.levelsOf (passing :: passings) +
          (passing :: passings).length + 1 =
          a + passing.levels + Passing.levelsOf passings + passings.length + 1 + 1 := by
        simp only [Passing.levelsOf, List.length_cons]
        omega
      rw [hlevel, within_append]
      exact heq.trans (within_congr heq')

end Wrapper

/-! ## The argument as it is written -/

/-- The quosure of the argument of a call: what is injected into its code is expanded where the call
was written. -/
def argumentQuosure (m : Machine) (ctx : EvaluatorId) (env : EnvId) : Option Expr → Run Value
  | none => pure (.quosure .missing .empty)
  | some .missing => pure (.quosure .missing .empty)
  | some e => do pure (quosureAround env (← m.expandIn ctx (some env) e))

/-- The quosure of an argument without injections. -/
def writtenQuosure (env : EnvId) : Option Expr → Value
  | none => .quosure .missing .empty
  | some .missing => .quosure .missing .empty
  | some e => quosureAround env e

theorem quosureAround_embedded (env home : EnvId) (e : Expr) :
    quosureAround home (quosureAround env e).toExpr = quosureAround env e := by
  obtain ⟨e', env', h⟩ : ∃ e' env', quosureAround env e = .quosure e' env' := by
    unfold quosureAround
    split <;> exact ⟨_, _, rfl⟩
  rw [h]
  rfl

theorem argumentQuosure_embedded (m : Machine) (ctx : EvaluatorId) (env home : EnvId)
    (arg : Option Expr) :
    (do pure (quosureAround home (← m.argumentQuosure ctx env arg).toExpr) : Run Value) =
      m.argumentQuosure ctx env arg := by
  unfold argumentQuosure
  split
  · rfl
  · rfl
  · simp only [bind_assoc, pure_bind, quosureAround_embedded]

theorem argumentQuosure_plain {arg : Option Expr} (h : ∀ e ∈ arg, e.containsInjection = false)
    (m : Machine) (ctx : EvaluatorId) (env : EnvId) :
    m.argumentQuosure ctx env arg = pure (writtenQuosure env arg) := by
  unfold argumentQuosure writtenQuosure
  split
  · rfl
  · rfl
  · have hplain := h _ rfl
    simp only [expandIn, hplain]
    rfl

/-- A call supplies its argument as it is written. -/
theorem promiseArgs_argument {env : EnvId} (henv : s.known env = env) {arg : Option Expr}
    (hdots : ∀ e ∈ arg, e.isSymbol dotsName = false) (ctx : EvaluatorId) :
    ∃ v t, promiseArgs ctx env (arg.toList.map .bare) s = .ok (v.toList.map .bare) t ∧
      s.Grows t ∧ t.evaluators = s.evaluators ∧
      ∀ m : Machine, Supplies m ctx t v (m.argumentQuosure ctx env arg) := by
  cases arg with
  | none =>
      refine ⟨none, s, rfl, .refl s, rfl, fun m => ⟨rfl, fun _ _ => rfl, fun _ => ?_⟩⟩
      exact argumentQuosure_embedded ..
  | some e =>
      cases hmissing : e.isMissing with
      | true =>
          cases e <;> cases hmissing
          refine ⟨some (.code .missing), s, rfl, .refl s, rfl, fun m =>
            ⟨rfl, fun _ _ => rfl, fun _ => ?_⟩⟩
          exact argumentQuosure_embedded ..
      | false =>
          let promise : Promise := ⟨e, some env, some ctx, false, .unforced⟩
          refine ⟨some (.promise ⟨s.promises.size⟩), s.addPromise promise,
            promiseArgs_written hmissing (hdots e rfl) ctx env s, .addPromise s promise,
            s.evaluators_addPromise promise, fun m =>
              ⟨rfl, fun w hw => ?_, fun _ => argumentQuosure_embedded ..⟩⟩
          have hpromise := hw.promise ⟨s.promises.size⟩ (s.lt_size_addPromise promise)
          rw [promise_written henv ctx] at hpromise
          have hwritten : w.written? (.promise ⟨s.promises.size⟩) = some (e, some env) := by
            simp only [Store.written?, hpromise]
            rfl
          rw [Option.getD_some, quosureOf_of_written hwritten]
          cases e <;> first | rfl | cases hmissing

/-! ## Direct calls and calls through wrappers -/

/-- An evaluation comes to a run inside of calls that were entered since. It returns what the run
ends with, as long as that leaves the frames of the calls as they are. -/
structure ComesTo (ctx : EvaluatorId) (calls : List Activation) (s t : Store)
    (evaluation run : Run Value) : Prop where
  inside : evaluation s = within ctx calls run t
  passed : Passed ctx calls s t
  returns (q : Value) (w : Store) : run t = .ok q w →
    (w.evaluator ctx).frames = (t.evaluator ctx).frames → ∃ v, evaluation s = .ok q v

theorem ComesTo.of_passed {calls : List Activation} {evaluation run : Run Value}
    (h : evaluation s = within ctx calls run t) (hpassed : Passed ctx calls s t) :
    ComesTo ctx calls s t evaluation run := by
  refine ⟨h, hpassed, fun q w hq hframes => ?_⟩
  have hclear : Clear ctx calls (s.evaluator ctx).frames w := by
    have hclear := hpassed.clear
    unfold Clear at hclear ⊢
    rwa [hframes]
  have hattempt : Run.attempt run t = .ok (.ok q) w := by
    simp only [Run.attempt, hq]
  obtain ⟨v, hv⟩ := within_of_clear hattempt hclear fun _ => rfl
  exact ⟨v, h.trans hv⟩

/-- A call of a closure at the head of a chain comes to the quosure of its argument. -/
theorem eval_embraces {k : Nat} {pm : Bool} {E : EnvId} {name : String} {g last : ClosureId}
    {passings : List Passing} {arg : Option Expr} (hs : s.Whole)
    (hpm : s.settings.partialMatching = .ok pm) (hE : s.known E = E)
    (hdots : ∀ e ∈ arg, e.isSymbol dotsName = false) (hname : s.Calls E name (.closure g))
    (hchain : Embraces s last g passings)
    (hroom : (s.evaluator ctx).depth + passings.length < (s.evaluator ctx).maxDepth) :
    ∃ calls t, calls.length = passings.length + 1 ∧ ComesTo ctx calls s t
      ((ofLevel (k + Passing.levelsOf passings + passings.length + 2)).eval ctx
        (.call (.symbol name) (arg.toList.map .bare)) E)
      (argumentQuosure (ofLevel k) ctx E arg) := by
  obtain ⟨v, t, hargs, ht, hevaluators, hsupplies⟩ := promiseArgs_argument hE hdots ctx
  have hevaluator : t.evaluator ctx = s.evaluator ctx := by
    simp only [Store.evaluator, hevaluators]
  rw [← hevaluator] at hroom
  obtain ⟨calls, t', heq, hlength, hpassed⟩ := applyClosure_embraces hs hpm ht hchain
    (hsupplies (ofLevel k)) hroom (.call (.symbol name) (arg.toList.map .bare)) E
  refine ⟨calls, t', hlength, .of_passed ?_ (hpassed.of_evaluators ht hevaluators)⟩
  rw [eval_call_of_calls hname ctx]
  exact (bind_of_ok hargs).trans heq

/-- If the flag that matching reads is none, a call of a closure fails. -/
theorem eval_unreadable_unary {n : Nat} (ctx : EvaluatorId) {fault : SettingFault} {E : EnvId}
    {name : String} {g : ClosureId} {arg : Option Expr} (hflag : s.settings.partialMatching = .error fault)
    (hE : s.known E = E) (hdots : ∀ e ∈ arg, e.isSymbol dotsName = false)
    (hname : s.Calls E name (.closure g)) (hg : s.Unary g x) :
    ∃ r t, (ofLevel (n + 1)).eval ctx (.call (.symbol name) (arg.toList.map .bare)) E s =
      .error (.failure ⟨r, .host (.value fault.message)⟩) t := by
  obtain ⟨v, t, hargs, ht, -, -⟩ := promiseArgs_argument hE hdots ctx
  obtain ⟨r, u, hbind⟩ := bindClosure_unreadable (ht.settings ▸ hflag) (ht.closure g ▸ hg.formals)
    ctx v (.call (.symbol name) (arg.toList.map .bare))
  refine ⟨r, u, ?_⟩
  rw [eval_call_of_calls hname ctx]
  refine (bind_of_ok hargs).trans ?_
  rw [applyClosure_eq]
  exact bind_of_error hbind

/-- If the flag that matching reads is none, a call of any closure of a chain fails. -/
theorem eval_unreadable {n : Nat} {fault : SettingFault} {E : EnvId} {name : String}
    {g last : ClosureId} {passings : List Passing} {arg : Option Expr}
    (hflag : s.settings.partialMatching = .error fault) (hE : s.known E = E)
    (hdots : ∀ e ∈ arg, e.isSymbol dotsName = false) (hname : s.Calls E name (.closure g))
    (hchain : Embraces s last g passings) :
    ∃ r t, (ofLevel (n + 1)).eval ctx (.call (.symbol name) (arg.toList.map .bare)) E s =
      .error (.failure ⟨r, .host (.value fault.message)⟩) t := by
  obtain ⟨x, hg⟩ := hchain.unary
  exact eval_unreadable_unary ctx hflag hE hdots hname hg

/-- What a direct call and a call through wrappers come to with one argument, or with none. -/
inductive SameQuosure (ctx : EvaluatorId) (n : Nat) (E : EnvId) (arg : Option Expr) (s : Store)
    (quosure direct chained : Run Value) : Prop where
  /-- The flag that matching reads is none, and no closure can be called. -/
  | unreadable {fault : SettingFault} {r r' : Nat} {t t' : Store}
      (hflag : s.settings.partialMatching = .error fault)
      (hdirect : direct s = .error (.failure ⟨r, .host (.value fault.message)⟩) t)
      (hchained : chained s = .error (.failure ⟨r', .host (.value fault.message)⟩) t')
  /-- Both come to one run for the quosure, inside of one call and of `n` calls. If nothing is
  injected into the argument both return it as it is written. -/
  | captured {pm : Bool} {calls calls' : List Activation} {t t' : Store}
      (hflag : s.settings.partialMatching = .ok pm)
      (hdirect : ComesTo ctx calls s t direct quosure) (hlength : calls.length = 1)
      (hchained : ComesTo ctx calls' s t' chained quosure) (hlength' : calls'.length = n)
      (hplain : (∀ e ∈ arg, e.containsInjection = false) →
        (∃ w, direct s = .ok (writtenQuosure E arg) w) ∧
          ∃ w, chained s = .ok (writtenQuosure E arg) w)

/-- Embracing is transparent. Let one name stand for a closure that captures its argument and
another one for a closure that leads to it through wrappers. A call of either name with the same
argument, or with none, comes to the quosure of this argument as it is written in the environment of
the call: injections into it are expanded there and nowhere else, a quosure that it comes to is the
quosure itself, and no frame of a wrapper and no other quosure is around it. -/
theorem embracing_agrees {k : Nat} {E : EnvId} {name first : String} {g last : ClosureId}
    {passings : List Passing} {arg : Option Expr} (hs : s.Whole) (hE : s.known E = E)
    (hdots : ∀ e ∈ arg, e.isSymbol dotsName = false)
    (hname : s.Calls E name (.closure last)) (hfirst : s.Calls E first (.closure g))
    (hchain : Embraces s last g passings)
    (hroom : (s.evaluator ctx).depth + passings.length < (s.evaluator ctx).maxDepth) :
    SameQuosure ctx (passings.length + 1) E arg s (argumentQuosure (ofLevel k) ctx E arg)
      ((ofLevel (k + 2)).eval ctx (.call (.symbol name) (arg.toList.map .bare)) E)
      ((ofLevel (k + Passing.levelsOf passings + passings.length + 2)).eval ctx
        (.call (.symbol first) (arg.toList.map .bare)) E) := by
  cases hflag : s.settings.partialMatching with
  | error fault =>
      obtain ⟨r, t, hdirect⟩ := eval_unreadable (n := k + 1) hflag hE hdots hname
        hchain.of_chain
      obtain ⟨r', t', hchained⟩ := eval_unreadable hflag hE hdots hfirst hchain
      exact .unreadable hflag hdirect hchained
  | ok pm =>
      have hroom' : (s.evaluator ctx).depth + ([] : List Passing).length <
          (s.evaluator ctx).maxDepth := by
        rw [List.length_nil]
        omega
      obtain ⟨calls, t, hlength, hdirect⟩ :=
        eval_embraces (k := k) hs hflag hE hdots hname hchain.of_chain hroom'
      obtain ⟨calls', t', hlength', hchained⟩ :=
        eval_embraces (k := k) hs hflag hE hdots hfirst hchain hroom
      refine .captured hflag hdirect hlength hchained hlength' fun hplain => ?_
      have hpure := argumentQuosure_plain hplain (ofLevel k) ctx E
      exact ⟨hdirect.returns _ t (congrFun hpure t) rfl, hchained.returns _ t' (congrFun hpure t') rfl⟩

/-- A closure that captures its argument under the name `inner`. `middle` hands its argument on to it
as the quosure that it captured, and `outer` to `middle` by embracing it. -/
def embracing : Store where
  scopes := #[⟨[("enquo", .builtin (.special .capturedQuosure) .empty), ("inner", .closure ⟨0⟩),
    ("middle", .closure ⟨1⟩), ("outer", .closure ⟨2⟩)], .empty, none⟩]
  closures := #[
    ⟨[("x", .missing)], .call (.symbol "enquo") [.bare (.symbol "x")], .scope 0, none⟩,
    ⟨[("y", .missing)], .call (.symbol "inner") [.bare ((Passing.unquoted "enquo").code "y")],
      .scope 0, none⟩,
    ⟨[("x", .missing)], .call (.symbol "middle") [.bare (Passing.embraced.code "x")], .scope 0,
      none⟩]
  evaluators := #[⟨some (.scope 0), 10, [], 0, []⟩]

theorem whole_embracing : embracing.Whole := Store.whole_of_single rfl rfl rfl rfl

/-- Both ways of handing an argument on, and an injection into the argument. -/
theorem embracing_agrees_mixed :
    let arg := Expr.call (.symbol "+")
      [.bare (.symbol "a"), .bare (.call (.symbol unquoteName) [.bare (.symbol "b")])]
    SameQuosure ⟨0⟩ 3 (.scope 0) (some arg) embracing
      (argumentQuosure (ofLevel 4) ⟨0⟩ (.scope 0) (some arg))
      ((ofLevel 6).eval ⟨0⟩ (.call (.symbol "inner") [.bare arg]) (.scope 0))
      ((ofLevel 11).eval ⟨0⟩ (.call (.symbol "outer") [.bare arg]) (.scope 0)) := by
  have hcalls (name : String) (fn : Value) (hslot : embracing.slot? (.scope 0) name = some fn)
      (hready : embracing.ready? fn = some fn) (hfn : fn.isInvocable = true) :
      embracing.Calls (.scope 0) name fn := .here hslot hready hfn
  have hcaptures : embracing.Captures (.scope 0) "enquo" := ⟨.empty, hcalls _ _ rfl rfl rfl⟩
  have hinner := hcalls "inner" (.closure ⟨0⟩) rfl rfl rfl
  have hmiddle := hcalls "middle" (.closure ⟨1⟩) rfl rfl rfl
  have houter := hcalls "outer" (.closure ⟨2⟩) rfl rfl rfl
  have hform : ∀ enquo ∈ (Passing.unquoted "enquo").form?,
      "y" ≠ enquo ∧ embracing.Captures (.scope 0) enquo := by
    rintro _ ⟨⟩
    exact ⟨by decide, hcaptures⟩
  have hchain : Embraces embracing ⟨0⟩ ⟨2⟩ [.embraced, .unquoted "enquo"] :=
    .wrapper ⟨by decide, rfl, rfl⟩ rfl (by decide) hmiddle nofun
      (.wrapper ⟨by decide, rfl, rfl⟩ rfl (by decide) hinner hform
        (.last ⟨by decide, rfl, rfl⟩ rfl (by decide) hcaptures))
  refine embracing_agrees (k := 4) whole_embracing rfl ?_ hinner houter hchain
    (by decide)
  rintro _ ⟨⟩
  rfl

end Machine

end Quasi
