import Quasi.Proofs.Factory.Counter
import Quasi.Proofs.Depth.Session

/-!
# Instances are isolated

A session makes instances of a factory and calls them in any order. Each counts its own calls,
whatever the others do, and the name that they count under stays what it is in the global
environment.
-/

namespace Quasi

open Run (bind_of_ok)
open Machine (ofLevel)
open Store (SameStack)

namespace Session

variable {ctx : EvaluatorId} {s t : Store}

/-- Every session has a machine that nests deep enough for the code of the factory. -/
theorem exists_machine (s : Store) : ∃ n, ∀ code, evalExpr (.code code) .absent s =
    Machine.evaluate (ofLevel (n + 10)) evaluator code globalEnv s := by
  let depth := s.evaluators.foldl (fun depth e => max depth e.maxDepth) 0
  obtain ⟨n, hn⟩ : ∃ n, Machine.levelsFor depth = n + 10 :=
    ⟨Machine.levelsFor depth - 10, by unfold Machine.levelsFor; omega⟩
  refine ⟨n, fun code => ?_⟩
  rw [← hn]
  rfl

/-- A request for a value that leaves the stack alone changes nothing else. -/
theorem evaluate_of_ok {m : Machine} {code : Expr} {env : EnvId} {v : Value}
    (h : m.eval ctx code env s = .ok v t) (hstack : SameStack ctx s t) :
    ∃ u, m.evaluate ctx code env s = .ok v u ∧ t.SameHeap u ∧ SameStack ctx s u := by
  have hattempt : Run.attempt (m.eval ctx code env) s = .ok (.ok v) t := by
    simp only [Run.attempt, h]
  have hframes : Machine.restore (s.evaluator ctx).frames.length (t.evaluator ctx).frames =
      (s.evaluator ctx).frames := by
    rw [hstack.frames, Machine.restore, Nat.sub_self, List.drop_zero]
  refine ⟨Layer.restored t ctx (s.evaluator ctx), ?_, ⟨rfl, rfl, rfl, rfl, rfl⟩, ?_⟩
  · rw [Machine.evaluate, Machine.request, Run.get_bind, bind_of_ok hattempt]
    rfl
  · unfold Layer.restored
    constructor <;> rw [Store.evaluator_setEvaluator] <;> split
    · exact hframes
    · exact hstack.frames
    · rfl
    · exact hstack.depth
    · exact hstack.maxDepth
    · exact hstack.maxDepth

/-- A request has no other value than the evaluation that it asks for. -/
theorem exists_of_evaluate {m : Machine} {code : Expr} {env : EnvId} {v : Value}
    (h : m.evaluate ctx code env s = .ok v t) : ∃ w u, m.eval ctx code env s = .ok w u := by
  rw [Machine.evaluate, Machine.request, Run.get_bind] at h
  obtain ⟨outcome, u, hattempt, h⟩ := Run.bind_eq_ok h
  rcases Run.attempt_eq_ok hattempt with ⟨w, rfl, hw⟩ | ⟨x, rfl, hx⟩
  · exact ⟨w, u, hw⟩
  · obtain ⟨-, v', -, h⟩ := Run.bind_eq_ok h
    rcases x with f | ⟨w, target⟩ | _
    · cases h
    · dsimp only at h
      split at h <;> cases h
    · cases h

end Session

namespace Counter

open Session (Provides globalEnv evaluator)

/-! ## Requests -/

/-- What is asked of a session that has the factory. -/
inductive Request where
  /-- Bind a new instance to a name. -/
  | create (name : String)
  /-- Call the instance of a name. -/
  | call (name : String)
deriving DecidableEq

def Request.code : Request → Expr
  | .create name => .apply "<-" [.symbol name, .apply "counter" []]
  | .call name => .apply name []

def Request.run (r : Request) : Run Value := Session.evalExpr (.code r.code) .absent

example : (Request.create "a").code.deparse = "(<- a (counter))" := by decide

/-- The names that the code of the factory uses. -/
def reserved : List String := "n" :: "counter" :: used.map Builtin.name

/-- Every instance is created under a name of its own, and called only after that. -/
def Sensible : List String → List Request → Prop
  | _, [] => True
  | made, .create name :: rest => (name ∉ reserved ∧ name ∉ made) ∧ Sensible (name :: made) rest
  | made, .call name :: rest => name ∈ made ∧ Sensible made rest

instance Sensible.decidable : ∀ made requests, Decidable (Sensible made requests)
  | _, [] => inferInstanceAs (Decidable True)
  | made, .create name :: rest =>
      have := Sensible.decidable (name :: made) rest
      inferInstanceAs (Decidable ((name ∉ reserved ∧ name ∉ made) ∧ Sensible (name :: made) rest))
  | made, .call name :: rest =>
      have := Sensible.decidable made rest
      inferInstanceAs (Decidable (name ∈ made ∧ Sensible made rest))

/-! ## Sessions with instances -/

/-- An instance that a name is bound to. -/
structure Place where
  closure : ClosureId
  scope : Nat
  count : Nat

/-- The factory was defined. -/
structure Factory (s : Store) (c : ClosureId) : Prop where
  exists_closure : c.index < s.closures.size
  name : (s.scope 1).vars.get? "counter" = some (.closure c)
  formals : (s.closure c).formals = []
  body : (s.closure c).body = body
  env : (s.closure c).env = globalEnv

/-- A session that has the factory, room for a call, and some instances. -/
structure Workshop (s : Store) (made : String → Option Place) : Prop where
  provides : Provides s used
  idle : (s.evaluator evaluator).frames = []
  room : (s.evaluator evaluator).depth < (s.evaluator evaluator).maxDepth
  flag : ∃ pm, s.settings.partialMatching = .ok pm
  factory : ∃ c, Factory s c
  bound : ∀ name x, made name = some x → (s.scope 1).vars.get? name = some (.closure x.closure)
  counts : ∀ name x, made name = some x → Instance s x.closure x.scope x.count
  apart : ∀ a b x y, made a = some x → made b = some y → x.scope = y.scope → a = b

variable {s t : Store} {made : String → Option Place} {name : String} {x : Place}

/-- An evaluator without calls under way has no exit actions to run. -/
theorem bare_of_idle (h : (s.evaluator evaluator).frames = []) : Footing.Bare evaluator s := by
  intro frame hframe
  rw [h] at hframe
  cases hframe

theorem Workshop.bare (h : Workshop s made) : Footing.Bare evaluator s := bare_of_idle h.idle

/-- A session goes on after a change that leaves the names of the other instances and their
environments alone. -/
theorem Workshop.update {j : Nat} {y : Place} (h : Workshop s made) (hst : Touches j s t)
    (hstack : SameStack evaluator s t) (hprovides : Provides t used)
    (hname : (t.scope 1).vars.get? name = some (.closure y.closure))
    (hy : Instance t y.closure y.scope y.count)
    (hnames : ∀ other, other ≠ name → (t.scope 1).vars.get? other = (s.scope 1).vars.get? other)
    (hne : name ≠ "counter")
    (hothers : ∀ other x, other ≠ name → made other = some x → x.scope ≠ j ∧ x.scope ≠ y.scope) :
    Workshop t (Function.update made name (some y)) := by
  have hcases {other : String} {x : Place}
      (hx : Function.update made name (some y) other = some x) :
      other = name ∧ x = y ∨ other ≠ name ∧ made other = some x := by
    by_cases heq : other = name
    · subst heq
      rw [Function.update_self] at hx
      exact .inl ⟨rfl, (Option.some.inj hx).symm⟩
    · rw [Function.update_of_ne heq] at hx
      exact .inr ⟨heq, hx⟩
  obtain ⟨c, hc⟩ := h.factory
  have hclosure : t.closure c = s.closure c := hst.closure c hc.exists_closure
  refine {
    provides := hprovides
    idle := hstack.frames.trans h.idle
    room := by rw [hstack.depth, hstack.maxDepth]; exact h.room
    flag := hst.settings ▸ h.flag
    factory := ⟨c, Nat.lt_of_lt_of_le hc.exists_closure hst.closures, ?_, hclosure ▸ hc.formals,
      hclosure ▸ hc.body, hclosure ▸ hc.env⟩
    bound := fun other x hx => ?_
    counts := fun other x hx => ?_
    apart := fun a b x z hx hz hscope => ?_ }
  · rw [hnames "counter" hne.symm, hc.name]
  · rcases hcases hx with ⟨rfl, rfl⟩ | ⟨heq, hx⟩
    · exact hname
    · rw [hnames other heq, h.bound other x hx]
  · rcases hcases hx with ⟨rfl, rfl⟩ | ⟨heq, hx⟩
    · exact hy
    · exact (h.counts other x hx).keep hst (hothers other x heq hx).1
  · rcases hcases hx, hcases hz with ⟨⟨ha, hxy⟩ | ⟨ha, hx'⟩, ⟨hb, hzy⟩ | ⟨hb, hz'⟩⟩
    · exact ha.trans hb.symm
    · exact absurd (hxy ▸ hscope.symm) (hothers b z hb hz').2
    · exact absurd (hzy ▸ hscope) (hothers a x ha hx').2
    · exact h.apart a b x z hx' hz' hscope

/-- One request for a call gives the next number of the instance, and no other instance notices. -/
theorem call_step (h : Workshop s made) (hx : made name = some x) (hname : name ≠ "counter") :
    ∃ t, (Request.call name).run s = .ok (.int (x.count + 1)) t ∧
      Workshop t (Function.update made name (some { x with count := x.count + 1 })) ∧
      (t.scope 1).vars.get? "n" = (s.scope 1).vars.get? "n" := by
  obtain ⟨pm, hpm⟩ := h.flag
  obtain ⟨n, hn⟩ := Session.exists_machine s
  have hinstance := h.counts name x hx
  obtain ⟨t, happly, htouches, hnext, hstack⟩ := call_instance (n := n + 4) h.provides hpm h.room
    h.bare hinstance (.apply name []) globalEnv
  have hcalls : s.Calls globalEnv name (.closure x.closure) :=
    h.provides.calls_bound (h.bound name x hx)
  have heval : (ofLevel (n + 10)).eval evaluator (.apply name []) globalEnv s =
      .ok (.int (x.count + 1)) t := (Machine.eval_call_of_calls hcalls evaluator _).trans happly
  obtain ⟨u, hrun, hheap, hleft⟩ := Session.evaluate_of_ok heval hstack
  have hsu : Touches x.scope s u := htouches.trans (.of_grows hheap.grows _)
  have hkept (i : Nat) (hi : i < 2) : u.scope i = s.scope i := by
    have hlater := hinstance.keeps.later
    exact hsu.scope i (Nat.lt_of_lt_of_le hi h.provides.made) (by omega)
  have hglobal : u.scope 1 = s.scope 1 := hkept 1 Nat.one_lt_two
  refine ⟨u, (hn _).trans hrun, ?_, by rw [hglobal]⟩
  refine h.update (y := { x with count := x.count + 1 }) hsu hleft
    (h.provides.keep hsu.scopes hkept) ?_ ?_ (fun other _ => by rw [hglobal]) hname
    fun other z hne hz => ?_
  · rw [hglobal, h.bound name x hx]
  · exact_mod_cast hnext.grow hheap.grows
  · have hapart : z.scope ≠ x.scope := fun heq => hne (h.apart other name z x hz hx heq)
    exact ⟨hapart, hapart⟩

/-! ## Binding functions -/

/-- Binding a name that is not one of theirs leaves the built-in functions as they are. -/
theorem provides_bind (h : Provides s used) (hst : Touches 1 s t)
    (hname : name ∉ used.map Builtin.name) {v : Value}
    (hglobal : t.scope 1 = { s.scope 1 with vars := (s.scope 1).vars.set name v }) :
    Provides t used where
  made := Nat.le_trans h.made hst.scopes
  base := by
    rw [hst.scope 0 (Nat.lt_of_lt_of_le Nat.zero_lt_two h.made) Nat.zero_ne_one]
    exact h.base
  global := by
    rw [hglobal]
    exact h.global
  unbound b hb := by
    have hne : b.name ≠ name := by
      rintro rfl
      exact hname (List.mem_map_of_mem hb)
    rw [hglobal]
    exact (Bindings.get?_set_of_ne _ _ hne).trans (h.unbound b hb)
  names := by
    rw [hst.scope 0 (Nat.lt_of_lt_of_le Nat.zero_lt_two h.made) Nat.zero_ne_one]
    exact h.names

/-- The store in which a function got its name and was bound to it. -/
def bind (t : Store) (d : ClosureId) (name : String) : Store :=
  (t.setClosure d fun closure => { closure with name := closure.name <|> some name }).setVars
    globalEnv fun vars => vars.set name (.closure d)

/-- Binding a function that was just made, as a request. -/
theorem bind_step (name : String) (h : Provides s used) (hname : name ∉ used.map Builtin.name)
    {e : Expr} {n : Nat} {d : ClosureId} (hn : ∀ code, Session.evalExpr (.code code) .absent s =
      Machine.evaluate (ofLevel (n + 1)) evaluator code globalEnv s)
    (hvalue : (ofLevel n).eval evaluator e globalEnv s = .ok (.closure d) t)
    (hd : s.closures.size ≤ d.index) (hst : ∀ j, Touches j s t) (hstack : SameStack evaluator s t) :
    ∃ u, Session.evalExpr (.code (.apply "<-" [.symbol name, e])) .absent s = .ok (.closure d) u ∧
      (bind t d name).SameHeap u ∧ Touches 1 s u ∧ SameStack evaluator s u ∧ Provides u used ∧
      (u.scope 1).vars = (s.scope 1).vars.set name (.closure d) := by
  obtain ⟨home, hassign⟩ := h.offers_global (b := .special .assign) (by decide)
  let named := t.setClosure d fun closure => { closure with name := closure.name <|> some name }
  have hassignment : Machine.assignment (ofLevel n) evaluator [.bare (.symbol name), .bare e]
      globalEnv s = .ok (name, .closure d) named := (bind_of_ok hvalue).trans rfl
  have heval : (ofLevel (n + 1)).eval evaluator (.apply "<-" [.symbol name, e]) globalEnv s =
      .ok (.closure d) (bind t d name) :=
    (Machine.eval_call_of_calls hassign evaluator _).trans ((bind_of_ok hassignment).trans rfl)
  obtain ⟨u, hrun, hheap, hleft⟩ :=
    Session.evaluate_of_ok heval (hstack.trans (.of_evaluators rfl))
  have hnamed : Touches 1 s named := (hst 1).setClosure hd _
  have hsu : Touches 1 s u :=
    (hnamed.trans (.setVars named 1 _)).trans (.of_grows hheap.grows 1)
  have hglobal : u.scope 1 = { s.scope 1 with vars := (s.scope 1).vars.set name (.closure d) } := by
    have hkept : named.scope 1 = s.scope 1 := (hst 0).scope 1 h.made Nat.one_ne_zero
    rw [hheap.scope, ← hkept]
    exact Machine.scope_setVars (Nat.lt_of_lt_of_le h.made hnamed.scopes) _
  exact ⟨u, (hn _).trans hrun, hheap, hsu, hleft, provides_bind h hsu hname hglobal,
    congrArg Scope.vars hglobal⟩

/-- A call of the factory by its name. -/
theorem eval_counter {pm : Bool} {c : ClosureId} {n : Nat} (h : Provides s used) (hc : Factory s c)
    (hpm : s.settings.partialMatching = .ok pm)
    (hroom : (s.evaluator evaluator).depth < (s.evaluator evaluator).maxDepth)
    (hbare : Footing.Bare evaluator s) :
    ∃ t, (ofLevel (n + 5)).eval evaluator (.apply "counter" []) globalEnv s =
        .ok (.closure ⟨s.closures.size⟩) t ∧
      (∀ j, Touches j s t) ∧ Instance t ⟨s.closures.size⟩ s.scopes.size 0 ∧
      SameStack evaluator s t := by
  obtain ⟨t, happly, hmakes⟩ := call_factory (n := n) h hpm hroom hbare hc.formals hc.body hc.env
    (.apply "counter" []) globalEnv
  have hname : s.Calls globalEnv "counter" (.closure c) := h.calls_bound hc.name
  exact ⟨t, (Machine.eval_call_of_calls hname evaluator _).trans happly, hmakes⟩

/-- One request for an instance makes it, and no other instance notices. -/
theorem create_step (h : Workshop s made) (hname : name ∉ reserved) :
    ∃ v t x, (Request.create name).run s = .ok v t ∧ x.count = 0 ∧
      Workshop t (Function.update made name (some x)) ∧
      (t.scope 1).vars.get? "n" = (s.scope 1).vars.get? "n" := by
  obtain ⟨pm, hpm⟩ := h.flag
  obtain ⟨n, hn⟩ := Session.exists_machine s
  obtain ⟨c, hc⟩ := h.factory
  obtain ⟨t, hvalue, htouches, hzero, hstack⟩ :=
    eval_counter (n := n + 4) h.provides hc hpm h.room h.bare
  have hnot (other : String) (hother : other ∈ reserved) : other ≠ name := by
    rintro rfl
    exact hname hother
  obtain ⟨w, hrun, hheap, hsw, hleft, hprovides, hvars⟩ := bind_step name h.provides
    (fun hmem => hname (List.mem_cons_of_mem _ (List.mem_cons_of_mem _ hmem))) hn hvalue
    (Nat.le_refl _) htouches hstack
  have hnames (other : String) (hne : other ≠ name) :
      (w.scope 1).vars.get? other = (s.scope 1).vars.get? other := by
    rw [hvars]
    exact Bindings.get?_set_of_ne _ _ hne
  have hlater (other : String) (x : Place) (hx : made other = some x) :
      x.scope ≠ 1 ∧ x.scope ≠ s.scopes.size := by
    have hkeeps := (h.counts other x hx).keeps
    have := hkeeps.later
    have := hkeeps.exists_scope
    omega
  have hinstance : Instance w ⟨s.closures.size⟩ s.scopes.size 0 := by
    have hne : s.scopes.size ≠ 1 := Nat.ne_of_gt h.provides.made
    exact (((hzero.rename fun old => old <|> some name).keep (.setVars _ 1 _) hne).grow hheap.grows)
  refine ⟨_, w, ⟨⟨s.closures.size⟩, s.scopes.size, 0⟩, hrun, rfl, ?_,
    hnames "n" (hnot "n" (List.mem_cons_self ..))⟩
  refine h.update hsw hleft hprovides ?_ hinstance hnames
    (hnot "counter" (by decide)).symm fun other x _ hx => hlater other x hx
  rw [hvars]
  exact Bindings.get?_set_self ..

/-! ## The factory -/

/-- The factory is defined by one request. -/
theorem definition_step (h : Provides s used) :
    ∃ c t, Session.evalExpr (.code definition) .absent s = .ok (.closure c) t ∧ Factory t c ∧
      Provides t used ∧ t.settings = s.settings ∧ SameStack evaluator s t ∧
      (t.scope 1).vars.get? "n" = (s.scope 1).vars.get? "n" := by
  obtain ⟨n, hn⟩ := Session.exists_machine s
  obtain ⟨home, hfunction⟩ := h.offers_global (b := .special .function) (by decide)
  let c : ClosureId := ⟨s.closures.size⟩
  let made := s.addClosure ⟨[], body, globalEnv, none⟩
  have hvalue : (ofLevel (n + 9)).eval evaluator (.apply "function" [.formals [],
      .apply "<-" [.symbol "n", .const (.int 0)],
      .apply "function" [.formals [], advance, .symbol "n"]]) globalEnv s = .ok (.closure c) made :=
    (Machine.eval_call_of_calls hfunction evaluator _).trans rfl
  obtain ⟨t, hrun, hheap, hst, hstack, hprovides, hvars⟩ := bind_step "counter" h
    (by decide) hn hvalue (Nat.le_refl _) (.addClosure s _) (.of_evaluators rfl)
  have hsize : c.index < made.closures.size :=
    Nat.lt_of_lt_of_eq (Nat.lt_succ_self _) (Array.size_push _).symm
  have hclosure : t.closure c = ⟨[], body, globalEnv, some "counter"⟩ := by
    have hglobal : s.known globalEnv = globalEnv := Store.known_eq_scope.mpr h.made
    have hadded : made.closure c = ⟨[], body, globalEnv, none⟩ := by
      rw [Store.closure_addClosure, if_pos rfl, hglobal]
    have hnamed : (bind made c "counter").closure c = { made.closure c with
        name := (made.closure c).name <|> some "counter" } :=
      (made.closure_setClosure c _ c).trans (if_pos ⟨rfl, hsize⟩)
    rw [hheap.closure, hnamed, hadded]
    rfl
  refine ⟨c, t, hrun, ⟨?_, ?_, by rw [hclosure], by rw [hclosure], by rw [hclosure]⟩, hprovides,
    hst.settings, hstack, ?_⟩
  · rw [hheap.closures]
    exact Nat.lt_of_lt_of_eq hsize Array.size_modify.symm
  · rw [hvars]
    exact Bindings.get?_set_self ..
  · rw [hvars]
    exact Bindings.get?_set_of_ne _ _ (by decide)

section Callable

variable {c : ClosureId} (h : Provides s used) (hc : Factory s c)

include h hc

/-- A factory that can be called needs no more than that its instances can be made. -/
theorem room_of_call {v : Value}
    (hcall : Session.evalExpr (.code (.apply "counter" [])) .absent s = .ok v t) :
    (∃ pm, s.settings.partialMatching = .ok pm) ∧
      (s.evaluator evaluator).depth < (s.evaluator evaluator).maxDepth := by
  obtain ⟨n, hn⟩ := Session.exists_machine s
  obtain ⟨w, u, hw⟩ := Session.exists_of_evaluate ((hn _).symm.trans hcall)
  have hfactory := h.calls_bound hc.name
  exact Machine.room_of_applyClosure hc.formals
    ((Machine.eval_call_of_calls hfactory evaluator _).symm.trans hw)

theorem call_of_room {pm : Bool} (hpm : s.settings.partialMatching = .ok pm)
    (hroom : (s.evaluator evaluator).depth < (s.evaluator evaluator).maxDepth)
    (hbare : Footing.Bare evaluator s) :
    ∃ v t, Session.evalExpr (.code (.apply "counter" [])) .absent s = .ok v t := by
  obtain ⟨n, hn⟩ := Session.exists_machine s
  obtain ⟨t, hvalue, -, -, hstack⟩ := eval_counter (n := n + 5) h hc hpm hroom hbare
  obtain ⟨u, hrun, -⟩ := Session.evaluate_of_ok hvalue hstack
  exact ⟨_, u, (hn _).trans hrun⟩

end Callable

/-! ## Any number of requests -/

/-- The calls among some requests give one number after the other for each instance, from where it
starts. -/
def CountsUp (start : String → Nat) (requests : List Request) (values : List Value) : Prop :=
  values.length = requests.length ∧
    ∀ (i : Nat) (name : String), requests[i]? = some (Request.call name) → values[i]? =
      some (Value.int ((start name + (requests.take (i + 1)).count (.call name) : Nat) : Int))

theorem CountsUp.cons {r : Request} {rest : List Request} {v : Value} {values : List Value}
    {start next : String → Nat} (hv : ∀ name, r = .call name → v = .int (start name + 1))
    (hnext : ∀ name, next name = start name + if r = .call name then 1 else 0)
    (h : CountsUp next rest values) : CountsUp start (r :: rest) (v :: values) := by
  refine ⟨congrArg Nat.succ h.1, fun i name hi => ?_⟩
  cases i with
  | zero =>
      rw [List.getElem?_cons_zero] at hi
      cases Option.some.inj hi
      rw [List.getElem?_cons_zero, hv name rfl]
      simp
  | succ i =>
      rw [List.getElem?_cons_succ] at hi ⊢
      rw [h.2 i name hi, hnext, List.take_succ_cons, List.count_cons]
      by_cases hr : r = .call name
      · simp only [hr, if_true, beq_self_eq_true]
        congr 2
        push_cast
        omega
      · simp [hr]

/-- The number of calls that the instance of a name has counted. -/
def counted (made : String → Option Place) (name : String) : Nat :=
  ((made name).map (·.count)).getD 0

theorem counted_update (made : String → Option Place) (name : String) (x : Place) (other : String) :
    counted (Function.update made name (some x)) other =
      if name = other then x.count else counted made other := by
  by_cases h : name = other
  · subst h
    rw [counted, Function.update_self, if_pos rfl]
    rfl
  · rw [counted, Function.update_of_ne (Ne.symm h), if_neg h]
    rfl

theorem isSome_update (made : String → Option Place) (name : String) (x : Place) (other : String) :
    (Function.update made name (some x) other).isSome ↔ other = name ∨ (made other).isSome := by
  by_cases h : other = name
  · simp [h]
  · rw [Function.update_of_ne h]
    simp [h]

/-- Each instance goes on from what it has counted, in whatever order the requests come. -/
theorem run_requests {requests : List Request} (names : List String) (h : Workshop s made)
    (hnames : ∀ name, name ∈ names ↔ (made name).isSome) (hcounter : "counter" ∉ names)
    (hrequests : Sensible names requests) :
    ∃ values t, requests.mapM Request.run s = .ok values t ∧
      CountsUp (counted made) requests values ∧
      (t.scope 1).vars.get? "n" = (s.scope 1).vars.get? "n" := by
  induction requests generalizing s made names with
  | nil => exact ⟨[], s, rfl, ⟨rfl, nofun⟩, rfl⟩
  | cons r rest ih =>
      cases r with
      | create name =>
          obtain ⟨⟨hname, hnew⟩, hrest⟩ := hrequests
          obtain ⟨v, t, x, hrun, hx, hstep, hn⟩ := create_step h hname
          have hnone : counted made name = 0 := by
            have hfree : made name = none := by
              rw [← Option.not_isSome_iff_eq_none, ← hnames]
              exact hnew
            rw [counted, hfree]
            rfl
          have hne : "counter" ∉ name :: names := by
            rintro (_ | ⟨_, hmem⟩)
            · exact hname (by decide)
            · exact hcounter hmem
          obtain ⟨values, u, hvalues, hcounts, hn'⟩ := ih (name :: names) hstep
            (fun other => by rw [List.mem_cons, hnames, isSome_update]) hne hrest
          refine ⟨v :: values, u, ?_, hcounts.cons (fun _ h => nomatch h) fun other => ?_,
            hn'.trans hn⟩
          · rw [List.mapM_cons, bind_of_ok hrun, bind_of_ok hvalues]
            rfl
          · rw [counted_update, if_neg (fun h => Request.noConfusion h)]
            split
            next heq => rw [← heq, hx, hnone]
            next => rfl
      | call name =>
          obtain ⟨hmem, hrest⟩ := hrequests
          obtain ⟨x, hx⟩ := Option.isSome_iff_exists.mp ((hnames name).mp hmem)
          have hcount : counted made name = x.count := by
            rw [counted, hx]
            rfl
          obtain ⟨t, hrun, hstep, hn⟩ := call_step h hx (by rintro rfl; exact hcounter hmem)
          obtain ⟨values, u, hvalues, hcounts, hn'⟩ := ih names hstep
            (fun other => by
              rw [isSome_update, hnames]
              refine ⟨.inr, fun hother => hother.elim (fun heq => ?_) id⟩
              rw [heq, hx]
              rfl) hcounter hrest
          refine ⟨.int (x.count + 1) :: values, u, ?_, hcounts.cons ?_ fun other => ?_,
            hn'.trans hn⟩
          · rw [List.mapM_cons, bind_of_ok hrun, bind_of_ok hvalues]
            rfl
          · rintro _ ⟨⟩
            rw [hcount]
          · rw [counted_update]
            by_cases heq : name = other
            · rw [if_pos heq, if_pos (congrArg _ heq), ← heq, hcount]
            · rw [if_neg heq, if_neg fun h => heq (Request.call.inj h)]
              rfl

/-- Instances of a factory are isolated. In a session where the code of the factory means what it
says, the factory can be defined. If it can be called then, instances can be made under any names of
their own and called in any order: each call gives the number of calls of the same instance so far,
whatever happened to the others, and the name that they count under is bound in the global
environment as it was before. -/
theorem instances_isolated (hs : Provides s used) (hidle : (s.evaluator evaluator).frames = []) :
    ∃ fn t, Session.evalExpr (.code definition) .absent s = .ok fn t ∧
      ∀ v u, Session.evalExpr (.code (.apply "counter" [])) .absent t = .ok v u →
        ∀ requests, Sensible [] requests →
          ∃ values w, requests.mapM Request.run t = .ok values w ∧
            values.length = requests.length ∧
            (∀ (i : Nat) (name : String), requests[i]? = some (Request.call name) →
              values[i]? = some (Value.int ((requests.take (i + 1)).count (.call name) : Nat))) ∧
            w.slot? globalEnv "n" = s.slot? globalEnv "n" := by
  obtain ⟨c, t, hrun, hc, hprovides, -, hstack, hn⟩ := definition_step hs
  refine ⟨.closure c, t, hrun, fun v u hcall requests hrequests => ?_⟩
  obtain ⟨hflag, hroom⟩ := room_of_call hprovides hc hcall
  have hworkshop : Workshop t fun _ => none := {
    provides := hprovides
    idle := hstack.frames.trans hidle
    room := hroom
    flag := hflag
    factory := ⟨c, hc⟩
    bound := nofun
    counts := nofun
    apart := nofun }
  obtain ⟨values, w, hvalues, ⟨hlength, hcounts⟩, hn'⟩ :=
    run_requests [] hworkshop (by simp) (by simp) hrequests
  refine ⟨values, w, hvalues, hlength, fun i name hi => ?_, hn'.trans hn⟩
  rw [hcounts i name hi, counted, Option.map_none, Option.getD_none, Nat.zero_add]

/-- A new session with room for one call. -/
def roomForOne : Store := Session.fresh [] false 1

theorem provides_roomForOne : Provides roomForOne used where
  made := Nat.le_refl 2
  base := rfl
  global := rfl
  unbound _ _ := rfl
  names b hb := ⟨Session.baseEnv, Session.get?_builtins (by revert b; decide) Session.baseEnv⟩

/-- Two instances are made and called in turn. -/
def inTurn : List Request := [.create "a", .create "b", .call "a", .call "a", .call "b", .call "a"]

theorem instances_isolated_in_turn : Provides roomForOne used ∧
    (roomForOne.evaluator evaluator).frames = [] ∧ Sensible [] inTurn ∧
    ∃ fn t values w, Session.evalExpr (.code definition) .absent roomForOne = .ok fn t ∧
      inTurn.mapM Request.run t = .ok values w ∧
      values.drop 2 = [.int 1, .int 2, .int 1, .int 3] ∧ w.slot? globalEnv "n" = none := by
  obtain ⟨fn, t, hrun, hisolated⟩ := instances_isolated provides_roomForOne rfl
  obtain ⟨c, t', hrun', hc, hprovides, hsettings, hstack, -⟩ := definition_step provides_roomForOne
  cases hrun.symm.trans hrun'
  have hflag : t.settings.partialMatching = .ok true := hsettings ▸ rfl
  have hroom : (t.evaluator evaluator).depth < (t.evaluator evaluator).maxDepth := by
    rw [hstack.depth, hstack.maxDepth]
    decide
  have hbare : Footing.Bare evaluator t := bare_of_idle hstack.frames
  obtain ⟨v, u, hcall⟩ := call_of_room hprovides hc hflag hroom hbare
  have hsensible : Sensible [] inTurn := by decide
  obtain ⟨values, w, hvalues, hlength, hcounts, hn⟩ := hisolated v u hcall inTurn hsensible
  refine ⟨provides_roomForOne, rfl, hsensible, _, t, values, w, hrun, hvalues, ?_, hn.trans rfl⟩
  apply List.ext_getElem?
  intro i
  rw [List.getElem?_drop]
  rcases i with _ | _ | _ | _ | i
  · exact hcounts 2 "a" rfl
  · exact hcounts 3 "a" rfl
  · exact hcounts 4 "b" rfl
  · exact hcounts 5 "a" rfl
  · have hcount : values.length = 6 := hlength
    exact List.getElem?_eq_none (by omega)

end Counter

end Quasi
