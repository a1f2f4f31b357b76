import Quasi.Proofs.Call.Nullary
import Quasi.Session.Evaluation

/-!
# A factory of counters

A function without formals binds a number in the environment of its call and gives a function that
was made there. Each call of the factory has an environment of its own, and what it gives adds to
the number there and nowhere else: the nearest binding of the name above a call of an instance is
that of the environment where the instance was made.
-/

namespace Quasi

open Run (bind_of_ok)
open Machine (ofLevel)
open Store (SameStack)

namespace Session

/-! ## Built-in functions that a session offers -/

/-- In the global environment of a session some names stand for the built-in functions that they
belong to. -/
structure Provides (s : Store) (used : List Builtin) : Prop where
  made : 2 ≤ s.scopes.size
  base : (s.scope 0).parent = .empty
  global : (s.scope 1).parent = baseEnv
  unbound : ∀ b ∈ used, (s.scope 1).vars.get? b.name = none
  names : ∀ b ∈ used, ∃ home, (s.scope 0).vars.get? b.name = some (.builtin b home)

namespace Provides

variable {s t : Store} {used : List Builtin} {b : Builtin} {e : EnvId}

/-- Only the two environments of the session matter. -/
theorem keep (h : Provides s used) (hsize : s.scopes.size ≤ t.scopes.size)
    (hkept : ∀ i, i < 2 → t.scope i = s.scope i) : Provides t used := by
  have hbase := hkept 0 Nat.zero_lt_two
  have hglobal := hkept 1 Nat.one_lt_two
  exact ⟨Nat.le_trans h.made hsize, hbase ▸ h.base, hglobal ▸ h.global, hglobal ▸ h.unbound,
    hbase ▸ h.names⟩

theorem grow (h : Provides s used) (hst : s.Grows t) : Provides t used :=
  h.keep hst.scopes fun i hi => hst.scope i (Nat.lt_of_lt_of_le hi h.made)

theorem path (h : Provides s used) : s.Path globalEnv [globalEnv, baseEnv, .empty] :=
  .cons (congrArg some h.global) (.cons (congrArg some h.base) .empty)

/-- The names stand for the functions in environments below, too, that do not bind them. -/
theorem calls (h : Provides s used) (hb : b ∈ used) {home : EnvId}
    (hname : (s.scope 0).vars.get? b.name = some (.builtin b home)) (envs : List EnvId)
    (hpath : s.Path e (envs ++ [globalEnv, baseEnv, .empty])) (hcount : envs.length < s.scopes.size)
    (hnone : ∀ x ∈ envs, s.slot? x b.name = none) : s.Calls e b.name (.builtin b home) := by
  refine hpath.calls ?_ ?_
  · simp only [List.length_append, List.length_cons, List.length_nil, Store.environmentCount]
    omega
  · clear hpath hcount
    induction envs with
    | nil => exact .unbound (h.unbound b hb) (.here hname rfl rfl)
    | cons x envs ih =>
        obtain ⟨hx, hrest⟩ := List.forall_mem_cons.mp hnone
        exact .unbound hx (ih hrest)

theorem offers (h : Provides s used) (hb : b ∈ used) (envs : List EnvId)
    (hpath : s.Path e (envs ++ [globalEnv, baseEnv, .empty])) (hcount : envs.length < s.scopes.size)
    (hnone : ∀ x ∈ envs, s.slot? x b.name = none) : s.Offers e b :=
  (h.names b hb).imp fun _ hname => h.calls hb hname envs hpath hcount hnone

theorem offers_global (h : Provides s used) (hb : b ∈ used) : s.Offers globalEnv b :=
  h.offers hb [] h.path (Nat.lt_of_lt_of_le Nat.zero_lt_two h.made) nofun

/-- A name that the global environment binds to a function stands for it. -/
theorem calls_bound (h : Provides s used) {name : String} {c : ClosureId}
    (hname : (s.scope 1).vars.get? name = some (.closure c)) :
    s.Calls globalEnv name (.closure c) := by
  refine h.path.calls ?_ (.here hname rfl rfl)
  have hmade := h.made
  simp only [List.length_cons, List.length_nil, Store.environmentCount]
  omega

end Provides

end Session

namespace Counter

open Session (Provides globalEnv)

/-! ## The code -/

def advance : Expr := .apply "<<-" [.symbol "n", .apply "+" [.symbol "n", .const (.int 1)]]

/-- What a call of an instance evaluates. -/
def step : Expr := .apply "\x7b" [advance, .symbol "n"]

/-- What a call of the factory evaluates. -/
def body : Expr :=
  .apply "\x7b" [.apply "<-" [.symbol "n", .const (.int 0)],
    .apply "function" [.formals [], advance, .symbol "n"]]

/-- The code that binds the factory to its name. -/
def definition : Expr :=
  .apply "<-" [.symbol "counter",
    .apply "function" [.formals [], .apply "<-" [.symbol "n", .const (.int 0)],
      .apply "function" [.formals [], advance, .symbol "n"]]]

example : definition.deparse =
    "(<- counter (function () (<- n 0) (function () (<<- n (+ n 1)) n)))" := by decide

/-- The built-in functions that the code uses. -/
def used : List Builtin :=
  [.special .function, .special .assign, .special .superAssign, .special .block,
    .primitive (.binary .add)]

variable {ctx : EvaluatorId} {s t u : Store} {i f n : Nat} {k : Int}

/-! ## Where an instance keeps its number -/

/-- An environment below the global one that binds nothing but a number. -/
structure Keeps (s : Store) (i : Nat) (k : Int) : Prop where
  later : 2 ≤ i
  exists_scope : i < s.scopes.size
  scope : s.scope i = ⟨[("n", .int k)], globalEnv, none⟩

/-- The environment of a call of an instance: it binds nothing, and hangs off the one where the
instance was made. -/
structure Calling (s : Store) (f i : Nat) : Prop where
  later : i < f
  exists_scope : f < s.scopes.size
  scope : s.scope f = ⟨[], .scope i, none⟩

theorem Keeps.grow (h : Keeps s i k) (hst : s.Grows t) : Keeps t i k where
  later := h.later
  exists_scope := Nat.lt_of_lt_of_le h.exists_scope hst.scopes
  scope := (hst.scope i h.exists_scope).trans h.scope

theorem Keeps.slot? (h : Keeps s i k) (name : String) :
    s.slot? (.scope i) name = if "n" = name then some (.int k) else none :=
  Store.slot?_of_scope h.scope name

theorem Calling.grow (h : Calling s f i) (hst : s.Grows t) : Calling t f i where
  later := h.later
  exists_scope := Nat.lt_of_lt_of_le h.exists_scope hst.scopes
  scope := (hst.scope f h.exists_scope).trans h.scope

theorem Calling.slot? (h : Calling s f i) (name : String) : s.slot? (.scope f) name = none :=
  Store.slot?_of_scope h.scope name

theorem Calling.parent? (h : Calling s f i) : s.parent? (.scope f) = some (.scope i) :=
  Store.parent?_of_scope h.scope

/-- The number of an instance after it was changed. -/
theorem Keeps.setVars (h : Keeps s i k) (l : Int) :
    Keeps (s.setVars (.scope i) fun vars => vars.set "n" (.int l)) i l := by
  refine ⟨h.later, Nat.lt_of_lt_of_eq h.exists_scope Array.size_modify.symm, ?_⟩
  rw [Machine.scope_setVars h.exists_scope, h.scope]
  rfl

theorem Calling.setVars (h : Calling s f i) (g : Bindings Value → Bindings Value) :
    Calling (s.setVars (.scope i) g) f i := by
  refine ⟨h.later, Nat.lt_of_lt_of_eq h.exists_scope Array.size_modify.symm, ?_⟩
  change (s.setScope i _).scope f = _
  rw [Store.scope_setScope, if_neg fun heq => Nat.ne_of_gt h.later heq.1]
  exact h.scope

/-- In a call of an instance the functions are there that the code uses. -/
theorem calls_calling (hs : Provides s used) (hkeeps : Keeps s i k) (hcalling : Calling s f i)
    {b : Builtin} (hb : b ∈ used) (hname : "n" ≠ b.name) {home : EnvId}
    (hbase : (s.scope 0).vars.get? b.name = some (.builtin b home)) :
    s.Calls (.scope f) b.name (.builtin b home) := by
  have hpath : s.Path (.scope f) ([.scope f, .scope i] ++ [globalEnv, Session.baseEnv, .empty]) :=
    .cons hcalling.parent? (.cons (Store.parent?_of_scope hkeeps.scope) hs.path)
  have hcount : 2 < s.scopes.size := Nat.lt_of_le_of_lt hkeeps.later hkeeps.exists_scope
  refine hs.calls hb hbase _ hpath hcount fun x hx => ?_
  rcases List.mem_pair.mp hx with rfl | rfl
  · exact hcalling.slot? b.name
  · rw [hkeeps.slot?, if_neg hname]

theorem offers_calling (hs : Provides s used) (hkeeps : Keeps s i k) (hcalling : Calling s f i)
    {b : Builtin} (hb : b ∈ used) (hname : "n" ≠ b.name) : s.Offers (.scope f) b :=
  (hs.names b hb).imp fun _ hbase => calls_calling hs hkeeps hcalling hb hname hbase

/-- In a call of an instance the name has the number of the instance. -/
theorem eval_number (hkeeps : Keeps s i k) (hcalling : Calling s f i) :
    (ofLevel (n + 1)).eval ctx (.symbol "n") (.scope f) s = .ok (.int k) s := by
  have hslot : s.slot? (.scope i) "n" = some (.int k) := (hkeeps.slot? "n").trans (if_pos rfl)
  have hfind : Run.find (.scope f) "n" s = .ok (some (.scope i)) s :=
    Store.find_of_parent (hcalling.slot? "n") hcalling.parent? hslot
  have hbinding : Run.binding (.scope f) "n" s = .ok (.int k) s := by
    rw [Run.binding, bind_of_ok hfind]
    dsimp only
    rw [Run.get_bind, hslot]
    rfl
  exact bind_of_ok hbinding

/-! ## Making an instance -/

theorem keeps_zero (hi : 2 ≤ i ∧ i < s.scopes.size) (hscope : s.scope i = ⟨[], globalEnv, none⟩) :
    Keeps (s.setVars (.scope i) fun vars => vars.set "n" (.int 0)) i 0 := by
  refine ⟨hi.1, Nat.lt_of_lt_of_eq hi.2 Array.size_modify.symm, ?_⟩
  rw [Machine.scope_setVars hi.2, hscope]
  rfl

/-- The body of the factory binds zero in its environment and makes a function there. -/
theorem eval_body (ctx : EvaluatorId) (n : Nat) (hs : Provides s used)
    (hi : 2 ≤ i ∧ i < s.scopes.size)
    (hscope : s.scope i = ⟨[], globalEnv, none⟩) :
    (ofLevel (n + 4)).eval ctx body (.scope i) s = .ok (.closure ⟨s.closures.size⟩)
      ((s.setVars (.scope i) fun vars => vars.set "n" (.int 0)).addClosure
        ⟨[], step, .scope i, none⟩) := by
  let t := s.setVars (.scope i) fun vars => vars.set "n" (.int 0)
  have hkeeps : Keeps t i 0 := keeps_zero hi hscope
  have hprovides : Provides t used := hs.keep (Nat.le_of_eq Array.size_modify.symm) fun j hj => by
    change (s.setScope i _).scope j = _
    rw [Store.scope_setScope, if_neg (by omega)]
  have hoffers {b : Builtin} (hb : b ∈ used) : s.Offers (.scope i) b := by
    refine hs.offers hb [.scope i]
      (.cons (Store.parent?_of_scope hscope) hs.path) hs.made fun x hx => ?_
    cases List.mem_singleton.mp hx
    exact Store.slot?_of_scope hscope b.name
  obtain ⟨block, hblock⟩ := hoffers (b := .special .block) (by decide)
  obtain ⟨assign, hassign⟩ := hoffers (b := .special .assign) (by decide)
  obtain ⟨function, hfunction⟩ : t.Offers (.scope i) (.special .function) := by
    refine hprovides.offers (by decide) [.scope i]
      (.cons (Store.parent?_of_scope hkeeps.scope) hprovides.path)
      hprovides.made fun x hx => ?_
    cases List.mem_singleton.mp hx
    exact hkeeps.slot? "function"
  have hbind : (ofLevel (n + 3)).eval ctx (.apply "<-" [.symbol "n", .const (.int 0)]) (.scope i)
      s = .ok (.int 0) t := (Machine.eval_call_of_calls hassign ctx _).trans rfl
  have hmake : (ofLevel (n + 3)).eval ctx
      (.apply "function" [.formals [], advance, .symbol "n"]) (.scope i) t =
        .ok (.closure ⟨s.closures.size⟩) (t.addClosure ⟨[], step, .scope i, none⟩) :=
    (Machine.eval_call_of_calls hfunction ctx _).trans rfl
  exact (Machine.eval_call_of_calls hblock ctx _).trans ((bind_of_ok hbind).trans hmake)

/-! ## Calling an instance -/

/-- In a call of an instance its number and one make the next number. -/
theorem yields_next (ctx : EvaluatorId) (hs : Provides s used) (hkeeps : Keeps s i k)
    (hcalling : Calling s f i) :
    (Footing.grown s).Yields ctx 2 (.scope f) (.apply "+" [.symbol "n", .const (.int 1)])
      (.int (k + 1)) := by
  obtain ⟨home, hadd⟩ := hs.names (.primitive (.binary .add)) (by decide)
  have hnumber : (Footing.grown s).Yields ctx 1 (.scope f) (.symbol "n") (.int k) := by
    intro n hn t ht
    obtain ⟨n, rfl, -⟩ := Footing.exists_level hn
    exact Footing.ends_of_ok (eval_number (hkeeps.grow ht) (hcalling.grow ht)) (.refl ht) rfl
  have hone : (Footing.grown s).Yields ctx 1 (.scope f) (.const (.int 1)) (.int 1) :=
    Footing.yields_const (fun _ _ h => by cases h) (.scope f)
  have hcalls (t : Store) (ht : s.Grows t) :
      t.Calls (.scope f) "+" (.builtin (.primitive (.binary .add)) home) := by
    have hbase : t.scope 0 = s.scope 0 :=
      ht.scope 0 (Nat.lt_of_lt_of_le Nat.zero_lt_two hs.made)
    exact calls_calling (b := .primitive (.binary .add)) (hs.grow ht) (hkeeps.grow ht)
      (hcalling.grow ht) (by decide) (by decide) (hbase ▸ hadd)
  exact Footing.yields_operator
    (fun t ht => Store.known_eq_scope.mpr (hcalling.grow ht).exists_scope) hcalls
    ⟨rfl, by decide⟩ ⟨rfl, rfl⟩ hnumber hone rfl

/-- A call of an instance adds one to the number of the instance, and gives the sum. -/
theorem eval_step (ctx : EvaluatorId) (n : Nat) (hs : Provides s used) (hkeeps : Keeps s i k)
    (hcalling : Calling s f i) :
    ∃ t, (ofLevel (n + 5)).eval ctx step (.scope f) s = .ok (.int (k + 1))
        (t.setVars (.scope i) fun vars => vars.set "n" (.int (k + 1))) ∧
      s.Grows t ∧ SameStack ctx s t := by
  obtain ⟨t, hsum, hgoes⟩ :=
    (yields_next ctx hs hkeeps hcalling (n + 3) (by omega) s (.refl s)).value
  have hst : s.Grows t := hgoes.holds
  have hslot : t.slot? (.scope i) "n" = some (.int k) :=
    ((hkeeps.grow hst).slot? "n").trans (if_pos rfl)
  obtain ⟨block, hblock⟩ := offers_calling (b := .special .block) hs hkeeps hcalling (by decide)
    (by decide)
  obtain ⟨assign, hassign⟩ := offers_calling (b := .special .superAssign) hs hkeeps hcalling
    (by decide) (by decide)
  refine ⟨t, ?_, hst, hgoes.stack⟩
  let u := t.setVars (.scope i) fun vars => vars.set "n" (.int (k + 1))
  have hadvance : (ofLevel (n + 4)).eval ctx advance (.scope f) s = .ok (.int (k + 1)) u := by
    have hassignment : Machine.assignment (ofLevel (n + 3)) ctx
        [.bare (.symbol "n"), .bare (.apply "+" [.symbol "n", .const (.int 1)])] (.scope f) s =
          .ok ("n", .int (k + 1)) t := (bind_of_ok hsum).trans rfl
    refine (Machine.eval_call_of_calls hassign ctx _).trans ((bind_of_ok hassignment).trans ?_)
    dsimp only
    rw [Run.get_bind, (hcalling.grow hst).parent?]
    dsimp only
    rw [bind_of_ok (Machine.find_of_slot hslot)]
    rfl
  have hnumber : (ofLevel (n + 4)).eval ctx (.symbol "n") (.scope f) u = .ok (.int (k + 1)) u :=
    eval_number ((hkeeps.grow hst).setVars (k + 1)) ((hcalling.grow hst).setVars _)
  exact (Machine.eval_call_of_calls hblock ctx _).trans ((bind_of_ok hadvance).trans hnumber)

/-! ## What calls leave as it is -/

/-- Of the environments and closures that there were before, only one environment has changed. -/
structure Touches (j : Nat) (s t : Store) : Prop where
  scopes : s.scopes.size ≤ t.scopes.size
  scope : ∀ i, i < s.scopes.size → i ≠ j → t.scope i = s.scope i
  closures : s.closures.size ≤ t.closures.size
  closure : ∀ c : ClosureId, c.index < s.closures.size → t.closure c = s.closure c
  settings : t.settings = s.settings

namespace Touches

variable {j : Nat}

theorem trans (h : Touches j s t) (h' : Touches j t u) : Touches j s u where
  scopes := Nat.le_trans h.scopes h'.scopes
  scope i hi hij := (h'.scope i (Nat.lt_of_lt_of_le hi h.scopes) hij).trans (h.scope i hi hij)
  closures := Nat.le_trans h.closures h'.closures
  closure c hc := (h'.closure c (Nat.lt_of_lt_of_le hc h.closures)).trans (h.closure c hc)
  settings := h'.settings.trans h.settings

theorem of_grows (hst : s.Grows t) (j : Nat) : Touches j s t where
  scopes := hst.scopes
  scope i hi _ := hst.scope i hi
  closures := Nat.le_of_eq (congrArg Array.size hst.closures.symm)
  closure c _ := hst.closure c
  settings := hst.settings

theorem setVars (s : Store) (j : Nat) (g : Bindings Value → Bindings Value) :
    Touches j s (s.setVars (.scope j) g) where
  scopes := Nat.le_of_eq Array.size_modify.symm
  scope i _ hij := by
    change (s.setScope j _).scope i = _
    rw [Store.scope_setScope, if_neg fun heq => hij heq.1]
  closures := Nat.le_refl _
  closure _ _ := rfl
  settings := rfl

theorem addClosure (s : Store) (closure : Closure) (j : Nat) :
    Touches j s (s.addClosure closure) where
  scopes := Nat.le_refl _
  scope _ _ _ := rfl
  closures := Nat.le_of_lt (Nat.lt_of_lt_of_eq (Nat.lt_succ_self _) (Array.size_push _).symm)
  closure c hc := by rw [Store.closure_addClosure, if_neg (Nat.ne_of_lt hc)]
  settings := rfl

/-- Closures that were made later do not matter. -/
theorem setClosure (h : Touches j s t) {d : ClosureId} (hd : s.closures.size ≤ d.index)
    (g : Closure → Closure) : Touches j s (t.setClosure d g) where
  scopes := h.scopes
  scope := h.scope
  closures := Nat.le_trans h.closures (Nat.le_of_eq Array.size_modify.symm)
  closure c hc := by
    rw [Store.closure_setClosure, if_neg (by omega)]
    exact h.closure c hc
  settings := h.settings

end Touches

/-- A closure of the store that was made by a call of the factory, with the environment where it was
made and the number there. -/
structure Instance (s : Store) (c : ClosureId) (i : Nat) (k : Int) : Prop where
  exists_closure : c.index < s.closures.size
  formals : (s.closure c).formals = []
  body : (s.closure c).body = step
  env : (s.closure c).env = .scope i
  keeps : Keeps s i k

namespace Instance

variable {c : ClosureId} {j : Nat}

theorem keep (h : Instance s c i k) (hst : Touches j s t) (hij : i ≠ j) : Instance t c i k := by
  have hclosure : t.closure c = s.closure c := hst.closure c h.exists_closure
  have hscope : t.scope i = s.scope i := hst.scope i h.keeps.exists_scope hij
  exact ⟨Nat.lt_of_lt_of_le h.exists_closure hst.closures, hclosure ▸ h.formals, hclosure ▸ h.body,
    hclosure ▸ h.env, h.keeps.later, Nat.lt_of_lt_of_le h.keeps.exists_scope hst.scopes,
    hscope.trans h.keeps.scope⟩

theorem grow (h : Instance s c i k) (hst : s.Grows t) : Instance t c i k :=
  ⟨hst.closures ▸ h.exists_closure, hst.closure c ▸ h.formals, hst.closure c ▸ h.body,
    hst.closure c ▸ h.env, h.keeps.grow hst⟩

theorem setVars (h : Instance s c i k) (l : Int) :
    Instance (s.setVars (.scope i) fun vars => vars.set "n" (.int l)) c i l :=
  ⟨h.exists_closure, h.formals, h.body, h.env, h.keeps.setVars l⟩

/-- An instance is the same under another name. -/
theorem rename (h : Instance s c i k) (name : Option String → Option String) :
    Instance (s.setClosure c fun closure => { closure with name := name closure.name }) c i k := by
  have hclosure : (s.setClosure c fun closure =>
      { closure with name := name closure.name }).closure c =
        { s.closure c with name := name (s.closure c).name } := by
    rw [Store.closure_setClosure, if_pos ⟨rfl, h.exists_closure⟩]
  refine ⟨Nat.lt_of_lt_of_eq h.exists_closure Array.size_modify.symm, ?_, ?_, ?_, h.keeps.later,
    h.keeps.exists_scope, h.keeps.scope⟩
  · rw [hclosure, h.formals]
  · rw [hclosure, h.body]
  · rw [hclosure, h.env]

end Instance

section Calls

variable {pm : Bool} {c : ClosureId} (hs : Provides s used)
  (hpm : s.settings.partialMatching = .ok pm)
  (hroom : (s.evaluator ctx).depth < (s.evaluator ctx).maxDepth) (hbare : Footing.Bare ctx s)

include hs hpm hroom hbare

/-- A call of an instance gives the next number, and changes the number of this instance only. -/
theorem call_instance (hc : Instance s c i k) (call : Expr) (caller : EnvId) :
    ∃ t, (ofLevel (n + 5)).applyClosure ctx c [] call caller s = .ok (.int (k + 1)) t ∧
      Touches i s t ∧ Instance t c i (k + 1) ∧ SameStack ctx s t := by
  obtain ⟨t, hopened, hcall⟩ := Machine.applyClosure_nullary hpm hc.formals hroom hbare
    (ofLevel (n + 5)) call caller
  have hst : s.Grows t := (Machine.opened_grows s c).trans hopened.grows
  have hcalling : Calling t s.scopes.size i := by
    refine ⟨hc.keeps.exists_scope, ?_, ?_⟩
    · rw [hopened.scopes, Machine.size_scopes_opened]
      exact Nat.lt_succ_self _
    · rw [hopened.scope, Machine.scope_opened, hc.env,
        Store.known_eq_scope.mpr hc.keeps.exists_scope]
  obtain ⟨u, hbody, htu, hstack⟩ :=
    eval_step ctx n (hs.grow hst) (hc.keeps.grow hst) hcalling
  rw [← hc.body] at hbody
  obtain ⟨w, happly, hheap, hleft⟩ := hcall _ _ hbody ⟨hstack.frames, hstack.depth, hstack.maxDepth⟩
  have hsu : s.Grows u := hst.trans htu
  have hset : Touches i s (u.setVars (.scope i) fun vars => vars.set "n" (.int (k + 1))) :=
    (Touches.of_grows hsu i).trans (.setVars u i _)
  exact ⟨w, happly, hset.trans (.of_grows hheap.grows i),
    ((hc.grow hsu).setVars (k + 1)).grow hheap.grows, hleft⟩

/-- A call of the factory gives a new instance that has counted nothing, and changes nothing. -/
theorem call_factory (hformals : (s.closure c).formals = []) (hbody : (s.closure c).body = body)
    (henv : (s.closure c).env = globalEnv) (call : Expr) (caller : EnvId) :
    ∃ t, (ofLevel (n + 4)).applyClosure ctx c [] call caller s =
        .ok (.closure ⟨s.closures.size⟩) t ∧
      (∀ j, Touches j s t) ∧ Instance t ⟨s.closures.size⟩ s.scopes.size 0 ∧ SameStack ctx s t := by
  obtain ⟨t, hopened, hcall⟩ := Machine.applyClosure_nullary hpm hformals hroom hbare
    (ofLevel (n + 4)) call caller
  have hst : s.Grows t := (Machine.opened_grows s c).trans hopened.grows
  let i := s.scopes.size
  have hmade : i < t.scopes.size := by
    rw [hopened.scopes, Machine.size_scopes_opened]
    exact Nat.lt_succ_self _
  have hglobal : s.known globalEnv = globalEnv := Store.known_eq_scope.mpr hs.made
  have hscope : t.scope i = ⟨[], globalEnv, none⟩ := by
    rw [hopened.scope, Machine.scope_opened, henv, hglobal]
  have hclosures : t.closures = s.closures := hst.closures
  have hvalue := eval_body ctx n (hs.grow hst) ⟨hs.made, hmade⟩ hscope
  rw [← hbody, hclosures] at hvalue
  obtain ⟨w, happly, hheap, hleft⟩ := hcall _ _ hvalue (.of_evaluators rfl)
  let bound := t.setVars (.scope i) fun vars => vars.set "n" (.int 0)
  let made := bound.addClosure ⟨[], step, .scope i, none⟩
  have hbound : Keeps bound i 0 := keeps_zero ⟨hs.made, hmade⟩ hscope
  have hclosure : made.closure ⟨s.closures.size⟩ = ⟨[], step, .scope i, none⟩ := by
    have hlast : s.closures.size = bound.closures.size := congrArg Array.size hclosures.symm
    rw [Store.closure_addClosure, if_pos hlast, Store.known_eq_scope.mpr hbound.exists_scope]
  have hsize : made.closures.size = s.closures.size + 1 := by
    rw [← hclosures]
    exact Array.size_push _
  have hmade : Instance made ⟨s.closures.size⟩ i 0 :=
    ⟨hsize ▸ Nat.lt_succ_self _, hclosure ▸ rfl, hclosure ▸ rfl, hclosure ▸ rfl, hbound.later,
      hbound.exists_scope, hbound.scope⟩
  have hkept (j : Nat) : Touches j s bound := .of_grows (hst.setVars (Nat.le_refl _) _) j
  have hadded (j : Nat) : Touches j s made := (hkept j).trans (.addClosure bound _ j)
  exact ⟨w, happly, fun j => (hadded j).trans (.of_grows hheap.grows j),
    hmade.grow hheap.grows, hleft⟩

end Calls

end Counter

end Quasi
