import Mathlib.Logic.Relation
import Quasi.Proofs.Flow.Session
import Quasi.Proofs.Promise.Flow

/-!
# Later moments

What happens to a store is a trail of single changes. A promise takes only those that are its turn:
its evaluation begins when it waits for one, and it ends, with an outcome or without, when it is
under way. So a later moment is told from an earlier one by what the promises have come to since,
wherever in a run both are.
-/

namespace Quasi

open Relation (ReflTransGen)

namespace Store

/-- The single changes. The first one is of anything but environments and promises. -/
inductive Change : Store → Store → Prop where
  | other {s t : Store} (scopes : t.scopes = s.scopes) (masks : t.masks = s.masks)
      (promises : t.promises = s.promises) : Change s t
  | scope (s : Store) (scope : Scope) : Change s (s.addScope scope)
  | mask (s : Store) (mask : Mask) : Change s (s.addMask mask)
  | promise (s : Store) (promise : Promise) (h : promise.progress.isFresh = true) :
      Change s (s.addPromise promise)
  | vars (s : Store) (e : EnvId) (f : Bindings Value → Bindings Value) : Change s (s.setVars e f)
  | rechain (s : Store) (m : MaskId) (home : EnvId) : Change s (s.rechain m home)
  | begin (s : Store) (p : PromiseId) (h : (s.promise p).progress.isIdle = true) :
      Change s (s.begin p)
  | abandon (s : Store) (p : PromiseId) (x : Signal) (h : (s.promise p).progress = .forcing) :
      Change s (s.abandon p x)
  | settle (s : Store) (p : PromiseId) (progress : Progress)
      (h : (s.promise p).progress = .forcing) (hsettled : progress.outcome?.isSome = true) :
      Change s (s.settle p progress)

/-- A store at a later moment. -/
def Later : Store → Store → Prop := ReflTransGen Change

/-- A store at some moment of a session, between requests or in the middle of one. -/
def Moment (s : Store) : Prop :=
  ∃ settings verbose, Later { settings := settings, verbose := verbose } s

end Store

/-- What becomes of a promise: its code stays, it stays settled once it is, and until then it keeps
its environment. -/
structure Promise.Onward (a b : Promise) : Prop where
  code : b.code = a.code
  isDefault : b.isDefault = a.isDefault
  settled : a.progress.outcome?.isSome = true → b.progress.outcome?.isSome = true
  env : b.progress.outcome? = none → b.env = a.env

namespace Promise.Onward

variable {a b c : Promise}

theorem refl (a : Promise) : a.Onward a := ⟨rfl, rfl, id, fun _ => rfl⟩

theorem unsettled (h : a.Onward b) (hb : b.progress.outcome? = none) :
    a.progress.outcome? = none := by
  cases ha : a.progress.outcome? with
  | none => rfl
  | some outcome =>
      have hsettled := h.settled (by rw [ha]; rfl)
      rw [hb] at hsettled
      cases hsettled

theorem trans (h : a.Onward b) (h' : b.Onward c) : a.Onward c where
  code := h'.code.trans h.code
  isDefault := h'.isDefault.trans h.isDefault
  settled ha := h'.settled (h.settled ha)
  env hc := (h'.env hc).trans (h.env (h'.unsettled hc))

end Promise.Onward

namespace Store

variable {s t u : Store} {p : PromiseId}

/-- A change of a single promise. -/
theorem onward_setPromise {f : Promise → Promise} {q : PromiseId}
    (h : (s.promise q).Onward (f (s.promise q))) (p : PromiseId) :
    (s.promise p).Onward ((s.setPromise q f).promise p) := by
  rw [promise_setPromise]
  split
  next hp =>
    obtain rfl : p = q := congrArg PromiseId.mk hp.1
    exact h
  next => exact .refl _

theorem promise_use (s : Store) (holder : Holder) (env : Option EnvId) (p : PromiseId) :
    (s.use holder env).promise p = s.promise p := by
  rw [use_eq]
  rfl

/-- A change takes every promise onward and loses none. -/
theorem Change.onward (h : s.Change t) (hp : p.index < s.promises.size) :
    p.index < t.promises.size ∧ (s.promise p).Onward (t.promise p) := by
  cases h with
  | other _ _ hpromises =>
      simp only [Store.promise, hpromises]
      exact ⟨hp, .refl _⟩
  | scope | mask | rechain => exact ⟨hp, .refl _⟩
  | promise promise hfresh =>
      rw [promise_addPromise, if_neg (Nat.ne_of_lt hp)]
      exact ⟨Nat.lt_trans hp (s.lt_size_addPromise promise), .refl _⟩
  | vars e f => cases e <;> exact ⟨hp, .refl _⟩
  | begin q hidle =>
      have hsize := (Moves.begin (index_lt_of_idle hidle)).size
      refine ⟨Nat.lt_of_lt_of_eq hp hsize.symm, ?_⟩
      rw [Store.begin, promise_use]
      refine onward_setPromise ⟨rfl, rfl, fun hsettled => ?_, fun _ => rfl⟩ p
      rw [Progress.outcome?_of_idle hidle] at hsettled
      cases hsettled
  | abandon q x hforcing =>
      refine ⟨Nat.lt_of_lt_of_eq hp Array.size_modify.symm, ?_⟩
      refine onward_setPromise ⟨rfl, rfl, fun hsettled => ?_, fun _ => rfl⟩ p
      rw [hforcing] at hsettled
      cases hsettled
  | settle q progress hforcing hsettled =>
      refine ⟨Nat.lt_of_lt_of_eq hp Array.size_modify.symm, ?_⟩
      refine onward_setPromise ⟨rfl, rfl, fun _ => hsettled, fun hopen => ?_⟩ p
      rw [show progress.outcome? = none from hopen] at hsettled
      cases hsettled

/-- So does any time that passes. -/
theorem Later.onward (h : s.Later t) (hp : p.index < s.promises.size) :
    p.index < t.promises.size ∧ (s.promise p).Onward (t.promise p) := by
  induction h with
  | refl => exact ⟨hp, .refl _⟩
  | tail _ hchange ih =>
      obtain ⟨hp', honward⟩ := hchange.onward ih.1
      exact ⟨hp', ih.2.trans honward⟩

end Store

/-! ## Runs lead to later moments -/

/-- What two flows allow both. -/
def Flow.both (F G : Flow) : Flow where
  Keeps s t := F.Keeps s t ∧ G.Keeps s t
  Lost s t := F.Lost s t ∧ G.Lost s t
  refl s := ⟨F.refl s, G.refl s⟩
  trans h h' := ⟨F.trans h.1 h'.1, G.trans h.2 h'.2⟩
  lost_trans h h' := ⟨F.lost_trans h.1 h'.1, G.lost_trans h.2 h'.2⟩
  astray h := ⟨F.astray h, G.astray h⟩
  aside h := ⟨F.aside h, G.aside h⟩
  failure s call := ⟨F.failure s call, G.failure s call⟩
  noted s ctx f hhost htrace := ⟨F.noted s ctx f hhost htrace, G.noted s ctx f hhost htrace⟩
  scope s scope := ⟨F.scope s scope, G.scope s scope⟩
  mask s mask := ⟨F.mask s mask, G.mask s mask⟩
  promise s p h := ⟨F.promise s p h, G.promise s p h⟩
  closure s c := ⟨F.closure s c, G.closure s c⟩
  used s c := ⟨F.used s c, G.used s c⟩
  evaluator s globalEnv maxDepth :=
    ⟨F.evaluator s globalEnv maxDepth, G.evaluator s globalEnv maxDepth⟩
  vars s e f := ⟨F.vars s e f, G.vars s e f⟩
  closureName s c f := ⟨F.closureName s c f, G.closureName s c f⟩
  registered s ctx id r := ⟨F.registered s ctx id r, G.registered s ctx id r⟩

namespace Flow

section Both

variable {F G : Flow} {α : Type} {a : Run α}

theorem Holds.right (h : (F.both G).Holds a) : G.Holds a :=
  ⟨fun hs => (h.ends hs).2, fun hs => (h.lost hs).2⟩

theorem Holds.both (hF : F.Holds a) (hG : G.Holds a) : (F.both G).Holds a :=
  ⟨fun hs => ⟨hF.ends hs, hG.ends hs⟩, fun hs => ⟨hF.lost hs, hG.lost hs⟩⟩

instance [F.Rechains] [G.Rechains] : (F.both G).Rechains where
  rechain s m home := ⟨Rechains.rechain s m home, Rechains.rechain s m home⟩

instance [F.Stacks] [G.Stacks] : (F.both G).Stacks where
  evaluator s ctx f := ⟨Stacks.evaluator s ctx f, Stacks.evaluator s ctx f⟩
  event s event h := ⟨Stacks.event s event h, Stacks.event s event h⟩

end Both

/-- Time passes. -/
def later : Flow where
  Keeps := Store.Later
  Lost := Store.Later
  refl _ := .refl
  trans := .trans
  lost_trans := .trans
  astray _ := .refl
  aside h := .single (.other h.scopes h.masks h.promises)
  failure _ _ := .single (.other rfl rfl rfl)
  noted _ _ _ _ _ := .single (.other rfl rfl rfl)
  scope s scope := .single (.scope s scope)
  mask s mask := .single (.mask s mask)
  promise s p h := .single (.promise s p h)
  closure _ _ := .single (.other rfl rfl rfl)
  used _ _ := .single (.other rfl rfl rfl)
  evaluator _ _ _ := .single (.other rfl rfl rfl)
  vars s e f := .single (.vars s e f)
  closureName _ _ _ := .single (.other rfl rfl rfl)
  registered _ _ _ _ := .single (.other rfl rfl rfl)

instance : later.Rechains := ⟨fun s m home => .single (.rechain s m home)⟩

instance : later.Stacks where
  evaluator _ _ _ := .single (.other rfl rfl rfl)
  event _ _ _ := .single (.other rfl rfl rfl)

/-- While time passes promises go along their courses. -/
def moments : Flow := later.both promises

instance : moments.Rechains := inferInstanceAs (later.both promises).Rechains

instance : moments.Stacks := inferInstanceAs (later.both promises).Stacks

variable {m : Machine} {s t : Store} {p : PromiseId}

theorem conclude_change (outcome : Except Signal Value)
    (hp : (s.promise p).progress = .forcing) :
    ∃ t, Machine.conclude p outcome s = .ok () t ∧ s.Change t := by
  cases outcome with
  | ok v => exact ⟨_, rfl, .settle s p _ hp rfl⟩
  | error x =>
      cases x with
      | failure f => exact ⟨_, rfl, .settle s p _ hp rfl⟩
      | returning v target => exact ⟨_, rfl, .abandon s p _ hp⟩
      | overflow => exact ⟨_, rfl, .abandon s p _ hp⟩

section Force

variable [heval : ∀ ctx e env, moments.Holds (m.eval ctx e env)]

instance (ctx : EvaluatorId) (promise : Promise) : moments.Holds (evaluation m ctx promise) := by
  have hpromise : moments.Holds (m.evalPromise ctx promise) :=
    holds_evalPromise ctx promise heval
  unfold evaluation
  infer_instance

/-- The promise is still being evaluated when its evaluation ends. -/
theorem later_runPromise (ctx : EvaluatorId) (hidle : (s.promise p).progress.isIdle = true)
    (h : (m.runPromise ctx p).EndsIn s t ∨ (m.runPromise ctx p).LostIn s t) : s.Later t := by
  have hbegin := Moves.begin (Store.index_lt_of_idle hidle)
  have hfirst : s.Later (s.begin p) := .single (.begin s p hidle)
  have hend (outcome : Except Signal Value) {u : Store} (hrun : moments.Keeps (s.begin p) u) :
      ∃ v, Machine.conclude p outcome u = .ok () v ∧ s.Later v := by
    have hforcing : (u.promise p).progress = .forcing := by
      rw [(hrun.2.forcing_kept hbegin.progress).promise, hbegin.progress]
    obtain ⟨v, hv, hchange⟩ := conclude_change outcome hforcing
    exact ⟨v, hv, (hfirst.trans hrun.1).tail hchange⟩
  have hresume (outcome : Except Signal Value) : later.Holds (Run.resume outcome) := inferInstance
  have hrun : moments.Holds (evaluation m ctx (s.promise p)) := inferInstance
  rcases h with h | h
  · obtain ⟨outcome, u, hu, h⟩ := (h.of_eq (runPromise_eq ctx s)).of_quiet
    obtain ⟨v, hv, hlater⟩ := hend outcome (hrun.of_ok hu)
    exact hlater.trans ((hresume outcome).ends (h.of_eq (Run.bind_of_ok hv)))
  · rcases Run.LostIn.of_bind ((runPromise_eq ctx s).symm.trans h) with ⟨outcome, u, hu, h⟩ | h
    · obtain ⟨v, hv, hlater⟩ := hend outcome (hrun.of_ok hu)
      exact hlater.trans ((hresume outcome).lost ((Run.bind_of_ok hv).symm.trans h))
    · exact hfirst.trans (hrun.lost h).1

theorem later_force (ctx : Option EvaluatorId) (p : PromiseId) : later.Holds (m.force ctx p) where
  ends {s t} h := by
    rcases force_cases m ctx p s with ⟨a, ha, heq⟩ | ⟨ev, u, hsu, hidle, heq⟩
    · exact (holds_of_modest ha).ends (h.of_eq heq)
    · exact (later.aside hsu).trans (later_runPromise ev hidle (.inl (h.of_eq heq)))
  lost {s t} h := by
    rcases force_cases m ctx p s with ⟨a, ha, heq⟩ | ⟨ev, u, hsu, hidle, heq⟩
    · exact (holds_of_modest ha).lost (heq.symm.trans h)
    · exact (later.aside hsu).trans (later_runPromise ev hidle (.inr (heq.symm.trans h)))

end Force

instance : moments.Closed where
  under := holds_under
  force m ctx p heval := by
    have hpromises ctx e env : promises.Holds (m.eval ctx e env) := (heval ctx e env).right
    exact (later_force ctx p).both (promises_force ctx p)
  inFrame _ := holds_inFrame
  inTarget := holds_inTarget
  request := holds_stackRequest

end Flow

namespace Session

variable {s t : Store}

theorem later_request (r : Request) (h : r.run.EndsIn s t ∨ r.run.LostIn s t) : s.Later t := by
  have hholds : Flow.moments.Holds r.run := Flow.holds_request r fun _ => inferInstance
  exact h.elim (fun h => (hholds.ends h).1) fun h => (hholds.lost h).1

theorem Reachable.moment (hs : Reachable s) : s.Moment := by
  induction hs with
  | blank settings verbose => exact ⟨settings, verbose, .refl⟩
  | request hs r h ih =>
      obtain ⟨settings, verbose, hlater⟩ := ih
      exact ⟨settings, verbose, hlater.trans (later_request r (.inl h))⟩

end Session

end Quasi
