import Quasi.Proofs.Call.Single
import Quasi.Proofs.Return.Inside

/-!
# What an evaluation stands on

The value of an expression depends on a few environments and promises. A footing is what is known of
them, in such a way that it stays true whatever is added to the store and whatever becomes of later
promises. On a footing an expression can be evaluated again and again, in calls that are nested more
and more deeply, and promises that it forces on the way may have come to their values in between.
-/

namespace Quasi

theorem Run.ok_of_attempt {α : Type} {run : Run α} {s t : Store} {v : α}
    (h : run.attempt s = .ok (.ok v) t) : run s = .ok v t := by
  rcases Run.attempt_eq_ok h with ⟨_, hv, h⟩ | ⟨_, hx, -⟩
  · cases hv
    exact h
  · cases hx

namespace Store

/-- The second store has what the first one has, as it is there, and more beside it. Of the
promises only those of some numbers are the same. Evaluators, failures and what was written may
differ. -/
structure Adds (kept : Nat → Prop) (s t : Store) : Prop where
  scopes : s.scopes.size ≤ t.scopes.size
  scope (i : Nat) : i < s.scopes.size → t.scope i = s.scope i
  masks : t.masks = s.masks
  promises : s.promises.size ≤ t.promises.size
  promise (p : PromiseId) : p.index < s.promises.size → kept p.index → t.promise p = s.promise p
  closures : t.closures = s.closures
  settings : t.settings = s.settings

variable {s t u : Store} {kept kept' : Nat → Prop}

theorem Grows.adds (h : s.Grows t) (kept : Nat → Prop) : s.Adds kept t :=
  ⟨h.scopes, h.scope, h.masks, h.promises, fun p hp _ => h.promise p hp, h.closures, h.settings⟩

namespace Adds

theorem trans (h : s.Adds kept t) (h' : t.Adds kept u) : s.Adds kept u where
  scopes := Nat.le_trans h.scopes h'.scopes
  scope i hi := (h'.scope i (Nat.lt_of_lt_of_le hi h.scopes)).trans (h.scope i hi)
  masks := h'.masks.trans h.masks
  promises := Nat.le_trans h.promises h'.promises
  promise p hp hkept :=
    (h'.promise p (Nat.lt_of_lt_of_le hp h.promises) hkept).trans (h.promise p hp hkept)
  closures := h'.closures.trans h.closures
  settings := h'.settings.trans h.settings

/-- Only promises that exist matter. -/
theorem mono (h : s.Adds kept t) (hkept : ∀ i, i < s.promises.size → kept' i → kept i) :
    s.Adds kept' t :=
  ⟨h.scopes, h.scope, h.masks, h.promises, fun p hp hp' => h.promise p hp (hkept _ hp hp'),
    h.closures, h.settings⟩

theorem known (h : s.Adds kept t) {e : EnvId} (he : s.known e = e) : t.known e = e :=
  known_mono h.scopes (Nat.le_of_eq (congrArg Array.size h.masks.symm)) he

theorem grows (h : s.Adds kept t) (hkept : ∀ i, i < s.promises.size → kept i) : s.Grows t :=
  ⟨h.scopes, h.scope, h.masks, h.promises, fun p hp => h.promise p hp (hkept _ hp), h.closures,
    h.settings⟩

end Adds

theorem adds_setPromise (s : Store) (p : PromiseId) (f : Promise → Promise) :
    s.Adds (· ≠ p.index) (s.setPromise p f) where
  scopes := Nat.le_refl _
  scope _ _ := rfl
  masks := rfl
  promises := Nat.le_of_eq Array.size_modify.symm
  promise q _ hq := (s.promise_setPromise p f q).trans (if_neg fun h => hq h.1)
  closures := rfl
  settings := rfl

theorem adds_begin (s : Store) (p : PromiseId) : s.Adds (· ≠ p.index) (s.begin p) := by
  have hrest : (s.setPromise p fun promise => { promise with progress := .forcing }).Grows
      (s.begin p) := by
    rw [begin, use_eq]
    exact .of_eq rfl rfl rfl rfl rfl
  exact (s.adds_setPromise p _).trans (hrest.adds _)

theorem evaluators_begin (s : Store) (p : PromiseId) : (s.begin p).evaluators = s.evaluators := by
  rw [begin, use_eq]
  rfl

/-- The environments, promises and closures are the same in two stores, and so are the settings. -/
structure SameHeap (s t : Store) : Prop where
  scopes : t.scopes = s.scopes
  masks : t.masks = s.masks
  promises : t.promises = s.promises
  closures : t.closures = s.closures
  settings : t.settings = s.settings

namespace SameHeap

theorem grows (h : s.SameHeap t) : s.Grows t :=
  .of_eq h.scopes h.masks h.promises h.closures h.settings

theorem scope (h : s.SameHeap t) (i : Nat) : t.scope i = s.scope i := by
  simp only [Store.scope, h.scopes]

theorem closure (h : s.SameHeap t) (c : ClosureId) : t.closure c = s.closure c := by
  simp only [Store.closure, h.closures]

end SameHeap

theorem sameHeap_traced (s : Store) (text : String) : s.SameHeap (s.traced text) := by
  unfold traced
  split <;> exact ⟨rfl, rfl, rfl, rfl, rfl⟩

theorem grows_traced (s : Store) (text : String) : s.Grows (s.traced text) :=
  (s.sameHeap_traced text).grows

theorem evaluators_traced (s : Store) (text : String) : (s.traced text).evaluators = s.evaluators := by
  unfold traced
  split <;> rfl

/-- The calls under way in an evaluator and its depth are the same in two stores. -/
structure SameStack (ctx : EvaluatorId) (s t : Store) : Prop where
  frames : (t.evaluator ctx).frames = (s.evaluator ctx).frames
  depth : (t.evaluator ctx).depth = (s.evaluator ctx).depth
  maxDepth : (t.evaluator ctx).maxDepth = (s.evaluator ctx).maxDepth

namespace SameStack

variable {ctx : EvaluatorId}

theorem trans (h : SameStack ctx s t) (h' : SameStack ctx t u) : SameStack ctx s u :=
  ⟨h'.frames.trans h.frames, h'.depth.trans h.depth, h'.maxDepth.trans h.maxDepth⟩

theorem of_evaluators (h : t.evaluators = s.evaluators) : SameStack ctx s t := by
  have heq : t.evaluator ctx = s.evaluator ctx := by simp only [Store.evaluator, h]
  exact ⟨congrArg _ heq, congrArg _ heq, congrArg _ heq⟩

theorem refl (ctx : EvaluatorId) (s : Store) : SameStack ctx s s := of_evaluators rfl

end SameStack

end Store

open Store (SameStack)

/-- What is known of stores. It stays true when something is added and when promises change that it
does not reach. -/
structure Footing where
  holds : Store → Prop
  reaches : Nat → Prop
  exists_of_reaches {s : Store} : holds s → ∀ i, reaches i → i < s.promises.size
  adds {s t : Store} : holds s → s.Adds reaches t → holds t

namespace Footing

/-- A store is known and has grown. -/
def grown (s : Store) : Footing where
  holds := s.Grows
  reaches i := i < s.promises.size
  exists_of_reaches h _ hi := Nat.lt_of_lt_of_le hi h.promises
  adds h h' := (h.adds _).trans h' |>.grows fun _ hi => hi

variable (F : Footing)

/-- What a run on a footing does: it may force promises that the footing reaches, but all others are
as they were. -/
structure Goes (ctx : EvaluatorId) (s t : Store) : Prop where
  holds : F.holds t
  adds : s.Adds (¬ F.reaches ·) t
  stack : SameStack ctx s t

variable {F} {α β : Type} {ctx : EvaluatorId} {s t u : Store}

namespace Goes

theorem trans (h : F.Goes ctx s t) (h' : F.Goes ctx t u) : F.Goes ctx s u :=
  ⟨h'.holds, h.adds.trans h'.adds, h.stack.trans h'.stack⟩

theorem of_grows (hF : F.holds s) (hst : s.Grows t) (hstack : SameStack ctx s t) : F.Goes ctx s t :=
  ⟨F.adds hF (hst.adds _), hst.adds _, hstack⟩

theorem refl (hF : F.holds s) : F.Goes ctx s s := of_grows hF (.refl s) (.refl ctx s)

end Goes

variable (F)

/-- A run on a footing ends in one of some ways. -/
def Ends (ctx : EvaluatorId) (s : Store) (run : Run α) (ways : Except Signal α → Prop) : Prop :=
  ∃ outcome t, Run.attempt run s = .ok outcome t ∧ ways outcome ∧ F.Goes ctx s t

variable {F}

theorem ends_of_ok {run : Run α} {ways : Except Signal α → Prop} {v : α} (h : run s = .ok v t)
    (hgoes : F.Goes ctx s t) (hv : ways (.ok v)) : F.Ends ctx s run ways :=
  ⟨_, t, by simp only [Run.attempt, h], hv, hgoes⟩

theorem ends_pure (hF : F.holds s) {ways : Except Signal α → Prop} {v : α} (hv : ways (.ok v)) :
    F.Ends ctx s (pure v) ways := ends_of_ok rfl (.refl hF) hv

namespace Ends

variable {run : Run α} {ways : Except Signal α → Prop}

theorem mono (h : F.Ends ctx s run ways) {ways' : Except Signal α → Prop}
    (hways : ∀ outcome, ways outcome → ways' outcome) : F.Ends ctx s run ways' := by
  obtain ⟨outcome, t, hrun, houtcome, hgoes⟩ := h
  exact ⟨outcome, t, hrun, hways _ houtcome, hgoes⟩

theorem of_eq {run' : Run α} (heq : run' s = run t) (hgoes : F.Goes ctx s t)
    (h : F.Ends ctx t run ways) : F.Ends ctx s run' ways := by
  obtain ⟨outcome, u, hrun, hways, hgoes'⟩ := h
  exact ⟨outcome, u, (Run.attempt_congr heq).trans hrun, hways, hgoes.trans hgoes'⟩

/-- One run after the other. What the first one ends with otherwise is what they end with. -/
theorem bind {f : α → Run β} {ways' : Except Signal β → Prop} (h : F.Ends ctx s run ways)
    (hvalue : ∀ v t, ways (.ok v) → F.Goes ctx s t → F.Ends ctx t (f v) ways')
    (hsignal : ∀ x, ways (.error x) → ways' (.error x)) : F.Ends ctx s (run >>= f) ways' := by
  obtain ⟨outcome, t, hrun, hways, hgoes⟩ := h
  rcases Run.attempt_eq_ok hrun with ⟨v, rfl, hv⟩ | ⟨x, rfl, hx⟩
  · exact .of_eq (Run.bind_of_ok hv) hgoes (hvalue v t hways hgoes)
  · exact ⟨_, t, Run.attempt_of_signal (Run.bind_of_error hx), hsignal x hways, hgoes⟩

/-- The only value of a run. -/
theorem bind_value {f : α → Run β} {ways' : Except Signal β → Prop} {v : α}
    (h : F.Ends ctx s run (· = .ok v))
    (hvalue : ∀ t, F.Goes ctx s t → F.Ends ctx t (f v) ways') : F.Ends ctx s (run >>= f) ways' := by
  refine h.bind (fun w t hw hgoes => ?_) (fun x hx => nomatch hx)
  cases hw
  exact hvalue t hgoes

theorem value {v : α} (h : F.Ends ctx s run (· = .ok v)) :
    ∃ t, run s = .ok v t ∧ F.Goes ctx s t := by
  obtain ⟨_, t, hrun, rfl, hgoes⟩ := h
  exact ⟨t, Run.ok_of_attempt hrun, hgoes⟩

end Ends

/-- On a footing an expression has a value, for every machine with enough room and whatever the
stack is. -/
def Yields (F : Footing) (ctx : EvaluatorId) (levels : Nat) (env : EnvId) (e : Expr) (v : Value) :
    Prop :=
  ∀ n, levels ≤ n → ∀ s, F.holds s → F.Ends ctx s ((Machine.ofLevel n).eval ctx e env) (· = .ok v)

/-- A level of nesting that there is room for. -/
theorem exists_level {levels n : Nat} (h : levels + 1 ≤ n) : ∃ k, n = k + 1 ∧ levels ≤ k :=
  ⟨n - 1, by omega, by omega⟩

theorem yields_const {v : Value} (hv : ∀ e home, v ≠ .quosure e home) (env : EnvId) :
    F.Yields ctx 1 env (.const v) v := by
  intro n hn s hs
  obtain ⟨n, rfl, -⟩ := exists_level hn
  refine ends_of_ok ?_ (.refl hs) rfl
  cases v with
  | quosure e home => exact absurd rfl (hv e home)
  | _ => rfl

theorem Yields.mono {levels levels' : Nat} {env : EnvId} {e : Expr} {v : Value}
    (h : F.Yields ctx levels env e v) (hlevels : levels ≤ levels') : F.Yields ctx levels' env e v :=
  fun n hn => h n (Nat.le_trans hlevels hn)

/-! ## Promises -/

section Force

variable {m : Machine} {p : PromiseId} {e : Expr} {env : EnvId} {ev : EvaluatorId}
  (given : Option EvaluatorId)

/-- Forcing a promise evaluates its code while it is marked, and ends it with the outcome. -/
theorem attempt_force (hpromise : s.promise p = ⟨e, some env, some ev, false, .unforced⟩)
    (hctx : (given <|> some ev) = some ctx) :
    ∃ t, s.Adds (· ≠ p.index) t ∧ t.evaluators = s.evaluators ∧
      ∀ outcome u, Run.attempt (m.eval ctx e env) t = .ok outcome u →
        ∃ u', Run.attempt (m.force given p) s = .ok outcome u' ∧ u.Adds (· ≠ p.index) u' ∧
          u'.evaluators = u.evaluators ∧
          ∀ v, outcome = .ok v → p.index < u.promises.size → (u'.promise p).progress = .value v := by
  let text := "forcing promise " ++ e.plain
  refine ⟨(s.begin p).traced text, ?_, ?_, fun outcome u hrun => ?_⟩
  · exact (s.adds_begin p).trans (((s.begin p).grows_traced text).adds _)
  · exact ((s.begin p).evaluators_traced text).trans (s.evaluators_begin p)
  obtain ⟨u', hconclude, hadds, hevaluators, hsettled⟩ : ∃ u', Machine.conclude p outcome u = .ok ⟨⟩ u' ∧
      u.Adds (· ≠ p.index) u' ∧ u'.evaluators = u.evaluators ∧
      ∀ v, outcome = .ok v → p.index < u.promises.size → (u'.promise p).progress = .value v := by
    have hrecord (t : Store) (event : Event) : t.Grows (t.record event) := .of_eq rfl rfl rfl rfl rfl
    have hset (f : Promise → Promise) (event : Event) :
        u.Adds (· ≠ p.index) ((u.setPromise p f).record event) :=
      (u.adds_setPromise p f).trans ((hrecord _ event).adds _)
    rcases outcome with (f | _ | _) | v
    · exact ⟨_, rfl, hset _ _, rfl, nofun⟩
    · exact ⟨_, rfl, hset _ _, rfl, nofun⟩
    · exact ⟨_, rfl, hset _ _, rfl, nofun⟩
    · refine ⟨_, rfl, hset _ _, rfl, fun w hw hp => ?_⟩
      cases hw
      exact congrArg Promise.progress ((u.promise_setPromise p _ p).trans (if_pos ⟨rfl, hp⟩))
  refine ⟨u', ?_, hadds, hevaluators, hsettled⟩
  have hforce : m.force given p s = m.runPromise ctx p s := by
    rw [Machine.force, Run.get_bind, hpromise]
    simp only [hctx]
  have hruns : m.runPromise ctx p s = Run.resume outcome u' := by
    rw [Machine.runPromise, Run.get_bind, hpromise]
    have hbegin : Machine.begin p s = .ok ⟨⟩ (s.begin p) := rfl
    rw [Run.bind_of_ok hbegin, Run.bind_of_ok (trace_apply (fun _ => text) (s.begin p))]
    exact (Run.bind_of_ok hrun).trans (Run.bind_of_ok hconclude)
  rw [Run.attempt_congr (hforce.trans hruns), Run.attempt_resume]

/-- Forcing a promise that the footing does not reach. -/
theorem ends_force {ways : Except Signal Value → Prop} (hF : F.holds s)
    (hout : ¬ F.reaches p.index) (hp : p.index < s.promises.size)
    (hpromise : s.promise p = ⟨e, some env, some ev, false, .unforced⟩)
    (hctx : (given <|> some ev) = some ctx)
    (heval : ∀ t, F.holds t → s.Adds (· ≠ p.index) t → SameStack ctx s t →
      F.Ends ctx t (m.eval ctx e env) ways) :
    ∃ outcome t, Run.attempt (m.force given p) s = .ok outcome t ∧ ways outcome ∧ F.holds t ∧
      s.Adds (fun i => ¬ F.reaches i ∧ i ≠ p.index) t ∧ SameStack ctx s t ∧
      ∀ v, outcome = .ok v → (t.promise p).progress = .value v := by
  obtain ⟨t, hst, hevaluators, hforce⟩ := attempt_force (m := m) given hpromise hctx
  have hstack : SameStack ctx s t := .of_evaluators hevaluators
  have hother (i : Nat) (hi : F.reaches i) : i ≠ p.index := fun h => hout (h ▸ hi)
  have ht : F.holds t := F.adds hF (hst.mono fun i _ hi => hother i hi)
  obtain ⟨outcome, u, hrun, hways, hgoes⟩ := heval t ht hst hstack
  obtain ⟨u', hu', hadds, hevaluators', hsettled⟩ := hforce outcome u hrun
  refine ⟨outcome, u', hu', hways, ?_, ?_, ?_, fun v hv => hsettled v hv ?_⟩
  · exact F.adds hgoes.holds (hadds.mono fun i _ hi => hother i hi)
  · have hst' : s.Adds (fun i => ¬ F.reaches i ∧ i ≠ p.index) t := hst.mono fun _ _ hi => hi.2
    have htu : t.Adds (fun i => ¬ F.reaches i ∧ i ≠ p.index) u := hgoes.adds.mono fun _ _ hi => hi.1
    exact (hst'.trans htu).trans (hadds.mono fun _ _ hi => hi.2)
  · exact (hstack.trans hgoes.stack).trans (.of_evaluators hevaluators')
  · exact Nat.lt_of_lt_of_le hp (Nat.le_trans hst.promises hgoes.adds.promises)

end Force

end Footing

end Quasi
