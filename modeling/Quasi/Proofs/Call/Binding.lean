import Quasi.Proofs.Call.Entry

/-!
# Frames of one closure

What a formal is bound to depends on what it matched, and where it matched nothing on the
environment of the call, over which the promise of its default is made. Two calls of one closure
with the same arguments make frames that differ in this environment only.
-/

namespace Quasi

open Run (bind_of_ok)

namespace Machine

/-- What a formal is bound to, unless it is a promise of its default. -/
def boundTo? (matched : Matched Value) (name : String) (default : Expr) : Option Value :=
  if name = dotsName then some (.dots matched.dots)
  else
    match matched.bound.get? name, default with
    | some (.code .missing), .missing => some (.code .missing)
    | none, .missing => some (.code .missing)
    | some (.code .missing), _ => none
    | none, _ => none
    | some v, _ => some v

variable {ctx : EvaluatorId} {s t t' u : Store} {i i' : Nat}

theorem bindFormals_cons (env : EnvId) (matched : Matched Value) (name : String) (default : Expr)
    (rest : List (String × Expr)) :
    bindFormals ctx env matched ((name, default) :: rest) = (do
      match boundTo? matched name default with
      | some v => Run.define env name v
      | none => bindFormals.bindDefault ctx env name default
      bindFormals ctx env matched rest) := by
  conv_lhs => unfold bindFormals
  unfold boundTo?
  by_cases hdots : name = dotsName
  · rw [if_pos hdots, if_pos hdots]
  · rw [if_neg hdots, if_neg hdots]
    dsimp only
    split <;> simp_all only

theorem define_scope (i : Nat) (name : String) (v : Value) (s : Store) :
    Run.define (.scope i) name v s = .ok ⟨⟩ (s.setVars (.scope i) fun vars => vars.set name v) := rfl

/-- A formal alone that is bound to a value. -/
theorem bindFormals_single {matched : Matched Value} {name : String} {default : Expr} {v : Value}
    (h : boundTo? matched name default = some v) (s : Store) :
    bindFormals ctx (.scope i) matched [(name, default)] s =
      .ok ⟨⟩ (s.setVars (.scope i) fun vars => vars.set name v) := by
  rw [bindFormals_cons, h]
  rfl

theorem scope_setVars (h : i < s.scopes.size) (f : Bindings Value → Bindings Value) :
    (s.setVars (.scope i) f).scope i = { s.scope i with vars := f (s.scope i).vars } := by
  rw [Store.setVars, Store.scope_setScope]
  exact if_pos ⟨rfl, h⟩

/-! ## Two frames -/

/-- Two stores in which a call of one closure has bound its arguments, in environments of its own.
Both have what the store has in which the arguments were promised. The environments bind the same
names to the same values, and what is beside the promises of the arguments are promises of the same
defaults, over one environment and over the other. -/
structure SameFrame (ctx : EvaluatorId) (u : Store) (i : Nat) (t : Store) (i' : Nat) (t' : Store) :
    Prop where
  grows : u.Grows t
  grows' : u.Grows t'
  fresh : u.scopes.size ≤ i ∧ i < t.scopes.size
  fresh' : u.scopes.size ≤ i' ∧ i' < t'.scopes.size
  vars : (t'.scope i').vars = (t.scope i).vars
  parent : (t'.scope i').parent = (t.scope i).parent
  count : t'.promises.size = t.promises.size
  defaults (p : PromiseId) : u.promises.size ≤ p.index → p.index < t.promises.size →
    ∃ e, t.promise p = ⟨e, some (.scope i), some ctx, true, .unforced⟩ ∧
      t'.promise p = ⟨e, some (.scope i'), some ctx, true, .unforced⟩

namespace SameFrame

theorem setVars (h : SameFrame ctx u i t i' t') (f : Bindings Value → Bindings Value) :
    SameFrame ctx u i (t.setVars (.scope i) f) i' (t'.setVars (.scope i') f) where
  grows := h.grows.setVars h.fresh.1 f
  grows' := h.grows'.setVars h.fresh'.1 f
  fresh := ⟨h.fresh.1, Nat.lt_of_lt_of_eq h.fresh.2 Array.size_modify.symm⟩
  fresh' := ⟨h.fresh'.1, Nat.lt_of_lt_of_eq h.fresh'.2 Array.size_modify.symm⟩
  vars := by
    rw [scope_setVars h.fresh.2, scope_setVars h.fresh'.2]
    exact congrArg f h.vars
  parent := by
    rw [scope_setVars h.fresh.2, scope_setVars h.fresh'.2]
    exact h.parent
  count := h.count
  defaults := h.defaults

/-- The promise of a default is made on both sides, under one identity. -/
theorem addDefault (h : SameFrame ctx u i t i' t') (e : Expr) :
    SameFrame ctx u i (t.addPromise ⟨e, some (.scope i), some ctx, true, .unforced⟩)
      i' (t'.addPromise ⟨e, some (.scope i'), some ctx, true, .unforced⟩) := by
  refine ⟨h.grows.trans (.addPromise _ _), h.grows'.trans (.addPromise _ _), ?_, ?_, ?_, ?_, ?_,
    fun p hp hp' => ?_⟩
  · rw [Store.scopes_addPromise]
    exact h.fresh
  · rw [Store.scopes_addPromise]
    exact h.fresh'
  · rw [Store.scope_addPromise, Store.scope_addPromise]
    exact h.vars
  · rw [Store.scope_addPromise, Store.scope_addPromise]
    exact h.parent
  · rw [Store.size_addPromise, Store.size_addPromise, h.count]
  · rw [Store.promise_addPromise, Store.promise_addPromise, h.count]
    by_cases hlast : p.index = t.promises.size
    · rw [if_pos hlast, if_pos hlast, Option.map_some, Option.map_some,
        Store.known_eq_scope.mpr h.fresh.2, Store.known_eq_scope.mpr h.fresh'.2]
      exact ⟨e, rfl, rfl⟩
    · rw [if_neg hlast, if_neg hlast]
      rw [Store.size_addPromise] at hp'
      exact h.defaults p hp (by omega)

/-- Formals that matched the same are bound to the same. -/
theorem bindFormals (h : SameFrame ctx u i t i' t') (matched : Matched Value)
    (formals : List (String × Expr)) :
    ∃ v v', Machine.bindFormals ctx (.scope i) matched formals t = .ok ⟨⟩ v ∧
      Machine.bindFormals ctx (.scope i') matched formals t' = .ok ⟨⟩ v' ∧
      SameFrame ctx u i v i' v' ∧ v.evaluators = t.evaluators ∧ v'.evaluators = t'.evaluators := by
  induction formals generalizing t t' with
  | nil => exact ⟨t, t', rfl, rfl, h, rfl, rfl⟩
  | cons formal rest ih =>
      obtain ⟨name, default⟩ := formal
      rw [bindFormals_cons, bindFormals_cons]
      cases hbound : boundTo? matched name default with
      | some v =>
          dsimp only
          rw [bind_of_ok (define_scope i name v t), bind_of_ok (define_scope i' name v t')]
          exact ih (h.setVars _)
      | none =>
          have hnext := (h.addDefault default).setVars fun vars =>
            vars.set name (.promise ⟨t.promises.size⟩)
          have hdefault : bindFormals.bindDefault ctx (.scope i) name default t = .ok ⟨⟩ _ := rfl
          have hdefault' : bindFormals.bindDefault ctx (.scope i') name default t' =
            .ok ⟨⟩ ((t'.addPromise ⟨default, some (.scope i'), some ctx, true, .unforced⟩).setVars
              (.scope i') fun vars => vars.set name (.promise ⟨t'.promises.size⟩)) := rfl
          rw [h.count] at hdefault'
          dsimp only
          rw [bind_of_ok hdefault, bind_of_ok hdefault']
          obtain ⟨v, v', hv, hv', hframe, hev, hev'⟩ := ih hnext
          refine ⟨v, v', hv, hv', hframe, hev.trans ?_, hev'.trans ?_⟩
          · simp [Store.setVars, Store.setScope]
          · simp [Store.setVars, Store.setScope]

/-- Pushing a frame on either side does not matter. -/
theorem entered {id id' : Nat} {v v' : Store} (h : SameFrame ctx u i t i' t')
    (ht : Entered ctx id t v) (ht' : Entered ctx id' t' v') : SameFrame ctx u i v i' v' where
  grows := h.grows.trans ht.grows
  grows' := h.grows'.trans ht'.grows
  fresh := ht.scopes ▸ h.fresh
  fresh' := ht'.scopes ▸ h.fresh'
  vars := by
    simp only [Store.scope, ht.scopes, ht'.scopes]
    exact h.vars
  parent := by
    simp only [Store.scope, ht.scopes, ht'.scopes]
    exact h.parent
  count := by rw [ht.promises, ht'.promises, h.count]
  defaults p hp hp' := by
    simp only [Store.promise, ht.promises, ht'.promises]
    exact h.defaults p hp (ht.promises ▸ hp')

end SameFrame

/-- Where the environment of a call was just made, nothing is bound yet. -/
theorem sameFrame_opened {c : ClosureId} (h : u.Grows t) (h' : u.Grows t')
    (hpromises : t.promises.size = u.promises.size) (hpromises' : t'.promises.size = u.promises.size)
    (henv : u.known (u.closure c).env = (u.closure c).env) :
    SameFrame ctx u t.scopes.size (opened t c) t'.scopes.size (opened t' c) where
  grows := h.trans (opened_grows t c)
  grows' := h'.trans (opened_grows t' c)
  fresh := ⟨h.scopes, by rw [size_scopes_opened]; exact Nat.lt_succ_self _⟩
  fresh' := ⟨h'.scopes, by rw [size_scopes_opened]; exact Nat.lt_succ_self _⟩
  vars := by rw [scope_opened, scope_opened]
  parent := by
    rw [scope_opened, scope_opened, h.closure, h'.closure, h.known henv, h'.known henv]
  count := hpromises'.trans hpromises.symm
  defaults p hp hp' := by
    have hcount : (opened t c).promises.size = u.promises.size := hpromises
    omega

end Machine

end Quasi
