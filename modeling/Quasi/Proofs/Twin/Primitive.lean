import Quasi.Proofs.Tidy.Primitive
import Quasi.Proofs.Twin.Stores

/-!
# Primitives in twin stores

A primitive that looks into no environment does the same in stores that are related by twins.
-/

namespace Quasi

open Run (Agrees Forces Modest Respects Shows)

namespace Twin

variable {tw : Twin} {back e : EnvId} {s t : Store}

/-! ## Steps -/

instance : Forces (tw.Related back) where
  failWith cause call := ⟨fun t s h => by
    have hsize : t.failures.size = s.failures.size := by rw [h.failures]
    simp only [Run.failWith, Run.get_bind, Run.set_bind, Run.raise_apply, hsize]
    exact .signal (h.failure _)⟩
  trace message := by
    unfold Run.trace
    refine .get_bind (fun t s h => by rw [h.verbose]) fun s => ?_
    have hlog (level : LogLevel) (text : String) :
        Respects (tw.Related back) (Run.logRecord level text) := .of_modify fun t s h => h.log _ _
    infer_instance
  warn message := .of_modify fun t s h => h.log _ _
  freshId := .of_value (v := Store.nextId) (g := fun s => { s with nextId := s.nextId + 1 })
    (fun _ => rfl) (fun _ _ h => h.nextId) fun _ _ h => h.freshId
  begin p := .of_modify fun t s h => by
    have hset := h.setPromise p (f := fun promise => { promise with progress := .forcing })
      fun p q hpq => { hpq with progress := rfl }
    simp only [Store.begin, Store.use_eq]
    exact hset.history _ _
  conclude p outcome := by
    have habandon (x : Signal) : Respects (tw.Related back) (Machine.abandon p x) :=
      .of_modify fun t s h =>
        (h.setPromise p (f := fun promise => { promise with progress := .interrupted })
          fun p q hpq => { hpq with progress := rfl }).history _ _
    have hsettle (progress : Progress) : Respects (tw.Related back) (Machine.settle p progress) :=
      .of_modify fun t s h =>
        (h.setPromise p (f := fun promise => { promise with progress := progress, env := none })
          fun p q hpq => { hpq with progress := rfl, env := .none }).history _ _
    unfold Machine.conclude
    split <;> infer_instance

/-! ## What values show -/

namespace Related

theorem maskNames (h : tw.Related back t s) {n : Nat} (hn : n ≠ tw.mask.index) :
    t.maskNames n = s.maskNames n := by
  induction n using Nat.strongRecOn with
  | ind n ih =>
      have hmask : (⟨n⟩ : MaskId) ≠ tw.mask := fun h => hn (congrArg MaskId.index h)
      have hsource (source : DataScope) (hmem : source ∈ (s.mask ⟨n⟩).scopes) :
          ∀ e, source = .env e → tw.Apart e := fun e he => h.shown ⟨n⟩ e (he ▸ hmem)
      unfold Store.maskNames
      rw [h.mask _ hmask]
      refine congrArg (fun names => Store.distinct (_ ++ names)) ?_
      refine List.flatMap_congr fun source hmem => ?_
      have hapart := hsource source hmem
      split
      case h_3 i => rw [h.scope i (apart_scope (hapart _ rfl))]
      case h_4 m =>
        split
        case isTrue hm =>
          exact ih m.index hm fun hm => apart_bottom (hapart _ rfl) (congrArg MaskId.mk hm)
        case isFalse => rfl
      all_goals rfl

theorem names (h : tw.Related back t s) (he : tw.Apart e) : t.names e = s.names e := by
  cases e with
  | empty => rfl
  | scope i => simp only [Store.names, h.scope i (apart_scope he)]
  | bottom m => exact h.maskNames fun hm => apart_bottom he (congrArg MaskId.mk hm)

theorem shown_eq (h : tw.Related back t s) : s.Shown Value.hasBindings t where
  bindings := id
  envName? e := by
    cases e with
    | empty => rfl
    | bottom m => rfl
    | scope i =>
        by_cases hi : i = tw.scope
        · subst hi
          exact h.scopeName
        · simp only [Store.envName?, h.scope i hi]
  closure c := by simp only [Store.closure, h.closures]
  promise p _ := by
    have hpairs := h.promise p
    simp only [Store.showPromise, hpairs.code, hpairs.progress]
  incident f := by simp only [Store.incident, h.failures]
  dataNames m := by
    have hscopes : (t.mask m).scopes = (s.mask m).scopes := by
      by_cases hm : m = tw.mask
      · rw [hm, h.sources, h.sources_eq]
      · rw [h.mask m hm]
    simp only [Store.dataNames, hscopes]
    refine congrArg Store.distinct (List.flatMap_congr fun source hmem => ?_)
    cases source with
    | env e => exact h.names (h.shown m e hmem)
    | _ => rfl

end Related

theorem shows_related : Shows (tw.Related back) fun v => v.isInert = true :=
  shows_of_inert (fun h => h.shown_eq) fun ctx h => by rw [h.evaluator ctx]

/-! ## Making masks -/

/-- Going through values that may be faulty, and going on with what they are. -/
theorem mapM_orFail {ε α β : Type} (toCause : ε → Cause) (f : α → Except ε β) (xs : List α) :
    (xs.mapM fun x => Run.orFail toCause (f x)) = Run.orFail toCause (xs.mapM f) := by
  induction xs with
  | nil => rfl
  | cons x xs ih =>
      rw [List.mapM_cons, List.mapM_cons, ih]
      cases f x with
      | error fault => rfl
      | ok b =>
          cases xs.mapM f with
          | error fault => rfl
          | ok bs => rfl

theorem mem_of_mapM_ok {ε α β : Type} {f : α → Except ε β} {xs : List α} {ys : List β}
    (h : xs.mapM f = .ok ys) : ∀ y ∈ ys, ∃ x ∈ xs, f x = .ok y := by
  induction xs generalizing ys with
  | nil =>
      cases h
      nofun
  | cons x xs ih =>
      rw [List.mapM_cons] at h
      cases hx : f x with
      | error fault =>
          rw [hx] at h
          cases h
      | ok b =>
          cases hxs : xs.mapM f with
          | error fault =>
              rw [hx, hxs] at h
              cases h
          | ok bs =>
              rw [hx, hxs] at h
              cases h
              refine List.forall_mem_cons.mpr ⟨⟨x, List.mem_cons_self, hx⟩, fun y hy => ?_⟩
              obtain ⟨x', hmem, hx'⟩ := ih hxs y hy
              exact ⟨x', List.mem_cons_of_mem x hmem, hx'⟩

theorem asScope_inert {v : Value} (hv : v.isInert = true) {e : EnvId} :
    v.asScope ≠ .ok (.env e) := by
  intro h
  cases v with
  | env _ => cases hv
  | code c => cases c <;> cases h
  | _ => cases h

theorem respects_maskOver {sources : List Value} (h : inertItems sources = true) :
    Respects (tw.Related back) (Machine.maskOver sources .empty) := by
  rw [Machine.maskOver, mapM_orFail]
  cases hscopes : sources.mapM Value.asScope with
  | error fault => exact inferInstanceAs (Respects _ (Run.fail (.type fault)))
  | ok scopes =>
      have hdata (e : EnvId) : DataScope.env e ∉ scopes := fun hmem => by
        obtain ⟨v, hv, hscope⟩ := mem_of_mapM_ok hscopes _ hmem
        exact asScope_inert (inertItems_iff.mp h v hv) hscope
      refine ⟨fun t s h => ?_⟩
      change Run.Matches _ (Run.newMask scopes .empty t) (Run.newMask scopes .empty s)
      simp only [Run.newMask, Run.get_bind, Run.set_bind, h.maskCount]
      exact .value (h.addMask apart_empty hdata)

theorem respects_asMask {v : Value} (h : v.isInert = true) :
    Respects (tw.Related back) (Machine.asMask v none) := by
  have hone : Respects (tw.Related back) (Machine.maskOver [v] .empty) :=
    respects_maskOver (by simp [inertItems, h])
  cases v with
  | mask m => exact inferInstanceAs (Respects _ (pure m))
  | absent => exact respects_maskOver rfl
  | sequence sources => exact respects_maskOver h
  | tuple sources => exact respects_maskOver h
  | _ => exact hone

/-! ## Primitives -/

theorem respects_applyPrimitive {fn : Primitive} {args : List Value} {named : Bindings Value}
    (h : fn.leavesEnvs (args ++ named.map (·.2)) = true) (m : Machine) (ctx : EvaluatorId)
    (env : EnvId) : Respects (tw.Related back) (m.applyPrimitive ctx fn args named env) := by
  obtain ⟨hreads, hmasks⟩ := Bool.and_eq_true_iff.mp h
  cases hmakes : fn.makesMask with
  | false =>
      have hmodest : Modest (tw.Related back) (m.applyPrimitive ctx fn args named env) :=
        modest_of_readsOnly shows_related hreads
          (fun hmakes' => absurd (hmakes.symm.trans hmakes') nofun) m ctx env
      exact respects_of_modest (fun _ _ out err h => h.write out err) hmodest
  | true =>
      have hinert : inertItems args = true := by
        rw [hmakes] at hmasks
        exact inertItems_iff.mpr fun v hv =>
          inertItems_iff.mp hmasks v (List.mem_append_left _ hv)
      cases fn with
      | newDataMask =>
          have hmask : Respects (tw.Related back) (Machine.maskOver args .empty) :=
            respects_maskOver hinert
          exact inferInstanceAs (Respects (tw.Related back)
            (do pure (Value.mask (← Machine.maskOver args .empty))))
      | asDataMask =>
          match args with
          | [v] =>
              have hmask : Respects (tw.Related back) (Machine.asMask v none) :=
                respects_asMask (inertItems_iff.mp hinert v List.mem_cons_self)
              exact inferInstanceAs (Respects (tw.Related back)
                (do pure (Value.mask (← Machine.asMask v none))))
          | [] | _ :: _ :: _ =>
              exact inferInstanceAs (Respects (tw.Related back) (Run.failArity _))
      | _ => cases hmakes

/-! ## Twins are paired -/

theorem agrees_newPromise {x y : EnvId} (hxy : tw.Pairs x y) (promise : Promise) :
    Agrees (tw.Related back) (Run.newPromise { promise with env := some x })
      (Run.newPromise { promise with env := some y }) := by
  intro t s h
  simp only [Run.newPromise, Run.get_bind, Run.set_bind, h.promiseCount]
  exact .value (h.addPromise hxy promise)

theorem agrees_define {x y : EnvId} (hxy : tw.Pairs x y) (name : String) (v : Value) :
    Agrees (tw.Related back) (Run.define x name v) (Run.define y name v) := by
  have hfail : Respects (tw.Related back)
      (Run.fail (.binding .emptyEnvironment) : Run Unit) := inferInstance
  intro t s h
  have hset := h.setVars hxy name v
  cases hxy with
  | twins => exact .value hset
  | same he =>
      cases x with
      | empty => exact hfail.agrees t s h
      | scope i => exact .value hset
      | bottom m => exact .value hset

theorem respects_nameClosure (v : Value) (name : String) :
    Respects (tw.Related back) (Machine.nameClosure v name) := by
  unfold Machine.nameClosure
  split
  · exact .of_modify fun t s h => h.setClosure _ _
  · infer_instance

theorem pairing (tw : Twin) : Pairing tw.Pairs (tw.Related tw.home) where
  chain := Related.chain
  slot? := Related.slot?
  promise := Related.promise
  newPromise ctx e hxy := agrees_newPromise hxy ⟨e, none, some ctx, false, .unforced⟩
  define v hxy _ := agrees_define hxy _ v
  nameClosure := respects_nameClosure
  primitive m ctx env h := respects_applyPrimitive h m ctx env

end Twin

end Quasi
