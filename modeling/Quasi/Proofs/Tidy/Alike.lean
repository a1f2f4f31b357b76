import Quasi.Proofs.Store
import Quasi.Proofs.Tidy.Agrees
import Quasi.Proofs.Tidy.Reading

/-!
# Stores that are alike but for a mask

Two stores are alike but for a mask if they differ in nothing else than what that mask falls back
to, what was logged and what happened. Every environment binds the same in both, and all chains that
do not pass the mask are the same.
-/

namespace Quasi

namespace Store

/-- What a mask binds a name to depends on scopes, on the mask and on masks made before it. -/
theorem maskSlot?_congr {s t : Store} {n : Nat} (hscope : t.scope = s.scope)
    (hvars : ∀ m : MaskId, m.index ≤ n → (t.mask m).vars = (s.mask m).vars)
    (hsources : ∀ m : MaskId, m.index ≤ n → (t.mask m).scopes = (s.mask m).scopes)
    (name : String) : t.maskSlot? n name = s.maskSlot? n name := by
  induction n using Nat.strongRecOn with
  | ind n ih =>
      unfold Store.maskSlot?
      rw [hvars ⟨n⟩ (Nat.le_refl n), hsources ⟨n⟩ (Nat.le_refl n), hscope]
      congr 1
      funext _
      refine congrArg (List.findSome? · _) (funext fun source => ?_)
      split
      case h_4 m =>
        split
        case isTrue hm =>
          exact ih m.index hm (fun k hk => hvars k (Nat.le_trans hk (Nat.le_of_lt hm)))
            fun k hk => hsources k (Nat.le_trans hk (Nat.le_of_lt hm))
        case isFalse => rfl
      all_goals rfl

/-- So does what any environment binds a name to. -/
theorem slot?_congr {s t : Store} (hscope : t.scope = s.scope)
    (hvars : ∀ m : MaskId, (t.mask m).vars = (s.mask m).vars)
    (hsources : ∀ m : MaskId, (t.mask m).scopes = (s.mask m).scopes) (e : EnvId) (name : String) :
    t.slot? e name = s.slot? e name := by
  cases e with
  | empty => rfl
  | scope i => simp only [Store.slot?, hscope]
  | bottom m => exact maskSlot?_congr hscope (fun m _ => hvars m) (fun m _ => hsources m) name

/-- The names of what masks show depend on the same. -/
theorem maskNames_congr {s t : Store} (hscope : t.scope = s.scope)
    (hvars : ∀ m : MaskId, (t.mask m).vars = (s.mask m).vars)
    (hsources : ∀ m : MaskId, (t.mask m).scopes = (s.mask m).scopes) (n : Nat) :
    t.maskNames n = s.maskNames n := by
  induction n using Nat.strongRecOn with
  | ind n ih =>
      unfold Store.maskNames
      rw [hvars, hsources, hscope]
      refine congrArg (fun f => distinct (_ ++ List.flatMap f _)) (funext fun source => ?_)
      split <;> first | rfl | (split <;> first | exact ih _ ‹_› | rfl)

theorem names_congr {s t : Store} (hscope : t.scope = s.scope)
    (hvars : ∀ m : MaskId, (t.mask m).vars = (s.mask m).vars)
    (hsources : ∀ m : MaskId, (t.mask m).scopes = (s.mask m).scopes) (e : EnvId) :
    t.names e = s.names e := by
  cases e <;> simp only [Store.names, hscope, maskNames_congr hscope hvars hsources]

theorem dataNames_congr {s t : Store} (hscope : t.scope = s.scope)
    (hvars : ∀ m : MaskId, (t.mask m).vars = (s.mask m).vars)
    (hsources : ∀ m : MaskId, (t.mask m).scopes = (s.mask m).scopes) (m : MaskId) :
    t.dataNames m = s.dataNames m := by
  have hsource : t.scopeNames = s.scopeNames := by
    funext source
    cases source <;> simp only [Store.scopeNames, names_congr hscope hvars hsources]
  simp only [Store.dataNames, hsources, hsource]

/-- Two stores that differ in what one mask falls back to, in the log and in the history only. -/
structure Alike (m : MaskId) (s t : Store) : Prop where
  scopes : t.scopes = s.scopes
  size : t.masks.size = s.masks.size
  vars (k : MaskId) : (t.mask k).vars = (s.mask k).vars
  sources (k : MaskId) : (t.mask k).scopes = (s.mask k).scopes
  home (k : MaskId) : k ≠ m → (t.mask k).home = (s.mask k).home
  promises : t.promises = s.promises
  closures : t.closures = s.closures
  failures : t.failures = s.failures
  evaluators : t.evaluators = s.evaluators
  nextId : t.nextId = s.nextId
  settings : t.settings = s.settings
  verbose : t.verbose = s.verbose
  out : t.out = s.out
  err : t.err = s.err
  recorded : t.recorded = s.recorded
  notes : t.notes = s.notes
  ticks : t.ticks = s.ticks

namespace Alike

variable {m : MaskId} {s t u : Store}

theorem refl (s : Store) : s.Alike m s :=
  ⟨rfl, rfl, fun _ => rfl, fun _ => rfl, fun _ _ => rfl, rfl, rfl, rfl, rfl, rfl, rfl, rfl, rfl,
    rfl, rfl, rfl, rfl⟩

theorem promise (h : s.Alike m t) (p : PromiseId) : t.promise p = s.promise p := by
  simp only [Store.promise, h.promises]

theorem closure (h : s.Alike m t) (c : ClosureId) : t.closure c = s.closure c := by
  simp only [Store.closure, h.closures]

theorem incident (h : s.Alike m t) (f : FailureRef) : t.incident f = s.incident f := by
  simp only [Store.incident, h.failures]

theorem known (h : s.Alike m t) (e : EnvId) : t.known e = s.known e := by
  cases e <;> simp only [Store.known, h.scopes, h.size]

theorem scope (h : s.Alike m t) (i : Nat) : t.scope i = s.scope i := by
  simp only [Store.scope, h.scopes]

/-! ## Bindings -/

theorem maskSlot? (h : s.Alike m t) (k : Nat) (name : String) :
    t.maskSlot? k name = s.maskSlot? k name :=
  maskSlot?_congr (funext h.scope) (fun m _ => h.vars m) (fun m _ => h.sources m) name

theorem slot? (h : s.Alike m t) (e : EnvId) (name : String) : t.slot? e name = s.slot? e name :=
  slot?_congr (funext h.scope) h.vars h.sources e name

theorem dataSlot? (h : s.Alike m t) (source : DataScope) (name : String) :
    t.dataSlot? source name = s.dataSlot? source name := by
  cases source <;> simp only [Store.dataSlot?, h.slot?]

theorem inScopes? (h : s.Alike m t) (scopes : List DataScope) (name : String) :
    t.inScopes? scopes name = s.inScopes? scopes name := by
  simp only [Store.inScopes?, h.dataSlot?]

theorem dataNames (h : s.Alike m t) (k : MaskId) : t.dataNames k = s.dataNames k :=
  dataNames_congr (funext h.scope) h.vars h.sources k

/-! ## Changes -/

theorem failure (h : s.Alike m t) (incident : Incident) :
    Alike m { s with failures := s.failures.push incident }
      { t with failures := t.failures.push incident } :=
  { h with failures := congrArg (·.push incident) h.failures }

theorem log (h : s.Alike m t) (a b : Array LogRecord) :
    Alike m { s with log := a } { t with log := b } := { h with }

theorem history (h : s.Alike m t) (a b : List Event) :
    Alike m { s with history := a } { t with history := b } := { h with }

theorem withPromises (h : s.Alike m t) (f : Array Promise → Array Promise) :
    Alike m { s with promises := f s.promises } { t with promises := f t.promises } :=
  { h with promises := congrArg f h.promises }

theorem setPromise (h : s.Alike m t) (p : PromiseId) (f : Promise → Promise) :
    (s.setPromise p f).Alike m (t.setPromise p f) := h.withPromises (·.modify p.index f)

theorem setEvaluator (h : s.Alike m t) (ctx : EvaluatorId) (f : Evaluator → Evaluator) :
    (s.setEvaluator ctx f).Alike m (t.setEvaluator ctx f) :=
  { h with evaluators := congrArg (·.modify ctx.index f) h.evaluators }

theorem begin (h : s.Alike m t) (p : PromiseId) : (s.begin p).Alike m (t.begin p) := by
  simp only [Store.begin, Store.use_eq]
  exact (h.setPromise p fun promise => { promise with progress := .forcing }).history _ _

theorem addPromise (h : s.Alike m t) (promise : Promise) :
    (s.addPromise promise).Alike m (t.addPromise promise) := by
  have hknown : t.known = s.known := funext h.known
  simp only [Store.addPromise, Store.capture_eq, hknown]
  exact (h.withPromises (·.push _)).history _ _

theorem addMask (h : s.Alike m t) (mask : Mask) : (s.addMask mask).Alike m (t.addMask mask) := {
  h with
  size := by simp only [Store.addMask, Array.size_push, h.size]
  vars := fun k => by
    rw [Store.mask_addMask, Store.mask_addMask, h.size]
    split
    · rfl
    · exact h.vars k
  sources := fun k => by
    rw [Store.mask_addMask, Store.mask_addMask, h.size]
    split
    · rfl
    · exact h.sources k
  home := fun k hk => by
    rw [Store.mask_addMask, Store.mask_addMask, h.size]
    split
    · exact h.known mask.home
    · exact h.home k hk }

end Alike

end Store

/-! ## Steps that respect a relation of stores -/

namespace Run

/-- A relation of stores that is respected by what forcing and failing are made of. -/
class Forces (Q : Store → Store → Prop) : Prop where
  failWith {α : Type} (cause : Cause) (call : Option Expr) :
    Respects Q (Run.failWith cause call : Run α)
  trace (message : Unit → String) : Respects Q (Run.trace message)
  warn (message : String) : Respects Q (Run.warn message)
  freshId : Respects Q Run.freshId
  begin (p : PromiseId) : Respects Q (Machine.begin p)
  conclude (p : PromiseId) (outcome : Except Signal Value) : Respects Q (Machine.conclude p outcome)

/-- A relation of stores that is also respected where code is promised and stacks change. -/
class Steps (Q : Store → Store → Prop) : Prop extends Forces Q where
  newPromise (code : Expr) (env : Option EnvId) (ctx : Option EvaluatorId) (isDefault : Bool) :
    Respects Q (Run.newPromise ⟨code, env, ctx, isDefault, .unforced⟩)
  evaluator (ctx : EvaluatorId) (f : Evaluator → Evaluator) :
    Respects Q (modify fun s => s.setEvaluator ctx f : Run PUnit)

/-- A relation of stores that is respected by what failing alone is made of. -/
class Fails (Q : Store → Store → Prop) : Prop where
  failWith {α : Type} (cause : Cause) (call : Option Expr) :
    Respects Q (Run.failWith cause call : Run α)
  trace (message : Unit → String) : Respects Q (Run.trace message)
  warn (message : String) : Respects Q (Run.warn message)
  freshId : Respects Q Run.freshId

attribute [instance] Forces.begin Forces.conclude Steps.newPromise Steps.evaluator Fails.failWith
  Fails.trace Fails.warn Fails.freshId

instance (Q : Store → Store → Prop) [h : Forces Q] : Fails Q where
  failWith := h.failWith
  trace := h.trace
  warn := h.warn
  freshId := h.freshId

theorem respects_eq {α : Type} (a : Run α) : Respects Eq a where
  agrees s s' hs := by
    subst hs
    cases h : a s with
    | ok v t => exact .value rfl
    | error i t =>
        cases i with
        | failure f => exact .signal (x := .failure f) rfl
        | returning v target => exact .signal (x := .returning v target) rfl
        | overflow => exact .signal (x := .overflow) rfl
        | endless => exact .endless

instance : Steps Eq where
  failWith _ _ := respects_eq _
  trace _ := respects_eq _
  warn _ := respects_eq _
  freshId := respects_eq _
  newPromise _ _ _ _ := respects_eq _
  begin _ := respects_eq _
  conclude _ _ := respects_eq _
  evaluator _ _ := respects_eq _

instance (m : MaskId) : Steps (Store.Alike m) where
  failWith cause call := ⟨fun s s' h => by
    have hsize : s'.failures.size = s.failures.size := by rw [h.failures]
    simp only [Run.failWith, get_bind, set_bind, raise_apply, hsize]
    exact .signal (h.failure _)⟩
  trace message := by
    unfold Run.trace
    refine .get_bind (fun s s' h => by rw [h.verbose]) fun s => ?_
    have hlog (level : LogLevel) (text : String) :
        Respects (Store.Alike m) (logRecord level text) := .of_modify fun s s' h => h.log _ _
    infer_instance
  warn message := .of_modify fun s s' h => h.log _ _
  freshId := .of_value (v := Store.nextId) (g := fun s => { s with nextId := s.nextId + 1 })
    (fun _ => rfl) (fun _ _ h => h.nextId.symm)
    fun _ _ h => { h with nextId := congrArg (· + 1) h.nextId }
  newPromise code env ctx isDefault := .of_value (v := fun s => ⟨s.promises.size⟩)
    (g := fun s => s.addPromise ⟨code, env, ctx, isDefault, .unforced⟩) (fun _ => rfl)
    (fun _ _ h => by rw [h.promises]) fun _ _ h => h.addPromise _
  begin p := .of_modify fun _ _ h => h.begin p
  conclude p outcome := by
    have habandon (x : Signal) : Respects (Store.Alike m) (Machine.abandon p x) :=
      .of_modify fun s s' h => (h.setPromise p _).history _ _
    have hsettle (progress : Progress) : Respects (Store.Alike m) (Machine.settle p progress) :=
      .of_modify fun s s' h => (h.setPromise p _).history _ _
    unfold Machine.conclude
    split <;> infer_instance
  evaluator ctx f := .of_modify fun _ _ h => h.setEvaluator ctx f

section Fails

variable {Q : Store → Store → Prop} [Fails Q] {α : Type}

instance (cause : Cause) : Respects Q (fail cause : Run α) := by unfold fail; infer_instance

instance (fault : HostFault) : Respects Q (failHost fault : Run α) := by
  unfold failHost; infer_instance

instance (fault : TypeFault) : Respects Q (failType fault : Run α) := by
  unfold failType; infer_instance

instance (fault : ArityFault) : Respects Q (failArity fault : Run α) := by
  unfold failArity; infer_instance

instance {ε : Type} (toCause : ε → Cause) (r : Except ε α) : Respects Q (orFail toCause r) := by
  unfold orFail
  split <;> infer_instance

instance (v : Value) : Respects Q (own v) := by
  unfold own
  split <;> infer_instance

end Fails

end Run

end Quasi
