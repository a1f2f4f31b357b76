import Quasi.Proofs.Tidy.Primitive
import Quasi.Proofs.Tidy.Parts

/-!
# Properties of stores that runs preserve

A run preserves a property of stores if it does not end in a store without it, from one that has it.
Nothing is said of runs that are lost. What a run is made of preserves a property that is about
environments, masks and promises only, as long as none of these is changed; the rest is left to what
a machine does in one environment.
-/

namespace Quasi

namespace Run

variable {I J : Store → Prop} {α β : Type}

/-- A run that leads from stores with a property to stores with it, with a value or by a signal. -/
class Preserves (I : Store → Prop) (a : Run α) : Prop where
  ends {s t : Store} : I s → a.EndsIn s t → I t

/-- A property of environments, masks and promises that it does not matter to if a mask is made. -/
class Lasting (I : Store → Prop) : Prop where
  of_eq {s t : Store} : t.scopes = s.scopes → t.masks = s.masks → t.promises = s.promises →
    I s → I t
  addMask {s : Store} (mask : Mask) : I s → I (s.addMask mask)

namespace Preserves

theorem of_ok {a : Run α} [ha : Preserves I a] {s t : Store} {v : α} (hs : I s)
    (h : a s = .ok v t) : I t := ha.ends hs (.value v h)

/-- A run that has a value in every store. -/
theorem of_value {a : Run α} {v : Store → α} {g : Store → Store} (ha : ∀ s, a s = .ok (v s) (g s))
    (hg : ∀ s, I s → I (g s)) : Preserves I a where
  ends {s t} hs h := by
    cases h with
    | value w h =>
        rw [ha s] at h
        cases h
        exact hg s hs
    | signal x h =>
        rw [ha s] at h
        cases h

theorem of_modify {g : Store → Store} (hg : ∀ s, I s → I (g s)) :
    Preserves I (modify g : Run PUnit) := of_value (v := fun _ => ⟨⟩) (fun _ => rfl) hg

instance (v : α) : Preserves I (pure v : Run α) := of_value (fun _ => rfl) fun _ hs => hs

instance : Preserves I (get : Run Store) := of_value (fun _ => rfl) fun _ hs => hs

instance (x : Signal) : Preserves I (raise x : Run α) where
  ends {s t} hs h := by
    cases h with
    | value v h => cases h
    | signal y h =>
        rw [raise_apply, EStateM.Result.error.injEq] at h
        exact h.2 ▸ hs

/-- Nothing is said of a run that is lost. -/
instance : Preserves I (throw .endless : Run α) where
  ends hs h := by
    cases h with
    | value v h => cases h
    | signal x h =>
        have hx := congrArg (fun | .error i _ => i | .ok _ _ => .endless) h
        exact (interrupt_ne_endless x hx.symm).elim

theorem bind {a : Run α} {f : α → Run β} (ha : Preserves I a) (hf : ∀ v, Preserves I (f v)) :
    Preserves I (a >>= f) where
  ends hs h := by
    rcases h.of_bind with ⟨v, u, hu, h⟩ | ⟨x, h⟩
    · exact (hf v).ends (ha.of_ok hs hu) h
    · exact ha.ends hs (.signal x h)

instance (a : Run α) (f : α → Run β) [Preserves I a] [hf : ∀ v, Preserves I (f v)] :
    Preserves I (a >>= f) := bind inferInstance hf

theorem andThen {a : Run α} {f : α → Run β} [ha : Preserves I a] (hf : ∀ v, Preserves I (f v)) :
    Preserves I (a >>= f) := ha.bind hf

instance (c : Prop) [Decidable c] (a b : Run α) [Preserves I a] [Preserves I b] :
    Preserves I (if c then a else b) := by
  split <;> infer_instance

instance (a : Run α) [ha : Preserves I a] : Preserves I (attempt a) where
  ends hs h := by
    cases h with
    | value r h => exact ha.ends hs (endsIn_of_attempt h)
    | signal x h => exact (interrupt_ne_endless x (attempt_eq_error h).1).elim

instance (r : Except Signal α) : Preserves I (resume r) := by
  unfold resume
  split <;> infer_instance

/-! ## Steps that change nothing that matters -/

variable [Lasting I]

theorem of_modify_rest {g : Store → Store} (hscopes : ∀ s, (g s).scopes = s.scopes)
    (hmasks : ∀ s, (g s).masks = s.masks) (hpromises : ∀ s, (g s).promises = s.promises) :
    Preserves I (modify g : Run PUnit) :=
  of_modify fun s => Lasting.of_eq (hscopes s) (hmasks s) (hpromises s)

instance (cause : Cause) (call : Option Expr) : Preserves I (failWith cause call : Run α) where
  ends {s t} hs h := by
    have ht : t = { s with failures := s.failures.push ⟨call, none⟩ } := by
      cases h with
      | value v h => cases h
      | signal x h =>
          simp only [failWith, Run.get_bind, set_bind, raise_apply, EStateM.Result.error.injEq] at h
          exact h.2.symm
    exact ht ▸ Lasting.of_eq (s := s) rfl rfl rfl hs

instance (level : LogLevel) (message : String) : Preserves I (logRecord level message) :=
  of_modify_rest (fun _ => rfl) (fun _ => rfl) fun _ => rfl

instance (message : Unit → String) : Preserves I (trace message) := by
  unfold trace
  infer_instance

/-- A modest run makes masks and identities only. -/
theorem of_modest {Q : Store → Store → Prop} {a : Run α} (h : Modest Q a) : Preserves I a := by
  induction h with
  | value | failure | signal => infer_instance
  | identity => exact of_value (fun _ => rfl) fun s hs => Lasting.of_eq (s := s) rfl rfl rfl hs
  | mask => exact of_value (fun _ => rfl) fun _ hs => Lasting.addMask _ hs
  | output => exact of_modify_rest (fun _ => rfl) (fun _ => rfl) fun _ => rfl
  | read _ _ ih => exact andThen ih
  | andThen _ _ ha hf => exact ha.bind hf

instance (priority := low) (a : Run α) [h : Modest Eq a] : Preserves I a := of_modest h

theorem applyPrimitive {fn : Primitive} {args : List Value} (h : fn.standsAlone args = true)
    (m : Machine) (ctx : EvaluatorId) (named : Bindings Value) (env : EnvId) :
    Preserves I (m.applyPrimitive ctx fn args named env) :=
  of_modest (modest_applyPrimitive shows_eq h (fun _ _ _ => trivial)
    (fun _ _ _ _ _ hs => hs ▸ rfl) (fun _ _ _ _ => trivial) (fun _ => inferInstance) m ctx named
    env)

instance (ctx : EvaluatorId) (f : Evaluator → Evaluator) :
    Preserves I (modify fun s => s.setEvaluator ctx f : Run PUnit) :=
  of_modify_rest (fun _ => rfl) (fun _ => rfl) fun _ => rfl

instance (ctx : EvaluatorId) (env : EnvId) (body : Run Value) [Preserves I body] :
    Preserves I (Machine.inTarget ctx env body) := by
  unfold Machine.inTarget
  refine andThen fun _ => andThen fun outcome => andThen fun _ => ?_
  split <;> infer_instance

instance (v : Value) (name : String) : Preserves I (Machine.nameClosure v name) := by
  unfold Machine.nameClosure
  split
  · exact of_modify_rest (fun _ => rfl) (fun _ => rfl) fun _ => rfl
  · infer_instance

instance (target : Expr) : Preserves I (Machine.assignmentTarget target) := by
  unfold Machine.assignmentTarget
  split <;> infer_instance

instance (formals : List String) (describe : α → String) (supplied : List (Tagged α))
    (call : Option Expr) : Preserves I (Machine.matchFormals formals describe supplied call) := by
  have htoFailure {γ : Type} (r : Except ArityFault γ) : Preserves I (match r with
      | .ok b => pure b
      | .error fault => failWith (.arity fault) call : Run γ) := by split <;> infer_instance
  unfold Machine.matchFormals
  apply bind (htoFailure _)
  intro state
  apply andThen
  intro s
  split
  · infer_instance
  · exact htoFailure _

instance (names : List String) (slots : List Slot) :
    Preserves I (Machine.matchSlots names slots) := by
  unfold Machine.matchSlots
  infer_instance

/-! ## Looking names up -/

omit [Lasting I] in
instance (e : EnvId) : Preserves I (reachEnd e) := by
  unfold reachEnd
  refine andThen fun s => ?_
  infer_instance

omit [Lasting I] in
instance (e : EnvId) (test : Store → EnvId → Bool) : Preserves I (search e test) := by
  unfold search
  refine andThen fun s => ?_
  split <;> infer_instance

omit [Lasting I] in
instance (e : EnvId) (name : String) : Preserves I (find e name) := by
  unfold find
  infer_instance

instance (e : EnvId) (name : String) : Preserves I (binding e name) := by
  unfold binding
  refine andThen fun found => ?_
  split
  · infer_instance
  · refine andThen fun s => ?_
    split <;> infer_instance

instance (env : EnvId) : Preserves I (Machine.dotsOf env) := by
  unfold Machine.dotsOf
  refine andThen fun found => ?_
  split
  · infer_instance
  · refine andThen fun s => ?_
    split <;> infer_instance

end Preserves

/-! ## What a machine does in one environment -/

/-- A machine that preserves a property when it evaluates in an environment, binds names there and
makes promises over it, and when it forces a promise. -/
class Serves (I : Store → Prop) (m : Machine) (env : EnvId) : Prop where
  eval (ctx : EvaluatorId) (e : Expr) : Preserves I (m.eval ctx e env)
  force (ctx : Option EvaluatorId) (p : PromiseId) : Preserves I (m.force ctx p)
  define (name : String) (v : Value) : Preserves I (define env name v)
  newPromise (e : Expr) (ctx : EvaluatorId) :
    Preserves I (newPromise ⟨e, some env, some ctx, false, .unforced⟩)

namespace Serves

attribute [instance] eval define newPromise

variable {m : Machine} {env : EnvId}

theorem forceValue (h : Serves I m env) (ctx : Option EvaluatorId) (v : Value) :
    Preserves I (m.forceValue ctx v) := by
  unfold Machine.forceValue
  split
  · exact h.force ctx _
  · infer_instance

variable [Lasting I] [h : Serves I m env] (ctx : EvaluatorId)

theorem lookup (name : String) : Preserves I (m.lookup env name) := by
  unfold Machine.lookup
  refine .andThen fun v => ?_
  split
  · infer_instance
  · exact h.forceValue none _

theorem lookupFunction (name : String) : Preserves I (m.lookupFunction env name) := by
  have hfirst (chain : List EnvId) : Preserves I (m.firstFunction name chain) := by
    induction chain with
    | nil => unfold Machine.firstFunction; infer_instance
    | cons e rest ih =>
        unfold Machine.firstFunction
        refine .andThen fun s => ?_
        split
        · exact ih
        · exact .bind (h.forceValue none _) fun v => inferInstance
  unfold Machine.lookupFunction
  refine .andThen fun s => .bind (hfirst _) fun found => ?_
  split <;> infer_instance

theorem evalSymbol (name : String) : Preserves I (m.evalSymbol ctx name env) := by
  unfold Machine.evalSymbol
  split
  · infer_instance
  · split
    · exact lookup name
    · refine .andThen fun entries => ?_
      split
      · infer_instance
      · infer_instance
      · exact h.forceValue (some ctx) _

theorem evalArgs (slots : List Slot) (call : Expr) :
    Preserves I (m.evalArgs ctx slots env call) := by
  have hpromise (slots : List Slot) : Preserves I (Machine.promiseArgs ctx env slots) := by
    induction slots with
    | nil => unfold Machine.promiseArgs; infer_instance
    | cons slot rest ih =>
        unfold Machine.promiseArgs
        split
        · infer_instance
        · split <;> infer_instance
  have hforce (supplied : List (Tagged Value)) (positional : List Value)
      (named : Bindings Value) : Preserves I (m.forceArgs ctx call supplied positional named) := by
    induction supplied generalizing positional named with
    | nil => unfold Machine.forceArgs; infer_instance
    | cons t rest ih =>
        unfold Machine.forceArgs
        split
        · infer_instance
        · refine .bind (h.forceValue (some ctx) _) fun v => ?_
          split
          · exact ih _ _
          · split
            · infer_instance
            · exact ih _ _
  exact .bind (hpromise slots) fun supplied => hforce supplied [] []

/-! ### Forms -/

omit [Lasting I] in
theorem blockForm (slots : List Slot) : Preserves I (m.blockForm ctx env slots) := by
  induction slots with
  | nil => unfold Machine.blockForm; infer_instance
  | cons slot rest ih =>
      cases rest with
      | nil => exact eval ctx slot.item
      | cons next rest => exact .bind (eval ctx slot.item) fun _ => ih

theorem parenForm (slots : List Slot) : Preserves I (m.parenForm ctx slots env) := by
  unfold Machine.parenForm
  split <;> infer_instance

instance conditionOf (form : String) (e : Expr) : Preserves I (m.conditionOf ctx form e env) := by
  unfold Machine.conditionOf
  infer_instance

theorem ifForm (slots : List Slot) : Preserves I (m.ifForm ctx slots env) := by
  unfold Machine.ifForm
  split <;> infer_instance

theorem andForm (slots : List Slot) : Preserves I (m.andForm ctx slots env) := by
  unfold Machine.andForm
  split <;> infer_instance

theorem orForm (slots : List Slot) : Preserves I (m.orForm ctx slots env) := by
  unfold Machine.orForm
  split <;> infer_instance

theorem assignForm (slots : List Slot) : Preserves I (m.assignForm ctx slots env) := by
  have hassignment : Preserves I (m.assignment ctx slots env) := by
    unfold Machine.assignment
    split <;> infer_instance
  exact .bind hassignment fun _ => inferInstance

end Serves

end Run

end Quasi
