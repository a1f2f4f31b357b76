import Quasi.Proofs.Flow.Basic

/-!
# Steps that follow any flow

Failing, logging, making new objects, binding names and looking them up. None of these needs more
than what every flow allows.
-/

namespace Quasi

namespace Flow

variable {F : Flow} {α : Type}

theorem Holds.of_aside {f : Store → Store} (h : ∀ s : Store, s.Aside (f s)) :
    F.Holds (modify f : Run PUnit) := .of_modify fun s => F.aside (h s)

instance (cause : Cause) (call : Option Expr) : F.Holds (Run.failWith cause call : Run α) :=
  .of_signal fun s => ⟨.failure ⟨s.failures.size, cause⟩, _, rfl, F.failure s call⟩

instance (cause : Cause) : F.Holds (Run.fail cause : Run α) := by unfold Run.fail; infer_instance

instance (fault : HostFault) : F.Holds (Run.failHost fault : Run α) := by
  unfold Run.failHost; infer_instance

instance (fault : TypeFault) : F.Holds (Run.failType fault : Run α) := by
  unfold Run.failType; infer_instance

instance (fault : ArityFault) : F.Holds (Run.failArity fault : Run α) := by
  unfold Run.failArity; infer_instance

instance {ε : Type} (toCause : ε → Cause) (r : Except ε α) : F.Holds (Run.orFail toCause r) := by
  unfold Run.orFail
  split <;> infer_instance

instance (r : Except HostFault α) : F.Holds (Run.orFailHost r) := by
  unfold Run.orFailHost; infer_instance

instance (level : LogLevel) (message : String) : F.Holds (Run.logRecord level message) :=
  .of_aside fun s => s.aside_log _

instance (message : String) : F.Holds (Run.warn message) := by unfold Run.warn; infer_instance

instance (message : Unit → String) : F.Holds (Run.trace message) := by
  unfold Run.trace; infer_instance

theorem trace_eq_log (message : Unit → String) (s : Store) :
    ∃ log, Run.trace message s = .ok () { s with log := log } := by
  simp only [Run.trace, Run.get_bind]
  by_cases hverbose : s.verbose = true
  · exact ⟨s.log.push ⟨.debug, message ()⟩, by rw [if_pos hverbose]; rfl⟩
  · exact ⟨s.log, by rw [if_neg hverbose]; rfl⟩

theorem trace_eq_ok (message : Unit → String) (s : Store) :
    ∃ t, Run.trace message s = .ok () t ∧ s.Aside t := by
  obtain ⟨log, hlog⟩ := trace_eq_log message s
  exact ⟨_, hlog, s.aside_log log⟩

instance (message : Unit → String) : Run.Quiet (Run.trace message) where
  ne_signal s t x h := by
    obtain ⟨u, hu, -⟩ := trace_eq_ok message s
    rw [hu] at h
    cases h

instance : F.Holds Run.freshId :=
  .of_value fun s => ⟨s.nextId, _, rfl, F.aside ⟨Nat.le_succ _, rfl, rfl, rfl, rfl, rfl, rfl, rfl⟩⟩

instance (parent : EnvId) (vars : Bindings Value) (name : Option String) :
    F.Holds (Run.newScope parent vars name) :=
  .of_value fun s => ⟨.scope s.scopes.size, _, rfl, F.scope s _⟩

theorem holds_newPromise {p : Promise} (h : p.progress.isFresh = true) :
    F.Holds (Run.newPromise p) :=
  .of_value fun s => ⟨⟨s.promises.size⟩, _, rfl, F.promise s p h⟩

instance (code : Expr) (env : Option EnvId) (ctx : Option EvaluatorId) (isDefault : Bool) :
    F.Holds (Run.newPromise ⟨code, env, ctx, isDefault, .unforced⟩) := holds_newPromise rfl

instance (code : Expr) (env : Option EnvId) (ctx : Option EvaluatorId) (isDefault : Bool)
    (v : Value) : F.Holds (Run.newPromise ⟨code, env, ctx, isDefault, .given v⟩) :=
  holds_newPromise rfl

instance (c : Closure) : F.Holds (Run.newClosure c) :=
  .of_value fun s => ⟨⟨s.closures.size⟩, _, rfl, F.closure s c⟩

instance (scopes : List DataScope) (home : EnvId) : F.Holds (Run.newMask scopes home) :=
  .of_value fun s => ⟨⟨s.masks.size⟩, _, rfl, F.mask s _⟩

instance (globalEnv : Option EnvId) (maxDepth : Int) :
    F.Holds (Run.newEvaluator globalEnv maxDepth) :=
  .of_value fun s => ⟨⟨s.evaluators.size⟩, _, rfl, F.evaluator s globalEnv maxDepth⟩

instance (v : Value) : F.Holds (Run.own v) := by
  unfold Run.own
  split <;> infer_instance

/-! ## Texts -/

instance (x : Option α) : F.Holds (Run.orOverflow x) := by
  unfold Run.orOverflow
  split <;> infer_instance

instance (v : Value) : F.Holds (Run.inspect v) := by unfold Run.inspect; infer_instance

instance (v : Value) : F.Holds (Run.plainText v) := by unfold Run.plainText; infer_instance

instance (v : Value) : F.Holds (Run.format v) := by unfold Run.format; infer_instance

instance (signal : Signal) : F.Holds (Run.signalText signal) := by
  unfold Run.signalText
  split <;> infer_instance

/-! ## Environments -/

theorem reachEnd_apply (e : EnvId) (s : Store) :
    Run.reachEnd e s =
      match (s.chain e).2 with
      | true => .ok () s
      | false => .error .endless s := by
  simp only [Run.reachEnd, Run.get_bind]
  cases (s.chain e).2 <;> rfl

instance (e : EnvId) : F.Holds (Run.reachEnd e) where
  ends {s t} h := by
    have ht : t = s := by
      cases h with
      | value v h => rw [reachEnd_apply] at h; grind
      | signal x h => rw [reachEnd_apply] at h; cases x <;> grind [Signal.interrupt]
    exact ht ▸ F.refl s
  lost {s t} h := by
    rw [Run.LostIn, reachEnd_apply] at h
    cases hc : (s.chain e).2 with
    | true => simp [hc] at h
    | false =>
        rw [hc, EStateM.Result.error.injEq] at h
        exact h.2 ▸ F.astray hc

instance (e : EnvId) (test : Store → EnvId → Bool) : F.Holds (Run.search e test) := by
  unfold Run.search
  apply Holds.andThen
  intro s
  split <;> infer_instance

instance (e : EnvId) : F.Holds (Run.parents e) := by unfold Run.parents; infer_instance

instance (e : EnvId) (name : String) : F.Holds (Run.find e name) := by
  unfold Run.find; infer_instance

instance (e : EnvId) (name : String) : F.Holds (Run.binding e name) := by
  unfold Run.binding
  apply Holds.andThen
  intro found
  split
  · infer_instance
  · apply Holds.andThen
    intro s
    split <;> infer_instance

instance (e : EnvId) (name : String) (v : Value) : F.Holds (Run.define e name v) := by
  unfold Run.define
  split
  · infer_instance
  · exact .of_modify fun s => F.vars s _ _

instance (e : EnvId) (name : String) : F.Holds (Run.unbind e name) := by
  unfold Run.unbind
  have : F.Holds (modify fun s => s.setVars e fun vars => vars.erase name : Run PUnit) :=
    .of_modify fun s => F.vars s _ _
  infer_instance

instance (e : EnvId) (name : String) (v : Value) : F.Holds (Run.rebind e name v) := by
  unfold Run.rebind
  apply Holds.andThen
  intro found
  split <;> infer_instance

instance (e : EnvId) : F.Holds (Run.findMask e) := by
  unfold Run.findMask
  apply Holds.andThen
  intro found
  split <;> infer_instance

end Flow

end Quasi
