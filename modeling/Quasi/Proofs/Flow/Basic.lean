import Quasi.Machine.Frames

/-!
# Flows

A flow says how a run may change the store: what holds between the store in which a run starts and
the one in which it ends, whether with a value or by a signal, and what holds if the run is lost in
a search without an end. A run that is made of runs that follow a flow follows it too, so that a
property of evaluation is proved for its steps only.
-/

namespace Quasi

namespace Run

variable {α β : Type} {a : Run α} {s t : Store}

/-- A run that starts in `s` comes to an end in `t`, with a value or by a signal. -/
inductive EndsIn (a : Run α) (s t : Store) : Prop where
  | value (v : α) (h : a s = .ok v t)
  | signal (x : Signal) (h : a s = .error x.interrupt t)

/-- A run that starts in `s` is lost in `t`, in a search without an end. -/
def LostIn (a : Run α) (s t : Store) : Prop := a s = .error .endless t

theorem interrupt_ne_endless (x : Signal) : x.interrupt ≠ .endless := by
  cases x <;> simp [Signal.interrupt]

theorem raise_apply (x : Signal) (s : Store) : (raise x : Run α) s = .error x.interrupt s := rfl

theorem get_bind (f : Store → Run α) (s : Store) : (get >>= f) s = f s s := rfl

theorem set_bind (f : PUnit → Run α) (s t : Store) : (set t >>= f) s = f ⟨⟩ t := rfl

theorem bind_of_ok {f : α → Run β} {v : α} (h : a s = .ok v t) : (a >>= f) s = f v t := by
  simp only [bind, EStateM.bind, h]

/-- Runs that start alike go on alike. -/
theorem bind_of_eq {a b : Run α} {f : α → Run β} (h : a s = b t) : (a >>= f) s = (b >>= f) t := by
  simp only [bind, EStateM.bind, h]

theorem bind_eq_ok {f : α → Run β} {w : β} (h : (a >>= f) s = .ok w t) :
    ∃ v u, a s = .ok v u ∧ f v u = .ok w t := by
  simp only [bind, EStateM.bind] at h
  split at h
  next v u hu => exact ⟨v, u, hu, h⟩
  next => cases h

theorem bind_of_error {f : α → Run β} {i : Interrupt} (h : a s = .error i t) :
    (a >>= f) s = .error i t := by
  simp only [bind, EStateM.bind, h]

theorem EndsIn.of_bind {f : α → Run β} (h : (a >>= f).EndsIn s t) :
    (∃ v u, a s = .ok v u ∧ (f v).EndsIn u t) ∨ ∃ x : Signal, a s = .error x.interrupt t := by
  cases ha : a s with
  | ok v u =>
      refine .inl ⟨v, u, rfl, ?_⟩
      cases h with
      | value w h => exact .value w (by simpa [bind, EStateM.bind, ha] using h)
      | signal x h => exact .signal x (by simpa [bind, EStateM.bind, ha] using h)
  | error i u =>
      cases h with
      | value w h => simp [bind, EStateM.bind, ha] at h
      | signal x h =>
          simp only [bind, EStateM.bind, ha, EStateM.Result.error.injEq] at h
          exact .inr ⟨x, by rw [h.1, h.2]⟩

theorem LostIn.of_bind {f : α → Run β} (h : (a >>= f).LostIn s t) :
    (∃ v u, a s = .ok v u ∧ (f v).LostIn u t) ∨ a.LostIn s t := by
  unfold LostIn at h ⊢
  cases ha : a s with
  | ok v u => exact .inl ⟨v, u, rfl, by simpa [bind, EStateM.bind, ha] using h⟩
  | error i u => exact .inr (by simpa [bind, EStateM.bind, ha] using h)

theorem EndsIn.of_eq {b : Run α} {u : Store} (h : a.EndsIn s t) (hab : a s = b u) :
    b.EndsIn u t := by
  cases h with
  | value v h => exact .value v (hab ▸ h)
  | signal x h => exact .signal x (hab ▸ h)

/-- An attempt ends where the run ends that it is made of. -/
theorem attempt_eq_ok {r : Except Signal α} (h : attempt a s = .ok r t) :
    (∃ v, r = .ok v ∧ a s = .ok v t) ∨ ∃ x : Signal, r = .error x ∧ a s = .error x.interrupt t := by
  unfold attempt at h
  split at h <;> cases h
  · exact .inl ⟨_, rfl, ‹_›⟩
  · exact .inr ⟨.failure _, rfl, ‹_›⟩
  · exact .inr ⟨.returning _ _, rfl, ‹_›⟩
  · exact .inr ⟨.overflow, rfl, ‹_›⟩

theorem attempt_eq_error {i : Interrupt} (h : attempt a s = .error i t) :
    i = .endless ∧ a.LostIn s t := by
  unfold attempt at h
  split at h <;> cases h
  exact ⟨rfl, ‹_›⟩

theorem endsIn_of_attempt {r : Except Signal α} (h : attempt a s = .ok r t) : a.EndsIn s t := by
  rcases attempt_eq_ok h with ⟨v, -, h⟩ | ⟨x, -, h⟩
  · exact .value v h
  · exact .signal x h

/-- A run that never ends by a signal. -/
class Quiet (a : Run α) : Prop where
  ne_signal (s t : Store) (x : Signal) : a s ≠ .error x.interrupt t

instance (v : α) : Quiet (pure v : Run α) := ⟨fun _ _ _ h => by cases h⟩

instance : Quiet (get : Run Store) := ⟨fun _ _ _ h => by cases h⟩

instance (f : Store → Store) : Quiet (modify f : Run PUnit) := ⟨fun _ _ _ h => by cases h⟩

instance (a : Run α) (f : α → Run β) [ha : Quiet a] [hf : ∀ v, Quiet (f v)] : Quiet (a >>= f) where
  ne_signal s t x h := by
    simp only [bind, EStateM.bind] at h
    split at h
    next v u hu => exact (hf v).ne_signal u t x h
    next i u hu =>
        rw [EStateM.Result.error.injEq] at h
        exact ha.ne_signal s t x (by rw [hu, h.1, h.2])

instance (c : Prop) [Decidable c] (a b : Run α) [Quiet a] [Quiet b] :
    Quiet (if c then a else b) := by
  split <;> infer_instance

instance (a : Run α) : Quiet (attempt a) where
  ne_signal _ _ x h := interrupt_ne_endless x (attempt_eq_error h).1

theorem EndsIn.of_quiet {f : α → Run β} [hquiet : Quiet a] (h : (a >>= f).EndsIn s t) :
    ∃ v u, a s = .ok v u ∧ (f v).EndsIn u t := by
  rcases h.of_bind with h | ⟨x, h⟩
  · exact h
  · exact (hquiet.ne_signal s t x h).elim

end Run

namespace Store

/-- Two stores that differ in what was written, logged and counted only. -/
structure Aside (s t : Store) : Prop where
  nextId : s.nextId ≤ t.nextId
  scopes : t.scopes = s.scopes
  masks : t.masks = s.masks
  promises : t.promises = s.promises
  closures : t.closures = s.closures
  failures : t.failures = s.failures
  evaluators : t.evaluators = s.evaluators
  history : t.history = s.history

theorem aside_log (s : Store) (log : Array LogRecord) : s.Aside { s with log := log } :=
  ⟨Nat.le_refl _, rfl, rfl, rfl, rfl, rfl, rfl, rfl⟩

end Store

namespace Machine

/-- The calls under way and the innermost of them are noted with a failure. -/
def noted (u : Store) (ctx : EvaluatorId) (f : FailureRef) : Store :=
  u.setIncident f fun incident =>
    { trace := some ((u.evaluator ctx).calls.map Expr.deparse)
      call := incident.call <|> (u.evaluator ctx).frames.head?.map (·.call) }

/-- Failures are noted once, and host failures never. -/
theorem noteFailure_eq (ctx : EvaluatorId) (f : FailureRef) (u : Store) :
    noteFailure ctx f u =
      if !f.cause.isHost && (u.incident f).trace.isNone then
        Run.trace (fun _ => "failure in " ++
          ((u.evaluator ctx).calls.map Expr.deparse).getLast?.getD "<top>" ++ ": " ++
            f.cause.message) (noted u ctx f)
      else .ok ⟨⟩ u := by
  simp only [noteFailure, Run.get_bind]
  split <;> rfl

end Machine

/-- Whether a promise may be made with this progress. -/
def Progress.isFresh : Progress → Bool
  | .unforced => true
  | .given _ => true
  | _ => false

/-- What a run may do to the store. The fields after the first six are the steps that any run is
free to take. -/
structure Flow where
  Keeps : Store → Store → Prop
  Lost : Store → Store → Prop
  refl (s : Store) : Keeps s s
  trans {s t u : Store} : Keeps s t → Keeps t u → Keeps s u
  lost_trans {s t u : Store} : Keeps s t → Lost t u → Lost s u
  astray {s : Store} {e : EnvId} : (s.chain e).2 = false → Lost s s
  aside {s t : Store} : s.Aside t → Keeps s t
  failure (s : Store) (call : Option Expr) :
    Keeps s { s with failures := s.failures.push ⟨call, none⟩ }
  noted (s : Store) (ctx : EvaluatorId) (f : FailureRef) : f.cause.isHost = false →
    (s.incident f).trace = none → Keeps s (Machine.noted s ctx f)
  scope (s : Store) (scope : Scope) : Keeps s (s.addScope scope)
  mask (s : Store) (mask : Mask) : Keeps s (s.addMask mask)
  promise (s : Store) (p : Promise) : p.progress.isFresh = true → Keeps s (s.addPromise p)
  closure (s : Store) (c : Closure) : Keeps s (s.addClosure c)
  used (s : Store) (c : ClosureId) : Keeps s (s.use (.closure c) (some (s.closure c).env))
  evaluator (s : Store) (globalEnv : Option EnvId) (maxDepth : Int) :
    Keeps s { s with evaluators := s.evaluators.push ⟨globalEnv, maxDepth, [], 0, []⟩ }
  vars (s : Store) (e : EnvId) (f : Bindings Value → Bindings Value) : Keeps s (s.setVars e f)
  closureName (s : Store) (c : ClosureId) (f : Closure → Option String) :
    Keeps s (s.setClosure c fun closure => { closure with name := f closure })
  registered (s : Store) (ctx : EvaluatorId) (id : Nat) (r : Registration) :
    Keeps s (s.register ctx id r)

/-- A run that follows a flow. -/
class Flow.Holds (F : Flow) {α : Type} (a : Run α) : Prop where
  ends {s t : Store} : a.EndsIn s t → F.Keeps s t
  lost {s t : Store} : a.LostIn s t → F.Lost s t

namespace Flow

variable {F : Flow} {α β : Type}

/-! ## Composing runs -/

theorem Holds.of_ok {a : Run α} {s t : Store} (ha : F.Holds a) {v : α} (h : a s = .ok v t) :
    F.Keeps s t := ha.ends (.value v h)

/-- A run that has a value in every store. -/
theorem Holds.of_value {a : Run α} (h : ∀ s, ∃ v t, a s = .ok v t ∧ F.Keeps s t) : F.Holds a where
  ends {s t} hs := by
    obtain ⟨v, u, hu, hk⟩ := h s
    cases hs with
    | value w hs => rw [hu] at hs; cases hs; exact hk
    | signal x hs => rw [hu] at hs; cases hs
  lost {s t} hs := by
    obtain ⟨v, u, hu, -⟩ := h s
    rw [Run.LostIn, hu] at hs
    cases hs

/-- A run that ends by a signal in every store. -/
theorem Holds.of_signal {a : Run α}
    (h : ∀ s, ∃ (x : Signal) (t : Store), a s = .error x.interrupt t ∧ F.Keeps s t) : F.Holds a where
  ends {s t} hs := by
    obtain ⟨x, u, hu, hk⟩ := h s
    cases hs with
    | value w hs => rw [hu] at hs; cases hs
    | signal y hs =>
        rw [hu, EStateM.Result.error.injEq] at hs
        exact hs.2 ▸ hk
  lost {s t} hs := by
    obtain ⟨x, u, hu, -⟩ := h s
    rw [Run.LostIn, hu, EStateM.Result.error.injEq] at hs
    exact (Run.interrupt_ne_endless x hs.1).elim

theorem Holds.of_modify {f : Store → Store} (h : ∀ s, F.Keeps s (f s)) :
    F.Holds (modify f : Run PUnit) := .of_value fun s => ⟨⟨⟩, f s, rfl, h s⟩

/-- A run that changes the store that it reads and goes on from there. -/
theorem Holds.of_get_set {f : Store → Store} {rest : Store → Run α} (h : ∀ s, F.Keeps s (f s))
    (hrest : ∀ s, F.Holds (rest s)) : F.Holds (do
      let s ← get
      set (f s)
      rest s) where
  ends {s t} hs := by
    refine F.trans (h s) ((hrest s).ends ?_)
    cases hs with
    | value v hs => exact .value v hs
    | signal x hs => exact .signal x hs
  lost {s t} hs := F.lost_trans (h s) ((hrest s).lost hs)

instance (v : α) : F.Holds (pure v : Run α) := .of_value fun s => ⟨v, s, rfl, F.refl s⟩

instance : F.Holds (get : Run Store) := .of_value fun s => ⟨s, s, rfl, F.refl s⟩

instance (x : Signal) : F.Holds (Run.raise x : Run α) := .of_signal fun s => ⟨x, s, rfl, F.refl s⟩

theorem Holds.bind {a : Run α} {f : α → Run β} (ha : F.Holds a) (hf : ∀ v, F.Holds (f v)) :
    F.Holds (a >>= f) where
  ends h := by
    rcases h.of_bind with ⟨v, u, hu, h⟩ | ⟨x, h⟩
    · exact F.trans (ha.of_ok hu) ((hf v).ends h)
    · exact ha.ends (.signal x h)
  lost h := by
    rcases h.of_bind with ⟨v, u, hu, h⟩ | h
    · exact F.lost_trans (ha.of_ok hu) ((hf v).lost h)
    · exact ha.lost h

theorem Holds.andThen {a : Run α} {f : α → Run β} [ha : F.Holds a] (hf : ∀ v, F.Holds (f v)) :
    F.Holds (a >>= f) := ha.bind hf

instance (a : Run α) (f : α → Run β) [F.Holds a] [hf : ∀ v, F.Holds (f v)] : F.Holds (a >>= f) :=
  .andThen hf

instance (f : α → β) (a : Run α) [F.Holds a] : F.Holds (f <$> a) := by
  rw [map_eq_pure_bind]
  infer_instance

instance (c : Prop) [Decidable c] (a b : Run α) [F.Holds a] [F.Holds b] :
    F.Holds (if c then a else b) := by
  split <;> infer_instance

instance (a : Run α) [ha : F.Holds a] : F.Holds (Run.attempt a) where
  ends h := by
    cases h with
    | value r h =>
        rcases Run.attempt_eq_ok h with ⟨v, -, h⟩ | ⟨x, -, h⟩
        · exact ha.of_ok h
        · exact ha.ends (.signal x h)
    | signal x h => exact (Run.interrupt_ne_endless x (Run.attempt_eq_error h).1).elim
  lost h := ha.lost (Run.attempt_eq_error h).2

instance (r : Except Signal α) : F.Holds (Run.resume r) := by
  unfold Run.resume
  split <;> infer_instance

instance (a : Run α) (last : Run Unit) [F.Holds a] [F.Holds last] :
    F.Holds (Run.andFinally a last) := by
  unfold Run.andFinally
  infer_instance

instance (a : Run α) (handler : FailureRef → Run α) [F.Holds a] [∀ f, F.Holds (handler f)] :
    F.Holds (Run.orElse a handler) := by
  unfold Run.orElse
  have (r : Except Signal α) : F.Holds (match r with
      | .error (.failure f) => handler f
      | outcome => Run.resume outcome) := by split <;> infer_instance
  infer_instance

instance holds_mapM (f : α → Run β) (xs : List α) [∀ x, F.Holds (f x)] : F.Holds (xs.mapM f) := by
  induction xs with
  | nil => rw [List.mapM_nil]; infer_instance
  | cons x xs ih => rw [List.mapM_cons]; infer_instance

instance holds_forM (f : α → Run PUnit) (xs : List α) [∀ x, F.Holds (f x)] :
    F.Holds (xs.forM f) := by
  induction xs with
  | nil => exact inferInstanceAs (F.Holds (pure PUnit.unit))
  | cons x xs ih => exact inferInstanceAs (F.Holds (f x >>= fun _ => xs.forM f))

instance holds_optionMapM (f : α → Run β) (x : Option α) [∀ x, F.Holds (f x)] :
    F.Holds (x.mapM f) := by
  cases x with
  | none => exact inferInstanceAs (F.Holds (pure none))
  | some x => exact inferInstanceAs (F.Holds (some <$> f x))

/-! ## What is opened and closed again -/

/-- A run that closes what was opened between two stores: however runs that follow the flow have
gone on from the second one, it leads to where the flow allows to go from the first one. -/
structure Closes (F : Flow) (s t : Store) (a : Run α) : Prop where
  ends {u v : Store} : F.Keeps t u → a.EndsIn u v → F.Keeps s v
  lost {u v : Store} : F.Keeps t u → a.LostIn u v → F.Lost s v

namespace Closes

variable {s t : Store} {a : Run α} {f : α → Run β}

/-- What runs before the closing one must end with a value. -/
theorem after (ha : F.Holds a) [hquiet : Run.Quiet a]
    (hlost : ∀ {u}, F.Lost t u → F.Lost s u) (hf : ∀ x, F.Closes s t (f x)) :
    F.Closes s t (a >>= f) where
  ends hu h := by
    rcases h.of_bind with ⟨x, w, hw, h⟩ | ⟨x, h⟩
    · exact (hf x).ends (F.trans hu (ha.of_ok hw)) h
    · exact (hquiet.ne_signal _ _ x h).elim
  lost hu h := by
    rcases h.of_bind with ⟨x, w, hw, h⟩ | h
    · exact (hf x).lost (F.trans hu (ha.of_ok hw)) h
    · exact hlost (F.lost_trans hu (ha.lost h))

theorem before (ha : F.Closes s t a) (hf : ∀ x, F.Holds (f x)) : F.Closes s t (a >>= f) where
  ends hu h := by
    rcases h.of_bind with ⟨x, w, hw, h⟩ | ⟨x, h⟩
    · exact F.trans (ha.ends hu (.value x hw)) ((hf x).ends h)
    · exact ha.ends hu (.signal x h)
  lost hu h := by
    rcases h.of_bind with ⟨x, w, hw, h⟩ | h
    · exact F.lost_trans (ha.ends hu (.value x hw)) ((hf x).lost h)
    · exact ha.lost hu h

/-- A run that has a value wherever it closes. -/
theorem of_value (h : ∀ u, F.Keeps t u → ∃ x v, a u = .ok x v ∧ F.Keeps s v) : F.Closes s t a where
  ends {u v} hu hv := by
    obtain ⟨x, w, hw, hk⟩ := h u hu
    cases hv with
    | value y hv => rw [hw] at hv; cases hv; exact hk
    | signal y hv => rw [hw] at hv; cases hv
  lost {u v} hu hv := by
    obtain ⟨x, w, hw, -⟩ := h u hu
    rw [Run.LostIn, hw] at hv
    cases hv

end Closes

/-- A run that opens something for the rest to close, or ends without having done so. -/
theorem Holds.of_open {a : Run α} {f : α → Run β}
    (h : ∀ s, (∃ x t, a s = .ok x t ∧ F.Closes s t (f x)) ∨
      ∃ (x : Signal) (t : Store), a s = .error x.interrupt t ∧ F.Keeps s t) :
    F.Holds (a >>= f) where
  ends {s t} hs := by
    rcases h s with ⟨x, u, hu, hclose⟩ | ⟨x, u, hu, hk⟩
    · rcases hs.of_bind with ⟨y, w, hw, hs⟩ | ⟨y, hs⟩
      · rw [hu] at hw
        cases hw
        exact hclose.ends (F.refl u) hs
      · rw [hu] at hs
        cases hs
    · rcases hs.of_bind with ⟨y, w, hw, hs⟩ | ⟨y, hs⟩
      · rw [hu] at hw
        cases hw
      · rw [hu, EStateM.Result.error.injEq] at hs
        exact hs.2 ▸ hk
  lost {s t} hs := by
    rcases h s with ⟨x, u, hu, hclose⟩ | ⟨x, u, hu, -⟩
    · rcases hs.of_bind with ⟨y, w, hw, hs⟩ | hs
      · rw [hu] at hw
        cases hw
        exact hclose.lost (F.refl u) hs
      · rw [Run.LostIn, hu] at hs
        cases hs
    · rcases hs.of_bind with ⟨y, w, hw, hs⟩ | hs
      · rw [hu] at hw
        cases hw
      · rw [Run.LostIn, hu, EStateM.Result.error.injEq] at hs
        exact (Run.interrupt_ne_endless x hs.1).elim

end Flow

end Quasi
