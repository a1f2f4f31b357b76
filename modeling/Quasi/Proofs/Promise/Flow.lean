import Quasi.Proofs.Flow.Bracket
import Quasi.Proofs.Flow.Modest
import Quasi.Proofs.Promise.Course

/-!
# The flow of promises

Every run takes every promise along its course. A promise whose evaluation is under way, or that
has come to its outcome, is left alone by whatever else is run; so the evaluation of a promise ends
what it began.
-/

namespace Quasi

namespace Store

variable {s t u : Store} {p q : PromiseId}

/-- A store in which every promise is where its events have taken it. -/
def Coursed (s : Store) : Prop := ∀ p, Course p (s.eventsOf p) (s.promise p).progress

/-- Two stores in which a promise and its events are the same. -/
structure SamePromise (s t : Store) (p : PromiseId) : Prop where
  promise : t.promise p = s.promise p
  events : t.eventsOf p = s.eventsOf p

theorem SamePromise.of_eq (hpromises : t.promises = s.promises) (hhistory : t.history = s.history) :
    s.SamePromise t p :=
  ⟨by simp only [Store.promise, hpromises], by simp only [eventsOf, hhistory]⟩

theorem SamePromise.trans (h : s.SamePromise t p) (h' : t.SamePromise u p) : s.SamePromise u p :=
  ⟨h'.promise.trans h.promise, h'.events.trans h.events⟩

theorem eventsOf_record (s : Store) (event : Event) (p : PromiseId) :
    (s.record event).eventsOf p =
      if event.isOf p then event :: s.eventsOf p else s.eventsOf p := by
  simp only [eventsOf, record, List.filter_cons]

theorem eventsOf_capture (s : Store) (holder : Holder) (env : Option EnvId) (p : PromiseId) :
    (s.capture holder env).eventsOf p = s.eventsOf p := by
  cases env <;> rfl

theorem eventsOf_use (s : Store) (holder : Holder) (env : Option EnvId) (p : PromiseId) :
    (s.use holder env).eventsOf p = s.eventsOf p := by
  cases env <;> rfl

/-- A promise that waits for an evaluation exists. -/
theorem index_lt_of_idle (h : (s.promise p).progress.isIdle = true) :
    p.index < s.promises.size := by
  apply Decidable.byContradiction
  intro hp
  simp only [promise, Array.getD, hp, dite_false] at h
  cases h

end Store

/-- What a run does to promises: it takes them along their courses, leaves alone those that do not
wait for an evaluation and ends what it begins. -/
structure PromiseStep (s t : Store) : Prop where
  size : s.promises.size ≤ t.promises.size
  coursed : s.Coursed → t.Coursed
  kept : ∀ p, p.index < s.promises.size → (s.promise p).progress.isIdle = false →
    s.SamePromise t p
  forcing : ∀ p, (t.promise p).progress = .forcing → (s.promise p).progress = .forcing

namespace PromiseStep

variable {s t u : Store} {p : PromiseId}

theorem index_lt_of_forcing (h : (s.promise p).progress = .forcing) :
    p.index < s.promises.size := by
  apply Decidable.byContradiction
  intro hp
  simp only [Store.promise, Array.getD, hp, dite_false] at h
  cases h

theorem of_same (hsize : t.promises.size = s.promises.size) (h : ∀ p, s.SamePromise t p) :
    PromiseStep s t where
  size := Nat.le_of_eq hsize.symm
  coursed hs p := (h p).promise ▸ (h p).events ▸ hs p
  kept p _ _ := h p
  forcing p hp := (h p).promise ▸ hp

theorem of_eq (hpromises : t.promises = s.promises) (hhistory : t.history = s.history) :
    PromiseStep s t :=
  of_same (congrArg Array.size hpromises) fun _ => .of_eq hpromises hhistory

/-- An event that is about no promise. -/
theorem of_events (hpromises : t.promises = s.promises) (h : ∀ p, t.eventsOf p = s.eventsOf p) :
    PromiseStep s t :=
  of_same (congrArg Array.size hpromises) fun p => ⟨by simp only [Store.promise, hpromises], h p⟩

theorem trans (h : PromiseStep s t) (h' : PromiseStep t u) : PromiseStep s u where
  size := Nat.le_trans h.size h'.size
  coursed hs := h'.coursed (h.coursed hs)
  kept p hp hidle := by
    have hst := h.kept p hp hidle
    exact hst.trans (h'.kept p (Nat.lt_of_lt_of_le hp h.size) (hst.promise ▸ hidle))
  forcing p hp := h.forcing p (h'.forcing p hp)

theorem of_addPromise {promise : Promise} (h : promise.progress.isFresh = true) :
    PromiseStep s (s.addPromise promise) where
  size := by simp
  coursed hs p := by
    have hevents : (s.addPromise promise).eventsOf p = s.eventsOf p := Store.eventsOf_capture ..
    rw [hevents, Store.promise_addPromise]
    split
    next hp =>
      -- a promise that does not exist yet has no events
      have hnone : (s.promise p).progress = .given .null := by
        simp [Store.promise, Array.getD, hp, Inhabited.default]
      rw [(hnone ▸ hs p : Course p (s.eventsOf p) (.given .null)).events_of_given]
      exact .fresh h
    next hp => exact hs p
  kept p hp _ := by
    refine ⟨?_, Store.eventsOf_capture ..⟩
    rw [Store.promise_addPromise, if_neg (Nat.ne_of_lt hp)]
  forcing p hp := by
    rw [Store.promise_addPromise] at hp
    split at hp
    · rw [show promise.progress = .forcing from hp] at h
      cases h
    · exact hp

end PromiseStep

/-- Runs take promises along their courses. -/
def Flow.promises : Flow where
  Keeps := PromiseStep
  Lost s t := s.Coursed → t.Coursed
  refl _ := .of_eq rfl rfl
  trans := .trans
  lost_trans h h' hs := h' (h.coursed hs)
  astray _ hs := hs
  aside h := .of_eq h.promises h.history
  failure _ _ := .of_eq rfl rfl
  noted _ _ _ _ _ := .of_eq rfl rfl
  scope _ _ := .of_eq rfl rfl
  mask _ _ := .of_eq rfl rfl
  promise _ _ h := .of_addPromise h
  closure _ _ := .of_events rfl fun _ => Store.eventsOf_capture ..
  used _ _ := .of_events rfl fun _ => Store.eventsOf_use ..
  evaluator _ _ _ := .of_eq rfl rfl
  vars _ e _ := by cases e <;> exact .of_eq rfl rfl
  closureName _ _ _ := .of_eq rfl rfl
  registered _ _ _ _ := .of_events rfl fun _ => rfl

/-! ## Evaluating a promise -/

/-- A promise goes one event along its course while all others stay. -/
structure Moves (s t : Store) (p : PromiseId) (event : Event) (progress : Progress) : Prop where
  size : t.promises.size = s.promises.size
  progress : (t.promise p).progress = progress
  events : t.eventsOf p = event :: s.eventsOf p
  others : ∀ q, q ≠ p → s.SamePromise t q

namespace Moves

variable {s t u v : Store} {p : PromiseId} {event : Event} {progress : Progress}

theorem index_ne {q : PromiseId} (hq : q ≠ p) : ¬ (q.index = p.index ∧ p.index < s.promises.size) :=
  fun h => hq (congrArg PromiseId.mk h.1)

theorem of_set (hp : p.index < s.promises.size) {f : Promise → Promise}
    (hevent : ∀ q, event.isOf q = decide (p = q)) :
    Moves s ((s.setPromise p f).record event) p event (f (s.promise p)).progress where
  size := Array.size_modify
  progress := by
    refine congrArg Promise.progress ((s.promise_setPromise p f p).trans ?_)
    rw [if_pos ⟨rfl, hp⟩]
  events := by
    rw [Store.eventsOf_record, hevent, if_pos (decide_eq_true rfl)]
    rfl
  others q hq := by
    refine ⟨(s.promise_setPromise p f q).trans (if_neg (index_ne hq)), ?_⟩
    rw [Store.eventsOf_record, hevent, if_neg (by simpa using Ne.symm hq)]
    rfl

/-- A use of code is no event of a promise. -/
theorem use (h : Moves s t p event progress) (holder : Holder) (env : Option EnvId) :
    Moves s (t.use holder env) p event progress := by
  cases env with
  | none => exact h
  | some env => exact ⟨h.size, h.progress, h.events, fun q hq => ⟨(h.others q hq).1, (h.others q hq).2⟩⟩

theorem begin (hp : p.index < s.promises.size) : Moves s (s.begin p) p (.begun p) .forcing :=
  (of_set hp fun _ => rfl).use ..

theorem abandon (hp : p.index < s.promises.size) (x : Signal) :
    Moves s (s.abandon p x) p (.abandoned p x) .interrupted := of_set hp fun _ => rfl

theorem settle (hp : p.index < s.promises.size) (progress : Progress) :
    Moves s (s.settle p progress) p (.settled p) progress := of_set hp fun _ => rfl

theorem coursed (h : Moves s t p event progress)
    (hstep : Course p (s.eventsOf p) (s.promise p).progress →
      Course p (event :: s.eventsOf p) progress) (hs : s.Coursed) : t.Coursed := by
  intro q
  by_cases hq : q = p
  · rw [hq, h.events, h.progress]
    exact hstep (hs p)
  · rw [(h.others q hq).promise, (h.others q hq).events]
    exact hs q

end Moves

/-- The end of an evaluation takes a promise to where its outcome puts it. -/
theorem conclude_moves {s : Store} {p : PromiseId} (hp : p.index < s.promises.size)
    (outcome : Except Signal Value) : ∃ t event progress, Machine.conclude p outcome s = .ok () t ∧
      Moves s t p event progress ∧ progress ≠ .forcing ∧
      ∀ events, Course p events .forcing → Course p (event :: events) progress := by
  cases outcome with
  | ok v => exact ⟨_, _, _, rfl, .settle hp _, by simp, fun _ h => h.value v⟩
  | error x =>
      cases x with
      | failure f => exact ⟨_, _, _, rfl, .settle hp _, by simp, fun _ h => h.failed f⟩
      | returning v target => exact ⟨_, _, _, rfl, .abandon hp _, by simp, fun _ h => h.abandoned _ rfl⟩
      | overflow => exact ⟨_, _, _, rfl, .abandon hp _, by simp, fun _ h => h.abandoned _ rfl⟩

namespace PromiseStep

variable {s t u v : Store} {p : PromiseId} {event : Event} {progress : Progress}

/-- While a promise is evaluated everything else leaves it alone. -/
theorem forcing_kept (h : PromiseStep s t) (hp : (s.promise p).progress = .forcing) :
    s.SamePromise t p := h.kept p (index_lt_of_forcing hp) (by rw [hp]; rfl)

/-- A whole evaluation: it begins, other things happen, and it ends. -/
theorem of_evaluation (hidle : (s.promise p).progress.isIdle = true)
    (hbegin : Moves s t p (.begun p) .forcing) (hrun : PromiseStep t u)
    (hend : Moves u v p event progress) (hopen : progress ≠ .forcing)
    (hcourse : ∀ events, Course p events .forcing → Course p (event :: events) progress) :
    PromiseStep s v where
  size := by
    have := hrun.size
    rw [hbegin.size] at this
    rw [hend.size]
    exact this
  coursed hs := by
    refine hend.coursed ?_ (hrun.coursed (hbegin.coursed (fun h => h.begun hidle) hs))
    intro h
    rw [(hrun.forcing_kept hbegin.progress).promise, hbegin.progress] at h
    exact hcourse _ h
  kept q hq hheld := by
    have hne : q ≠ p := fun h => by rw [h, hidle] at hheld; cases hheld
    have hst := hbegin.others q hne
    have htu := hrun.kept q (hbegin.size ▸ hq) (hst.promise ▸ hheld)
    exact (hst.trans htu).trans (hend.others q hne)
  forcing q hq := by
    have hne : q ≠ p := fun h => hopen (by rw [← hend.progress, ← h, hq])
    have hu : (u.promise q).progress = .forcing := (hend.others q hne).promise ▸ hq
    exact (hbegin.others q hne).promise ▸ hrun.forcing q hu

end PromiseStep

namespace Flow

variable {m : Machine} {s t : Store} {p : PromiseId}

/-- What an evaluation does once it has begun. -/
def evaluation (m : Machine) (ctx : EvaluatorId) (promise : Promise) : Run (Except Signal Value) := do
  Run.trace fun _ => "forcing promise " ++ promise.code.plain
  Run.attempt (m.evalPromise ctx promise)

theorem runPromise_eq (ctx : EvaluatorId) (s : Store) : m.runPromise ctx p s = (do
    let outcome ← evaluation m ctx (s.promise p)
    Machine.conclude p outcome
    Run.resume outcome) (s.begin p) := by
  unfold evaluation
  rw [bind_assoc]
  rfl

instance (ctx : EvaluatorId) (promise : Promise) : Run.Quiet (evaluation m ctx promise) := by
  unfold evaluation; infer_instance

variable [∀ ctx e env, Flow.promises.Holds (m.eval ctx e env)]

instance (ctx : EvaluatorId) (promise : Promise) :
    Flow.promises.Holds (evaluation m ctx promise) := by
  have heval : Flow.promises.Holds (m.evalPromise ctx promise) :=
    holds_evalPromise ctx promise inferInstance
  unfold evaluation
  infer_instance

/-- Whatever a promise evaluates, the promise itself is left alone meanwhile. -/
theorem closes_evaluation (ctx : EvaluatorId) (hidle : (s.promise p).progress.isIdle = true) :
    Flow.promises.Closes s (s.begin p) (do
      let outcome ← evaluation m ctx (s.promise p)
      Machine.conclude p outcome
      Run.resume outcome) := by
  have hbegin := Moves.begin (Store.index_lt_of_idle hidle)
  refine .after inferInstance
    (fun hlost hs => hlost (hbegin.coursed (fun h => h.begun hidle) hs)) ?_
  intro outcome
  refine .before (.of_value ?_) fun _ => inferInstance
  intro u hrun
  have hp : p.index < u.promises.size :=
    Nat.lt_of_lt_of_le (PromiseStep.index_lt_of_forcing hbegin.progress) hrun.size
  obtain ⟨v, event, progress, hv, hend, hopen, hcourse⟩ := conclude_moves hp outcome
  exact ⟨(), v, hv, .of_evaluation hidle hbegin hrun hend hopen hcourse⟩

theorem runPromise_ends (ctx : EvaluatorId) (hidle : (s.promise p).progress.isIdle = true)
    (h : (m.runPromise ctx p).EndsIn s t) : PromiseStep s t :=
  (closes_evaluation ctx hidle).ends (Flow.promises.refl _) (h.of_eq (runPromise_eq ctx s))

theorem runPromise_lost (ctx : EvaluatorId) (hidle : (s.promise p).progress.isIdle = true)
    (h : (m.runPromise ctx p).LostIn s t) : Flow.promises.Lost s t :=
  (closes_evaluation ctx hidle).lost (Flow.promises.refl _) ((runPromise_eq ctx s).symm.trans h)

omit [∀ ctx e env, Flow.promises.Holds (m.eval ctx e env)] in
/-- Forcing reads off what is known, fails, or evaluates what waits for an evaluation. -/
theorem force_cases (m : Machine) (ctx : Option EvaluatorId) (p : PromiseId) (s : Store) :
    (∃ a : Run Value, Run.Modest Eq a ∧ m.force ctx p s = a s) ∨
    ∃ ev u, s.Aside u ∧ (u.promise p).progress.isIdle = true ∧
      m.force ctx p s = m.runPromise ev p u := by
  simp only [Machine.force, Run.get_bind]
  cases hp : (s.promise p).progress with
  | value v => exact .inl ⟨pure v, inferInstance, rfl⟩
  | given v => exact .inl ⟨pure v, inferInstance, rfl⟩
  | failed f => exact .inl ⟨Run.raise (.failure f), inferInstance, rfl⟩
  | forcing => exact .inl ⟨Run.fail (.force .circular), inferInstance, rfl⟩
  | unforced =>
      cases ctx <|> (s.promise p).evaluator with
      | none => exact .inl ⟨Run.fail (.force .noEvaluator), inferInstance, rfl⟩
      | some ev => exact .inr ⟨ev, s, s.aside_log s.log, by rw [hp]; rfl, rfl⟩
  | interrupted =>
      cases ctx <|> (s.promise p).evaluator with
      | none => exact .inl ⟨Run.fail (.force .noEvaluator), inferInstance, rfl⟩
      | some ev =>
          have hidle : (s.promise p).progress.isIdle = true := by rw [hp]; rfl
          exact .inr ⟨ev, { s with log := s.log.push ⟨.warning, _⟩ }, s.aside_log _, hidle, rfl⟩

/-- Forcing follows the flow of promises: it evaluates only what waits for an evaluation. -/
theorem promises_force (ctx : Option EvaluatorId) (p : PromiseId) :
    Flow.promises.Holds (m.force ctx p) where
  ends {s t} h := by
    rcases force_cases m ctx p s with ⟨a, ha, heq⟩ | ⟨ev, u, hsu, hidle, heq⟩
    · exact (holds_of_modest ha).ends (h.of_eq heq)
    · exact (Flow.promises.aside hsu).trans (runPromise_ends ev hidle (h.of_eq heq))
  lost {s t} h := by
    rcases force_cases m ctx p s with ⟨a, ha, heq⟩ | ⟨ev, u, hsu, hidle, heq⟩
    · exact (holds_of_modest ha).lost (heq.symm.trans h)
    · exact Flow.promises.lost_trans (Flow.promises.aside hsu)
        (runPromise_lost ev hidle (heq.symm.trans h))

instance : Flow.promises.Rechains where
  rechain _ _ _ := .of_events rfl fun _ => rfl

instance : Flow.promises.Stacks where
  evaluator _ _ _ := .of_eq rfl rfl
  event s event h := .of_events rfl fun p => by
    rw [Store.eventsOf_record]
    cases event <;> first | rfl | cases h

instance : Flow.promises.Closed where
  under := holds_under
  force _ ctx p _ := promises_force ctx p
  inFrame _ := holds_inFrame
  inTarget := holds_inTarget
  request := holds_stackRequest

end Flow

end Quasi
