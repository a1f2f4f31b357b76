import Quasi.Proofs.Unused.Binding

/-!
# Entering and leaving a call with an argument that is not used

The calls that differ in the argument are noted in frames and with failures, and their texts are
traced. Nothing else tells them apart when the body begins or when the call has ended.
-/

namespace Quasi

open Run (bind_of_ok)
open Machine (cleared leave_of_frames)

/-! ## Failures in a call -/

section Frames

variable {ctx : EvaluatorId} {frame : Frame} {rest : List Frame} {u : Store}

/-- A failure in a call is noted with the call after those around it. -/
theorem noted_of_frames (hframes : (u.evaluator ctx).frames = frame :: rest) (f : FailureRef) :
    Machine.noted u ctx f = u.setIncident f fun incident =>
      { trace := some ((rest.map (·.call)).reverse.map Expr.deparse ++ [frame.call.deparse])
        call := incident.call <|> some frame.call } := by
  rw [Machine.noted, Evaluator.calls, hframes, List.map_cons, List.reverse_cons, List.map_append]
  rfl

theorem noteFailure_of_new (ctx : EvaluatorId) {f : FailureRef}
    (h : (!f.cause.isHost && (u.incident f).trace.isNone) = true) :
    ∃ text, Machine.noteFailure ctx f u = .ok ⟨⟩ ((Machine.noted u ctx f).traced text) :=
  ⟨_, (Machine.noteFailure_eq ctx f u).trans ((if_pos h).trans (trace_apply ..))⟩

end Frames

/-! ## Stores after the call -/

/-- What is noted of a failure in one call and in the other: the same, or the calls themselves. The
calls around them come first where all calls under way are noted. -/
inductive Noted (outer : List String) (call call' : Expr) : Incident → Incident → Prop where
  | same (incident : Incident) : Noted outer call call' incident incident
  | raised : Noted outer call call' ⟨some call, none⟩ ⟨some call', none⟩
  | left (inner : Option Expr) :
      Noted outer call call' ⟨inner <|> some call, some (outer ++ [call.deparse])⟩
        ⟨inner <|> some call', some (outer ++ [call'.deparse])⟩

/-- Two stores that are the same but for the code of a promise, for what is noted of failures, and
for the texts of details in the log. -/
structure Store.SameBut (p : PromiseId) (e : Expr) (outer : List String) (call call' : Expr)
    (s t : Store) : Prop where
  store : s = { t with
    promises := t.promises.modify p.index fun promise => { promise with code := e }
    failures := s.failures
    log := s.log }
  failures : s.failures.size = t.failures.size
  incident (f : FailureRef) : Noted outer call call' (s.incident f) (t.incident f)
  log : LogsAlike s.log t.log

namespace Spare

variable (sp : Spare)

/-- Stores in which the body of the call has ended, with one argument and with the other. -/
inductive Ending (e : Expr) (outer : List String) (call call' : Expr)
    (ev ev' : Array Evaluator) : Store → Store → Prop where
  | intro {t : Store} {log : Array LogRecord} (failures : Array Incident) (hkeeps : sp.Keeps t)
      (hevaluators : t.evaluators = ev') (hlog : LogsAlike log t.log)
      (hsize : failures.size = t.failures.size)
      (hnoted : ∀ i, Noted outer call call' (failures.getD i default) (t.failures.getD i default)) :
      Ending e outer call call' ev ev' { sp.view e ev log t with failures := failures } t

variable {sp} {e : Expr} {outer : List String} {call call' : Expr} {ev ev' : Array Evaluator}
  {s t : Store}

theorem Related.ending (h : sp.Related e ev ev' s t) : sp.Ending e outer call call' ev ev' s t := by
  cases h with
  | @intro t log hplaces hkeeps hevaluators hlog =>
    exact .intro t.failures hkeeps hevaluators hlog rfl fun _ => .same _

theorem Bound.ending (h : sp.Bound e s t) (outer : List String) (call call' : Expr) :
    sp.Ending e outer call call' sp.before.evaluators sp.before.evaluators s t := by
  cases h with
  | @intro t hgrows hscope hparent hbinds hkeeps hevaluators hlog =>
    exact .intro t.failures hkeeps hevaluators (hlog ▸ .refl _) rfl fun _ => .same _

namespace Ending

theorem keeps (h : sp.Ending e outer call call' ev ev' s t) : sp.Keeps t := by
  cases h with
  | intro _ hkeeps => exact hkeeps

theorem sameBut (h : sp.Ending e outer call call' ev ev s t) :
    s.SameBut sp.promise e outer call call' t := by
  cases h with
  | intro _ hkeeps hevaluators hlog hsize hnoted =>
    exact ⟨by rw [← hevaluators]; rfl, hsize, fun f => hnoted f.index, hlog⟩

theorem traced (h : sp.Ending e outer call call' ev ev' s t) (text text' : String) :
    sp.Ending e outer call call' ev ev' (s.traced text) (t.traced text') := by
  cases h with
  | @intro t log failures hkeeps hevaluators hlog hsize hnoted =>
    have hverbose : ({ sp.view e ev log t with failures := failures } : Store).verbose = t.verbose :=
      rfl
    unfold Store.traced
    rw [hverbose]
    split
    · exact .intro (t := { t with log := t.log.push ⟨.debug, text'⟩ }) failures (hkeeps.of_same rfl rfl)
        hevaluators (hlog.push (.inr ⟨rfl, rfl⟩)) hsize hnoted
    · exact .intro failures hkeeps hevaluators hlog hsize hnoted

theorem setEvaluator (h : sp.Ending e outer call call' ev ev' s t) (ctx : EvaluatorId)
    (f f' : Evaluator → Evaluator) :
    sp.Ending e outer call call' (ev.modify ctx.index f) (ev'.modify ctx.index f')
      (s.setEvaluator ctx f) (t.setEvaluator ctx f') := by
  cases h with
  | intro failures hkeeps hevaluators hlog hsize hnoted =>
    exact .intro (t := t.setEvaluator ctx f') failures (hkeeps.of_same rfl rfl)
      (congrArg (·.modify ctx.index f') hevaluators) hlog hsize hnoted

theorem record (h : sp.Ending e outer call call' ev ev' s t) {event : Event}
    (hevent : event.isOf sp.promise = false) :
    sp.Ending e outer call call' ev ev' (s.record event) (t.record event) := by
  cases h with
  | intro failures hkeeps hevaluators hlog hsize hnoted =>
    exact .intro (t := t.record event) failures (hkeeps.record hevent) hevaluators hlog hsize hnoted

theorem evaluators (h : sp.Ending e outer call call' ev ev' s t) :
    s.evaluators = ev ∧ t.evaluators = ev' := by
  cases h with
  | intro _ hkeeps hevaluators => exact ⟨rfl, hevaluators⟩

/-- The same failure is raised, and the calls themselves may be noted with it. -/
theorem failWith (h : sp.Ending e outer call call' ev ev' s t) (cause : Cause) (own : Bool) :
    ∃ f s' t', (∀ α, (Run.failWith cause (if own then some call else none) : Run α) s =
        .error (.failure f) s') ∧
      (∀ α, (Run.failWith cause (if own then some call' else none) : Run α) t =
        .error (.failure f) t') ∧
      sp.Ending e outer call call' ev ev' s' t' := by
  cases h with
  | @intro t log failures hkeeps hevaluators hlog hsize hnoted =>
    let incident (call : Expr) : Incident := ⟨if own then some call else none, none⟩
    have hlast : Noted outer call call' (incident call) (incident call') := by
      cases own
      · exact .same _
      · exact .raised
    refine ⟨⟨failures.size, cause⟩,
      { sp.view e ev log t with failures := failures.push (incident call) },
      { t with failures := t.failures.push (incident call') }, fun _ => rfl, fun _ => ?_, ?_⟩
    · rw [hsize]
      rfl
    · refine .intro (t := { t with failures := t.failures.push (incident call') })
        (failures.push (incident call)) (hkeeps.of_same rfl rfl) hevaluators hlog ?_ fun i => ?_
      · rw [Array.size_push, Array.size_push, hsize]
      · rw [getD_push, getD_push, hsize]
        split
        · exact hlast
        · exact hnoted i

end Ending

/-! ## The frame of the call -/

/-- Evaluators after a frame was pushed on the stack of one of them. -/
def pushed (ev : Array Evaluator) (ctx : EvaluatorId) (frame : Frame) : Array Evaluator :=
  ev.modify ctx.index fun e => { e with frames := frame :: e.frames, depth := e.depth + 1 }

theorem getD_pushed {ctx : EvaluatorId} (hctx : ctx.index < ev.size) (frame : Frame) :
    (pushed ev ctx frame).getD ctx.index default =
      { ev.getD ctx.index default with
        frames := frame :: (ev.getD ctx.index default).frames
        depth := (ev.getD ctx.index default).depth + 1 } :=
  (getD_modify ..).trans (if_pos ⟨rfl, hctx⟩)

theorem sameGlobals_pushed (ev : Array Evaluator) (ctx : EvaluatorId) (frame frame' : Frame) :
    SameGlobals (pushed ev ctx frame) (pushed ev ctx frame') := by
  intro i
  rw [pushed, pushed, getD_modify, getD_modify]
  split <;> rfl

theorem Related.traced (h : sp.Related e ev ev' s t) (text text' : String) :
    sp.Related e ev ev' (s.traced text) (t.traced text') := by
  have hverbose : s.verbose = t.verbose := by cases h; rfl
  unfold Store.traced
  by_cases ht : t.verbose = true
  · rw [if_pos (hverbose.trans ht), if_pos ht]
    exact h.logged (.inr ⟨rfl, rfl⟩)
  · rw [if_neg (hverbose ▸ ht), if_neg ht]
    exact h

/-- What a popped frame leaves does not depend on the frame. -/
theorem popped_pushed (ev : Array Evaluator) (ctx : EvaluatorId) (frame : Frame) (id : Nat)
    (rest : List Frame) :
    (((pushed ev ctx frame).modify ctx.index fun e => e.setHandlers id fun _ => []).modify ctx.index
        fun e => { e with frames := rest, depth := e.depth - 1 }) =
      ev.modify ctx.index fun e => { e with frames := rest, depth := e.depth + 1 - 1 } := by
  refine Array.ext_getElem? fun i => ?_
  simp only [pushed, Array.getElem?_modify]
  split
  · simp only [Option.map_map]
    rfl
  · rfl

/-- A frame is pushed for the one call and for the other. -/
theorem Bound.push (h : sp.Bound e s t) (hplaces : sp.Places t) {ctx : EvaluatorId}
    (hroom : ¬ (sp.before.evaluator ctx).maxDepth ≤ (sp.before.evaluator ctx).depth)
    (call call' : Expr) (env : EnvId) (function : Option ClosureId) (caller : Option EnvId) :
    ∃ id s' t', Machine.pushFrame ctx call env function caller [] s = .ok id s' ∧
      Machine.pushFrame ctx call' env function caller [] t = .ok id t' ∧
      sp.Related e (pushed sp.before.evaluators ctx ⟨id, call, env, function, caller, []⟩)
        (pushed sp.before.evaluators ctx ⟨id, call', env, function, caller, []⟩) s' t' := by
  cases h with
  | @intro t hgrows hscope hparent hbinds hkeeps hevaluators hlog =>
    let s := sp.view e sp.before.evaluators sp.before.log t
    let frame (call : Expr) : Frame := ⟨t.nextId, call, env, function, caller, []⟩
    let next (t : Store) : Store := { t with nextId := t.nextId + 1 }
    have ht : t.evaluator ctx = sp.before.evaluator ctx := by
      simp only [Store.evaluator, hevaluators]
    have hstore : Pushed.store (next s) ctx (frame call) =
        sp.view e (pushed sp.before.evaluators ctx (frame call)) sp.before.log
          (Pushed.store (next t) ctx (frame call')) := by
      have hnext : (next t).evaluator ctx = sp.before.evaluator ctx := ht
      simp only [Pushed.store, hnext]
      rfl
    have hrelated : sp.Related e (pushed sp.before.evaluators ctx (frame call))
        (pushed sp.before.evaluators ctx (frame call')) (Pushed.store (next s) ctx (frame call))
        (Pushed.store (next t) ctx (frame call')) := by
      rw [hstore]
      exact .intro (hplaces.of_same ⟨rfl, rfl⟩)
        ((hkeeps.of_same (u := (next t).setEvaluator ctx _) rfl rfl).record rfl)
        (congrArg (pushed · ctx (frame call')) hevaluators) (hlog ▸ .refl _)
    let text (call : Expr) : String :=
      s!"enter frame {(sp.before.evaluator ctx).depth + 1}: " ++ call.deparse
    refine ⟨t.nextId, _, _, ?_, ?_, hrelated.traced (text call) (text call')⟩
    · rw [pushFrame_of_room (s := s) hroom, bind_of_ok (trace_apply _ _)]
      rfl
    · rw [pushFrame_of_room (s := t) (ht ▸ hroom), bind_of_ok (trace_apply _ _), ht]
      rfl

/-! ## The end of the call -/

section Leave

variable {ctx : EvaluatorId} {frame frame' : Frame}

/-- A failure of the body is noted with the one call and with the other. -/
theorem Related.noted (h : sp.Related e (pushed ev ctx frame) (pushed ev ctx frame') s t)
    (hctx : ctx.index < ev.size) (f : FailureRef) :
    sp.Ending e ((ev.getD ctx.index default).calls.map Expr.deparse) frame.call frame'.call
      (pushed ev ctx frame) (pushed ev ctx frame') (Machine.noted s ctx f)
      (Machine.noted t ctx f) := by
  let rest := (ev.getD ctx.index default).frames
  let note (call : Expr) (incident : Incident) : Incident :=
    { trace := some ((rest.map (·.call)).reverse.map Expr.deparse ++ [call.deparse])
      call := incident.call <|> some call }
  cases h with
  | @intro t log hplaces hkeeps hevaluators hlog =>
    have hs : ((sp.view e (pushed ev ctx frame) log t).evaluator ctx).frames = frame :: rest :=
      congrArg Evaluator.frames (getD_pushed hctx frame)
    have ht : (t.evaluator ctx).frames = frame' :: rest := by
      rw [Store.evaluator, hevaluators]
      exact congrArg Evaluator.frames (getD_pushed hctx frame')
    rw [noted_of_frames hs, noted_of_frames ht]
    refine .intro (t := t.setIncident f (note frame'.call))
      (t.failures.modify f.index (note frame.call)) (hkeeps.of_same rfl rfl) hevaluators hlog
      (Array.size_modify.trans Array.size_modify.symm) fun i => ?_
    rw [Store.setIncident, getD_modify, getD_modify]
    by_cases hi : i = f.index ∧ f.index < t.failures.size
    · rw [if_pos hi, if_pos hi]
      exact .left (t.failures.getD i default).call
    · rw [if_neg hi, if_neg hi]
      exact .same _

/-- How the body ended is noted for the one call and for the other. -/
theorem Related.noteEnd (h : sp.Related e (pushed ev ctx frame) (pushed ev ctx frame') s t)
    (hctx : ctx.index < ev.size) (outcome : Except Signal Value) :
    ∃ s' t', Machine.noteEnd ctx outcome s = .ok ⟨⟩ s' ∧
      Machine.noteEnd ctx outcome t = .ok ⟨⟩ t' ∧
      sp.Ending e ((ev.getD ctx.index default).calls.map Expr.deparse) frame.call frame'.call
        (pushed ev ctx frame) (pushed ev ctx frame') s' t' := by
  rcases outcome with (f | ⟨v, target⟩ | _) | v
  · have hincident : s.incident f = t.incident f := by cases h; rfl
    by_cases hnew : (!f.cause.isHost && (t.incident f).trace.isNone) = true
    · obtain ⟨text, hs⟩ := noteFailure_of_new ctx (hincident ▸ hnew)
      obtain ⟨text', ht⟩ := noteFailure_of_new ctx hnew
      exact ⟨_, _, hs, ht, (h.noted hctx f).traced text text'⟩
    · have hs := (Machine.noteFailure_eq ctx f s).trans (if_neg (hincident ▸ hnew))
      have ht := (Machine.noteFailure_eq ctx f t).trans (if_neg hnew)
      exact ⟨s, t, hs, ht, h.ending⟩
  · exact ⟨s, t, rfl, rfl, h.ending⟩
  · exact ⟨s, t, rfl, rfl, h.ending⟩
  · exact ⟨s, t, rfl, rfl, h.ending⟩

/-- The one call is left like the other, and the frames of both are gone. -/
theorem Related.leave (h : sp.Related e (pushed ev ctx frame) (pushed ev ctx frame') s t)
    (hctx : ctx.index < ev.size) {id : Nat} (hid : frame.id = id) (hid' : frame'.id = id)
    (hhandlers : frame.handlers = []) (hhandlers' : frame'.handlers = [])
    (outcome : Except Signal Value) (env : EnvId) :
    ∃ s' t' popped, (∀ m : Machine, m.leave ctx env id outcome s =
        Run.resume (Machine.callOutcome env outcome none) s') ∧
      (∀ m : Machine, m.leave ctx env id outcome t =
        Run.resume (Machine.callOutcome env outcome none) t') ∧
      sp.Ending e ((ev.getD ctx.index default).calls.map Expr.deparse) frame.call frame'.call
        popped popped s' t' := by
  obtain ⟨s₁, t₁, hs, ht, hending⟩ := h.noteEnd hctx outcome
  obtain ⟨hs₁, ht₁⟩ := hending.evaluators
  let rest := (ev.getD ctx.index default).frames
  have hevaluator {u : Store} {frame : Frame} (hu : u.evaluators = pushed ev ctx frame) :=
    (congrArg (·.getD ctx.index default) hu).trans (getD_pushed hctx frame)
  have hsize {u : Store} {frame : Frame} (hu : u.evaluators = pushed ev ctx frame) :
      ctx.index < u.evaluators.size := by
    rw [hu, pushed, Array.size_modify]
    exact hctx
  obtain ⟨text, hleave⟩ := leave_of_frames env hs (hsize hs₁)
    (congrArg Evaluator.frames (hevaluator hs₁)) hhandlers
  obtain ⟨text', hleave'⟩ := leave_of_frames env ht (hsize ht₁)
    (congrArg Evaluator.frames (hevaluator ht₁)) hhandlers'
  rw [hid] at hleave
  rw [hid'] at hleave'
  have hdepth {u : Store} {frame : Frame} (hu : u.evaluators = pushed ev ctx frame) :
      ((u.setEvaluator ctx fun e => e.setHandlers id fun _ => []).evaluator ctx).depth =
        (ev.getD ctx.index default).depth + 1 := by
    rw [Store.evaluator_setEvaluator, if_pos ⟨rfl, hsize hu⟩]
    exact congrArg Evaluator.depth (hevaluator hu)
  let clear (e : Evaluator) : Evaluator := e.setHandlers id fun _ => []
  let pop (e : Evaluator) : Evaluator :=
    { e with frames := cleared id rest, depth := e.depth - 1 }
  have hpopped := (hending.setEvaluator ctx clear clear).setEvaluator ctx pop pop
  rw [popped_pushed, popped_pushed] at hpopped
  refine ⟨_, _, ev.modify ctx.index fun e =>
    { e with frames := cleared id rest, depth := e.depth + 1 - 1 }, hleave, hleave',
    .traced ?_ text text'⟩
  rw [Popped.store, Popped.store, hdepth hs₁, hdepth ht₁]
  exact hpopped.record rfl

end Leave

end Spare

end Quasi
