import Quasi.Proofs.Flow.Bracket
import Quasi.Proofs.Stack.Step

/-!
# The flow of stacks

A frame is popped by the call that pushed it, whatever the body and the exit actions of the call
did, and so is what a scope of evaluation or a request put on a stack. In between everything leaves
the stack as it was, so that the innermost frame is the one that is to be popped.
-/

namespace Quasi

/-- Runs leave all stacks as they were; a run that is lost leaves them balanced. -/
def Flow.stacks : Flow where
  Keeps := StackStep
  Lost s t := (s.Balanced → t.Balanced) ∧ t.misplacements = s.misplacements
  refl _ := .of_eq rfl rfl
  trans := .trans
  lost_trans h h' := ⟨fun hs => h'.1 (h.balanced hs), h'.2.trans h.inOrder⟩
  astray _ := ⟨id, rfl⟩
  aside := .of_aside
  failure _ _ := .of_eq rfl rfl
  noted _ _ _ _ _ := .of_eq rfl rfl
  scope _ _ := .of_eq rfl rfl
  mask _ _ := .of_eq rfl rfl
  promise s p _ := by
    cases h : p.env <;> simp only [Store.addPromise, h, Option.map] <;> exact .of_events rfl rfl rfl
  closure _ _ := .of_events rfl rfl rfl
  used _ _ := .of_events rfl rfl rfl
  evaluator := .of_newEvaluator
  vars _ e _ := by cases e <;> exact .of_eq rfl rfl
  closureName _ _ _ := .of_eq rfl rfl
  registered s ctx id r := (StackStep.of_setHandlers id r.apply).trans (.of_events rfl rfl rfl)

/-! ## Pushing and popping -/

/-- The second store has one frame more, which is known by its number. -/
structure Pushed (s t : Store) (ctx : EvaluatorId) (id : Nat) : Prop where
  size : t.evaluators.size = s.evaluators.size
  index_lt : ctx.index < s.evaluators.size
  stack : ∃ frame : Frame, frame.id = id ∧ (t.evaluator ctx).stack =
    ⟨frame :: (s.evaluator ctx).stack.frames, (s.evaluator ctx).depth + 1, (s.evaluator ctx).targets⟩
  maxDepth : ∀ c, (t.evaluator c).maxDepth = (s.evaluator c).maxDepth
  others : ∀ c : EvaluatorId, c ≠ ctx → t.evaluator c = s.evaluator c
  balanced : s.Balanced → t.Balanced
  inOrder : t.misplacements = s.misplacements

namespace Pushed

variable {s t u : Store} {ctx : EvaluatorId} {id : Nat}

/-- An evaluator that does not exist admits no calls. -/
theorem index_lt_of_depth_lt (h : ¬ (s.evaluator ctx).maxDepth ≤ (s.evaluator ctx).depth) :
    ctx.index < s.evaluators.size := by
  refine Decidable.byContradiction fun hctx => h ?_
  simp [Store.evaluator, Array.getD, hctx, Inhabited.default]

theorem of_aside (h : Pushed s t ctx id) (haside : t.Aside u) : Pushed s u ctx id := by
  have hsame (c : EvaluatorId) : u.evaluator c = t.evaluator c := by
    simp only [Store.evaluator, haside.evaluators]
  have hstep := StackStep.of_aside haside
  exact ⟨by rw [haside.evaluators, h.size], h.index_lt, hsame ctx ▸ h.stack,
    fun c => hsame c ▸ h.maxDepth c, fun c hc => hsame c ▸ h.others c hc,
    fun hs => hstep.balanced (h.balanced hs), hstep.inOrder.trans h.inOrder⟩

/-- Handing out an identity before does not matter. -/
theorem of_fresh {n : Nat} (h : Pushed { s with nextId := n } t ctx id) : Pushed s t ctx id := by
  have hfresh : StackStep s { s with nextId := n } := .of_eq rfl rfl
  exact ⟨h.size, h.index_lt, h.stack, h.maxDepth, h.others,
    fun hs => h.balanced (hfresh.balanced hs), h.inOrder⟩

/-- The store after a frame was pushed. -/
def store (s : Store) (ctx : EvaluatorId) (frame : Frame) : Store :=
  let e := s.evaluator ctx
  (s.setEvaluator ctx fun e => { e with frames := frame :: e.frames, depth := e.depth + 1 }).record
    (.entered ctx (e.depth + 1) (e.frames.length + 1))

theorem evaluator_store (s : Store) (frame : Frame) (hctx : ctx.index < s.evaluators.size)
    (c : EvaluatorId) : (store s ctx frame).evaluator c =
      if c = ctx then
        { s.evaluator ctx with
          frames := frame :: (s.evaluator ctx).frames
          depth := (s.evaluator ctx).depth + 1 }
      else s.evaluator c := by
  apply (s.evaluator_setEvaluator ctx _ c).trans
  simp only [hctx, and_true]

theorem of_store (s : Store) (frame : Frame)
    (h : ¬ (s.evaluator ctx).maxDepth ≤ (s.evaluator ctx).depth) :
    Pushed s (store s ctx frame) ctx frame.id := by
  have hctx := index_lt_of_depth_lt h
  have hsize : (store s ctx frame).evaluators.size = s.evaluators.size := Array.size_modify
  refine ⟨hsize, hctx, ⟨frame.bare, rfl, ?_⟩, Store.maxDepth_setEvaluator rfl, ?_, ?_, rfl⟩
  · rw [evaluator_store s frame hctx, if_pos rfl]
    rfl
  · intro c hc
    rw [evaluator_store s frame hctx, if_neg hc]
  · intro hs
    have hdepth := (hs.now ctx).1
    have hfits : s.Fits ctx ((s.evaluator ctx).depth + 1) ((s.evaluator ctx).frames.length + 1) := by
      rw [Store.Fits]
      omega
    have hset : (s.setEvaluator ctx fun e =>
        { e with frames := frame :: e.frames, depth := e.depth + 1 }).Balanced :=
      hs.setEvaluator rfl hfits
    refine hset.record rfl ?_ ((Store.fits_setEvaluator rfl).mpr hfits)
    rw [Store.setEvaluator, Array.size_modify]
    exact hctx

end Pushed

/-- A frame that fits is pushed, which is traced. -/
theorem pushFrame_of_room {ctx : EvaluatorId} {s : Store}
    (h : ¬ (s.evaluator ctx).maxDepth ≤ (s.evaluator ctx).depth) (call : Expr) (env : EnvId)
    (function : Option ClosureId) (caller : Option EnvId) (handlers : List ExitAction) :
    Machine.pushFrame ctx call env function caller handlers s = (do
      Run.trace fun _ => s!"enter frame {(s.evaluator ctx).depth + 1}: " ++ call.deparse
      pure s.nextId) (Pushed.store { s with nextId := s.nextId + 1 } ctx
        ⟨s.nextId, call, env, function, caller, handlers⟩) := by
  simp only [Machine.pushFrame, Run.get_bind, if_neg h]
  rfl

/-- A frame that fits is pushed, with the next number. -/
theorem pushFrame_eq_ok {ctx : EvaluatorId} {s : Store}
    (h : ¬ (s.evaluator ctx).maxDepth ≤ (s.evaluator ctx).depth) (call : Expr) (env : EnvId)
    (function : Option ClosureId) (caller : Option EnvId) (handlers : List ExitAction) :
    ∃ t, Machine.pushFrame ctx call env function caller handlers s = .ok s.nextId t ∧
      (Pushed.store { s with nextId := s.nextId + 1 } ctx
        ⟨s.nextId, call, env, function, caller, handlers⟩).Aside t := by
  obtain ⟨t, ht, haside⟩ := Flow.trace_eq_ok
    (fun _ => s!"enter frame {(s.evaluator ctx).depth + 1}: " ++ call.deparse)
    (Pushed.store { s with nextId := s.nextId + 1 } ctx
      ⟨s.nextId, call, env, function, caller, handlers⟩)
  refine ⟨t, ?_, haside⟩
  rw [pushFrame_of_room h, Run.bind_of_ok ht]
  rfl

/-- No frame is pushed where the nesting is too deep. -/
theorem pushFrame_of_full {ctx : EvaluatorId} {s : Store}
    (h : (s.evaluator ctx).maxDepth ≤ (s.evaluator ctx).depth) (call : Expr) (env : EnvId)
    (function : Option ClosureId) (caller : Option EnvId) (handlers : List ExitAction) :
    Machine.pushFrame ctx call env function caller handlers s =
      Run.failWith .recursion (some call) s := by
  simp only [Machine.pushFrame, Run.get_bind, if_pos h]

/-- A frame is pushed, or the nesting is too deep and nothing happens. -/
theorem pushFrame_cases (ctx : EvaluatorId) (call : Expr) (env : EnvId)
    (function : Option ClosureId) (caller : Option EnvId) (handlers : List ExitAction) (s : Store) :
    (∃ id t, Machine.pushFrame ctx call env function caller handlers s = .ok id t ∧
      Pushed s t ctx id) ∨
    ∃ (x : Signal) (t : Store),
      Machine.pushFrame ctx call env function caller handlers s = .error x.interrupt t ∧
      StackStep s t := by
  by_cases h : (s.evaluator ctx).maxDepth ≤ (s.evaluator ctx).depth
  · refine .inr ⟨.failure ⟨s.failures.size, .recursion⟩,
      { s with failures := s.failures.push ⟨some call, none⟩ }, ?_, .of_eq rfl rfl⟩
    rw [pushFrame_of_full h]
    rfl
  · obtain ⟨t, ht, haside⟩ := pushFrame_eq_ok h call env function caller handlers
    have hpushed := Pushed.of_store { s with nextId := s.nextId + 1 }
      ⟨s.nextId, call, env, function, caller, handlers⟩ h
    exact .inl ⟨s.nextId, t, ht, (hpushed.of_aside haside).of_fresh⟩

namespace Popped

variable {s t u : Store} {ctx : EvaluatorId} {id : Nat} {frame : Frame} {rest : List Frame}

/-- The store after the innermost frame was popped. -/
def store (u : Store) (ctx : EvaluatorId) (rest : List Frame) : Store :=
  (u.setEvaluator ctx fun e => { e with frames := rest, depth := e.depth - 1 }).record
    (.left ctx ((u.evaluator ctx).depth - 1) rest.length)

theorem evaluator_store (u : Store) (rest : List Frame) (hctx : ctx.index < u.evaluators.size)
    (c : EvaluatorId) : (store u ctx rest).evaluator c =
      if c = ctx then
        { u.evaluator ctx with frames := rest, depth := (u.evaluator ctx).depth - 1 }
      else u.evaluator c := by
  apply (u.evaluator_setEvaluator ctx _ c).trans
  simp only [hctx, and_true]

theorem balanced_store (hu : u.Balanced) (hctx : ctx.index < u.evaluators.size)
    (hframes : (u.evaluator ctx).frames = frame :: rest) : (store u ctx rest).Balanced := by
  have hdepth : (u.evaluator ctx).depth = (rest.length + 1 : Nat) := by
    rw [(hu.now ctx).1, hframes, List.length_cons]
  have hfits : u.Fits ctx ((u.evaluator ctx).depth - 1) rest.length := by
    have hbound := (hu.now ctx).2
    rw [Store.Fits]
    omega
  have hset : (u.setEvaluator ctx fun e =>
      { e with frames := rest, depth := e.depth - 1 }).Balanced := hu.setEvaluator rfl hfits
  refine hset.record rfl ?_ ((Store.fits_setEvaluator rfl).mpr hfits)
  rw [Store.setEvaluator, Array.size_modify]
  exact hctx

/-- Popping undoes pushing, as long as the stack was left as it was in between. -/
theorem step_store (h : Pushed s t ctx id) (hu : StackStep t u)
    (hframes : (u.evaluator ctx).frames = frame :: rest) : StackStep s (store u ctx rest) := by
  have hctx : ctx.index < u.evaluators.size :=
    Nat.lt_of_lt_of_le (h.size ▸ h.index_lt) hu.size
  have hsize : (store u ctx rest).evaluators.size = u.evaluators.size := Array.size_modify
  obtain ⟨pushed, -, hstack⟩ := h.stack
  rw [← hu.stack ctx, Evaluator.stack, hframes, List.map_cons, Stack.mk.injEq, List.cons.injEq]
    at hstack
  obtain ⟨⟨-, hrest⟩, hdepth, htargets⟩ := hstack
  refine ⟨?_, ?_, ?_, ?_, hu.inOrder.trans h.inOrder⟩
  · rw [hsize, ← h.size]
    exact hu.size
  · intro c hc
    rw [← h.maxDepth c, ← hu.maxDepth c (h.size ▸ hc)]
    exact Store.maxDepth_setEvaluator rfl c
  · intro c
    rw [evaluator_store u rest hctx]
    split
    next hc =>
        rw [hc, Evaluator.stack, hrest, htargets, hdepth, Int.add_sub_cancel]
        rfl
    next hc => rw [hu.stack c, h.others c hc]
  · intro hs
    exact balanced_store (hu.balanced (h.balanced hs)) hctx hframes

end Popped

/-- The innermost frame is popped by its number, which is traced. -/
theorem popFrame_of_frames {u : Store} {ctx : EvaluatorId} {frame : Frame} {rest : List Frame}
    (h : (u.evaluator ctx).frames = frame :: rest) : Machine.popFrame ctx frame.id u =
      Run.trace (fun _ => s!"leave frame {(u.evaluator ctx).depth}: " ++ frame.call.deparse)
        (Popped.store u ctx rest) := by
  simp only [Machine.popFrame, Run.get_bind, h, if_neg (not_not_intro (Eq.refl frame.id))]
  rfl

theorem popFrame_eq_ok {u : Store} {ctx : EvaluatorId} {frame : Frame} {rest : List Frame}
    (h : (u.evaluator ctx).frames = frame :: rest) :
    ∃ v, Machine.popFrame ctx frame.id u = .ok ⟨⟩ v ∧ (Popped.store u ctx rest).Aside v := by
  rw [popFrame_of_frames h]
  exact Flow.trace_eq_ok _ _

/-- The frame that was pushed is the innermost one again when it is to be popped. -/
theorem closes_popFrame {s t : Store} {ctx : EvaluatorId} {id : Nat} (h : Pushed s t ctx id) :
    Flow.stacks.Closes s t (Machine.popFrame ctx id) := by
  apply Flow.Closes.of_value
  intro u hu
  obtain ⟨pushed, hid, hstack⟩ := h.stack
  rw [← (show StackStep t u from hu).stack ctx] at hstack
  have hmap : (u.evaluator ctx).frames.map Frame.bare = pushed :: (s.evaluator ctx).stack.frames :=
    congrArg Stack.frames hstack
  obtain ⟨frame, rest, hframes, hbare, -⟩ := List.map_eq_cons_iff.mp hmap
  have hframe : frame.id = id := by
    rw [← hid, ← hbare]
    rfl
  obtain ⟨v, hv, haside⟩ := popFrame_eq_ok hframes
  exact ⟨(), v, hframe ▸ hv, (Popped.step_store h hu hframes).trans (.of_aside haside)⟩

namespace Flow

instance : Flow.stacks.Takes := ⟨fun _ _ id => StackStep.of_setHandlers id _⟩

instance : Flow.stacks.Rechains where
  rechain _ _ _ := .of_events rfl rfl rfl

instance : Flow.stacks.Forces where
  begin s p := by
    cases h : (s.promise p).env <;> simp only [Store.begin, h] <;> exact .of_events rfl rfl rfl
  abandon _ _ _ := .of_events rfl rfl rfl
  settle _ _ _ := .of_events rfl rfl rfl

/-! ## Calls -/

section Calls

variable {m : Machine} [∀ ctx e env, Flow.stacks.Holds (m.eval ctx e env)] {s t : Store}
  {ctx : EvaluatorId} {id : Nat}

theorem lost_of_pushed (h : Pushed s t ctx id) {u : Store} (hu : Flow.stacks.Lost t u) :
    Flow.stacks.Lost s u := ⟨fun hs => hu.1 (h.balanced hs), hu.2.trans h.inOrder⟩

theorem closes_unwind (h : Pushed s t ctx id) (pending : Bool) :
    Flow.stacks.Closes s t (m.unwind ctx id pending) := by
  unfold Machine.unwind
  apply Closes.after inferInstance (lost_of_pushed h)
  intro actions
  apply Closes.after inferInstance (lost_of_pushed h)
  intro first
  apply Closes.before (closes_popFrame h)
  intro _
  split <;> infer_instance

theorem stacks_inFrame (ctx : EvaluatorId) (call : Expr) (env : EnvId)
    (function : Option ClosureId) (caller : Option EnvId) (handlers : List ExitAction)
    (body : Run Value) (hbody : Flow.stacks.Holds body) :
    Flow.stacks.Holds (m.inFrame ctx call env function caller handlers body) := by
  unfold Machine.inFrame
  apply Holds.of_open
  intro s
  rcases pushFrame_cases ctx call env function caller handlers s with ⟨id, t, ht, h⟩ | hfail
  · refine .inl ⟨id, t, ht, .after inferInstance (lost_of_pushed h) ?_⟩
    intro outcome
    split
    · exact .before (closes_unwind h _) fun _ => inferInstance
    · split <;> exact .before (closes_unwind h _) fun _ => inferInstance
    · exact .after inferInstance (lost_of_pushed h) fun _ =>
        .before (closes_unwind h _) fun _ => inferInstance
    · exact .before (closes_unwind h _) fun _ => inferInstance
  · exact .inr hfail

end Calls

/-! ## Scopes of evaluation and requests -/

section Scopes

variable {s t u : Store} {ctx : EvaluatorId} {env : EnvId}

/-- The store in which an environment is evaluated that `return` can end. -/
def targeted (s : Store) (ctx : EvaluatorId) (env : EnvId) : Store :=
  s.setEvaluator ctx fun e => { e with targets := env :: e.targets }

def untargeted (s : Store) (ctx : EvaluatorId) : Store :=
  s.setEvaluator ctx fun e => { e with targets := e.targets.drop 1 }

theorem stack_of_not_lt (h : ¬ ctx.index < s.evaluators.size) :
    (s.evaluator ctx).stack = .empty := by
  simp [Store.evaluator, Array.getD, h, Inhabited.default, Evaluator.stack, Stack.empty]

theorem stack_untargeted (s : Store) (ctx : EvaluatorId) :
    ((untargeted s ctx).evaluator ctx).stack = (s.evaluator ctx).stack.dropTarget := by
  rw [untargeted, Store.evaluator_setEvaluator]
  split
  next h => rfl
  next h => rw [stack_of_not_lt fun hctx => h ⟨rfl, hctx⟩]; rfl

theorem dropTarget_targeted (s : Store) (ctx : EvaluatorId) (env : EnvId) :
    ((targeted s ctx env).evaluator ctx).stack.dropTarget = (s.evaluator ctx).stack := by
  rw [targeted, Store.evaluator_setEvaluator]
  split
  next h => rfl
  next h => rw [stack_of_not_lt fun hctx => h ⟨rfl, hctx⟩]; rfl

theorem balanced_targeted (hs : s.Balanced) : (targeted s ctx env).Balanced :=
  hs.setEvaluator rfl (hs.now ctx)

/-- Dropping the innermost environment leads back to where it was put on the stack. -/
theorem step_untargeted (hu : StackStep (targeted s ctx env) u) :
    StackStep s (untargeted u ctx) where
  size := by
    have h := hu.size
    rw [targeted, Store.setEvaluator, Array.size_modify] at h
    rw [untargeted, Store.setEvaluator, Array.size_modify]
    exact h
  maxDepth c hc := by
    have h := hu.maxDepth c (by rw [targeted, Store.setEvaluator, Array.size_modify]; exact hc)
    rw [targeted, Store.evaluator_setEvaluator] at h
    rw [untargeted, Store.evaluator_setEvaluator]
    split at h <;> split <;> simp_all
  stack c := by
    by_cases hc : c = ctx
    · rw [hc, stack_untargeted, hu.stack, dropTarget_targeted]
    · rw [untargeted, Store.evaluator_setEvaluator, if_neg fun h => hc h.1, hu.stack, targeted,
        Store.evaluator_setEvaluator, if_neg fun h => hc h.1]
  balanced hs := by
    have hbalanced := hu.balanced (balanced_targeted hs)
    exact hbalanced.setEvaluator rfl (hbalanced.now ctx)
  inOrder := hu.inOrder

theorem stacks_inTarget (ctx : EvaluatorId) (env : EnvId) (body : Run Value)
    (hbody : Flow.stacks.Holds body) : Flow.stacks.Holds (Machine.inTarget ctx env body) := by
  unfold Machine.inTarget
  refine .of_open fun s => .inl ⟨⟨⟩, targeted s ctx env, rfl, ?_⟩
  refine .after inferInstance (fun h => ⟨fun hs => h.1 (balanced_targeted hs), h.2⟩) ?_
  intro outcome
  refine .before (.of_value fun u hu => ⟨⟨⟩, untargeted u ctx, rfl, step_untargeted hu⟩) ?_
  intro _
  split <;> infer_instance

/-- Restoring a stack that is as it was changes nothing. -/
theorem step_restore (hu : StackStep s u) : StackStep u (u.setEvaluator ctx fun e =>
    { e with
      frames := Machine.restore (s.evaluator ctx).frames.length e.frames
      depth := (s.evaluator ctx).depth
      targets := Machine.restore (s.evaluator ctx).targets.length e.targets }) := by
  have hstack := hu.stack ctx
  have hframes : (u.evaluator ctx).frames.length = (s.evaluator ctx).frames.length := by
    simpa [Evaluator.stack] using congrArg (fun stack => stack.frames.length) hstack
  have htargets : (u.evaluator ctx).targets.length = (s.evaluator ctx).targets.length :=
    congrArg (fun stack => stack.targets.length) hstack
  refine .of_setEvaluator ?_ rfl
  simp only [Evaluator.stack, Machine.restore, hframes, htargets, Nat.sub_self, List.drop_zero]
  exact congrArg (fun depth => Stack.mk _ depth _) (congrArg Stack.depth hstack).symm

theorem stacks_request {α : Type} (ctx : EvaluatorId) (action : Run α)
    (haction : Flow.stacks.Holds action) : Flow.stacks.Holds (Machine.request ctx action) := by
  unfold Machine.request
  refine .of_open fun s => .inl ⟨s, s, rfl, ?_⟩
  apply Closes.after inferInstance id
  intro outcome
  refine .before (.of_value fun u hu => ⟨⟨⟩, _, rfl, hu.trans (step_restore hu)⟩) ?_
  intro _
  split <;> infer_instance

end Scopes

instance : Flow.stacks.Closed where
  under := holds_under
  force _ := holds_force
  inFrame _ ctx call env function caller handlers body _ :=
    stacks_inFrame ctx call env function caller handlers body
  inTarget := stacks_inTarget
  request := stacks_request

end Flow

end Quasi
