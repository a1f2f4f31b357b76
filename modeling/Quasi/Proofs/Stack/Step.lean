import Quasi.Machine.Frames
import Quasi.Proofs.Flow.Steps
import Quasi.Proofs.Store

/-!
# Stacks

The stack of an evaluator is what every evaluation has to leave as it was: the frames, up to the
exit actions that are registered on them, the depth and the environments under evaluation.
-/

namespace Quasi

/-- A frame without its exit actions. -/
def Frame.bare (frame : Frame) : Frame := { frame with handlers := [] }

structure Stack where
  frames : List Frame
  depth : Int
  targets : List EnvId

def Evaluator.stack (e : Evaluator) : Stack := ⟨e.frames.map Frame.bare, e.depth, e.targets⟩

namespace Stack

def empty : Stack := ⟨[], 0, []⟩

/-- The stack without the innermost environment under evaluation. -/
def dropTarget (stack : Stack) : Stack := { stack with targets := stack.targets.drop 1 }

end Stack

/-- The depth and the number of frames of an evaluator after a frame was pushed or popped. -/
def Event.stacking? : Event → Option (EvaluatorId × Int × Nat)
  | .entered ctx depth frames => some (ctx, depth, frames)
  | .left ctx depth frames => some (ctx, depth, frames)
  | _ => none

def Event.isMisplaced : Event → Bool
  | .misplaced _ => true
  | _ => false

namespace Store

/-- All stacks after a frame was pushed or popped, latest first. -/
def stackings (s : Store) : List (EvaluatorId × Int × Nat) := s.history.filterMap Event.stacking?

/-- All frames that were to be popped out of order. -/
def misplacements (s : Store) : List Event := s.history.filter Event.isMisplaced

/-- Whether a depth is the number of frames and within the bound of its evaluator. -/
def Fits (s : Store) (ctx : EvaluatorId) (depth : Int) (frames : Nat) : Prop :=
  depth = frames ∧ depth ≤ max 0 (s.evaluator ctx).maxDepth

/-- All stacks fit, now and after each frame that was pushed or popped. -/
structure Balanced (s : Store) : Prop where
  now (ctx : EvaluatorId) :
    s.Fits ctx (s.evaluator ctx).depth (s.evaluator ctx).frames.length
  earlier : ∀ x ∈ s.stackings, x.1.index < s.evaluators.size ∧ s.Fits x.1 x.2.1 x.2.2

section Change

variable {s : Store} {ctx : EvaluatorId} {f : Evaluator → Evaluator}

theorem maxDepth_setEvaluator (hmax : (f (s.evaluator ctx)).maxDepth = (s.evaluator ctx).maxDepth)
    (c : EvaluatorId) : ((s.setEvaluator ctx f).evaluator c).maxDepth = (s.evaluator c).maxDepth := by
  rw [evaluator_setEvaluator]
  split
  next h => rw [h.1, hmax]
  next h => rfl

theorem fits_setEvaluator (hmax : (f (s.evaluator ctx)).maxDepth = (s.evaluator ctx).maxDepth)
    {c : EvaluatorId} {depth : Int} {frames : Nat} :
    (s.setEvaluator ctx f).Fits c depth frames ↔ s.Fits c depth frames := by
  rw [Fits, Fits, maxDepth_setEvaluator hmax]

/-- All stacks fit after one was exchanged for another that fits. -/
theorem Balanced.setEvaluator (hs : s.Balanced)
    (hmax : (f (s.evaluator ctx)).maxDepth = (s.evaluator ctx).maxDepth)
    (hfits : s.Fits ctx (f (s.evaluator ctx)).depth (f (s.evaluator ctx)).frames.length) :
    (s.setEvaluator ctx f).Balanced := by
  constructor
  · intro c
    rw [fits_setEvaluator hmax, evaluator_setEvaluator]
    split
    next h =>
        rw [h.1]
        exact hfits
    next h => exact hs.now c
  · intro x hx
    have hsize : (s.setEvaluator ctx f).evaluators.size = s.evaluators.size := Array.size_modify
    rw [fits_setEvaluator hmax, hsize]
    exact hs.earlier x hx

theorem Balanced.record (hs : s.Balanced) {event : Event} {depth : Int} {frames : Nat}
    (hevent : event.stacking? = some (ctx, depth, frames)) (hctx : ctx.index < s.evaluators.size)
    (hfits : s.Fits ctx depth frames) : (s.record event).Balanced := by
  constructor
  · exact hs.now
  · intro x hx
    simp only [stackings, Store.record, List.filterMap_cons, hevent] at hx
    rcases List.mem_cons.mp hx with rfl | hx
    · exact ⟨hctx, hfits⟩
    · exact hs.earlier x hx

end Change

end Store

/-- What a run does to stacks: it leaves them as they were, and they fit throughout. -/
structure StackStep (s t : Store) : Prop where
  size : s.evaluators.size ≤ t.evaluators.size
  maxDepth : ∀ ctx : EvaluatorId, ctx.index < s.evaluators.size →
    (t.evaluator ctx).maxDepth = (s.evaluator ctx).maxDepth
  stack : ∀ ctx, (t.evaluator ctx).stack = (s.evaluator ctx).stack
  balanced : s.Balanced → t.Balanced
  inOrder : t.misplacements = s.misplacements

namespace StackStep

variable {s t u : Store} {ctx : EvaluatorId}

theorem trans (h : StackStep s t) (h' : StackStep t u) : StackStep s u where
  size := Nat.le_trans h.size h'.size
  maxDepth ctx hctx :=
    (h'.maxDepth ctx (Nat.lt_of_lt_of_le hctx h.size)).trans (h.maxDepth ctx hctx)
  stack ctx := (h'.stack ctx).trans (h.stack ctx)
  balanced hs := h'.balanced (h.balanced hs)
  inOrder := h'.inOrder.trans h.inOrder

/-- Changes that leave all evaluators and their events alone. -/
theorem of_events (hevaluators : t.evaluators = s.evaluators)
    (hstackings : t.stackings = s.stackings) (hinOrder : t.misplacements = s.misplacements) :
    StackStep s t := by
  have hsame (ctx : EvaluatorId) : t.evaluator ctx = s.evaluator ctx := by
    simp only [Store.evaluator, hevaluators]
  refine ⟨Nat.le_of_eq (congrArg Array.size hevaluators.symm), fun ctx _ => by rw [hsame],
    fun ctx => by rw [hsame], ?_, hinOrder⟩
  intro hs
  constructor
  · intro ctx
    rw [Store.Fits, hsame]
    exact hs.now ctx
  · intro x hx
    rw [Store.Fits, hsame, hevaluators]
    exact hs.earlier x (hstackings ▸ hx)

theorem of_eq (hevaluators : t.evaluators = s.evaluators) (hhistory : t.history = s.history) :
    StackStep s t :=
  of_events hevaluators (by simp only [Store.stackings, hhistory])
    (by simp only [Store.misplacements, hhistory])

theorem of_aside (h : s.Aside t) : StackStep s t := of_eq h.evaluators h.history

/-- A change of an evaluator that leaves its stack alone. -/
theorem of_setEvaluator {f : Evaluator → Evaluator}
    (hstack : (f (s.evaluator ctx)).stack = (s.evaluator ctx).stack)
    (hmax : (f (s.evaluator ctx)).maxDepth = (s.evaluator ctx).maxDepth) :
    StackStep s (s.setEvaluator ctx f) where
  size := Nat.le_of_eq Array.size_modify.symm
  maxDepth c _ := Store.maxDepth_setEvaluator hmax c
  stack c := by
    rw [Store.evaluator_setEvaluator]
    split
    next h => rw [h.1, hstack]
    next h => rfl
  balanced hs := by
    have hdepth : (f (s.evaluator ctx)).depth = (s.evaluator ctx).depth :=
      congrArg Stack.depth hstack
    have hframes : (f (s.evaluator ctx)).frames.length = (s.evaluator ctx).frames.length := by
      simpa [Evaluator.stack] using congrArg (fun stack => stack.frames.length) hstack
    refine hs.setEvaluator hmax ?_
    rw [hdepth, hframes]
    exact hs.now ctx
  inOrder := rfl

theorem of_setHandlers (id : Nat) (f : List ExitAction → List ExitAction) :
    StackStep s (s.setEvaluator ctx fun e => e.setHandlers id f) := by
  refine .of_setEvaluator ?_ rfl
  simp only [Evaluator.stack, Evaluator.setHandlers, List.map_map]
  congr 1
  apply List.map_congr_left
  intro frame _
  simp only [Function.comp]
  split <;> rfl

theorem of_newEvaluator (s : Store) (globalEnv : Option EnvId) (maxDepth : Int) :
    StackStep s { s with evaluators := s.evaluators.push ⟨globalEnv, maxDepth, [], 0, []⟩ } where
  size := by simp
  maxDepth ctx hctx := by
    rw [Store.evaluator_push, if_neg (Nat.ne_of_lt hctx)]
  stack ctx := by
    rw [Store.evaluator_push]
    split
    next hctx => simp [Store.evaluator, Array.getD, hctx, Inhabited.default, Evaluator.stack]
    next hctx => rfl
  balanced hs := by
    constructor
    · intro ctx
      rw [Store.Fits, Store.evaluator_push]
      split
      · exact ⟨rfl, Int.le_max_left ..⟩
      · exact hs.now ctx
    · intro x hx
      obtain ⟨hindex, hfits⟩ := hs.earlier x hx
      refine ⟨by simpa using Nat.lt_succ_of_lt hindex, ?_⟩
      rw [Store.Fits, Store.evaluator_push, if_neg (Nat.ne_of_lt hindex)]
      exact hfits
  inOrder := rfl

end StackStep

end Quasi
