import Quasi.Proofs.Flow.Session
import Quasi.Proofs.Stack.Flow

/-!
# Stacks in a session

Between requests all stacks are empty. While one is answered the depth of an evaluator is the number
of its frames and within its bound, and every frame is popped where it is the innermost. Only the
host can try to pop another one.
-/

namespace Quasi

namespace Session

variable {s t : Store}

/-- Nothing is being evaluated, and all stacks have fitted so far. -/
structure Idle (s : Store) : Prop where
  stack (ctx : EvaluatorId) : (s.evaluator ctx).stack = .empty
  balanced : s.Balanced

theorem idle_blank (settings : Settings) (verbose : Bool) :
    Idle { settings := settings, verbose := verbose } where
  stack _ := rfl
  balanced := ⟨fun _ => ⟨rfl, Int.le_max_left ..⟩, fun _ hx => by cases hx⟩

/-- Nothing is popped from a stack that is empty. -/
theorem popFrame_of_nil {ctx : EvaluatorId} (h : (s.evaluator ctx).frames = []) (id : Nat) :
    Machine.popFrame ctx id s = Machine.misplaced ctx s := by
  simp only [Machine.popFrame, Run.get_bind, h]

theorem popForeignFrame_apply (h : (s.evaluator evaluator).frames = []) :
    popForeignFrame s = .error (.failure ⟨s.failures.size, .host .state⟩)
      { s with
        nextId := s.nextId + 1
        failures := s.failures.push ⟨none, none⟩
        history := .misplaced evaluator :: s.history } := by
  let fresh : Store := { s with nextId := s.nextId + 1 }
  have hid : Run.freshId s = .ok s.nextId fresh := rfl
  have hpop : Machine.popFrame evaluator s.nextId fresh = Machine.misplaced evaluator fresh :=
    popFrame_of_nil (s := fresh) h s.nextId
  unfold popForeignFrame
  rw [Run.bind_of_ok hid]
  simp only [Bind.bind, EStateM.bind, hpop]
  rfl

theorem popForeignFrame_evaluators (hs : Idle s)
    (h : popForeignFrame.EndsIn s t ∨ popForeignFrame.LostIn s t) :
    t.evaluators = s.evaluators ∧ t.stackings = s.stackings := by
  have hempty : (s.evaluator evaluator).frames = [] :=
    List.map_eq_nil_iff.mp (congrArg Stack.frames (hs.stack evaluator))
  have hpop := popForeignFrame_apply hempty
  rcases h with (⟨v, h⟩ | ⟨x, h⟩) | h
  · rw [hpop] at h
    cases h
  · rw [hpop, EStateM.Result.error.injEq] at h
    exact h.2 ▸ ⟨rfl, rfl⟩
  · rw [Run.LostIn, hpop] at h
    cases h

theorem stackStep_request (r : Request) (hr : r ≠ .popForeignFrame) (h : r.run.EndsIn s t) :
    StackStep s t := by
  have hholds : Flow.stacks.Holds r.run := Flow.holds_request r fun h => absurd h hr
  exact hholds.ends h

/-- Stacks fit to the end of a request, and if it is lost, as far as it got. -/
theorem Idle.balanced_request (hs : Idle s) (r : Request)
    (h : r.run.EndsIn s t ∨ r.run.LostIn s t) : t.Balanced := by
  by_cases hr : r = .popForeignFrame
  · subst hr
    obtain ⟨hevaluators, hstackings⟩ := popForeignFrame_evaluators hs h
    constructor
    · intro ctx
      simp only [Store.Fits, Store.evaluator, hevaluators]
      exact hs.balanced.now ctx
    · intro x hx
      simp only [Store.Fits, Store.evaluator, hevaluators]
      exact hs.balanced.earlier x (hstackings ▸ hx)
  · have hholds : Flow.stacks.Holds r.run := Flow.holds_request r fun h => absurd h hr
    rcases h with h | h
    · exact (hholds.ends h).balanced hs.balanced
    · exact (hholds.lost h).1 hs.balanced

theorem Idle.request (hs : Idle s) (r : Request) (h : r.run.EndsIn s t) : Idle t := by
  refine ⟨?_, hs.balanced_request r (.inl h)⟩
  intro ctx
  by_cases hr : r = .popForeignFrame
  · subst hr
    simp only [Store.evaluator, (popForeignFrame_evaluators hs (.inl h)).1]
    exact hs.stack ctx
  · rw [(stackStep_request r hr h).stack, hs.stack]

theorem Reachable.idle (hs : Reachable s) : Idle s := by
  induction hs with
  | blank settings verbose => exact idle_blank settings verbose
  | request hs r h ih => exact ih.request r h

/-- Every evaluation keeps to the discipline of stacks. However it ends, and whatever the stacks were
when it started, it leaves all of them as they were. Between requests they are empty. From the
start of a session on, also in a request that is lost, the depth of an evaluator is the number of
its frames and within its bound, and no frame is popped out of order unless the host asks for it. -/
theorem stack_discipline (hs : Reachable s) :
    (∀ (n : Nat) (ctx : EvaluatorId) (e : Expr) (env : EnvId) (u v : Store),
      ((Machine.ofLevel n).eval ctx e env).EndsIn u v →
      (∀ other : EvaluatorId, (v.evaluator other).stack = (u.evaluator other).stack) ∧
      v.misplacements = u.misplacements) ∧
    (∀ ctx : EvaluatorId, (s.evaluator ctx).stack = .empty) ∧
    s.Balanced ∧
    (∀ (r : Request) (t : Store), r.run.EndsIn s t ∨ r.run.LostIn s t → t.Balanced ∧
      (r ≠ .popForeignFrame → t.misplacements = s.misplacements)) := by
  refine ⟨?_, hs.idle.stack, hs.idle.balanced, fun r t h => ⟨hs.idle.balanced_request r h, ?_⟩⟩
  · intro n ctx e env u v h
    have hholds : Flow.stacks.Holds ((Machine.ofLevel n).eval ctx e env) := inferInstance
    exact ⟨(hholds.ends h).stack, (hholds.ends h).inOrder⟩
  · intro hr
    have hholds : Flow.stacks.Holds r.run := Flow.holds_request r fun h => absurd h hr
    rcases h with h | h
    · exact (hholds.ends h).inOrder
    · exact (hholds.lost h).2

/-- A call of a function without formals. -/
def callConstant : Request :=
  .evaluate (.code (.call (.const (.closure ⟨0⟩)) [])) (.env .empty) none

/-- Its frame comes and goes. -/
theorem stack_discipline_callConstant : ∃ s t : Store, Reachable s ∧ callConstant.run.EndsIn s t ∧
    t.stackings = [(⟨0⟩, 0, 0), (⟨0⟩, 1, 1)] ∧ t.Balanced ∧ t.misplacements = s.misplacements := by
  have hs : Reachable _ := .request (.blank [] false)
    (.makeClosure (.sequence []) (.int 7) (.env .empty) none) (.value _ rfl)
  obtain ⟨-, -, -, hrequest⟩ := stack_discipline hs
  obtain ⟨hbalanced, hinOrder⟩ := hrequest callConstant _ (.inl (.value _ rfl))
  exact ⟨_, _, hs, .value _ rfl, rfl, hbalanced, hinOrder Request.noConfusion⟩

end Session

end Quasi
