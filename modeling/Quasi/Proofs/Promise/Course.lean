import Quasi.Proofs.Flow.Basic
import Quasi.Proofs.Store

/-!
# The course of a promise

What the history tells about a promise, latest event first. An evaluation begins when none is under
way and none has come to an outcome, and it ends once: with an outcome, or left by a signal that is
no failure.
-/

namespace Quasi

/-- Whether an event is about the evaluation of a promise. -/
def Event.isOf (p : PromiseId) : Event → Bool
  | .begun q => q = p
  | .settled q => q = p
  | .abandoned q _ => q = p
  | _ => false

namespace Progress

/-- Whether a promise waits for an evaluation. -/
def isIdle : Progress → Bool
  | .unforced => true
  | .interrupted => true
  | _ => false

/-- What a settled promise has come to. -/
def outcome? : Progress → Option (Except Signal Value)
  | .value v => some (.ok v)
  | .given v => some (.ok v)
  | .failed f => some (.error (.failure f))
  | _ => none

theorem outcome?_of_idle {progress : Progress} (h : progress.isIdle = true) :
    progress.outcome? = none := by
  cases progress <;> first | rfl | cases h

theorem isIdle_eq_false {progress : Progress} (h : progress.outcome?.isSome = true) :
    progress.isIdle = false := by
  cases progress <;> first | rfl | cases h

end Progress

def Signal.isFailure : Signal → Bool
  | .failure _ => true
  | _ => false

namespace Store

/-- The events of a promise, latest first. -/
def eventsOf (s : Store) (p : PromiseId) : List Event := s.history.filter (·.isOf p)

end Store

/-- The courses of a promise that it can have taken to where it is. -/
inductive Course (p : PromiseId) : List Event → Progress → Prop where
  | fresh {progress : Progress} (h : progress.isFresh = true) : Course p [] progress
  | begun {events : List Event} {progress : Progress} (h : Course p events progress)
      (hidle : progress.isIdle = true) : Course p (.begun p :: events) .forcing
  | abandoned {events : List Event} (h : Course p events .forcing) (x : Signal)
      (hx : x.isFailure = false) : Course p (.abandoned p x :: events) .interrupted
  | value {events : List Event} (h : Course p events .forcing) (v : Value) :
      Course p (.settled p :: events) (.value v)
  | failed {events : List Event} (h : Course p events .forcing) (f : FailureRef) :
      Course p (.settled p :: events) (.failed f)

/-- Events of a promise, latest first, that show it run once: an evaluation begins only as the first
event, or right after the last one was left without a failure; an outcome is the last event. -/
structure RunOnce (p : PromiseId) (events : List Event) : Prop where
  begun : ∀ later earlier, events = later ++ .begun p :: earlier →
    earlier = [] ∨ ∃ x rest, earlier = .abandoned p x :: rest ∧ x.isFailure = false
  settled : ∀ later earlier, events = later ++ .settled p :: earlier → later = []

theorem RunOnce.cons {p : PromiseId} {event : Event} {events : List Event}
    (h : RunOnce p events) (hopen : .settled p ∉ events)
    (hbegun : event = .begun p →
      events = [] ∨ ∃ x rest, events = .abandoned p x :: rest ∧ x.isFailure = false) :
    RunOnce p (event :: events) where
  begun later earlier heq := by
    cases later with
    | nil =>
        rw [List.nil_append, List.cons.injEq] at heq
        exact heq.2 ▸ hbegun heq.1
    | cons x later => exact h.begun later earlier (List.cons.inj heq).2
  settled later earlier heq := by
    cases later with
    | nil => rfl
    | cons x later =>
        refine absurd ?_ hopen
        rw [(List.cons.inj heq).2]
        simp

namespace Course

variable {p : PromiseId} {events : List Event} {progress : Progress}

theorem events_of_idle (h : Course p events progress) (hidle : progress.isIdle = true) :
    events = [] ∨ ∃ x rest, events = .abandoned p x :: rest ∧ x.isFailure = false := by
  cases h with
  | fresh h => exact .inl rfl
  | begun h hidle' => cases hidle
  | abandoned h x hx => exact .inr ⟨x, _, rfl, hx⟩
  | value h v => cases hidle
  | failed h f => cases hidle

theorem events_of_given {v : Value} (h : Course p events (.given v)) : events = [] := by
  cases h; rfl

theorem not_settled (h : Course p events progress) (hopen : progress.outcome? = none) :
    .settled p ∉ events := by
  induction h with
  | fresh h => exact List.not_mem_nil
  | begun h hidle ih => simpa using ih (Progress.outcome?_of_idle hidle)
  | abandoned h x hx ih => simpa using ih rfl
  | value h v ih => cases hopen
  | failed h f ih => cases hopen

theorem runOnce (h : Course p events progress) : RunOnce p events := by
  induction h with
  | fresh h => exact ⟨by simp, by simp⟩
  | begun h hidle ih =>
      exact ih.cons (h.not_settled (Progress.outcome?_of_idle hidle)) fun _ => h.events_of_idle hidle
  | abandoned h x hx ih => exact ih.cons (h.not_settled rfl) (by simp)
  | value h v ih => exact ih.cons (h.not_settled rfl) (by simp)
  | failed h f ih => exact ih.cons (h.not_settled rfl) (by simp)

end Course

namespace Machine

variable {s : Store} {p : PromiseId}

/-- A settled promise gives what it came to, the value or the failure itself, and does nothing. -/
theorem force_settled {outcome : Except Signal Value}
    (h : (s.promise p).progress.outcome? = some outcome) (m : Machine)
    (ctx : Option EvaluatorId) : m.force ctx p s = Run.resume outcome s := by
  simp only [Machine.force, Run.get_bind]
  cases hp : (s.promise p).progress <;> rw [hp] at h <;> cases h <;> rfl

/-- Forcing a promise in the middle of its own evaluation is a failure of its own. -/
theorem force_forcing (h : (s.promise p).progress = .forcing) (m : Machine)
    (ctx : Option EvaluatorId) : m.force ctx p s =
      .error (.failure ⟨s.failures.size, .force .circular⟩)
        { s with failures := s.failures.push ⟨none, none⟩ } := by
  simp only [Machine.force, Run.get_bind, h]
  rfl

end Machine

end Quasi
