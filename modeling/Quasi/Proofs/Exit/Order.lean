import Mathlib.Data.List.Induction
import Quasi.Machine.Frames

/-!
# The order of exit actions

Registrations change the exit actions of a frame one after the other. What they lead to is told by
the registrations since the last one that drops the others: first the actions that were registered
without `after`, the latest first, and then those that were registered with `after`.
-/

namespace Quasi

namespace Registration

/-- Whether the exit actions that are there are dropped. -/
def clears : Registration → Bool
  | .clear => true
  | .exit _ add _ => !add

/-- The exit action that is registered with `after`, or without it. -/
def action? (last : Bool) : Registration → Option ExitAction
  | .clear => none
  | .exit action _ after => if after = last then some action else none

/-- The exit actions after some registrations, in the order in which these are made. -/
def applyAll (rs : List Registration) (handlers : List ExitAction) : List ExitAction :=
  rs.foldl (fun handlers r => r.apply handlers) handlers

/-- The registrations since the last one that drops the others, that one included. -/
def sinceCleared (rs : List Registration) : List Registration :=
  rs.foldl (fun kept r => if r.clears then [r] else kept ++ [r]) []

/-- The exit actions that are left of registrations, in the order in which they run. -/
def order (rs : List Registration) : List ExitAction :=
  ((sinceCleared rs).filterMap (action? false)).reverse ++ (sinceCleared rs).filterMap (action? true)

theorem applyAll_append (rs later : List Registration) (handlers : List ExitAction) :
    applyAll (rs ++ later) handlers = applyAll later (applyAll rs handlers) :=
  List.foldl_append

theorem sinceCleared_concat (rs : List Registration) (r : Registration) :
    sinceCleared (rs ++ [r]) = if r.clears then [r] else sinceCleared rs ++ [r] := by
  simp only [sinceCleared, List.foldl_append, List.foldl_cons, List.foldl_nil]

theorem applyAll_eq_order (rs : List Registration) : applyAll rs [] = order rs := by
  induction rs using List.reverseRecOn with
  | nil => rfl
  | append_singleton rs r ih =>
      have hstep : applyAll (rs ++ [r]) [] = r.apply (order rs) := by
        rw [applyAll_append, ih]
        rfl
      have horder : order (rs ++ [r]) =
          ((if r.clears then [r] else sinceCleared rs ++ [r]).filterMap (action? false)).reverse ++
            (if r.clears then [r] else sinceCleared rs ++ [r]).filterMap (action? true) := by
        rw [order, sinceCleared_concat]
      rw [hstep, horder]
      cases r with
      | clear => rfl
      | exit action add after =>
          cases add with
          | false => cases after <;> rfl
          | true => cases after <;> simp [apply, registerExit, clears, action?, order]

end Registration

end Quasi
