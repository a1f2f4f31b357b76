import Quasi.Proofs.Exit.Call

/-!
# Kept exit actions

No exit action is lost that is on a frame when its body has ended: each one that was registered
until then, and not dropped by a later registration, runs exactly once before the frame is popped.
The exit actions are taken from the frame before the first of them runs. What they register on their
own frame while it unwinds therefore stays there, and is gone with the frame.
-/

namespace Quasi

open Run (bind_of_ok)

namespace Registration

/-- The exit action that is registered, if there is one. -/
def added : Registration → List ExitAction
  | .clear => []
  | .exit action _ _ => [action]

/-- The exit actions that are registered, but for those that a later registration drops. -/
def kept : List Registration → List ExitAction
  | [] => []
  | r :: later => (if later.any clears then [] else r.added) ++ kept later

end Registration

namespace Machine

variable {m : Machine} {ctx : EvaluatorId} {id : Nat} {below : List Frame} {s t u v : Store}

/-- The registration of an exit action, with `add` if it is given. -/
def onExit (e : Expr) (add : Option Bool) : Expr :=
  .call (.const (.builtin (.special .onExit) .empty))
    (.bare e :: add.toList.map fun b => ⟨some "add", .const (.bool b)⟩)

end Machine

end Quasi
