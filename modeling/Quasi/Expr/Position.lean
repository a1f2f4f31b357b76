import Quasi.Expr.Basic

/-!
# Positions in a call

A call of `n` arguments has the positions `0` to `n`: its head and its argument slots. Negative
positions count from the end. Writing to a position keeps the name of the slot.
-/

namespace Quasi

/-- The position in a call of `length` parts, or the number that is out of range. -/
def position? (length : Nat) (i : Int) : Except Int Nat :=
  let j := if i < 0 then i + length else i
  if 0 ≤ j ∧ j < length then .ok j.toNat else .error j

namespace Expr

/-- The part of a call at a position: the head, or the expression in a slot. -/
def part? (head : Expr) (slots : List Slot) : Nat → Option Expr
  | 0 => some head
  | n + 1 => slots[n]?.map (·.item)

/-- The call with one part replaced. -/
def setPart (head : Expr) (slots : List Slot) (i : Nat) (e : Expr) : Expr :=
  match i with
  | 0 => .call e slots
  | n + 1 => .call head (slots.modify n fun slot => ⟨slot.tag, e⟩)

/-- Whether an expression may stand at the head of a call. -/
def isHeadLike (isInvocable : Value → Bool) : Expr → Bool
  | .symbol _ => true
  | .call _ _ => true
  | .const v => isInvocable v
  | _ => false

theorem part?_setPart (head : Expr) (slots : List Slot) (i : Nat) (e : Expr)
    (h : i < slots.length + 1) :
    (match setPart head slots i e with
      | .call head slots => part? head slots i
      | _ => none) = some e := by
  cases i with
  | zero => rfl
  | succ n => simp [setPart, part?, Nat.lt_of_succ_lt_succ h]

end Expr

end Quasi
