import Quasi.Expr.TypeName
import Quasi.Vector.Basic

/-!
# Spliced items

The items of a value as argument slots, in order and with their names: nothing has no items, lists
and mappings have theirs, and a vector its elements as constants.
-/

namespace Quasi

namespace Value

/-- One item of a list as a slot; a slot stays what it is. -/
def toSlot : Value → Slot
  | .slot s => s
  | v => .bare v.toExpr

def spliceItems : Value → Except CallFault (List Slot)
  | .null => .ok []
  | .absent => .ok []
  | .list items => .ok (items.map (Tagged.map toExpr))
  | .mapping entries => .ok (entries.map fun (key, v) => ⟨some key, v.toExpr⟩)
  | .sequence items => .ok (items.map toSlot)
  | .tuple items => .ok (items.map toSlot)
  | .vec v => .ok (v.elements.items.map fun item => .bare (.const item))
  | v => .error (.unspliceable v.typeName)

end Value

end Quasi
