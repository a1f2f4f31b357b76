import Quasi.Expr.Basic

/-!
# Traversals

The parts of a call are its head and then its arguments; the parts of a list of formals are the
defaults. All other expressions are leaves.
-/

namespace Quasi

namespace Expr

mutual

/-- The names of all symbols, in reading order. -/
def symbolNames : Expr → List String
  | .symbol name => [name]
  | .call head slots => head.symbolNames ++ slotNames slots
  | .formals items => formalNames items
  | _ => []

def slotNames : List (Tagged Expr) → List String
  | [] => []
  | ⟨_, e⟩ :: rest => e.symbolNames ++ slotNames rest

def formalNames : List (String × Expr) → List String
  | [] => []
  | (_, e) :: rest => e.symbolNames ++ formalNames rest

end

mutual

/-- The expression with every leaf replaced. -/
def mapLeaves (f : Expr → Expr) : Expr → Expr
  | .call head slots => .call (head.mapLeaves f) (mapSlots f slots)
  | .formals items => .formals (mapFormals f items)
  | e => f e
termination_by structural e => e

def mapSlots (f : Expr → Expr) : List (Tagged Expr) → List (Tagged Expr)
  | [] => []
  | ⟨tag, e⟩ :: rest => ⟨tag, e.mapLeaves f⟩ :: mapSlots f rest
termination_by structural slots => slots

def mapFormals (f : Expr → Expr) : List (String × Expr) → List (String × Expr)
  | [] => []
  | (name, e) :: rest => (name, e.mapLeaves f) :: mapFormals f rest
termination_by structural items => items

end

mutual

/-- What a walk meets: the depth of the expression, and its nodes, each after its parts. A node is
given with the number of its parts, a leaf with none. -/
def visits : Expr → Nat × List (Expr × Option Nat)
  | .call head slots =>
      let (depth, seen) := head.visits
      let (depth', seen') := slotVisits slots
      (max depth depth' + 1,
        seen ++ seen' ++ [(.call head slots, some (slots.length + 1))])
  | .formals items =>
      let (depth, seen) := formalVisits items
      (depth + 1, seen ++ [(.formals items, some items.length)])
  | e => (1, [(e, none)])

def slotVisits : List (Tagged Expr) → Nat × List (Expr × Option Nat)
  | [] => (0, [])
  | ⟨_, e⟩ :: rest =>
      let (depth, seen) := e.visits
      let (depth', seen') := slotVisits rest
      (max depth depth', seen ++ seen')

def formalVisits : List (String × Expr) → Nat × List (Expr × Option Nat)
  | [] => (0, [])
  | (_, e) :: rest =>
      let (depth, seen) := e.visits
      let (depth', seen') := formalVisits rest
      (max depth depth', seen ++ seen')

end

end Expr

/-- A call or a list of formals with new parts, names kept. Parts that are left over and slots that
get no part are dropped. -/
def Expr.rebuild : Expr → List Expr → Option Expr
  | .call _ slots, head :: parts =>
      some (.call head ((slots.zip parts).map fun (slot, e) => ⟨slot.tag, e⟩))
  | .formals items, parts =>
      some (.formals ((items.zip parts).map fun (item, e) => (item.1, e)))
  | _, _ => none

end Quasi
