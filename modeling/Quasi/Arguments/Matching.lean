import Quasi.Bindings
import Quasi.Failure.Fault

/-!
# Matching arguments

Supplied arguments are matched to formals in three rounds: by their exact names, by names that
begin exactly one formal ahead of `...`, and by position. What is left goes to `...`, or is
refused if the formals have none.
-/

namespace Quasi

variable {α : Type}

/-- An argument with its position in the call, counted from one. -/
structure Supplied (α : Type) where
  position : Nat
  argument : Tagged α

/-- The result of matching: what the formals are bound to, and what is left for `...`. -/
structure Matched (α : Type) where
  bound : Bindings α
  dots : List (Tagged α)

namespace Matching

/-- A round under way: what is bound so far and the arguments still to be matched, in order. -/
structure State (α : Type) where
  bound : Bindings α
  left : List (Supplied α)

def number (supplied : List (Tagged α)) : List (Supplied α) :=
  supplied.zipIdx.map fun (argument, index) => ⟨index + 1, argument⟩

/-- The formals ahead of `...`, which names may abbreviate and positions reach. -/
def beforeDots (formals : List String) : List String := formals.takeWhile (· ≠ "...")

/-- The formal that an argument names exactly. -/
def exactFormal? (formals : List String) (argument : Tagged α) : Option String :=
  argument.name?.filter fun name => name ≠ "..." && formals.contains name

def exactRound (formals : List String) (bound : Bindings α) :
    List (Supplied α) → Except ArityFault (State α)
  | [] => .ok ⟨bound, []⟩
  | s :: rest =>
      match exactFormal? formals s.argument with
      | none => (exactRound formals bound rest).map fun state => ⟨state.bound, s :: state.left⟩
      | some name =>
          if bound.contains name then .error (.formalTwice name)
          else exactRound formals (bound.set name s.argument.item) rest

/-- The formals ahead of `...` that a name begins and nothing is bound to. -/
def candidates (formals : List String) (bound : Bindings α) (name : String) : List String :=
  (beforeDots formals).filter fun formal =>
    !bound.contains formal && name.toList.isPrefixOf formal.toList

def prefixRound (formals : List String) (bound : Bindings α) :
    List (Supplied α) → Except ArityFault (State α)
  | [] => .ok ⟨bound, []⟩
  | s :: rest =>
      match s.argument.name? with
      | none => (prefixRound formals bound rest).map fun state => ⟨state.bound, s :: state.left⟩
      | some name =>
          match candidates formals bound name with
          | [] => (prefixRound formals bound rest).map fun state => ⟨state.bound, s :: state.left⟩
          | [formal] => prefixRound formals (bound.set formal s.argument.item) rest
          | _ => .error (.ambiguousPrefix s.position)

/-- An argument that nothing takes, as it is shown: its text after its name. -/
def unusedText (describe : α → String) (argument : Tagged α) : String :=
  match argument.name? with
  | some name => s!"{name} = {describe argument.item}"
  | none => describe argument.item

def positionRound (describe : α → String) (hasDots : Bool) (bound : Bindings α) :
    List String → List (Supplied α) → Except ArityFault (Matched α)
  | _, [] => .ok ⟨bound, []⟩
  | openFormals, s :: rest =>
      match s.argument.name?, openFormals with
      | none, formal :: openFormals =>
          positionRound describe hasDots (bound.set formal s.argument.item) openFormals rest
      | name, openFormals =>
          if hasDots then
            (positionRound describe hasDots bound openFormals rest).map fun matched =>
              ⟨matched.bound, ⟨name, s.argument.item⟩ :: matched.dots⟩
          else .error (.unused (unusedText describe s.argument))

/-- The rounds after the exact one, with or without names that abbreviate. -/
def finish (formals : List String) (describe : α → String) (partialNames : Bool)
    (state : State α) : Except ArityFault (Matched α) := do
  let state ← if partialNames then prefixRound formals state.bound state.left else .ok state
  let openFormals := (beforeDots formals).filter fun formal => !state.bound.contains formal
  positionRound describe (formals.contains "...") state.bound openFormals state.left

end Matching

/-- The formals and the leftovers that supplied arguments match. -/
def matchArguments (formals : List String) (describe : α → String) (partialNames : Bool)
    (supplied : List (Tagged α)) : Except ArityFault (Matched α) := do
  let state ← Matching.exactRound formals [] (Matching.number supplied)
  Matching.finish formals describe partialNames state

end Quasi
