/-!
# Bindings

Names with what they are bound to, in the order in which they were first bound. Every name occurs
once: `set` replaces in place, and a name that was erased and bound again comes last.
-/

namespace Quasi

abbrev Bindings (α : Type) := List (String × α)

namespace Bindings

variable {α : Type}

def get? : Bindings α → String → Option α
  | [], _ => none
  | (key, item) :: rest, name => if key = name then some item else get? rest name

def contains (bindings : Bindings α) (name : String) : Bool := (get? bindings name).isSome

def set : Bindings α → String → α → Bindings α
  | [], name, item => [(name, item)]
  | (key, old) :: rest, name, item =>
      if key = name then (key, item) :: rest else (key, old) :: set rest name item

def erase (bindings : Bindings α) (name : String) : Bindings α :=
  bindings.filter fun binding => binding.1 ≠ name

def names (bindings : Bindings α) : List String := bindings.map (·.1)

/-- The bindings that a list of pairs makes one after the other. -/
def ofPairs (pairs : List (String × α)) : Bindings α :=
  pairs.foldl (fun bindings pair => set bindings pair.1 pair.2) []

@[simp] theorem get?_nil (name : String) : get? ([] : Bindings α) name = none := rfl

@[simp] theorem get?_set_self (bindings : Bindings α) (name : String) (item : α) :
    get? (set bindings name item) name = some item := by
  induction bindings with
  | nil => simp [set, get?]
  | cons binding rest ih =>
      by_cases h : binding.1 = name
      · simp [set, get?, h]
      · simp [set, get?, h, ih]

theorem get?_set_of_ne (bindings : Bindings α) {name other : String} (item : α)
    (h : other ≠ name) : get? (set bindings name item) other = get? bindings other := by
  induction bindings with
  | nil => simp [set, get?, Ne.symm h]
  | cons binding rest ih =>
      by_cases hk : binding.1 = name
      · simp [set, get?, hk, Ne.symm h]
      · by_cases ho : binding.1 = other
        · simp [set, get?, ho, h]
        · simp [set, get?, hk, ho, ih]

@[simp] theorem get?_erase_self (bindings : Bindings α) (name : String) :
    get? (erase bindings name) name = none := by
  induction bindings with
  | nil => rfl
  | cons binding rest ih =>
      by_cases h : binding.1 = name
      · simpa [erase, h] using ih
      · simpa [erase, h, get?] using ih

theorem get?_erase_of_ne (bindings : Bindings α) {name other : String} (h : other ≠ name) :
    get? (erase bindings name) other = get? bindings other := by
  induction bindings with
  | nil => rfl
  | cons binding rest ih =>
      by_cases hk : binding.1 = name
      · simpa [erase, hk, get?, Ne.symm h] using ih
      · by_cases ho : binding.1 = other
        · simp [erase, ho, get?, h]
        · simpa [erase, hk, ho, get?] using ih

end Bindings

/-- An item of an argument or value list, with the tag it may carry. -/
structure Tagged (α : Type) where
  tag : Option String
  item : α
deriving DecidableEq, Repr

namespace Tagged

variable {α β : Type}

def bare (item : α) : Tagged α := ⟨none, item⟩

def map (f : α → β) (t : Tagged α) : Tagged β := ⟨t.tag, f t.item⟩

/-- The tag, unless it is empty. -/
def name? (t : Tagged α) : Option String := t.tag.filter (· ≠ "")

/-- The first item with a tag. -/
def get? : List (Tagged α) → String → Option α
  | [], _ => none
  | t :: rest, name => if t.tag = some name then some t.item else get? rest name

/-- The tagged items as bindings: of two with one tag the later counts, in the earlier's place. -/
def toBindings (items : List (Tagged α)) : Bindings α :=
  Bindings.ofPairs (items.filterMap fun t => t.tag.map (·, t.item))

def anyTag (items : List (Tagged α)) : Bool := items.any (·.tag.isSome)

end Tagged

end Quasi
