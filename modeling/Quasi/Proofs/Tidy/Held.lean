import Quasi.Proofs.Tidy.Reading

/-!
# What values hold

Values hold other values: lists their items, code its constants, vectors of objects their elements.
What is said here of all that a value holds does not depend on what is looked for in it.
-/

namespace Quasi

mutual

/-- The values that a value holds, itself alone if it holds no others. -/
def Value.held : Value → List Value
  | .code e => e.held
  | .slot ⟨_, e⟩ => e.held
  | .list items => heldTagged items
  | .sequence items => heldItems items
  | .tuple items => heldItems items
  | .mapping entries => heldEntries entries
  | .vec ⟨_, .objects xs⟩ => heldItems xs
  | v => [v]
termination_by structural v => v

def Expr.held : Expr → List Value
  | .const v => v.held
  | .call head slots => head.held ++ heldSlots slots
  | .formals items => heldFormals items
  | _ => []
termination_by structural e => e

def heldItems : List Value → List Value
  | [] => []
  | v :: rest => v.held ++ heldItems rest
termination_by structural items => items

def heldTagged : List (Tagged Value) → List Value
  | [] => []
  | ⟨_, v⟩ :: rest => v.held ++ heldTagged rest
termination_by structural items => items

def heldEntries : List (String × Value) → List Value
  | [] => []
  | (_, v) :: rest => v.held ++ heldEntries rest
termination_by structural entries => entries

def heldSlots : List (Tagged Expr) → List Value
  | [] => []
  | ⟨_, e⟩ :: rest => e.held ++ heldSlots rest
termination_by structural slots => slots

def heldFormals : List (String × Expr) → List Value
  | [] => []
  | (_, e) :: rest => e.held ++ heldFormals rest
termination_by structural items => items

end

/-- Whether nothing that a value holds is of a kind that is to be avoided. -/
def Value.avoids (bad : Value → Bool) (v : Value) : Bool := v.held.all fun x => !bad x

theorem held_item {xs : List Value} {x : Value} (h : x ∈ xs) : x.held ⊆ heldItems xs := by
  induction xs with
  | nil => cases h
  | cons y rest ih =>
      rw [heldItems]
      rcases List.mem_cons.mp h with rfl | h
      · exact List.subset_append_left ..
      · exact List.subset_append_of_subset_right _ (ih h)

theorem held_tagged {xs : List (Tagged Value)} {t : Tagged Value} (h : t ∈ xs) :
    t.item.held ⊆ heldTagged xs := by
  induction xs with
  | nil => cases h
  | cons u rest ih =>
      rw [heldTagged]
      rcases List.mem_cons.mp h with rfl | h
      · exact List.subset_append_left ..
      · exact List.subset_append_of_subset_right _ (ih h)

theorem held_entry {xs : List (String × Value)} {entry : String × Value} (h : entry ∈ xs) :
    entry.2.held ⊆ heldEntries xs := by
  induction xs with
  | nil => cases h
  | cons other rest ih =>
      rw [heldEntries]
      rcases List.mem_cons.mp h with rfl | h
      · exact List.subset_append_left ..
      · exact List.subset_append_of_subset_right _ (ih h)

theorem held_slot {xs : List Slot} {slot : Slot} (h : slot ∈ xs) :
    slot.item.held ⊆ heldSlots xs := by
  induction xs with
  | nil => cases h
  | cons other rest ih =>
      rw [heldSlots]
      rcases List.mem_cons.mp h with rfl | h
      · exact List.subset_append_left ..
      · exact List.subset_append_of_subset_right _ (ih h)

theorem held_formal {xs : List (String × Expr)} {item : String × Expr} (h : item ∈ xs) :
    item.2.held ⊆ heldFormals xs := by
  induction xs with
  | nil => cases h
  | cons other rest ih =>
      rw [heldFormals]
      rcases List.mem_cons.mp h with rfl | h
      · exact List.subset_append_left ..
      · exact List.subset_append_of_subset_right _ (ih h)

section Avoids

variable {bad : Value → Bool} {v w : Value}

theorem avoids_iff : v.avoids bad = true ↔ ∀ x ∈ v.held, bad x = false := by
  simp [Value.avoids]

/-- A part of what avoids something avoids it as well. -/
theorem avoids_part (h : v.avoids bad = true) (hpart : w.held ⊆ v.held) : w.avoids bad = true :=
  avoids_iff.mpr fun x hx => avoids_iff.mp h x (hpart hx)

end Avoids

/-! ## Values without bindings -/

mutual

/-- What has no bindings in it avoids values that have. -/
theorem isInert_eq (v : Value) : v.isInert = v.avoids Value.hasBindings := by
  cases v with
  | code e => exact isInertCode_eq e
  | slot slot =>
      obtain ⟨tag, e⟩ := slot
      exact isInertCode_eq e
  | list items => exact inertTagged_eq items
  | sequence items => exact inertItems_eq items
  | tuple items => exact inertItems_eq items
  | mapping entries => exact inertEntries_eq entries
  | vec v =>
      obtain ⟨id, elements⟩ := v
      cases elements with
      | objects xs => exact inertItems_eq xs
      | _ => rfl
  | _ => rfl
termination_by structural v

theorem isInertCode_eq (e : Expr) : e.isInert = e.held.all fun x => !x.hasBindings := by
  cases e with
  | const v => exact isInert_eq v
  | call head slots =>
      rw [Expr.isInert, Expr.held, List.all_append, isInertCode_eq head, inertSlots_eq slots]
  | formals items => exact inertFormals_eq items
  | _ => rfl
termination_by structural e

theorem inertItems_eq (xs : List Value) :
    inertItems xs = (heldItems xs).all fun x => !x.hasBindings := by
  cases xs with
  | nil => rfl
  | cons v rest =>
      rw [inertItems, heldItems, List.all_append, isInert_eq v, inertItems_eq rest, Value.avoids]
termination_by structural xs

theorem inertTagged_eq (xs : List (Tagged Value)) :
    inertTagged xs = (heldTagged xs).all fun x => !x.hasBindings := by
  cases xs with
  | nil => rfl
  | cons t rest =>
      obtain ⟨tag, v⟩ := t
      rw [inertTagged, heldTagged, List.all_append, isInert_eq v, inertTagged_eq rest, Value.avoids]
termination_by structural xs

theorem inertEntries_eq (xs : List (String × Value)) :
    inertEntries xs = (heldEntries xs).all fun x => !x.hasBindings := by
  cases xs with
  | nil => rfl
  | cons entry rest =>
      obtain ⟨name, v⟩ := entry
      rw [inertEntries, heldEntries, List.all_append, isInert_eq v, inertEntries_eq rest,
        Value.avoids]
termination_by structural xs

theorem inertSlots_eq (xs : List (Tagged Expr)) :
    inertSlots xs = (heldSlots xs).all fun x => !x.hasBindings := by
  cases xs with
  | nil => rfl
  | cons slot rest =>
      obtain ⟨tag, e⟩ := slot
      rw [inertSlots, heldSlots, List.all_append, isInertCode_eq e, inertSlots_eq rest]
termination_by structural xs

theorem inertFormals_eq (xs : List (String × Expr)) :
    inertFormals xs = (heldFormals xs).all fun x => !x.hasBindings := by
  cases xs with
  | nil => rfl
  | cons item rest =>
      obtain ⟨name, e⟩ := item
      rw [inertFormals, heldFormals, List.all_append, isInertCode_eq e, inertFormals_eq rest]
termination_by structural xs

end

theorem inertItems_iff {xs : List Value} :
    inertItems xs = true ↔ ∀ x ∈ xs, x.isInert = true := by
  induction xs with
  | nil => simp [inertItems]
  | cons x rest ih => simp [inertItems, ih]

/-! ## Items of vectors -/

/-- The values that vectors other than those of objects have as items. -/
def Value.isAtom : Value → Bool
  | .bool _ | .int _ | .num _ | .nan _ | .str _ => true
  | _ => false

/-- All items are atoms unless they are objects. -/
theorem isAtom_item {elements : Elements Value} (h : decide (elements.type = .object) = false) :
    ∀ x ∈ elements.items, x.isAtom = true := by
  intro x hx
  cases elements with
  | objects xs => cases h
  | bools xs | ints xs | words xs | texts width xs =>
      obtain ⟨_, -, rfl⟩ := List.mem_map.mp hx
      rfl
  | floats xs =>
      obtain ⟨y, -, rfl⟩ := List.mem_map.mp hx
      unfold Value.ofNumber
      split <;> rfl

section Items

variable {bad : Value → Bool} (hbad : ∀ v : Value, v.isAtom = true → bad v = false)
include hbad

theorem avoids_atom {v : Value} (hv : v.isAtom = true) : v.avoids bad = true := by
  have hself : v.held = [v] := by
    cases v with
    | bool | int | num | nan | str => rfl
    | _ => cases hv
  rw [Value.avoids, hself, List.all_cons, hbad v hv]
  rfl

/-- The items of a vector hold nothing bad if the vector holds nothing bad. -/
theorem avoids_item {v : Vec Value} (h : (Value.vec v).avoids bad = true) :
    ∀ x ∈ v.elements.items, x.avoids bad = true := by
  obtain ⟨id, elements⟩ := v
  cases elements with
  | objects xs => exact fun x hx => avoids_part h (held_item hx)
  | _ => exact fun x hx => avoids_atom hbad (isAtom_item rfl x hx)

theorem avoids_ofItems (type : ElementType) {xs : List Value} (h : ∀ x ∈ xs, x.avoids bad = true) :
    ∀ x ∈ (Elements.ofItems type xs).items, x.avoids bad = true := by
  cases type with
  | object => exact h
  | _ => exact fun x hx => avoids_atom hbad (isAtom_item rfl x hx)

theorem avoids_single {v : Value} (h : v.avoids bad = true) :
    ∀ x ∈ (Elements.single v).items, x.avoids bad = true := by
  intro x hx
  cases v with
  | vec v => exact avoids_item hbad h x hx
  | bool | num | nan | str => exact avoids_atom hbad (isAtom_item rfl x hx)
  | int i =>
      simp only [Elements.single] at hx
      split at hx
      · exact avoids_atom hbad (isAtom_item rfl x hx)
      · split at hx
        · exact avoids_atom hbad (isAtom_item rfl x hx)
        · rw [List.mem_singleton.mp hx]
          exact h
  | _ =>
      rw [List.mem_singleton.mp hx]
      exact h

theorem avoids_ofList {xs : List Value} (h : ∀ x ∈ xs, x.avoids bad = true) :
    ∀ x ∈ (Elements.ofList xs).items, x.avoids bad = true := by
  have hitems : ∀ x ∈ (xs.map Elements.single).flatMap Elements.items, x.avoids bad = true := by
    intro x hx
    obtain ⟨elements, hmem, hx⟩ := List.mem_flatMap.mp hx
    obtain ⟨v, hv, rfl⟩ := List.mem_map.mp hmem
    exact avoids_single hbad (h v hv) x hx
  unfold Elements.ofList
  generalize xs.map Elements.single = parts at hitems
  cases parts with
  | nil => simp [Elements.concat, Elements.items]
  | cons first rest => exact avoids_ofItems hbad _ hitems

theorem avoids_listElements {xs : List Value} (h : ∀ x ∈ xs, x.avoids bad = true) :
    ∀ x ∈ (Value.listElements xs).items, x.avoids bad = true := by
  unfold Value.listElements
  split
  · exact h
  · exact avoids_ofList hbad h

theorem avoids_operand {v : Value} (h : v.avoids bad = true) :
    ∀ x ∈ v.operandElements.items, x.avoids bad = true := by
  cases v with
  | vec v => exact avoids_item hbad h
  | list items =>
      refine avoids_listElements hbad fun x hx => ?_
      obtain ⟨t, ht, rfl⟩ := List.mem_map.mp hx
      exact avoids_part h (held_tagged ht)
  | sequence items => exact avoids_listElements hbad fun x hx => avoids_part h (held_item hx)
  | tuple items => exact avoids_listElements hbad fun x hx => avoids_part h (held_item hx)
  | _ => exact avoids_single hbad h

end Items

end Quasi
