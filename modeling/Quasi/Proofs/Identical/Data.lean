import Quasi.Proofs.Identical.Row

/-!
# Identity of data

Data are values without parts, vectors of them, and lists of data. Two lists are identical if they
have the same names and identical items; a vector and other data are identical if both are rows that
are compared by the same. Whatever stands first, the answer is the same.
-/

namespace Quasi

namespace Value

/-- The names of a list, if it has any, and its items. -/
def nested? : Value → Option (Option (List (Option String)) × List Value)
  | .list items => some (some (items.map (·.tag)), items.map (·.item))
  | .sequence items => some (none, items)
  | .tuple items => some (none, items)
  | _ => none

/-- Data: values without parts, vectors of them, and lists nested to any depth. Vectors with one
number are one vector, so `heap` gives the elements of each. -/
inductive IsData (heap : Nat → Elements Value) : Value → Prop where
  | atom {v : Value} (h : v.IsKeyed) : IsData heap v
  | vec {v : Vec Value} (helements : ∀ x ∈ v.elements.items, x.IsKeyed)
      (hheap : v.id ≠ 0 → heap v.id = v.elements) : IsData heap (.vec v)
  | nested {v : Value} {names : Option (List (Option String))} {items : List Value}
      (h : v.nested? = some (names, items)) (hitems : ∀ x ∈ items, IsData heap x) : IsData heap v

variable {heap : Nat → Elements Value} {a b v : Value} {as bs items : List Value}
  {names names' : Option (List (Option String))}

/-! ## Lists and values without parts -/

theorem identicalTagged_eq (items : List (Tagged Value)) (bs : List Value) :
    identicalTagged items bs = identicalItems (items.map (·.item)) bs := by
  induction items generalizing bs with
  | nil => rfl
  | cons t items ih =>
      obtain ⟨tag, x⟩ := t
      cases bs with
      | nil => rfl
      | cons y bs => simp only [List.map_cons, identicalTagged, identicalItems, ih]

/-- Two lists are compared item by item if their names are the same. -/
theorem identical_of_nested (ha : a.nested? = some (names, as)) (hb : b.nested? = some (names', bs)) :
    identical a b =
      if as.length = bs.length ∧ names = names' then identicalItems as bs else .ok false := by
  cases a with
  | list items =>
      cases ha
      cases b with
      | list items' =>
          cases hb
          simp [identical, identicalTagged_eq]
      | sequence | tuple =>
          cases hb
          exact (if_neg fun h => nomatch h.2).symm
      | _ => cases hb
  | sequence items | tuple items =>
      cases ha
      cases b with
      | list items' =>
          cases hb
          exact (if_neg fun h => nomatch h.2).symm
      | sequence | tuple =>
          cases hb
          simp [identical]
      | _ => cases hb
  | _ => cases ha

/-- A list is not identical to a value without parts. -/
theorem identical_nested_atom (ha : a.nested? = some (names, as)) (hb : b.IsKeyed) :
    identical a b = .ok false ∧ identical b a = .ok false := by
  cases hb.scalar with
  | null | bool | int | num | str =>
      cases a with
      | list | sequence | tuple => exact ⟨rfl, rfl⟩
      | _ => cases ha

/-- Items are identical if they are pairwise. -/
theorem identicalItems_iff (h : as.length = bs.length) :
    identicalItems as bs = .ok true ↔ List.Forall₂ (fun x y => identical x y = .ok true) as bs := by
  induction as generalizing bs with
  | nil =>
      cases bs with
      | nil => exact ⟨fun _ => .nil, fun _ => rfl⟩
      | cons => cases h
  | cons x as ih =>
      cases bs with
      | nil => cases h
      | cons y bs =>
          rw [List.forall₂_cons, ← ih (Nat.succ.inj h), identicalItems]
          cases identical x y with
          | error e => exact ⟨nofun, fun h => nomatch h.1⟩
          | ok equal => cases equal <;> simp [bind, Except.bind]

theorem identicalItems_comm (h : ∀ x ∈ as, ∀ y ∈ bs, identical x y = identical y x) :
    identicalItems as bs = identicalItems bs as := by
  induction as generalizing bs with
  | nil => cases bs <;> rfl
  | cons x as ih =>
      cases bs with
      | nil => rfl
      | cons y bs =>
          rw [identicalItems, identicalItems, h x (List.mem_cons_self ..) y (List.mem_cons_self ..),
            ih fun z hz w hw => h z (List.mem_cons_of_mem x hz) w (List.mem_cons_of_mem y hw)]

theorem identical_lists_iff (ha : a.nested? = some (names, as)) (hb : b.nested? = some (names', bs)) :
    identical a b = .ok true ↔
      names = names' ∧ List.Forall₂ (fun x y => identical x y = .ok true) as bs := by
  rw [identical_of_nested ha hb]
  split
  next h => rw [identicalItems_iff h.1, and_iff_right h.2]
  next h => exact ⟨nofun, fun h' => absurd ⟨h'.2.length_eq, h'.1⟩ h⟩

/-! ## Rows -/

/-- A value whose elements can be compared with those of a vector: a vector, or a list of values
without parts. -/
def IsRow (v : Value) : Prop :=
  v.isVector = true ∨ ∃ names items, v.nested? = some (names, items) ∧ ∀ x ∈ items, x.IsKeyed

/-- What the elements of a row are compared by. -/
def rowKeys (v : Value) : List (Option Key) := v.operandElements.items.map key?

theorem operandElements_of_nested (h : v.nested? = some (names, items)) :
    v.operandElements = listElements items := by
  cases v with
  | list | sequence | tuple =>
      cases h
      rfl
  | _ => cases h

theorem itemShapes_eq (items : List Value) : itemShapes items = items.map shape? := by
  induction items with
  | nil => rfl
  | cons x items ih => rw [itemShapes, ih, List.map_cons]

theorem taggedShapes_eq (items : List (Tagged Value)) :
    taggedShapes items = (items.map (·.item)).map shape? := by
  induction items with
  | nil => rfl
  | cons t items ih => rw [taggedShapes, ih, List.map_cons, List.map_cons]

theorem shape?_of_nested (h : v.nested? = some (names, items)) :
    v.shape? = (commonShape (items.map shape?)).map (items.length :: ·) := by
  cases v with
  | list =>
      cases h
      rw [shape?, taggedShapes_eq, List.length_map]
  | sequence | tuple =>
      cases h
      rw [shape?, itemShapes_eq]
  | _ => cases h

/-- A value without parts has no items and no dimensions. -/
theorem IsKeyed.flat (h : v.IsKeyed) :
    v.nested? = none ∧ v.isVector = false ∧ v.shape? = some [] := by
  cases h.scalar with
  | null | bool | int | num | str => exact ⟨rfl, rfl, rfl⟩

theorem isVector_of_nested (h : v.nested? = some (names, items)) : v.isVector = false := by
  cases v with
  | list | sequence | tuple => rfl
  | _ => cases h

theorem commonShape_of_keyed (h : ∀ x ∈ items, x.IsKeyed) :
    commonShape (items.map shape?) = some [] := by
  have hshape : items.map shape? = items.map fun _ => some [] :=
    List.map_congr_left fun x hx => (h x hx).flat.2.2
  rw [hshape]
  cases items with
  | nil => rfl
  | cons x items =>
      refine if_pos ?_
      simp

theorem mem_of_commonShape {shapes : List (Option (List Nat))} {shape : List Nat}
    (h : commonShape shapes = some shape) {s : Option (List Nat)} (hs : s ∈ shapes) :
    s = some shape := by
  cases shapes with
  | nil => cases hs
  | cons first rest =>
      rw [commonShape] at h
      split at h
      next hall =>
        cases hs with
        | head => exact h
        | tail _ hs => exact (of_decide_eq_true (List.all_eq_true.mp hall s hs)).trans h
      next => cases h

/-- Data without dimensions have no parts. -/
theorem IsData.keyed_of_shape (h : IsData heap v) (hshape : v.shape? = some []) : v.IsKeyed := by
  cases h with
  | atom h => exact h
  | vec => cases hshape
  | nested h =>
      rw [shape?_of_nested h] at hshape
      obtain ⟨shape, -, hcons⟩ := Option.map_eq_some_iff.mp hshape
      cases hcons

/-- Data of one dimension are rows. -/
theorem IsData.isRow_of_shape (h : IsData heap v) {n : Nat} (hshape : v.shape? = some [n]) :
    v.IsRow := by
  cases h with
  | atom h =>
      rw [h.flat.2.2] at hshape
      cases hshape
  | vec => exact .inl rfl
  | nested h hitems =>
      rw [shape?_of_nested h] at hshape
      obtain ⟨shape, hcommon, hcons⟩ := Option.map_eq_some_iff.mp hshape
      cases hcons
      exact .inr ⟨_, _, h, fun x hx =>
        (hitems x hx).keyed_of_shape (mem_of_commonShape hcommon (List.mem_map_of_mem hx))⟩

theorem IsRow.shape (h : v.IsRow) : v.shape? = some [v.rowKeys.length] := by
  rcases h with h | ⟨names, items, hv, hitems⟩
  · cases v with
    | vec v => simp [shape?, rowKeys, operandElements, Elements.length_items]
    | _ => cases h
  · rw [shape?_of_nested hv, commonShape_of_keyed hitems, rowKeys, operandElements_of_nested hv,
      items_listElements hitems]
    simp

theorem IsRow.arrayShape (h : v.IsRow) : v.arrayShape = .ok [v.rowKeys.length] := by
  rw [Value.arrayShape, h.shape]
  rfl

/-- The elements of a row of data have no parts. -/
theorem IsRow.isSimple (h : v.IsRow) (hv : IsData heap v) :
    ∀ x ∈ v.operandElements.items, x.IsSimple := by
  rcases h with h | ⟨names, items, hnested, hitems⟩
  · cases hv with
    | vec helements => exact fun x hx => (helements x hx).isSimple
    | atom h' => exact absurd h (by rw [h'.flat.2.1]; exact Bool.false_ne_true)
    | nested h' => exact absurd h (by rw [isVector_of_nested h']; exact Bool.false_ne_true)
  · rw [operandElements_of_nested hnested]
    exact isSimple_listElements hitems

/-! ## Vectors -/

theorem IsData.of_vec {v : Vec Value} (h : IsData heap (.vec v)) :
    (∀ x ∈ v.elements.items, x.IsKeyed) ∧ (v.id ≠ 0 → heap v.id = v.elements) := by
  cases h with
  | atom h => cases h.flat.2.1
  | vec helements hheap => exact ⟨helements, hheap⟩
  | nested h => cases h

theorem exists_vec (h : v.isVector = true) : ∃ w, v = .vec w := by
  cases v with
  | vec w => exact ⟨w, rfl⟩
  | _ => cases h

theorem vectorIdentical_self {v w : Vec Value} (hv : ∀ x ∈ v.elements.items, x.IsKeyed)
    (h : v.elements = w.elements) : vectorIdentical (.vec v) (.vec w) = .ok true := by
  obtain ⟨equal, hequal, hall⟩ := elementsEqual_self hv
  have hshape : (Value.vec v).arrayShape = (Value.vec w).arrayShape := by
    simp only [arrayShape, shape?, h]
  simp only [vectorIdentical, hshape, operandElements, ← h, hequal]
  rw [IsRow.arrayShape (v := .vec w) (.inl rfl)]
  simp [bind, Except.bind, hall]

/-- Beside a vector, data are compared as vectors: vectors with one number hold the same. -/
theorem identical_vector (ha : IsData heap a) (hb : IsData heap b)
    (hvec : a.isVector = true ∨ b.isVector = true) : identical a b = vectorIdentical a b := by
  cases a with
  | vec v =>
      cases b with
      | vec w =>
          rw [identical]
          split
          next h =>
            have hid : heap v.id = w.elements := h.1 ▸ hb.of_vec.2 (h.1 ▸ h.2)
            exact (vectorIdentical_self ha.of_vec.1 ((ha.of_vec.2 h.2).symm.trans hid)).symm
          next => rfl
      | _ => rfl
  | _ =>
      cases b with
      | vec w => rfl
      | _ => cases hvec <;> contradiction

theorem arrayShape_eq_error {e : HostFault} (h : v.arrayShape = .error e) : e = .value "" := by
  unfold arrayShape at h
  split at h
  · split at h <;> cases h
    rfl
  · cases h
    rfl

/-- Data that have the shape of a vector are rows. -/
theorem IsData.isRow_of_arrayShape (ha : IsData heap a) (hb : b.isVector = true)
    (h : a.arrayShape = b.arrayShape) : a.IsRow := by
  rw [IsRow.arrayShape (.inl hb), Value.arrayShape] at h
  split at h
  next hshape =>
    split at h <;> cases h
    exact ha.isRow_of_shape hshape
  next => cases h

/-- If one of two data is a vector and both have one shape, both are rows. -/
theorem isRow_of_shapes (ha : IsData heap a) (hb : IsData heap b)
    (hvec : a.isVector = true ∨ b.isVector = true) (h : a.arrayShape = b.arrayShape) :
    a.IsRow ∧ b.IsRow := by
  rcases hvec with hvec | hvec
  · exact ⟨.inl hvec, hb.isRow_of_arrayShape hvec h.symm⟩
  · exact ⟨ha.isRow_of_arrayShape hvec h, .inl hvec⟩

theorem arrayShape_of_vectorIdentical (h : vectorIdentical a b = .ok true) :
    a.arrayShape = b.arrayShape := by
  unfold vectorIdentical at h
  cases hshape : a.arrayShape with
  | error => rw [hshape] at h; cases h
  | ok shape =>
      cases hshape' : b.arrayShape with
      | error => rw [hshape, hshape'] at h; cases h
      | ok shape' =>
          rw [hshape, hshape'] at h
          simp only [bind, Except.bind] at h
          split at h
          next heq => rw [heq]
          next => cases h

theorem vectorIdentical_comm (ha : IsData heap a) (hb : IsData heap b)
    (hvec : a.isVector = true ∨ b.isVector = true) : vectorIdentical a b = vectorIdentical b a := by
  unfold vectorIdentical
  cases hshape : a.arrayShape with
  | error e =>
      cases hshape' : b.arrayShape with
      | error e' =>
          rw [arrayShape_eq_error hshape, arrayShape_eq_error hshape']
          rfl
      | ok => rfl
  | ok shape =>
      cases hshape' : b.arrayShape with
      | error => rfl
      | ok shape' =>
          simp only [bind, Except.bind, eq_comm (a := shape')]
          split
          next h =>
            obtain ⟨harow, hbrow⟩ := isRow_of_shapes ha hb hvec (by rw [hshape, hshape', h])
            rw [elementsEqual_comm (harow.isSimple ha) (hbrow.isSimple hb)]
          next => rfl

/-! ## Integers beside numbers -/

/-- The elements of a vector or the items of a list. -/
def parts : Value → List Value
  | .vec v => v.elements.items
  | .list items => items.map (·.item)
  | .sequence items => items
  | .tuple items => items
  | _ => []

/-- Whether binary64 has room for the integers of two rows, if these are compared as numbers. -/
def Roomy (a b : Value) : Prop :=
  a.operandElements.type.promote b.operandElements.type = .float →
    (∀ x ∈ a.parts, x.fits = true) ∧ ∀ x ∈ b.parts, x.fits = true

theorem Roomy.symm (h : Roomy a b) : Roomy b a :=
  fun hfloat => (h ((ElementType.promote_comm ..).trans hfloat)).symm

theorem parts_of_nested (h : v.nested? = some (names, items)) : v.parts = items := by
  cases v with
  | list | sequence | tuple =>
      cases h
      rfl
  | _ => cases h

theorem IsRow.fits (h : v.IsRow) (hfits : ∀ x ∈ v.parts, x.fits = true) :
    ∀ x ∈ v.operandElements.items, x.fits = true := by
  rcases h with h | ⟨names, items, hv, hitems⟩
  · obtain ⟨w, rfl⟩ := exists_vec h
    exact hfits
  · rw [operandElements_of_nested hv]
    rw [parts_of_nested hv] at hfits
    exact fits_listElements hitems hfits

theorem vectorIdentical_iff {w : Vec Value} (ha : IsData heap (.vec w)) (hb : IsData heap b)
    (hroomy : Roomy (.vec w) b) :
    vectorIdentical (.vec w) b = .ok true ↔ b.IsRow ∧ (Value.vec w).rowKeys = b.rowKeys := by
  have hrow : (Value.vec w).IsRow := .inl rfl
  by_cases hbrow : b.IsRow
  · rw [and_iff_right hbrow]
    unfold vectorIdentical
    rw [hrow.arrayShape, hbrow.arrayShape]
    by_cases hlength : (Value.vec w).rowKeys.length = b.rowKeys.length
    · have hitems : (Value.vec w).operandElements.items.length = b.operandElements.items.length := by
        simpa [rowKeys] using hlength
      obtain ⟨equal, hequal, hiff⟩ := elementsEqual_iff ha.of_vec.1 (hbrow.isSimple hb) hitems
        (fun h => hrow.fits (hroomy h).1) (fun h => hbrow.fits (hroomy h).2)
      have hequal : elementsEqual (Value.vec w).operandElements b.operandElements = .ok equal := hequal
      simp only [bind, Except.bind, hlength, if_true, hequal, Except.ok.injEq]
      exact hiff
    · have hshape : [(Value.vec w).rowKeys.length] ≠ [b.rowKeys.length] :=
        fun h => hlength (List.cons.inj h).1
      simp only [bind, Except.bind, if_neg hshape]
      exact ⟨nofun, fun h => absurd (congrArg List.length h) hlength⟩
  · exact ⟨fun h => absurd (hb.isRow_of_arrayShape rfl (arrayShape_of_vectorIdentical h).symm) hbrow,
      fun h => absurd h.1 hbrow⟩

/-- A vector and other data are identical if both are rows that are compared by the same. -/
theorem identical_rows_iff (ha : IsData heap a) (hb : IsData heap b)
    (hvec : a.isVector = true ∨ b.isVector = true) (hroomy : Roomy a b) :
    identical a b = .ok true ↔ a.IsRow ∧ b.IsRow ∧ a.rowKeys = b.rowKeys := by
  rw [identical_vector ha hb hvec]
  rcases hvec with hvec | hvec
  · obtain ⟨w, rfl⟩ := exists_vec hvec
    rw [vectorIdentical_iff ha hb hroomy]
    exact (and_iff_right (.inl rfl)).symm
  · obtain ⟨w, rfl⟩ := exists_vec hvec
    rw [vectorIdentical_comm ha hb (.inr hvec), vectorIdentical_iff hb ha hroomy.symm,
      and_iff_right (a := (Value.vec w).IsRow) (.inl rfl), eq_comm]

end Value

end Quasi
