import Mathlib.Data.List.Basic
import Quasi.Proofs.Hidden.Mention

/-!
# What is computed from values

Looking something up, taking apart, putting together, converting elements and operating on values
mention nothing that the operands do not mention.
-/

namespace Quasi

variable {hidden : PromiseId → Prop} {α β : Type} [Mention α] [Mention β]

/-! ## Lists -/

section Lists

variable {xs ys : List α}

theorem Conceals.mem [h : Conceals hidden xs] {x : α} (hx : x ∈ xs) : Conceals hidden x :=
  conceals_list.mp h x hx

theorem Conceals.of_subset [h : Conceals hidden xs] (hsub : ys ⊆ xs) : Conceals hidden ys :=
  conceals_list.mpr fun _ hx => h.mem (hsub hx)

theorem Conceals.of_some {o : Option α} [h : Conceals hidden o] {x : α} (ho : o = some x) :
    Conceals hidden x := conceals_some.mp (ho ▸ h)

theorem conceals_option {o : Option α} (h : ∀ x, o = some x → Conceals hidden x) :
    Conceals hidden o := by
  cases o with
  | none => infer_instance
  | some x => exact conceals_some.mpr (h x rfl)

theorem conceals_map {f : α → β} [hxs : Conceals hidden xs]
    (h : ∀ x, Conceals hidden x → Conceals hidden (f x)) : Conceals hidden (xs.map f) := by
  refine conceals_list.mpr fun y hy => ?_
  obtain ⟨x, hx, rfl⟩ := List.mem_map.mp hy
  exact h x (hxs.mem hx)

theorem conceals_filterMap {f : α → Option β} [hxs : Conceals hidden xs]
    (h : ∀ x, Conceals hidden x → Conceals hidden (f x)) : Conceals hidden (xs.filterMap f) := by
  refine conceals_list.mpr fun y hy => ?_
  obtain ⟨x, hx, hy⟩ := List.mem_filterMap.mp hy
  have hf := h x (hxs.mem hx)
  exact .of_some hy

theorem conceals_flatMap {f : α → List β} [hxs : Conceals hidden xs]
    (h : ∀ x, Conceals hidden x → Conceals hidden (f x)) : Conceals hidden (xs.flatMap f) := by
  refine conceals_list.mpr fun y hy => ?_
  obtain ⟨x, hx, hy⟩ := List.mem_flatMap.mp hy
  have hf := h x (hxs.mem hx)
  exact hf.mem hy

instance [Conceals hidden xs] (p : α → Bool) : Conceals hidden (xs.filter p) :=
  .of_subset (List.filter_subset_self xs)

instance [Conceals hidden xs] (n : Nat) : Conceals hidden (xs.drop n) :=
  .of_subset (List.drop_subset n xs)

instance [Conceals hidden xs] : Conceals hidden xs.reverse :=
  .of_subset (List.reverse_subset.mpr (List.Subset.refl xs))

instance [hxs : Conceals hidden xs] (i : Nat) : Conceals hidden xs[i]? :=
  conceals_option fun _ h => hxs.mem (List.mem_of_getElem? h)

instance {o : Option α} {d : α} [ho : Conceals hidden o] [hd : Conceals hidden d] :
    Conceals hidden (o.getD d) := by
  cases o with
  | none => exact hd
  | some x => exact conceals_some.mp ho

instance {o o' : Option α} [ho : Conceals hidden o] [ho' : Conceals hidden o'] :
    Conceals hidden (o <|> o') := by
  cases o with
  | none => exact ho'
  | some x => exact ho

instance (c : Prop) [Decidable c] {a b : α} [Conceals hidden a] [Conceals hidden b] :
    Conceals hidden (if c then a else b) := by
  split <;> infer_instance

instance {d : α} [Conceals hidden xs] [Conceals hidden d] (i : Nat) :
    Conceals hidden (xs.getD i d) := by
  rw [List.getD_eq_getElem?_getD]
  infer_instance

instance {d : α} [hxs : Conceals hidden xs] [hd : Conceals hidden d] :
    Conceals hidden (xs.headD d) := by
  cases xs with
  | nil => exact hd
  | cons x xs => exact (conceals_cons.mp hxs).1

end Lists

/-! ## Bindings and tagged items -/

section Bindings

variable {bindings : Bindings α} {items : List (Tagged α)}

instance [h : Conceals hidden bindings] (name : String) :
    Conceals hidden (bindings.get? name) := by
  revert h
  induction bindings with
  | nil =>
      intro _
      exact inferInstanceAs (Conceals hidden none)
  | cons binding rest ih =>
      intro h
      obtain ⟨hfirst, hrest⟩ := conceals_cons.mp h
      obtain ⟨key, item⟩ := binding
      have hitem := (conceals_pair.mp hfirst).2
      rw [Bindings.get?]
      split <;> infer_instance

instance [h : Conceals hidden bindings] (name : String) {item : α} [Conceals hidden item] :
    Conceals hidden (bindings.set name item) := by
  revert h
  induction bindings with
  | nil =>
      intro _
      exact inferInstanceAs (Conceals hidden [(name, item)])
  | cons binding rest ih =>
      intro h
      obtain ⟨hfirst, hrest⟩ := conceals_cons.mp h
      obtain ⟨key, old⟩ := binding
      rw [Bindings.set]
      split <;> infer_instance

instance [Conceals hidden bindings] (name : String) : Conceals hidden (bindings.erase name) := by
  unfold Bindings.erase
  infer_instance

theorem conceals_foldl_set {pairs : List (String × α)} (h : Conceals hidden pairs)
    {bindings : Bindings α} (hbindings : Conceals hidden bindings) :
    Conceals hidden (pairs.foldl (fun bindings pair => Bindings.set bindings pair.1 pair.2)
      bindings) := by
  induction pairs generalizing bindings with
  | nil => exact hbindings
  | cons pair rest ih =>
      obtain ⟨hfirst, hrest⟩ := conceals_cons.mp h
      have hitem : Conceals hidden pair.2 := (conceals_pair.mp hfirst).2
      exact ih hrest inferInstance

instance [h : Conceals hidden bindings] : Conceals hidden (Bindings.ofPairs bindings) :=
  conceals_foldl_set h inferInstance

theorem conceals_item {t : Tagged α} : Conceals hidden t.item ↔ Conceals hidden t :=
  conceals_tagged.symm

instance [Conceals hidden items] : Conceals hidden (Tagged.toBindings items) := by
  have hpairs : Conceals hidden (items.filterMap fun t => t.tag.map (·, t.item)) :=
    conceals_filterMap fun t ht => by
      have hitem := conceals_item.mpr ht
      cases t.tag with
      | none => exact inferInstanceAs (Conceals hidden none)
      | some tag => exact inferInstanceAs (Conceals hidden (some (tag, t.item)))
  unfold Tagged.toBindings
  infer_instance

instance [h : Conceals hidden items] (name : String) : Conceals hidden (Tagged.get? items name) := by
  revert h
  induction items with
  | nil =>
      intro _
      exact inferInstanceAs (Conceals hidden none)
  | cons t rest ih =>
      intro h
      obtain ⟨hfirst, hrest⟩ := conceals_cons.mp h
      have hitem := conceals_item.mpr hfirst
      rw [Tagged.get?]
      split <;> infer_instance

instance {xs : List α} [Conceals hidden xs] : Conceals hidden (xs.map Tagged.bare) :=
  conceals_map fun _ hx => conceals_tagged.mpr hx

instance [Conceals hidden items] : Conceals hidden (items.map (·.item)) :=
  conceals_map fun _ ht => conceals_item.mpr ht

instance [Conceals hidden bindings] : Conceals hidden (bindings.map fun (name, v) =>
    (⟨some name, v⟩ : Tagged α)) :=
  conceals_map fun _ hpair => conceals_tagged.mpr (conceals_pair.mp hpair).2

end Bindings

/-! ## Computations that may fail -/

section Except

variable {ε γ : Type} [Mute ε]

theorem conceals_bind {a : Except ε α} {f : α → Except ε β} [ha : Conceals hidden a]
    (hf : ∀ v, Conceals hidden v → Conceals hidden (f v)) : Conceals hidden (a >>= f) := by
  cases a with
  | error x => exact (inferInstance : Conceals hidden (Except.error x : Except ε β))
  | ok v => exact hf v (conceals_ok.mp ha)

theorem conceals_exceptMap {a : Except ε α} {f : α → β} [ha : Conceals hidden a]
    (hf : ∀ v, Conceals hidden v → Conceals hidden (f v)) : Conceals hidden (a.map f) := by
  cases a with
  | error x => exact (inferInstance : Conceals hidden (Except.error x : Except ε β))
  | ok v => exact conceals_ok.mpr (hf v (conceals_ok.mp ha))

/-- What any outcome is made to conceal is concealed. -/
instance {a : Except ε γ} {f : γ → β} [hf : ∀ v, Conceals hidden (f v)] :
    Conceals hidden (a.map f) := by
  cases a with
  | error x => exact (inferInstance : Conceals hidden (Except.error x : Except ε β))
  | ok v => exact conceals_ok.mpr (hf v)

instance {a : Except ε γ} {f : γ → Except ε β} [hf : ∀ v, Conceals hidden (f v)] :
    Conceals hidden (a >>= f) := by
  cases a with
  | error x => exact (inferInstance : Conceals hidden (Except.error x : Except ε β))
  | ok v => exact hf v

theorem conceals_mapM {f : γ → Except ε β} {xs : List γ}
    (hf : ∀ x ∈ xs, Conceals hidden (f x)) : Conceals hidden (xs.mapM f) := by
  induction xs with
  | nil => exact (inferInstance : Conceals hidden (Except.ok [] : Except ε (List β)))
  | cons x xs ih =>
      obtain ⟨hx, hxs⟩ := List.forall_mem_cons.mp hf
      have hrest := ih hxs
      rw [List.mapM_cons]
      refine conceals_bind fun y _ => conceals_bind fun ys _ => ?_
      exact (inferInstance : Conceals hidden (Except.ok (y :: ys) : Except ε (List β)))

theorem conceals_foldlM {f : β → α → Except ε β} {xs : List α}
    (hf : ∀ b x, Conceals hidden b → Conceals hidden x → Conceals hidden (f b x)) {b : β}
    (hxs : Conceals hidden xs) (hb : Conceals hidden b) : Conceals hidden (xs.foldlM f b) := by
  induction xs generalizing b with
  | nil => exact conceals_ok.mpr hb
  | cons x xs ih =>
      obtain ⟨hx, hxs⟩ := conceals_cons.mp hxs
      have hfirst := hf b x hb hx
      rw [List.foldlM_cons]
      exact conceals_bind fun _ hnext => ih hxs hnext

end Except

/-! ## Vectors -/

section Vectors

variable {elements : Elements Value} {v : Value} {xs : List Value}

theorem conceals_elements : Conceals hidden elements ↔ Conceals hidden elements.items :=
  ⟨fun h => ⟨h.out⟩, fun h => ⟨h.out⟩⟩

theorem conceals_vector {v : Vec Value} : Conceals hidden v ↔ Conceals hidden v.elements :=
  ⟨fun h => ⟨h.out⟩, fun h => ⟨h.out⟩⟩

instance [h : Conceals hidden elements] (id : Nat) : Conceals hidden (⟨id, elements⟩ : Vec Value) :=
  conceals_vector.mpr h

instance [h : Conceals hidden elements] : Conceals hidden elements.items :=
  conceals_elements.mp h

theorem conceals_atom (h : v.isAtom = true) : Conceals hidden v := by
  cases v with
  | bool | int | num | nan | str => infer_instance
  | _ => cases h

/-- Elements other than arbitrary values mention nothing. -/
theorem conceals_of_type (h : decide (elements.type = .object) = false) :
    Conceals hidden elements :=
  conceals_elements.mpr (conceals_list.mpr fun x hx => conceals_atom (isAtom_item h x hx))

instance (xs : List Bool) : Conceals hidden (Elements.bools xs : Elements Value) :=
  conceals_of_type rfl
instance (xs : List Int) : Conceals hidden (Elements.ints xs : Elements Value) :=
  conceals_of_type rfl
instance (xs : List Nat) : Conceals hidden (Elements.words xs : Elements Value) :=
  conceals_of_type rfl
instance (xs : List Binary64) : Conceals hidden (Elements.floats xs : Elements Value) :=
  conceals_of_type rfl
instance (width : Nat) (xs : List String) :
    Conceals hidden (Elements.texts width xs : Elements Value) := conceals_of_type rfl
instance [h : Conceals hidden xs] : Conceals hidden (Elements.objects xs) :=
  conceals_elements.mpr h

instance (x : Binary64) : Conceals hidden (Value.ofNumber x) := by
  unfold Value.ofNumber
  split <;> infer_instance

instance [Conceals hidden xs] (type : ElementType) :
    Conceals hidden (Elements.ofItems type xs) := by
  cases type <;> (unfold Elements.ofItems; infer_instance)

instance [h : Conceals hidden v] : Conceals hidden (Elements.single v) := by
  unfold Elements.single
  split
  case h_2 => split <;> infer_instance
  case h_6 v => exact conceals_vector.mp (conceals_vec.mp h)
  all_goals infer_instance

instance {parts : List (Elements Value)} [h : Conceals hidden parts] :
    Conceals hidden (Elements.concat parts) := by
  cases parts with
  | nil => unfold Elements.concat; infer_instance
  | cons first rest =>
      have hitems : Conceals hidden ((first :: rest).flatMap Elements.items) :=
        conceals_flatMap fun _ he => conceals_elements.mp he
      unfold Elements.concat
      infer_instance

theorem conceals_singles [Conceals hidden xs] : Conceals hidden (xs.map Elements.single) :=
  conceals_map fun _ _ => inferInstance

instance [Conceals hidden xs] : Conceals hidden (Elements.ofList xs) := by
  have hparts : Conceals hidden (xs.map Elements.single) := conceals_singles
  unfold Elements.ofList
  infer_instance

instance [Conceals hidden elements] (type : ElementType) :
    Conceals hidden (elements.cast type) := by
  unfold Elements.cast
  split <;> infer_instance

instance [Conceals hidden xs] : Conceals hidden (Value.listElements xs) := by
  unfold Value.listElements
  split <;> infer_instance

instance [h : Conceals hidden v] : Conceals hidden v.operandElements := by
  unfold Value.operandElements
  split
  · exact conceals_vector.mp (conceals_vec.mp h)
  · have hitems := conceals_items.mp h
    infer_instance
  · have hitems := conceals_sequence.mp h
    infer_instance
  · have hitems := conceals_tuple.mp h
    infer_instance
  · infer_instance

end Vectors

/-! ## Operators -/

section Operators

variable {a b v : Value} {xs ys : List Value} (op : Operator)

instance (x : Number) : Conceals hidden x.toValue := by
  cases x <;> (unfold Number.toValue; infer_instance)

instance [h : Conceals hidden v] : Conceals hidden v.listItems? := by
  unfold Value.listItems?
  split
  · have hitems := conceals_items.mp h
    infer_instance
  · have hitems := conceals_sequence.mp h
    infer_instance
  · infer_instance

instance {xs : List α} [hxs : Conceals hidden xs] (count : Int) :
    Conceals hidden (Value.repeated count xs) := by
  unfold Value.repeated
  split
  · infer_instance
  · refine conceals_ok.mpr (conceals_list.mpr fun x hx => ?_)
    obtain ⟨ys, hys, hx⟩ := List.mem_flatten.mp hx
    rw [(List.mem_replicate.mp hys).2] at hx
    exact hxs.mem hx

instance [ha : Conceals hidden a] [hb : Conceals hidden b] : Conceals hidden (a.join b) := by
  unfold Value.join
  split
  · infer_instance
  · have hxs := conceals_tuple.mp ha
    have hys := conceals_tuple.mp hb
    infer_instance
  · split
    next xs ys hx hy =>
      have hxs : Conceals hidden xs := .of_some hx
      have hys : Conceals hidden ys := .of_some hy
      infer_instance
    next => infer_instance

instance [ha : Conceals hidden a] : Conceals hidden (a.repetition b) := by
  unfold Value.repetition
  split
  · exact conceals_bind fun _ _ => (inferInstance : Conceals hidden (Except.ok _ : Computed Value))
  · have hxs := conceals_tuple.mp ha
    exact conceals_bind fun _ _ => (inferInstance : Conceals hidden (Except.ok _ : Computed Value))
  · split
    next xs hx =>
      have hxs : Conceals hidden xs := .of_some hx
      exact conceals_bind fun _ _ =>
        (inferInstance : Conceals hidden (Except.ok _ : Computed Value))
    next => infer_instance
  · infer_instance

instance [Conceals hidden a] [Conceals hidden b] : Conceals hidden (Value.operatePlain op a b) := by
  unfold Value.operatePlain
  split
  · infer_instance
  · infer_instance
  · split
    · infer_instance
    · split
      · infer_instance
      · split
        · infer_instance
        · split <;> infer_instance
        · infer_instance

instance : Conceals hidden v.negatePlain := by
  unfold Value.negatePlain
  split <;> infer_instance

/-! ### Vectors -/

/-- The operands of a vector operation become elements of one type. -/
theorem conceals_unify [Conceals hidden a] [Conceals hidden b] :
    Conceals hidden (Elements.unify a b) := by
  unfold Elements.unify
  extract_lets us vs fits
  have hus : Conceals hidden us := inferInstanceAs (Conceals hidden a.operandElements)
  have hvs : Conceals hidden vs := inferInstanceAs (Conceals hidden b.operandElements)
  clear_value us vs fits
  split
  · split
    · split <;> infer_instance
    · split <;> infer_instance
    · split <;> infer_instance
    · split <;> infer_instance
    · infer_instance
  · split
    · split <;> infer_instance
    · split <;> infer_instance
    · split <;> infer_instance
    · split <;> infer_instance
    · infer_instance
  · split <;> infer_instance

instance {xs : List α} {ys : List β} [hxs : Conceals hidden xs] [hys : Conceals hidden ys] :
    Conceals hidden (Value.broadcast xs ys) := by
  unfold Value.broadcast
  split
  · refine conceals_ok.mpr (conceals_list.mpr fun p hp => ?_)
    obtain ⟨hx, hy⟩ := List.of_mem_zip hp
    exact conceals_pair.mpr ⟨hxs.mem hx, hys.mem hy⟩
  · split
    · have hx := (conceals_cons.mp hxs).1
      exact conceals_ok.mpr (conceals_map fun _ hy => conceals_pair.mpr ⟨hx, hy⟩)
    · have hy := (conceals_cons.mp hys).1
      exact conceals_ok.mpr (conceals_map fun _ hx => conceals_pair.mpr ⟨hx, hy⟩)
    · infer_instance

instance {a : Except HostFault α} [ha : Conceals hidden a] : Conceals hidden (liftHost a) := by
  cases a with
  | ok v => exact conceals_ok.mpr (conceals_ok.mp ha)
  | error x => exact conceals_error.mpr inferInstance

theorem conceals_zipAll {f : Value → Value → Computed Value} [Conceals hidden xs]
    [Conceals hidden ys]
    (hf : ∀ x y, Conceals hidden x → Conceals hidden y → Conceals hidden (f x y)) :
    Conceals hidden (Elements.zipAll f xs ys) := by
  unfold Elements.zipAll
  refine conceals_bind fun pairs hpairs => conceals_mapM fun p hp => ?_
  obtain ⟨hx, hy⟩ := conceals_pair.mp (hpairs.mem hp)
  exact hf p.1 p.2 hx hy

/-- Arithmetic on elements of one type mentions nothing but what arbitrary values do. -/
instance {us vs : Elements Value} [Conceals hidden us] [Conceals hidden vs] :
    Conceals hidden (Elements.arithmetic op us vs) := by
  have hints (is js : List Int) : Conceals hidden (Elements.arithmeticInts op is js) := by
    unfold Elements.arithmeticInts
    split <;> infer_instance
  unfold Elements.arithmetic
  split
  · split <;> infer_instance
  · infer_instance
  · unfold Elements.arithmeticWords
    split <;> infer_instance
  · unfold Elements.arithmeticFloats
    infer_instance
  · split <;> infer_instance
  · have hzip : Conceals hidden (Elements.zipAll (Value.operatePlain op) us.items vs.items) :=
      conceals_zipAll fun _ _ _ _ => inferInstance
    exact conceals_exceptMap fun _ _ => inferInstance

theorem conceals_operateVector [Conceals hidden a] [Conceals hidden b] :
    Conceals hidden (Value.operateVector op a b) := by
  unfold Value.operateVector
  split
  · infer_instance
  · infer_instance
  · split
    · extract_lets last
      have hlast (x : Unit) : Conceals hidden (last x) := by unfold last; infer_instance
      clear_value last
      split <;> infer_instance
    · have hunify : Conceals hidden (Elements.unify a b) := conceals_unify
      refine conceals_bind fun p hp => ?_
      obtain ⟨us, vs⟩ := p
      obtain ⟨hus, hvs⟩ := conceals_pair.mp hp
      exact conceals_bind fun _ _ => (inferInstance : Conceals hidden (Except.ok _ : Computed Value))

instance [Conceals hidden a] [Conceals hidden b] : Conceals hidden (Value.operate op a b) := by
  have hvector : Conceals hidden (Value.operateVector op a b) := conceals_operateVector op
  unfold Value.operate
  split <;> infer_instance

instance [h : Conceals hidden v] : Conceals hidden v.negate := by
  unfold Value.negate
  split
  case h_4 xs =>
    have hitems : Conceals hidden (xs.mapM Value.negatePlain) :=
      conceals_mapM fun _ _ => inferInstance
    exact conceals_bind fun _ _ => (inferInstance : Conceals hidden (Except.ok _ : Computed Value))
  all_goals infer_instance

instance (elements : Elements Value) : Conceals hidden (Value.notElements elements) := by
  unfold Value.notElements
  split <;> infer_instance

end Operators

/-! ### Numbers -/

section Numbers

variable {elements : Elements Value} [Conceals hidden elements]

instance : Conceals hidden (Elements.sum elements) := by
  unfold Elements.sum
  split
  case h_7 x xs h =>
    obtain ⟨hx, hxs⟩ := conceals_cons.mp (conceals_elements.mp h)
    refine conceals_foldlM (fun total x htotal hx => ?_) hxs hx
    have hadd : Conceals hidden (Value.operatePlain .add total x) := inferInstance
    split
    next v hv => exact conceals_ok.mpr (conceals_ok.mp (hv ▸ hadd))
    next => infer_instance
    next => infer_instance
  all_goals infer_instance

instance : Conceals hidden (Elements.mean elements) := by
  unfold Elements.mean
  extract_lets count share
  have hshare (total : Value) (htotal : Conceals hidden total) : Conceals hidden (share total) := by
    have hdiv : Conceals hidden (Value.operatePlain .div total count) := by
      unfold count
      infer_instance
    unfold share
    split
    next v hv => exact conceals_ok.mpr (conceals_ok.mp (hv ▸ hdiv))
    next => infer_instance
    next => infer_instance
  clear_value share
  split
  · infer_instance
  · exact conceals_bind hshare
  · infer_instance

omit [Conceals hidden elements] in
instance : Conceals hidden (Elements.sqrt elements) := by
  unfold Elements.sqrt
  split <;> infer_instance

end Numbers

end Quasi
