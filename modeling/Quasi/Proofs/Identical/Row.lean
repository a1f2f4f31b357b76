import Mathlib.Data.List.Zip
import Quasi.Proofs.Identical.Element

/-!
# Rows of elements

A list beside a vector is read as a vector of its items, and before two vectors are compared their
elements become of one type. Elements keep what they are compared by when they become of a type that
has room for them, unless they become texts or binary64 has no room for one of the integers. So two
vectors are equal if they hold the same, place by place.
-/

namespace Quasi

/-! ## Room -/

namespace ElementType

variable {t u v : ElementType}

theorem promote_comm (t u : ElementType) : promote t u = promote u t := by
  cases t <;> cases u <;> simp [promote, textWidth, Nat.max_comm]

/-- A type that two are promoted to has room for the first, -/
theorem room_left (t u : ElementType) : t.promote (t.promote u) = t.promote u := by
  cases t <;> cases u <;> simp [promote, textWidth]

/-- and for the second. -/
theorem room_right (t u : ElementType) : u.promote (t.promote u) = t.promote u := by
  rw [promote_comm t u, room_left]

theorem room_trans (htu : t.promote u = u) (v : ElementType) :
    t.promote (u.promote v) = u.promote v := by
  cases t <;> cases u <;> simp only [promote, textWidth, reduceCtorEq, text.injEq] at htu
  -- The pairs that remain have room, so only the widths of texts are left to compare.
  all_goals cases v <;> first | rfl | (simp only [promote, textWidth, text.injEq]; omega)

theorem room_foldl {α : Type} (f : α → ElementType) (l : List α) (htu : t.promote u = u) :
    t.promote (l.foldl (fun u x => u.promote (f x)) u) = l.foldl (fun u x => u.promote (f x)) u := by
  induction l generalizing u with
  | nil => exact htu
  | cons x l ih => exact ih (room_trans htu _)

/-- The type has room for each of those it was made from. -/
theorem room_of_mem {α : Type} (f : α → ElementType) {l : List α} {x : α} (hx : x ∈ l)
    (u : ElementType) : (f x).promote (l.foldl (fun u x => u.promote (f x)) u) =
      l.foldl (fun u x => u.promote (f x)) u := by
  induction l generalizing u with
  | nil => cases hx
  | cons y l ih =>
      cases hx with
      | head => exact room_foldl f l (room_right u (f x))
      | tail _ hx => exact ih hx _

end ElementType

/-! ## Elements of another type -/

namespace Value

/-- Whether binary64 has room for a value, if it is an integer. -/
def fits : Value → Bool
  | .int i => Number.hasInt i
  | _ => true

theorem fits_ofNumber (x : Binary64) : (ofNumber x).fits = true := by
  unfold ofNumber
  split <;> rfl

theorem isSimple_ofNumber (x : Binary64) : (ofNumber x).IsSimple := by
  unfold ofNumber
  split <;> exact .number rfl

theorem ofNumber_of_not_isNaN {x : Binary64} (h : x.isNaN = false) : ofNumber x = .num x :=
  if_neg (by rw [h]; exact Bool.false_ne_true)

end Value

namespace Elements

variable {t : ElementType} {x : Value}

/-- The element of a type that a value becomes. -/
def convert (t : ElementType) (x : Value) : Value :=
  match t with
  | .bool => .bool (intOf x ≠ 0)
  | .int => .int (intOf x)
  | .word => .int (wrapUnsigned (intOf x))
  | .float => .ofNumber (floatOf x)
  | .text _ => .str (textOf x)
  | .object => x

theorem items_ofItems (t : ElementType) (xs : List Value) :
    (ofItems t xs).items = xs.map (convert t) := by
  cases t with
  | object => exact (List.map_id xs).symm
  | _ => simp [ofItems, items, convert]

theorem length_items (xs : Elements Value) : xs.items.length = xs.length := by
  cases xs <;> simp [items, length]

theorem type_ofItems (t : ElementType) (xs : List Value) : (ofItems t xs).type = t := by
  cases t <;> rfl

theorem isSimple_convert (t : ElementType) (h : x.IsSimple) : (convert t x).IsSimple := by
  cases t with
  | bool | int | word => exact .number rfl
  | float => exact Value.isSimple_ofNumber _
  | text => exact .text _
  | object => exact h

/-- An integer becomes the number that it is, if there is one. -/
theorem key?_convert_float {i : Int} (h : Number.hasInt i = true) :
    (convert .float (.int i)).key? = (Value.int i).key? := by
  change (Value.ofNumber (Binary64.ofRatio (i < 0) i.natAbs 1)).key? = _
  rw [Value.ofNumber_of_not_isNaN (Binary64.isNaN_ofRatio ..), Value.key?_num (Binary64.isNaN_ofRatio ..),
    Number.exact_ofRatio h]
  rfl

theorem key?_convert_bool (b : Bool) (ht : ∀ w, t ≠ .text w) :
    (convert t (.bool b)).key? = (Value.bool b).key? := by
  cases t with
  | text w => exact absurd rfl (ht w)
  | float =>
      have hint : convert .float (.bool b) = convert .float (.int b.toNat) := by cases b <;> rfl
      have hfits : Number.hasInt b.toNat = true := by cases b <;> decide +kernel
      exact (congrArg Value.key? hint).trans (key?_convert_float hfits)
  | _ => cases b <;> rfl

/-- What an element of a vector is compared by stays, when the vector is cast. -/
theorem key?_convert_item {xs : Elements Value} (hx : x ∈ xs.items)
    (hroom : xs.type.promote t = t) (hne : xs.type ≠ t) (hfits : t = .float → x.fits = true)
    (htext : ∀ w, t = .text w → ∃ w', xs.type = .text w') : (convert t x).key? = x.key? := by
  cases xs with
  | bools bs =>
      obtain ⟨b, -, rfl⟩ := List.mem_map.mp hx
      exact key?_convert_bool b fun w hw => by obtain ⟨w', h⟩ := htext w hw; cases h
  | ints is | words is =>
      obtain ⟨i, -, rfl⟩ := List.mem_map.mp hx
      cases t with
      | float => exact key?_convert_float (hfits rfl)
      | object => rfl
      | text w => obtain ⟨w', h⟩ := htext w rfl; cases h
      | _ => simp_all [type, ElementType.promote]
  | floats fs =>
      cases t with
      | object => rfl
      | text w => obtain ⟨w', h⟩ := htext w rfl; cases h
      | _ => simp_all [type, ElementType.promote]
  | texts w ss =>
      obtain ⟨s, -, rfl⟩ := List.mem_map.mp hx
      cases t with
      | object | text => rfl
      | _ => simp_all [type, ElementType.promote]
  | objects vs =>
      cases t with
      | object => exact absurd rfl hne
      | _ => simp_all [type, ElementType.promote]

/-! ## Lists as rows -/

/-- What a vector that holds one value holds. -/
def stored : Value → Value
  | .str s => .str (storedText s)
  | x => x

theorem single_items (hx : x.IsKeyed) : (single x).items = [stored x] := by
  cases hx.scalar with
  | null | bool | str => rfl
  | int i =>
      simp only [single]
      split
      · rfl
      · split
        next h => simp [items, stored, Int.toNat_of_nonneg h.1]
        next => rfl
  | num y h => simp [single, items, stored, Value.ofNumber_of_not_isNaN h]

theorem isSimple_stored (hx : x.IsKeyed) : (stored x).IsSimple := by
  cases x with
  | str s => exact .text _
  | _ => exact hx.isSimple

/-- The type of a vector of the items of a list. -/
def listType : List Value → ElementType
  | [] => .float
  | x :: rest => rest.foldl (fun t y => t.promote (single y).type) (single x).type

theorem ofList_eq (l : List Value) :
    ofList l = ofItems (listType l) (l.flatMap fun x => (single x).items) := by
  cases l with
  | nil => rfl
  | cons x rest => simp [ofList, concat, listType, List.foldl_map, List.flatMap_map]

theorem room_listType {l : List Value} (hx : x ∈ l) :
    (single x).type.promote (listType l) = listType l := by
  cases l with
  | nil => cases hx
  | cons y rest =>
      cases hx with
      | head => exact ElementType.room_foldl _ rest (ElementType.promote_self _)
      | tail _ hx => exact ElementType.room_of_mem (fun y => (single y).type) hx _

theorem items_ofList {l : List Value} (hl : ∀ x ∈ l, x.IsKeyed) :
    (ofList l).items = l.map fun x => convert (listType l) (stored x) := by
  have hitems : (l.flatMap fun x => (single x).items) = l.map stored := by
    rw [List.map_eq_flatMap]
    exact List.flatMap_congr fun x hx => single_items (hl x hx)
  rw [ofList_eq, items_ofItems, hitems, List.map_map]
  rfl

/-- An integer stays what it is unless it becomes a number or a text. -/
theorem convert_int {i : Int} (hroom : (single (.int i)).type.promote t = t) :
    convert t (.int i) = .int i ∨ t = .float ∨ ∃ w, t = .text w := by
  simp only [single] at hroom
  split at hroom
  · cases t with
    | bool | word => cases hroom
    | int | object => exact .inl rfl
    | float => exact .inr (.inl rfl)
    | text w => exact .inr (.inr ⟨w, rfl⟩)
  · split at hroom
    next h =>
      cases t with
      | bool | int => cases hroom
      | word =>
          have hmod : ((wrapUnsigned i : Nat) : Int) = i := by
            rw [wrapUnsigned, Int.emod_eq_of_lt h.1 h.2, Int.toNat_of_nonneg h.1]
          exact .inl (congrArg Value.int hmod)
      | object => exact .inl rfl
      | float => exact .inr (.inl rfl)
      | text w => exact .inr (.inr ⟨w, rfl⟩)
    next =>
      cases t with
      | object => exact .inl rfl
      | _ => cases hroom

/-- What an item of a list is compared by stays, unless the items become texts. -/
theorem key?_convert_stored (hx : x.IsKeyed) (hroom : (single x).type.promote t = t)
    (hfits : t = .float → x.fits = true) (htext : ∀ w, t ≠ .text w) (hobject : t ≠ .object) :
    (convert t (stored x)).key? = x.key? := by
  cases hx.scalar with
  | bool b => exact key?_convert_bool b htext
  | int i =>
      rcases convert_int hroom with h | rfl | ⟨w, rfl⟩
      · exact congrArg Value.key? h
      · exact key?_convert_float (hfits rfl)
      · exact absurd rfl (htext w)
  | num y h =>
      cases t with
      | float => exact congrArg Value.key? (Value.ofNumber_of_not_isNaN h)
      | text w => exact absurd rfl (htext w)
      | object => exact absurd rfl hobject
      | _ => cases hroom
  | null | str s =>
      cases t with
      | text w => exact absurd rfl (htext w)
      | object => exact absurd rfl hobject
      | _ => cases hroom

theorem fits_convert_stored (hx : x.IsKeyed) (hroom : (single x).type.promote t = t)
    (hfits : x.fits = true) : (convert t (stored x)).fits = true := by
  cases hx.scalar with
  | int i =>
      rcases convert_int hroom with h | rfl | ⟨w, rfl⟩
      · exact (congrArg Value.fits h).trans hfits
      · exact Value.fits_ofNumber _
      · rfl
  | bool b =>
      cases t with
      | bool | text | object => rfl
      | float => exact Value.fits_ofNumber _
      | int | word => cases b <;> decide +kernel
  | null | num | str =>
      cases t with
      | text | object => rfl
      | float => exact Value.fits_ofNumber _
      | _ => cases hroom

end Elements

namespace Value

variable {l : List Value}

open Elements

theorem type_listElements (l : List Value) : (listElements l).type = listType l := by
  have htype : (ofList l).type = listType l := by rw [ofList_eq, type_ofItems]
  unfold listElements
  split
  next h => exact h.symm.trans htype
  next => exact htype

/-- An item of a list as an element of a vector. -/
def element (t : ElementType) (x : Value) : Value :=
  if t = .object then x else convert t (stored x)

theorem items_listElements (hl : ∀ x ∈ l, x.IsKeyed) :
    (listElements l).items = l.map (element (listType l)) := by
  have htype : (ofList l).type = listType l := by rw [ofList_eq, type_ofItems]
  unfold listElements
  split
  next h =>
    have hmap : l.map (element (listType l)) = l.map id :=
      List.map_congr_left fun x _ => if_pos (htype.symm.trans h)
    rw [hmap, List.map_id]
    rfl
  next h =>
    rw [items_ofList hl]
    exact List.map_congr_left fun x _ => (if_neg fun h' => h (htype.trans h')).symm

theorem isSimple_listElements (hl : ∀ x ∈ l, x.IsKeyed) :
    ∀ x ∈ (listElements l).items, x.IsSimple := by
  intro y hy
  rw [items_listElements hl] at hy
  obtain ⟨x, hx, rfl⟩ := List.mem_map.mp hy
  unfold element
  split
  · exact (hl x hx).isSimple
  · exact isSimple_convert _ (isSimple_stored (hl x hx))

theorem fits_listElements (hl : ∀ x ∈ l, x.IsKeyed) (hfits : ∀ x ∈ l, x.fits = true) :
    ∀ x ∈ (listElements l).items, x.fits = true := by
  intro y hy
  rw [items_listElements hl] at hy
  obtain ⟨x, hx, rfl⟩ := List.mem_map.mp hy
  unfold element
  split
  · exact hfits x hx
  · exact fits_convert_stored (hl x hx) (room_listType hx) (hfits x hx)

/-- What an item of a list is compared by stays beside a vector, unless the items become texts. -/
theorem key?_element {x : Value} (hx : x ∈ l) (hkeyed : x.IsKeyed)
    (htext : ∀ w, listType l ≠ .text w) (hfits : listType l = .float → x.fits = true) :
    (element (listType l) x).key? = x.key? := by
  unfold element
  split
  · rfl
  next h => exact key?_convert_stored hkeyed (room_listType hx) hfits htext h

theorem element_text (w : Nat) (x : Value) : element (.text w) x = .str (textOf (stored x)) :=
  if_neg nofun

theorem keys_listElements (hl : ∀ x ∈ l, x.IsKeyed) :
    (listElements l).items.map key? = l.map fun x => (element (listType l) x).key? := by
  rw [items_listElements hl, List.map_map]
  rfl

end Value

/-! ## Comparison of rows -/

namespace Elements

variable {t : ElementType} {xs ys : Elements Value}

theorem isSimple_cast (t : ElementType) (h : ∀ x ∈ xs.items, x.IsSimple) :
    ∀ x ∈ (cast t xs).items, x.IsSimple := by
  unfold cast
  split
  · exact h
  · intro y hy
    rw [items_ofItems] at hy
    obtain ⟨x, hx, rfl⟩ := List.mem_map.mp hy
    exact isSimple_convert t (h x hx)

theorem keys_cast (hroom : xs.type.promote t = t) (hfits : t = .float → ∀ x ∈ xs.items, x.fits = true)
    (htext : ∀ w, t = .text w → ∃ w', xs.type = .text w') :
    (cast t xs).items.map Value.key? = xs.items.map Value.key? := by
  unfold cast
  split
  · rfl
  next hne =>
    rw [items_ofItems, List.map_map]
    exact List.map_congr_left fun x hx =>
      key?_convert_item hx hroom hne (fun h => hfits h x hx) htext

theorem length_cast (t : ElementType) : (cast t xs).items.length = xs.items.length := by
  unfold cast
  split
  · rfl
  · rw [items_ofItems, List.length_map]

end Elements

namespace Value

variable {xs ys : Elements Value} {as bs : List Value}

theorem broadcast_of_length {α β : Type} {as : List α} {bs : List β} (h : as.length = bs.length) :
    broadcast as bs = .ok (as.zip bs) := if_pos h

/-- Values are equal place by place if they are compared by the same. -/
theorem all_zip_iff (ha : ∀ x ∈ as, x.IsKeyed) (hb : ∀ x ∈ bs, x.IsSimple)
    (h : as.length = bs.length) :
    ((as.zip bs).map fun (x, y) => atomEqual x y).all id = true ↔ as.map key? = bs.map key? := by
  induction as generalizing bs with
  | nil =>
      cases bs with
      | nil => simp
      | cons => cases h
  | cons x as ih =>
      cases bs with
      | nil => cases h
      | cons y bs =>
          have hhead := (ha x (List.mem_cons_self ..)).atomEqual_iff (hb y (List.mem_cons_self ..))
          have htail := ih (fun z hz => ha z (List.mem_cons_of_mem x hz))
            (fun z hz => hb z (List.mem_cons_of_mem y hz)) (Nat.succ.inj h)
          rw [List.zip_cons_cons, List.map_cons, List.all_cons, Bool.and_eq_true, htail, List.map_cons,
            List.map_cons, List.cons.injEq]
          exact and_congr hhead Iff.rfl

theorem text_of_not_apart {t u : ElementType} {w : Nat} (h : comparedApart t u = false)
    (hpromote : t.promote u = .text w) : (∃ w', t = .text w') ∧ ∃ w', u = .text w' := by
  cases t <;> cases u <;> simp_all [comparedApart, ElementType.promote]

/-- The elements of two rows are equal if they are compared by the same, unless an integer becomes a
number that has no room for it. -/
theorem elementsEqual_iff (hx : ∀ x ∈ xs.items, x.IsKeyed) (hy : ∀ y ∈ ys.items, y.IsSimple)
    (hlength : xs.items.length = ys.items.length)
    (hxfits : xs.type.promote ys.type = .float → ∀ x ∈ xs.items, x.fits = true)
    (hyfits : xs.type.promote ys.type = .float → ∀ y ∈ ys.items, y.fits = true) :
    ∃ equal, elementsEqual xs ys = .ok equal ∧
      (equal.all id = true ↔ xs.items.map key? = ys.items.map key?) := by
  unfold elementsEqual
  cases hapart : comparedApart xs.type ys.type with
  | true =>
      simp only [if_true]
      rw [broadcast_of_length hlength]
      exact ⟨_, rfl, all_zip_iff hx hy hlength⟩
  | false =>
      simp only [Bool.false_eq_true, if_false]
      have hxkeys := Elements.keys_cast (ElementType.room_left xs.type ys.type) hxfits
        fun w h => (text_of_not_apart hapart h).1
      have hykeys := Elements.keys_cast (ElementType.room_right xs.type ys.type) hyfits
        fun w h => (text_of_not_apart hapart h).2
      have hcast := (Elements.length_cast (xs.type.promote ys.type)).trans
        (hlength.trans (Elements.length_cast (xs.type.promote ys.type)).symm)
      have hkeyed : ∀ x ∈ (xs.cast (xs.type.promote ys.type)).items, x.IsKeyed := by
        intro x hmem
        obtain ⟨y, hy, hkey⟩ := List.mem_map.mp (hxkeys ▸ List.mem_map_of_mem (f := key?) hmem)
        exact (hx y hy).congr hkey
      rw [broadcast_of_length hcast]
      refine ⟨_, rfl, ?_⟩
      rw [← hxkeys, ← hykeys]
      exact all_zip_iff hkeyed (Elements.isSimple_cast _ hy) hcast

theorem comparedApart_comm (t u : ElementType) : comparedApart t u = comparedApart u t := by
  cases t <;> cases u <;> rfl

theorem comparedApart_self (t : ElementType) : comparedApart t t = false := by
  cases t <;> rfl

theorem broadcast_swap {α β : Type} (as : List α) (bs : List β) :
    broadcast bs as = (broadcast as bs).map (List.map Prod.swap) := by
  by_cases h : as.length = bs.length
  · rw [broadcast_of_length h, broadcast_of_length h.symm, ← List.zip_swap]
    rfl
  · unfold broadcast
    rw [if_neg h, if_neg (Ne.symm h)]
    match as, bs with
    | [], [] => exact absurd rfl h
    | [_], [_] => exact absurd rfl h
    | [], [_] => rfl
    | [_], [] => rfl
    | [], _ :: _ :: _ => rfl
    | _ :: _ :: _, [] => rfl
    | [_], _ :: _ :: _ => simp [Except.map]
    | _ :: _ :: _, [_] => simp [Except.map]
    | _ :: _ :: _, _ :: _ :: _ => rfl

theorem mem_of_broadcast {α β : Type} {as : List α} {bs : List β} {pairs : List (α × β)}
    (h : broadcast as bs = .ok pairs) {p : α × β} (hp : p ∈ pairs) : p.1 ∈ as ∧ p.2 ∈ bs := by
  unfold broadcast at h
  split at h
  · cases h
    exact List.of_mem_zip hp
  · split at h <;> cases h
    · obtain ⟨y, hy, rfl⟩ := List.mem_map.mp hp
      exact ⟨List.mem_singleton_self _, hy⟩
    · obtain ⟨x, hx, rfl⟩ := List.mem_map.mp hp
      exact ⟨hx, List.mem_singleton_self _⟩

/-- Values are equal pair by pair from both sides. -/
theorem equalPairs_comm (ha : ∀ x ∈ as, x.IsSimple) (hb : ∀ y ∈ bs, y.IsSimple) :
    (do let pairs ← broadcast as bs
        Except.ok (pairs.map fun (x, y) => atomEqual x y)) =
      (do let pairs ← broadcast bs as
          Except.ok (pairs.map fun (x, y) => atomEqual x y)) := by
  rw [broadcast_swap as bs]
  cases h : broadcast as bs with
  | error => rfl
  | ok pairs =>
      have hmem := fun p hp => mem_of_broadcast (p := p) h hp
      refine congrArg Except.ok ?_
      rw [List.map_map]
      exact List.map_congr_left fun p hp => atomEqual_comm (ha _ (hmem p hp).1) (hb _ (hmem p hp).2)

/-- Rows are compared the same way from both sides. -/
theorem elementsEqual_comm (hx : ∀ x ∈ xs.items, x.IsSimple) (hy : ∀ y ∈ ys.items, y.IsSimple) :
    elementsEqual xs ys = elementsEqual ys xs := by
  unfold elementsEqual
  rw [ElementType.promote_comm ys.type xs.type, comparedApart_comm ys.type xs.type]
  cases comparedApart xs.type ys.type with
  | true => exact equalPairs_comm hx hy
  | false => exact equalPairs_comm (Elements.isSimple_cast _ hx) (Elements.isSimple_cast _ hy)

/-- A row is equal to itself. -/
theorem elementsEqual_self (hx : ∀ x ∈ xs.items, x.IsKeyed) :
    ∃ equal, elementsEqual xs xs = .ok equal ∧ equal.all id = true := by
  unfold elementsEqual
  have hcast : xs.cast xs.type = xs := if_pos rfl
  simp only [ElementType.promote_self, comparedApart_self, Bool.false_eq_true, if_false, hcast]
  rw [broadcast_of_length rfl]
  exact ⟨_, rfl, (all_zip_iff hx (fun x h => (hx x h).isSimple) rfl).mpr rfl⟩

end Value

end Quasi
