import Mathlib.Data.List.DropRight
import Quasi.Library.Data
import Quasi.Proofs.Identical.Data

/-!
# Identity as an equivalence

On data `identical` is reflexive and gives the same answer from both sides. It is transitive but for
three values that clash: a vector between two lists is identical to both, though their items may be
of different types; an integer may be rounded beside numbers; and two lists with the two zeros of
binary64 are identical, but differ beside a vector if their items become texts.
-/

namespace Quasi

namespace Value

variable {heap : Nat → Elements Value} {a b c v x y : Value} {as bs cs : List Value}
  {names names' : Option (List (Option String))}

/-! ## Reflexivity and symmetry -/

theorem identical_self (h : IsData heap v) : identical v v = .ok true := by
  induction h with
  | atom h => rw [identical_atoms h h, atomEqual_self h, decide_eq_true rfl]; rfl
  | vec helements hheap =>
      rw [identical_vector (.vec helements hheap) (.vec helements hheap) (.inl rfl)]
      exact vectorIdentical_self helements rfl
  | nested h hitems ih =>
      exact (identical_lists_iff h h).mpr ⟨rfl, List.forall₂_same.mpr ih⟩

theorem identical_comm_vector (ha : IsData heap a) (hb : IsData heap b)
    (hvec : a.isVector = true ∨ b.isVector = true) : identical a b = identical b a := by
  rw [identical_vector ha hb hvec, identical_vector hb ha hvec.symm, vectorIdentical_comm ha hb hvec]

theorem identical_comm (ha : IsData heap a) (hb : IsData heap b) : identical a b = identical b a := by
  induction ha generalizing b with
  | vec helements hheap => exact identical_comm_vector (.vec helements hheap) hb (.inl rfl)
  | atom ha =>
      cases hb with
      | vec helements hheap =>
          exact identical_comm_vector (.atom ha) (.vec helements hheap) (.inr rfl)
      | atom hb =>
          rw [identical_atoms ha hb, identical_atoms hb ha, atomEqual_comm ha.isSimple hb.isSimple]
          exact congrArg (fun b => Except.ok (b && _)) (decide_eq_decide.mpr eq_comm)
      | nested hb =>
          have hdiffer := identical_nested_atom hb ha
          rw [hdiffer.1, hdiffer.2]
  | nested ha hitems ih =>
      cases hb with
      | vec helements hheap =>
          exact identical_comm_vector (.nested ha hitems) (.vec helements hheap) (.inr rfl)
      | atom hb =>
          have hdiffer := identical_nested_atom ha hb
          rw [hdiffer.1, hdiffer.2]
      | nested hb hitems' =>
          rw [identical_of_nested ha hb, identical_of_nested hb ha,
            identicalItems_comm fun x hx y hy => ih x hx (hitems' y hy)]
          exact if_congr (and_congr eq_comm eq_comm) rfl rfl

/-! ## Items that are alike -/

/-- Whether two values without parts have one type and are compared by the same. -/
structure Alike (x y : Value) : Prop where
  left : x.IsKeyed
  right : y.IsKeyed
  type : x.typeName = y.typeName
  key : x.key? = y.key?

theorem Alike.symm (h : Alike x y) : Alike y x := ⟨h.right, h.left, h.type.symm, h.key.symm⟩

theorem Alike.identical (h : Alike x y) : identical x y = .ok true := by
  rw [identical_atoms h.left h.right, decide_eq_true h.type,
    (h.left.atomEqual_iff h.right.isSimple).mpr h.key]
  rfl

/-- What is identical to a value without parts has none, either. -/
theorem alike_of_identical (hx : x.IsKeyed) (hy : IsData heap y) (h : x.identical y = .ok true) :
    Alike x y := by
  cases hy with
  | atom hy =>
      rw [identical_atoms hx hy, Except.ok.injEq, Bool.and_eq_true, decide_eq_true_eq] at h
      exact ⟨hx, hy, h.1, (hx.atomEqual_iff hy.isSimple).mp h.2⟩
  | vec helements hheap =>
      rw [identical_vector (.atom hx) (.vec helements hheap) (.inr rfl)] at h
      have hshape := arrayShape_of_vectorIdentical h
      rw [IsRow.arrayShape (v := .vec _) (.inl rfl), arrayShape, hx.flat.2.2] at hshape
      cases hshape
  | nested hy =>
      rw [(identical_nested_atom hy hx).2] at h
      cases h

/-- Values that are alike are the same, but for the two zeros. -/
theorem Alike.eq_or_zero (h : Alike x y) : x = y ∨ ∃ p q, x = .num p ∧ y = .num q ∧
    (p.isZero = true ∧ p.negative = true ∨ q.isZero = true ∧ q.negative = true) := by
  obtain ⟨hx, hy, htype, hkey⟩ := h
  cases hx.scalar with
  | null =>
      cases hy.scalar with
      | null => exact .inl rfl
      | _ => simp [Value.typeName] at htype
  | bool p =>
      cases hy.scalar with
      | bool q =>
          have hint := Number.exact_int_inj.mp (Key.number.inj (Option.some.inj hkey))
          cases p <;> cases q <;> first | exact .inl rfl | cases hint
      | _ => simp [Value.typeName] at htype
  | int i =>
      cases hy.scalar with
      | int j =>
          exact .inl (congrArg _ (Number.exact_int_inj.mp (Key.number.inj (Option.some.inj hkey))))
      | _ => simp [Value.typeName] at htype
  | num p hp =>
      cases hy.scalar with
      | num q hq =>
          rw [key?_num hp, key?_num hq] at hkey
          have hexact := Key.number.inj (Option.some.inj hkey)
          by_cases hpzero : p.isZero = true ∧ p.negative = true
          · exact .inr ⟨p, q, rfl, rfl, .inl hpzero⟩
          · by_cases hqzero : q.isZero = true ∧ q.negative = true
            · exact .inr ⟨p, q, rfl, rfl, .inr hqzero⟩
            · exact .inl (congrArg _ (Number.eq_of_exact hp hq
                (fun h => Bool.eq_false_iff.mpr fun h' => hpzero ⟨h, h'⟩)
                (fun h => Bool.eq_false_iff.mpr fun h' => hqzero ⟨h, h'⟩) hexact))
      | _ => simp [Value.typeName] at htype
  | str s =>
      cases hy.scalar with
      | str t => exact .inl (congrArg _ (Key.text.inj (Option.some.inj hkey)))
      | _ => simp [Value.typeName] at htype

theorem Alike.single_type (h : Alike x y) :
    (Elements.single x).type = (Elements.single y).type := by
  rcases h.eq_or_zero with rfl | ⟨p, q, rfl, rfl, -⟩ <;> rfl

theorem forall₂_alike (ha : ∀ x ∈ as, x.IsKeyed) (hb : ∀ y ∈ bs, IsData heap y)
    (h : List.Forall₂ (fun x y => x.identical y = .ok true) as bs) : List.Forall₂ Alike as bs := by
  induction h with
  | nil => exact .nil
  | cons hxy _ ih =>
      exact .cons (alike_of_identical (ha _ (List.mem_cons_self ..)) (hb _ (List.mem_cons_self ..)) hxy)
        (ih (fun x hx => ha x (List.mem_cons_of_mem _ hx)) fun y hy => hb y (List.mem_cons_of_mem _ hy))

theorem map_eq_of_alike {β : Type} {f : Value → β} (hf : ∀ x y, Alike x y → f x = f y)
    (h : List.Forall₂ Alike as bs) : as.map f = bs.map f := by
  induction h with
  | nil => rfl
  | cons hxy _ ih => rw [List.map_cons, List.map_cons, hf _ _ hxy, ih]

theorem keyed_of_alike (h : List.Forall₂ Alike as bs) : ∀ y ∈ bs, y.IsKeyed := by
  induction h with
  | nil => nofun
  | cons hxy _ ih =>
      intro y hy
      cases hy with
      | head => exact hxy.right
      | tail _ hy => exact ih y hy

/-- Whether a list holds a zero with a sign. -/
def HoldsNegativeZero (items : List Value) : Prop :=
  ∃ z, .num z ∈ items ∧ z.isZero = true ∧ z.negative = true

/-- Lists of values that are alike are the same, unless they hold a zero with a sign. -/
theorem eq_of_alike (h : List.Forall₂ Alike as bs) (ha : ¬ HoldsNegativeZero as)
    (hb : ¬ HoldsNegativeZero bs) : as = bs := by
  induction h with
  | nil => rfl
  | @cons x y as bs hxy _ ih =>
      have htail := ih (fun ⟨z, hz, hzero⟩ => ha ⟨z, List.mem_cons_of_mem x hz, hzero⟩)
        fun ⟨z, hz, hzero⟩ => hb ⟨z, List.mem_cons_of_mem y hz, hzero⟩
      rcases hxy.eq_or_zero with rfl | ⟨p, q, rfl, rfl, hzero | hzero⟩
      · rw [htail]
      · exact absurd ⟨p, List.mem_cons_self .., hzero⟩ ha
      · exact absurd ⟨q, List.mem_cons_self .., hzero⟩ hb

theorem listType_of_alike (h : List.Forall₂ Alike as bs) :
    Elements.listType as = Elements.listType bs := by
  have hmap := map_eq_of_alike (f := fun x => (Elements.single x).type)
    (fun _ _ hxy => hxy.single_type) h
  cases h with
  | nil => rfl
  | cons hxy htail =>
      obtain ⟨hhead, hrest⟩ := List.cons.inj hmap
      have hfold (l : List Value) (t : ElementType) :
          l.foldl (fun t y => t.promote (Elements.single y).type) t =
            (l.map fun x => (Elements.single x).type).foldl ElementType.promote t :=
        List.foldl_map.symm
      rw [Elements.listType, Elements.listType, hfold, hfold, hrest, hxy.single_type]

/-- Lists of values that are alike are compared with vectors by the same, unless their items become
texts and there is a zero with a sign among them. -/
theorem keys_of_alike (h : List.Forall₂ Alike as bs) (ha : ∀ x ∈ as, x.IsKeyed)
    (hsigned : ∀ w, Elements.listType as = .text w →
      ¬ HoldsNegativeZero as ∧ ¬ HoldsNegativeZero bs)
    (hafits : Elements.listType as = .float → ∀ x ∈ as, x.fits = true)
    (hbfits : Elements.listType bs = .float → ∀ x ∈ bs, x.fits = true) :
    (listElements as).items.map key? = (listElements bs).items.map key? := by
  by_cases htext : ∃ w, Elements.listType as = .text w
  · obtain ⟨w, hw⟩ := htext
    obtain ⟨hasigned, hbsigned⟩ := hsigned w hw
    rw [eq_of_alike h hasigned hbsigned]
  · have htext : ∀ w, Elements.listType as ≠ .text w := not_exists.mp htext
    have hb := keyed_of_alike h
    have hakeys : as.map (fun x => (element (Elements.listType as) x).key?) = as.map key? :=
      List.map_congr_left fun x hx => key?_element hx (ha x hx) htext fun h => hafits h x hx
    have hbkeys : bs.map (fun x => (element (Elements.listType bs) x).key?) = bs.map key? :=
      List.map_congr_left fun x hx =>
        key?_element hx (hb x hx) (listType_of_alike h ▸ htext) fun h => hbfits h x hx
    rw [keys_listElements ha, keys_listElements hb, hakeys, hbkeys]
    exact map_eq_of_alike (fun _ _ hxy => hxy.key) h

/-! ## Lists with the same elements -/

theorem storedText_storedText (s : String) :
    Elements.storedText (Elements.storedText s) = Elements.storedText s := by
  simp only [Elements.storedText, String.toList_ofList, List.reverse_reverse,
    List.dropWhile_idempotent]

theorem eq_str_of_key {s : String} (h : v.key? = some (.text s)) : v = .str s := by
  cases v with
  | str t => exact congrArg Value.str (Key.text.inj (Option.some.inj h))
  | num y =>
      rw [key?_num (IsKeyed.isNaN ⟨_, h⟩)] at h
      cases h
  | _ => cases h

theorem exists_str {s : String} (hv : v.IsKeyed) (h : v.typeName = (Value.str s).typeName) :
    ∃ t, v = .str t := by
  cases hv.scalar with
  | str t => exact ⟨t, rfl⟩
  | _ => simp [typeName] at h

/-- Whether two lists hold different values of one type that become the same text. -/
def Blurred (as bs : List Value) : Prop :=
  ∃ x ∈ as, ∃ y ∈ bs, x ≠ y ∧ x.typeName = y.typeName ∧
    Elements.textOf (Elements.stored x) = Elements.textOf (Elements.stored y)

section Element

variable {t u : ElementType} (hx : x.IsKeyed) (hy : y.IsKeyed) (htype : x.typeName = y.typeName)
  (hykey : (∀ w, u ≠ .text w) → (element u y).key? = y.key?)
  (hkey : (element t x).key? = (element u y).key?)
  (htext : Elements.textOf (Elements.stored x) = Elements.textOf (Elements.stored y) → x = y)

include hx hy htype hykey hkey htext

theorem eq_of_element_text {w : Nat} (ht : t = .text w) : x = y := by
  subst ht
  rw [element_text] at hkey
  by_cases hu : ∃ w', u = .text w'
  · obtain ⟨w', rfl⟩ := hu
    rw [element_text] at hkey
    exact htext (Key.text.inj (Option.some.inj hkey))
  · rw [hykey (not_exists.mp hu)] at hkey
    obtain rfl := eq_str_of_key hkey.symm
    obtain ⟨s, rfl⟩ := exists_str hx htype
    exact htext (storedText_storedText s).symm

theorem alike_of_element (hxkey : (∀ w, t ≠ .text w) → (element t x).key? = x.key?) : Alike x y := by
  by_cases ht : ∃ w, t = .text w
  · obtain ⟨w, ht⟩ := ht
    obtain rfl := eq_of_element_text hx hy htype hykey hkey htext ht
    exact ⟨hx, hx, rfl, rfl⟩
  · by_cases hu : ∃ w, u = .text w
    · obtain ⟨w, hu⟩ := hu
      obtain rfl := eq_of_element_text hy hx htype.symm hxkey hkey.symm (fun h => (htext h.symm).symm) hu
      exact ⟨hx, hx, rfl, rfl⟩
    · exact ⟨hx, hy, htype,
        (hxkey (not_exists.mp ht)).symm.trans (hkey.trans (hykey (not_exists.mp hu)))⟩

end Element

/-- Lists of values of the same types whose elements are compared by the same are alike, unless
different values become the same text. -/
theorem alike_of_keys (ha : ∀ x ∈ as, x.IsKeyed) (hb : ∀ x ∈ bs, x.IsKeyed)
    (htypes : as.map typeName = bs.map typeName) (htext : ¬ Blurred as bs)
    (hafits : Elements.listType as = .float → ∀ x ∈ as, x.fits = true)
    (hbfits : Elements.listType bs = .float → ∀ x ∈ bs, x.fits = true)
    (h : (listElements as).items.map key? = (listElements bs).items.map key?) :
    List.Forall₂ Alike as bs := by
  rw [keys_listElements ha, keys_listElements hb] at h
  have hlength : as.length = bs.length := by simpa using congrArg List.length htypes
  refine List.forall₂_iff_get.mpr ⟨hlength, fun i hi hi' => ?_⟩
  have hx := List.get_mem as ⟨i, hi⟩
  have hy := List.get_mem bs ⟨i, hi'⟩
  have hkey := congrArg (·[i]?) h
  have htype := congrArg (·[i]?) htypes
  simp only [List.getElem?_map, List.getElem?_eq_getElem hi, List.getElem?_eq_getElem hi',
    Option.map_some, Option.some_inj] at hkey htype
  exact alike_of_element (ha _ hx) (hb _ hy) htype
    (fun hu => key?_element hy (hb _ hy) hu fun h => hbfits h _ hy) hkey
    (fun h => by_contra fun hne => htext ⟨_, hx, _, hy, hne, htype, h⟩)
    (fun ht => key?_element hx (ha _ hx) ht fun h => hafits h _ hx)

/-! ## Transitivity -/

/-- Three values at which transitivity may fail: at some depth one of them is a vector, and
* it stands between two lists with different names, items of different types, or different items of
  one type that become the same text;
* or an integer becomes a number that has no room for it;
* or it stands beside two lists whose items become texts and among which is a zero with a sign. -/
inductive Clash : Value → Value → Value → Prop where
  | between {a c : Value} {v : Vec Value} {names names' : Option (List (Option String))}
      {as cs : List Value} (ha : a.nested? = some (names, as)) (hc : c.nested? = some (names', cs))
      (hdiffer : names ≠ names' ∨ as.map typeName ≠ cs.map typeName ∨ Blurred as cs) :
      Clash a (.vec v) c
  | rounded {a b c x y : Value}
      (hvec : a.isVector = true ∨ b.isVector = true ∨ c.isVector = true)
      (hx : x ∈ [a, b, c]) (hy : y ∈ [a, b, c]) (hroom : ¬ Roomy x y) : Clash a b c
  | signed {a b c l : Value} {names names' : Option (List (Option String))} {bs ls : List Value}
      {w : Nat} (hvec : a.isVector = true ∨ c.isVector = true) (hl : l ∈ [a, c])
      (hb : b.nested? = some (names, bs)) (hls : l.nested? = some (names', ls))
      (htext : Elements.listType bs = .text w)
      (hsigned : HoldsNegativeZero bs ∨ HoldsNegativeZero ls) : Clash a b c
  | deeper {a b c x y z : Value} {na nb nc : Option (List (Option String))} {as bs cs : List Value}
      {i : Nat} (ha : a.nested? = some (na, as)) (hb : b.nested? = some (nb, bs))
      (hc : c.nested? = some (nc, cs)) (hx : as[i]? = some x) (hy : bs[i]? = some y)
      (hz : cs[i]? = some z) (h : Clash x y z) : Clash a b c

theorem IsRow.exists_nested (h : v.IsRow) (hvec : v.isVector = false) :
    ∃ names items, v.nested? = some (names, items) ∧ ∀ x ∈ items, x.IsKeyed := by
  rcases h with h | h
  · rw [hvec] at h
    cases h
  · exact h

/-- A list whose items become numbers holds integers that are numbers. -/
theorem Roomy.fits {items : List Value} (h : Roomy v v) (hv : v.nested? = some (names, items))
    (hfloat : Elements.listType items = .float) : ∀ x ∈ items, x.fits = true := by
  have htype : v.operandElements.type = .float := by
    rw [operandElements_of_nested hv, type_listElements, hfloat]
  rw [← parts_of_nested hv]
  exact (h (by rw [htype, ElementType.promote_self])).1

/-- What is identical to a row is a row that is compared by the same. -/
theorem row_of_identical (hx : IsData heap x) (hy : IsData heap y) (hrow : x.IsRow)
    (hroomx : Roomy x x) (hroomy : Roomy y y) (hroom : Roomy x y)
    (hsigned : ∀ {names names' as bs w}, x.nested? = some (names, as) → y.nested? = some (names', bs) →
      Elements.listType as = .text w → ¬ HoldsNegativeZero as ∧ ¬ HoldsNegativeZero bs)
    (h : x.identical y = .ok true) : y.IsRow ∧ x.rowKeys = y.rowKeys := by
  by_cases hvec : x.isVector = true ∨ y.isVector = true
  · exact ((identical_rows_iff hx hy hvec hroom).mp h).2
  · obtain ⟨hxvec, hyvec⟩ := not_or.mp hvec
    obtain ⟨names, as, has, haskeyed⟩ := hrow.exists_nested (Bool.eq_false_iff.mpr hxvec)
    cases hy with
    | vec => exact absurd rfl hyvec
    | atom hy =>
        rw [(identical_nested_atom has hy).1] at h
        cases h
    | nested hbs hbsdata =>
        have halike := forall₂_alike haskeyed hbsdata ((identical_lists_iff has hbs).mp h).2
        refine ⟨.inr ⟨_, _, hbs, keyed_of_alike halike⟩, ?_⟩
        rw [rowKeys, rowKeys, operandElements_of_nested has, operandElements_of_nested hbs]
        exact keys_of_alike halike haskeyed (fun w => hsigned has hbs) (hroomx.fits has)
          (hroomy.fits hbs)

/-- Where one of three data is a vector, all are rows. -/
theorem identical_trans_vector (ha : IsData heap a) (hb : IsData heap b) (hc : IsData heap c)
    (hvec : a.isVector = true ∨ b.isVector = true ∨ c.isVector = true) (hclash : ¬ Clash a b c)
    (hab : identical a b = .ok true) (hbc : identical b c = .ok true) :
    identical a c = .ok true := by
  have hroomy {x y} (hx : x ∈ [a, b, c]) (hy : y ∈ [a, b, c]) : Roomy x y := by
    by_contra h
    exact hclash (.rounded hvec hx hy h)
  have hamem : a ∈ [a, b, c] := by simp
  have hbmem : b ∈ [a, b, c] := by simp
  have hcmem : c ∈ [a, b, c] := by simp
  have hba : identical b a = .ok true := (identical_comm hb ha).trans hab
  have hside {l} (hl : l ∈ [a, c]) {names names' bs ls w} (hbs : b.nested? = some (names, bs))
      (hls : l.nested? = some (names', ls)) (htext : Elements.listType bs = .text w) :
      ¬ HoldsNegativeZero bs ∧ ¬ HoldsNegativeZero ls := by
    have hvec : a.isVector = true ∨ c.isVector = true := by
      rwa [isVector_of_nested hbs, or_iff_right Bool.false_ne_true] at hvec
    exact not_or.mp fun hsigned => hclash (.signed hvec hl hbs hls htext hsigned)
  have hrow : b.IsRow := by
    rcases hvec with hvec | hvec | hvec
    · exact ((identical_rows_iff ha hb (.inl hvec) (hroomy hamem hbmem)).mp hab).2.1
    · exact .inl hvec
    · exact ((identical_rows_iff hb hc (.inr hvec) (hroomy hbmem hcmem)).mp hbc).1
  obtain ⟨harow, hakeys⟩ := row_of_identical hb ha hrow (hroomy hbmem hbmem) (hroomy hamem hamem)
    (hroomy hbmem hamem) (hside (by simp)) hba
  obtain ⟨hcrow, hckeys⟩ := row_of_identical hb hc hrow (hroomy hbmem hbmem) (hroomy hcmem hcmem)
    (hroomy hbmem hcmem) (hside (by simp)) hbc
  by_cases hac : a.isVector = true ∨ c.isVector = true
  · exact (identical_rows_iff ha hc hac (hroomy hamem hcmem)).mpr
      ⟨harow, hcrow, hakeys.symm.trans hckeys⟩
  · obtain ⟨havec, hcvec⟩ := not_or.mp hac
    obtain ⟨names, as, has, haskeyed⟩ := harow.exists_nested (Bool.eq_false_iff.mpr havec)
    obtain ⟨names', cs, hcs, hcskeyed⟩ := hcrow.exists_nested (Bool.eq_false_iff.mpr hcvec)
    obtain ⟨w, rfl⟩ := exists_vec ((hvec.resolve_left havec).resolve_right hcvec)
    have hsame : ¬ (names ≠ names' ∨ as.map typeName ≠ cs.map typeName ∨ Blurred as cs) :=
      fun h => hclash (.between has hcs h)
    rw [not_or, not_or, not_not, not_not] at hsame
    have hkeys := hakeys.symm.trans hckeys
    rw [rowKeys, rowKeys, operandElements_of_nested has, operandElements_of_nested hcs] at hkeys
    refine (identical_lists_iff has hcs).mpr ⟨hsame.1, ?_⟩
    exact (alike_of_keys haskeyed hcskeyed hsame.2.1 hsame.2.2 ((hroomy hamem hamem).fits has)
      ((hroomy hcmem hcmem).fits hcs) hkeys).imp fun _ _ h => h.identical

theorem Alike.trans (h : Alike x y) {z : Value} (h' : Alike y z) : Alike x z :=
  ⟨h.left, h'.right, h.type.trans h'.type, h.key.trans h'.key⟩

/-- Identity is transitive on data that do not clash. -/
theorem identical_trans (ha : IsData heap a) (hb : IsData heap b) (hc : IsData heap c)
    (hclash : ¬ Clash a b c) (hab : identical a b = .ok true) (hbc : identical b c = .ok true) :
    identical a c = .ok true := by
  induction hb generalizing a c with
  | vec helements hheap =>
      exact identical_trans_vector ha (.vec helements hheap) hc (.inr (.inl rfl)) hclash hab hbc
  | atom hb =>
      have hba : identical _ a = .ok true := (identical_comm (.atom hb) ha).trans hab
      exact ((alike_of_identical hb ha hba).symm.trans (alike_of_identical hb hc hbc)).identical
  | nested hb hbdata ih =>
      by_cases hvec : a.isVector = true ∨ c.isVector = true
      · exact identical_trans_vector ha (.nested hb hbdata) hc (hvec.imp_right .inr) hclash hab hbc
      · cases ha with
        | vec => exact absurd (.inl rfl) hvec
        | atom ha =>
            rw [(identical_nested_atom hb ha).2] at hab
            cases hab
        | nested ha hadata =>
            cases hc with
            | vec => exact absurd (.inr rfl) hvec
            | atom hc =>
                rw [(identical_nested_atom hb hc).1] at hbc
                cases hbc
            | nested hc hcdata =>
                obtain ⟨hnames, hitems⟩ := (identical_lists_iff ha hb).mp hab
                obtain ⟨hnames', hitems'⟩ := (identical_lists_iff hb hc).mp hbc
                refine (identical_lists_iff ha hc).mpr ⟨hnames.trans hnames', ?_⟩
                rw [List.forall₂_iff_get] at hitems hitems' ⊢
                refine ⟨hitems.1.trans hitems'.1, fun i hi hi'' => ?_⟩
                have hi' := hitems.1 ▸ hi
                exact ih _ (List.get_mem _ _) (hadata _ (List.get_mem _ _)) (hcdata _ (List.get_mem _ _))
                  (fun h => hclash (.deeper ha hb hc (List.getElem?_eq_getElem hi)
                    (List.getElem?_eq_getElem hi') (List.getElem?_eq_getElem hi'') h))
                  (hitems.2 i hi hi') (hitems'.2 i hi' hi'')

end Value

namespace Library

variable {heap : Nat → Elements Value} {a b c : Value} {s : Store}

theorem identical_of_ok {equal : Bool} (h : Value.identical a b = .ok equal) :
    identical [a, b] s = .ok (.bool equal) s := by
  change (do pure (.bool (← Run.orFailHost (Value.identical a b))) : Run Value) s = _
  rw [h]
  rfl

theorem identical_eq_true_iff :
    identical [a, b] s = .ok (.bool true) s ↔ Value.identical a b = .ok true := by
  refine ⟨fun h => ?_, identical_of_ok⟩
  cases hequal : Value.identical a b with
  | ok equal =>
      rw [identical_of_ok hequal] at h
      cases h
      rfl
  | error e =>
      have hfail : identical [a, b] s = (do pure (.bool (← Run.orFailHost (.error e))) : Run Value) s := by
        rw [← hequal]
        rfl
      rw [hfail] at h
      cases h

/-- Identity of data is reflexive; it gives the same answer, or fails in the same way, from both
sides; and it is transitive unless the three values clash. -/
theorem identical_equivalence (ha : a.IsData heap) (hb : b.IsData heap) (hc : c.IsData heap) :
    identical [a, a] s = .ok (.bool true) s ∧
    identical [a, b] s = identical [b, a] s ∧
    (¬ Value.Clash a b c → identical [a, b] s = .ok (.bool true) s →
      identical [b, c] s = .ok (.bool true) s → identical [a, c] s = .ok (.bool true) s) := by
  refine ⟨identical_of_ok (Value.identical_self ha), ?_, fun hclash hab hbc => ?_⟩
  · change (do pure (.bool (← Run.orFailHost (Value.identical a b))) : Run Value) s =
      (do pure (.bool (← Run.orFailHost (Value.identical b a))) : Run Value) s
    rw [Value.identical_comm ha hb]
  · exact identical_of_ok (Value.identical_trans ha hb hc hclash (identical_eq_true_iff.mp hab)
      (identical_eq_true_iff.mp hbc))

/-- One, as a binary64 number. -/
def one : Binary64 := Binary64.ofRatio false 1 1

/-- A vector of the integer one, a list of it, and a vector of the number one. -/
def ones : Value × Value × Value :=
  (.vec ⟨1, .ints [1]⟩, .sequence [.int 1], .vec ⟨2, .floats [one]⟩)

theorem ones_not_clash : ¬ Value.Clash ones.1 ones.2.1 ones.2.2 := by
  intro h
  cases h with
  | rounded _ hx hy hroom =>
      have hfits : ∀ v ∈ [ones.1, ones.2.1, ones.2.2], ∀ x ∈ v.parts, x.fits = true := by
        have hone : ∀ v ∈ [ones.1, ones.2.1, ones.2.2], v.parts.all Value.fits = true := by
          decide +kernel
        exact fun v hv => List.all_eq_true.mp (hone v hv)
      exact hroom fun _ => ⟨hfits _ hx, hfits _ hy⟩
  | signed _ hl _ hls =>
      rcases List.mem_pair.mp hl with rfl | rfl <;> cases hls
  | deeper ha => cases ha

theorem ones_isData {heap : Nat → Elements Value} (hint : heap 1 = .ints [1])
    (hnum : heap 2 = .floats [one]) :
    ones.1.IsData heap ∧ ones.2.1.IsData heap ∧ ones.2.2.IsData heap := by
  have hkeyed : (Value.int 1).IsKeyed := ⟨_, rfl⟩
  have hkeyed' : (Value.ofNumber one).IsKeyed := ⟨.number (Number.exact (.float one)), rfl⟩
  exact ⟨.vec (by simpa [Elements.items] using hkeyed) fun _ => hint,
    .nested rfl (by simpa using .atom hkeyed),
    .vec (by simpa [Elements.items] using hkeyed') fun _ => hnum⟩

theorem not_clash_nested (h : ¬ Value.Clash a b c) :
    ¬ Value.Clash (.sequence [a]) (.sequence [b]) (.sequence [c]) := by
  intro hclash
  cases hclash with
  | rounded hvec => rcases hvec with hvec | hvec | hvec <;> cases hvec
  | signed hvec => rcases hvec with hvec | hvec <;> cases hvec
  | @deeper _ _ _ _ _ _ _ _ _ _ _ _ i ha hb hc hx hy hz hdeeper =>
      cases ha
      cases hb
      cases hc
      cases i with
      | zero =>
          cases hx
          cases hy
          cases hz
          exact h hdeeper
      | succ i => cases hx

/-- The vectors are identical in lists, too, as the list between them. -/
theorem identical_equivalence_ones :
    identical [.sequence [ones.1], .sequence [ones.2.2]] ({} : Store) =
      .ok (.bool true) ({} : Store) := by
  let heap : Nat → Elements Value := fun n => if n = 1 then .ints [1] else .floats [one]
  obtain ⟨ha, hb, hc⟩ : ones.1.IsData heap ∧ ones.2.1.IsData heap ∧ ones.2.2.IsData heap :=
    ones_isData rfl rfl
  exact (identical_equivalence (.nested rfl (by simpa using ha)) (.nested rfl (by simpa using hb))
    (.nested rfl (by simpa using hc))).2.2 (not_clash_nested ones_not_clash)
      (identical_of_ok (by decide +kernel)) (identical_of_ok (by decide +kernel))

/-- A vector of the number one is identical to the lists of the integer and of the number, which are
different. -/
theorem identical_not_transitive :
    (∀ v ∈ [.list [.bare (.int 1)], .vec ⟨0, .floats [one]⟩, .list [.bare (.num one)]],
      Value.IsData (fun _ => .floats [one]) v) ∧
    identical [.list [.bare (.int 1)], .vec ⟨0, .floats [one]⟩] ({} : Store) =
      .ok (.bool true) ({} : Store) ∧
    identical [.vec ⟨0, .floats [one]⟩, .list [.bare (.num one)]] ({} : Store) =
      .ok (.bool true) ({} : Store) ∧
    identical [.list [.bare (.int 1)], .list [.bare (.num one)]] ({} : Store) =
      .ok (.bool false) ({} : Store) := by
  have hint : (Value.int 1).IsKeyed := ⟨_, rfl⟩
  have hnum : (Value.num one).IsKeyed := ⟨.number (Number.exact (.float one)), rfl⟩
  have hread : (Value.ofNumber one).IsKeyed := ⟨.number (Number.exact (.float one)), rfl⟩
  refine ⟨?_, identical_of_ok (by decide +kernel), identical_of_ok (by decide +kernel),
    identical_of_ok (by decide +kernel)⟩
  simp only [List.forall_mem_cons]
  exact ⟨.nested rfl (by simpa [Tagged.bare] using .atom hint), .vec (by simpa [Elements.items] using hread)
    fun _ => rfl, .nested rfl (by simpa [Tagged.bare] using .atom hnum), nofun⟩

end Library

end Quasi
