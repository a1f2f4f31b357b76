import Quasi.Proofs.Number.Exact

/-!
# Equal elements

Values without parts are compared by their exact values and texts, whatever their types are. Before
vectors are compared their elements become of one type. That keeps what they are compared by, unless
an integer becomes a number that has no room for it.
-/

namespace Quasi

/-- What a value without parts is compared by. -/
inductive Key where
  | null
  | number (value : Except Bool Int)
  | text (s : String)

namespace Value

/-- What a value is compared by. A NaN is equal to nothing, and a value with parts is compared by
these. -/
def key? (v : Value) : Option Key :=
  match v with
  | .null => some .null
  | .str s => some (.text s)
  | v => v.number?.bind fun x => if x.isNaN then none else some (.number x.exact)

/-- A value without parts that is compared by what it contains. -/
inductive IsSimple : Value → Prop where
  | null : IsSimple .null
  | text (s : String) : IsSimple (.str s)
  | number {v : Value} {x : Number} (h : v.number? = some x) : IsSimple v

variable {a b v : Value} {x y : Number}

theorem key?_of_number (h : v.number? = some x) :
    v.key? = if x.isNaN then none else some (.number x.exact) := by
  cases v with
  | bool | int | num | nan =>
      cases h
      rfl
  | _ => cases h

theorem isSimple_of_key {k : Key} (h : v.key? = some k) : v.IsSimple := by
  cases v with
  | null => exact .null
  | str s => exact .text s
  | bool | int | num | nan => exact .number rfl
  | _ => cases h

/-- Two numbers are equal if they have the same key. -/
theorem atomEqual_numbers (ha : a.number? = some x) (hb : b.number? = some y) :
    atomEqual a b = true ↔ ∃ k, a.key? = some k ∧ b.key? = some k := by
  have hequal : atomEqual a b = decide (x.compare? y = some .eq) := by simp only [atomEqual, ha, hb]
  rw [hequal, decide_eq_true_eq, Number.compare?_eq_some_iff, key?_of_number ha, key?_of_number hb]
  cases x.isNaN <;> cases y.isNaN <;> simp [eq_comm]

/-- A number is neither nothing nor a text. -/
theorem not_atomEqual_number (ha : a.number? = some x) (hb : b.IsSimple) (hnone : b.number? = none) :
    (atomEqual a b = false ∧ atomEqual b a = false) ∧ ∀ k, a.key? = some k → b.key? ≠ some k := by
  cases hb with
  | number h => rw [h] at hnone; cases hnone
  | null | text => cases a <;> cases ha <;> exact ⟨⟨rfl, rfl⟩, by simp [key?, number?]⟩

/-- Values without parts are equal if they have the same key. -/
theorem atomEqual_iff (ha : a.IsSimple) (hb : b.IsSimple) :
    atomEqual a b = true ↔ ∃ k, a.key? = some k ∧ b.key? = some k := by
  cases hx : a.number? with
  | some x =>
      cases hy : b.number? with
      | some y => exact atomEqual_numbers hx hy
      | none =>
          obtain ⟨⟨hfalse, -⟩, hkeys⟩ := not_atomEqual_number hx hb hy
          simpa [hfalse] using hkeys
  | none =>
      cases hy : b.number? with
      | some y =>
          obtain ⟨⟨-, hfalse⟩, hkeys⟩ := not_atomEqual_number hy ha hx
          rw [hfalse]
          exact ⟨nofun, fun ⟨k, hak, hbk⟩ => absurd hak (hkeys k hbk)⟩
      | none =>
          cases ha with
          | number h => rw [h] at hx; cases hx
          | null =>
              cases hb with
              | number h => rw [h] at hy; cases hy
              | null | text => simp [atomEqual, key?, number?]
          | text s =>
              cases hb with
              | number h => rw [h] at hy; cases hy
              | null => simp [atomEqual, key?, number?]
              | text t =>
                  change decide (s = t) = true ↔ ∃ k, some (Key.text s) = some k ∧ some (Key.text t) = some k
                  simp [eq_comm]

/-- A value without parts that is equal to itself. -/
def IsKeyed (v : Value) : Prop := ∃ k, v.key? = some k

theorem IsKeyed.isSimple (h : v.IsKeyed) : v.IsSimple := isSimple_of_key h.choose_spec

theorem IsKeyed.isNaN {x : Binary64} (h : (Value.num x).IsKeyed) : x.isNaN = false := by
  obtain ⟨k, hk⟩ := h
  rw [key?_of_number rfl] at hk
  cases hnan : x.isNaN with
  | false => rfl
  | true => rw [Number.isNaN, hnan] at hk; cases hk

/-- The values without parts that are equal to themselves, by their types. -/
inductive Scalar : Value → Prop where
  | null : Scalar .null
  | bool (p : Bool) : Scalar (.bool p)
  | int (i : Int) : Scalar (.int i)
  | num (x : Binary64) (h : x.isNaN = false) : Scalar (.num x)
  | str (s : String) : Scalar (.str s)

theorem IsKeyed.scalar (h : v.IsKeyed) : v.Scalar := by
  cases v with
  | null => exact .null
  | bool p => exact .bool p
  | int i => exact .int i
  | num x => exact .num x h.isNaN
  | str s => exact .str s
  | nan => cases h.choose_spec
  | _ => cases h.choose_spec

theorem key?_num {x : Binary64} (h : x.isNaN = false) :
    (Value.num x).key? = some (.number (Number.exact (.float x))) := by
  rw [key?_of_number rfl, Number.isNaN, h]
  rfl

theorem atomEqual_comm (ha : a.IsSimple) (hb : b.IsSimple) : atomEqual a b = atomEqual b a := by
  rw [Bool.eq_iff_iff, atomEqual_iff ha hb, atomEqual_iff hb ha]
  exact exists_congr fun k => and_comm

theorem atomEqual_self (h : v.IsKeyed) : atomEqual v v = true := by
  obtain ⟨k, hk⟩ := h
  exact (atomEqual_iff (isSimple_of_key hk) (isSimple_of_key hk)).mpr ⟨k, hk, hk⟩

theorem IsKeyed.atomEqual_iff (ha : a.IsKeyed) (hb : b.IsSimple) :
    atomEqual a b = true ↔ a.key? = b.key? := by
  obtain ⟨k, hk⟩ := ha
  rw [Value.atomEqual_iff (isSimple_of_key hk) hb, hk]
  exact ⟨fun ⟨k', h, h'⟩ => h.trans h'.symm, fun h => ⟨k, rfl, h.symm⟩⟩

theorem IsKeyed.congr (ha : a.IsKeyed) (h : a.key? = b.key?) : b.IsKeyed := by
  obtain ⟨k, hk⟩ := ha
  exact ⟨k, h.symm.trans hk⟩

/-- Values without parts are compared as they are. -/
theorem identical_atoms (ha : a.IsKeyed) (hb : b.IsKeyed) :
    identical a b = .ok (decide (a.typeName = b.typeName) && atomEqual a b) := by
  cases ha.scalar <;> cases hb.scalar <;> rfl

end Value

end Quasi
