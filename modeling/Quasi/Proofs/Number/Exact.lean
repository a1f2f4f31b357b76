import Mathlib.Tactic.Ring
import Quasi.Proofs.Number.Written
import Quasi.Value.Equality

/-!
# Exact values of numbers

A finite binary64 number is an integral multiple of the least positive one, and so is an integer.
Two numbers are equal if they are the same multiple or the same infinity. Integers that are converted
keep their value only if binary64 has room for it.
-/

namespace Quasi

namespace Binary64

/-- The exponent of the least positive number, without its sign. -/
def lowest : Nat := 1074

/-- A finite magnitude as a multiple of the least positive one. -/
def unitsOf (magnitude : Nat) : Nat :=
  if magnitude / 2 ^ 52 = 0 then magnitude % 2 ^ 52
  else (magnitude % 2 ^ 52 + 2 ^ 52) * 2 ^ (magnitude / 2 ^ 52 - 1)

theorem unitsOf_lt (magnitude : Nat) : unitsOf magnitude < 2 ^ 52 * 2 ^ (magnitude / 2 ^ 52) := by
  have hlt : magnitude % 2 ^ 52 < 2 ^ 52 := Nat.mod_lt _ (by decide)
  unfold unitsOf
  split
  next h => rwa [h, pow_zero, Nat.mul_one]
  next h =>
    obtain ⟨k, hk⟩ := Nat.exists_eq_succ_of_ne_zero h
    have hdouble : 2 ^ 52 * 2 ^ (k + 1) = (2 ^ 52 + 2 ^ 52) * 2 ^ k := by ring
    rw [hk, Nat.succ_sub_one, hdouble]
    exact Nat.mul_lt_mul_of_pos_right (Nat.add_lt_add_right hlt _) (Nat.two_pow_pos k)

theorem le_unitsOf {magnitude : Nat} (h : magnitude / 2 ^ 52 ≠ 0) :
    2 ^ 52 * 2 ^ (magnitude / 2 ^ 52 - 1) ≤ unitsOf magnitude := by
  rw [unitsOf, if_neg h]
  exact Nat.mul_le_mul_right _ (Nat.le_add_left ..)

/-- A magnitude with a larger exponent is larger. -/
theorem unitsOf_lt_unitsOf {a b : Nat} (h : a / 2 ^ 52 < b / 2 ^ 52) : unitsOf a < unitsOf b :=
  calc unitsOf a
    _ < 2 ^ 52 * 2 ^ (a / 2 ^ 52) := unitsOf_lt a
    _ ≤ 2 ^ 52 * 2 ^ (b / 2 ^ 52 - 1) :=
      Nat.mul_le_mul_left _ (Nat.pow_le_pow_right (by decide) (by omega))
    _ ≤ unitsOf b := le_unitsOf (by omega)

theorem unitsOf_injective : Function.Injective unitsOf := by
  intro a b h
  rcases Nat.lt_trichotomy (a / 2 ^ 52) (b / 2 ^ 52) with hlt | heq | hlt
  · exact absurd h (Nat.ne_of_lt (unitsOf_lt_unitsOf hlt))
  · have hfraction : a % 2 ^ 52 = b % 2 ^ 52 := by
      unfold unitsOf at h
      rw [heq] at h
      split at h
      · exact h
      · exact Nat.add_right_cancel (Nat.eq_of_mul_eq_mul_right (Nat.two_pow_pos _) h)
    rw [← Nat.div_add_mod a (2 ^ 52), heq, hfraction, Nat.div_add_mod]
  · exact absurd h.symm (Nat.ne_of_lt (unitsOf_lt_unitsOf hlt))

/-- A finite number as a multiple of the least positive one. -/
def units (x : Binary64) : Int :=
  if x.negative then -(unitsOf x.magnitude : Int) else unitsOf x.magnitude

variable {x y : Binary64}

theorem units_eq_iff : x.units = y.units ↔
    (if x.negative then -(x.magnitude : Int) else x.magnitude) =
      if y.negative then -(y.magnitude : Int) else y.magnitude := by
  have hzero {m : Nat} : unitsOf m = 0 ↔ m = 0 :=
    ⟨fun h => unitsOf_injective h, fun h => by rw [h]; rfl⟩
  have hinj {m n : Nat} : unitsOf m = unitsOf n ↔ m = n := unitsOf_injective.eq_iff
  have hx := hzero (m := x.magnitude)
  have hy := hzero (m := y.magnitude)
  have hxy := hinj (m := x.magnitude) (n := y.magnitude)
  unfold units
  split <;> split <;> omega

/-- The significand and the exponent of a finite number make up its value. -/
theorem exists_dyadic (h : x.isFinite = true) : ∃ (m : Int) (k : Nat),
    x.dyadic? = some (m, (k : Int) - lowest) ∧ x.units = m * 2 ^ k := by
  have hpow : Nat.pow 2 52 = 2 ^ 52 := rfl
  simp only [dyadic?, h, if_true, significand, units, unitsOf, hpow]
  by_cases hfield : x.magnitude / 2 ^ 52 = 0
  · simp only [hfield, if_true]
    exact ⟨_, 0, rfl, by rw [pow_zero, Int.mul_one]⟩
  · have hexponent : ((x.magnitude / 2 ^ 52 : Nat) : Int) - 1075 =
        ((x.magnitude / 2 ^ 52 - 1 : Nat) : Int) - lowest := by
      have hlowest : lowest = 1074 := rfl
      omega
    simp only [hfield, if_false, hexponent]
    refine ⟨_, _, rfl, ?_⟩
    cases x.negative with
    | true =>
        simp only [if_true, Nat.cast_mul, Nat.cast_pow, Nat.cast_ofNat]
        ring
    | false => simp

theorem infinite_or_finite (hx : x.isNaN = false) : x.magnitude = infinityWord ∧ x.isInfinite = true ∨
    x.magnitude < infinityWord ∧ x.isInfinite = false := by
  simp only [isInfinite, isNaN, decide_eq_true_eq, decide_eq_false_iff_not] at *
  omega

/-- A number is an integer if it is the same multiple. -/
theorem compareInt?_eq_iff (hx : x.isNaN = false) (i : Int) :
    x.compareInt? i = some .eq ↔ x.isInfinite = false ∧ x.units = i * 2 ^ lowest := by
  rw [compareInt?, hx, if_neg Bool.false_ne_true]
  by_cases hfinite : x.isFinite = true
  · obtain ⟨m, k, hdyadic, hunits⟩ := exists_dyadic hfinite
    have hne : (2 ^ k : Int) ≠ 0 := Int.pow_ne_zero (by decide)
    simp only [hdyadic, isInfinite_of_isFinite hfinite, hunits, true_and]
    split
    next hneg =>
      obtain ⟨n, hn⟩ : ∃ n, lowest = k + n := ⟨lowest - k, by omega⟩
      have hshift : (-((k : Int) - lowest)).toNat = n := by omega
      have hsplit : i * 2 ^ lowest = i * 2 ^ n * 2 ^ k := by
        rw [hn]
        ring
      rw [Option.some_inj, Int.compare_eq_eq, hshift, hsplit]
      exact (Int.mul_eq_mul_right_iff hne).symm
    next hpos =>
      obtain ⟨n, hn⟩ : ∃ n, k = lowest + n := ⟨k - lowest, by omega⟩
      have hshift : ((k : Int) - lowest).toNat = n := by omega
      have hne : (2 ^ lowest : Int) ≠ 0 := Int.pow_ne_zero (by decide)
      have hsplit : m * 2 ^ k = m * 2 ^ n * 2 ^ lowest := by
        rw [hn]
        ring
      rw [Option.some_inj, Int.compare_eq_eq, hshift, hsplit]
      exact (Int.mul_eq_mul_right_iff hne).symm
  · have hinfinite : x.isInfinite = true := by
      simp only [isFinite, isInfinite, isNaN, decide_eq_true_eq, decide_eq_false_iff_not] at *
      omega
    have hnone : x.dyadic? = none := if_neg hfinite
    rw [hnone, hinfinite]
    cases x.negative <;> simp

end Binary64

namespace Number

/-- The exact value of a number that is no NaN: a multiple of the least positive number, or the sign
of an infinity. -/
def exact : Number → Except Bool Int
  | .int i => .ok (i * 2 ^ Binary64.lowest)
  | .float x => if x.isInfinite then .error x.negative else .ok x.units

theorem exact_int_inj {i j : Int} : exact (.int i) = exact (.int j) ↔ i = j := by
  have hne : (2 ^ Binary64.lowest : Int) ≠ 0 := Int.pow_ne_zero (by decide)
  rw [exact, exact, Except.ok.injEq]
  exact Int.mul_eq_mul_right_iff hne

theorem compareInt?_eq_iff {x : Binary64} (hx : x.isNaN = false) (i : Int) :
    x.compareInt? i = some .eq ↔ exact (.float x) = exact (.int i) := by
  rw [Binary64.compareInt?_eq_iff hx, exact, exact]
  cases x.isInfinite <;> simp

/-- Two numbers are equal if their exact values are. -/
theorem compare?_eq_iff {x y : Number} (hx : x.isNaN = false) (hy : y.isNaN = false) :
    x.compare? y = some .eq ↔ x.exact = y.exact := by
  match x, y with
  | .int i, .int j => rw [compare?, Option.some_inj, Int.compare_eq_eq, exact_int_inj]
  | .float x, .int j => exact compareInt?_eq_iff hx j
  | .int i, .float y =>
      rw [eq_comm (a := exact (.int i)), ← compareInt?_eq_iff hy i, compare?]
      cases y.compareInt? i with
      | none => simp
      | some o => cases o <;> simp [Ordering.swap]
  | .float x, .float y =>
      simp only [isNaN] at hx hy
      simp only [compare?, Binary64.compare?, hx, hy, Bool.or_self, Bool.false_eq_true, if_false,
        Option.some_inj, Int.compare_eq_eq, exact]
      have hpos : 0 < Binary64.infinityWord := by decide
      rcases Binary64.infinite_or_finite hx with ⟨hxw, hxi⟩ | ⟨hxw, hxi⟩ <;>
        rcases Binary64.infinite_or_finite hy with ⟨hyw, hyi⟩ | ⟨hyw, hyi⟩ <;>
        simp only [hxi, hyi, if_true, Bool.false_eq_true, if_false]
      · rw [hxw, hyw]
        cases x.negative <;> cases y.negative <;> simp <;> omega
      · simp only [reduceCtorEq, iff_false]
        split <;> split <;> omega
      · simp only [reduceCtorEq, iff_false]
        split <;> split <;> omega
      · rw [Except.ok.injEq, Binary64.units_eq_iff]

/-- A NaN is equal to no number. -/
theorem compare?_eq_some_iff {x y : Number} : x.compare? y = some .eq ↔
    x.isNaN = false ∧ y.isNaN = false ∧ x.exact = y.exact := by
  by_cases hnan : x.isNaN = false ∧ y.isNaN = false
  · rw [compare?_eq_iff hnan.1 hnan.2]
    simp [hnan.1, hnan.2]
  · have hnone : x.compare? y = none := by
      match x, y with
      | .int i, .int j => exact absurd ⟨rfl, rfl⟩ hnan
      | .int i, .float y => simp_all [compare?, isNaN, Binary64.compareInt?]
      | .float x, .int j => simp_all [compare?, isNaN, Binary64.compareInt?]
      | .float x, .float y =>
          have hor : (x.isNaN || y.isNaN) = true := by
            simp only [isNaN] at hnan
            cases hx : x.isNaN <;> simp_all
          simp only [compare?, Binary64.compare?, hor, if_true]
    rw [hnone]
    exact ⟨nofun, fun h => absurd ⟨h.1, h.2.1⟩ hnan⟩

/-- Only the two zeros are different numbers with one value. -/
theorem eq_of_exact {x y : Binary64} (hx : x.isNaN = false) (hy : y.isNaN = false)
    (hxzero : x.isZero = true → x.negative = false) (hyzero : y.isZero = true → y.negative = false)
    (h : exact (.float x) = exact (.float y)) : x = y := by
  have hsame : x.negative = y.negative ∧ x.magnitude = y.magnitude := by
    simp only [exact] at h
    simp only [Binary64.isZero, decide_eq_true_eq] at hxzero hyzero
    rcases Binary64.infinite_or_finite hx with ⟨hxw, hxi⟩ | ⟨hxw, hxi⟩ <;>
      rcases Binary64.infinite_or_finite hy with ⟨hyw, hyi⟩ | ⟨hyw, hyi⟩ <;>
      simp only [hxi, hyi, if_true, Bool.false_eq_true, if_false, reduceCtorEq] at h
    · exact ⟨Except.error.inj h, hxw.trans hyw.symm⟩
    · have hkey := Binary64.units_eq_iff.mp (Except.ok.inj h)
      cases hxn : x.negative <;> cases hyn : y.negative <;>
        simp only [hxn, hyn, if_true, Bool.false_eq_true, if_false, reduceCtorEq, imp_false,
          true_and, false_and] at hkey hxzero hyzero ⊢ <;> omega
  rw [← Binary64.ofMagnitude_magnitude x, hsame.1, hsame.2, Binary64.ofMagnitude_magnitude]

/-- Whether binary64 has room for an integer. -/
def hasInt (i : Int) : Bool := (Binary64.ofRatio (i < 0) i.natAbs 1).compareInt? i = some .eq

theorem exact_ofRatio {i : Int} (h : hasInt i = true) :
    exact (.float (Binary64.ofRatio (i < 0) i.natAbs 1)) = exact (.int i) :=
  (compareInt?_eq_iff (Binary64.isNaN_ofRatio ..) i).mp (of_decide_eq_true h)

end Number

end Quasi
