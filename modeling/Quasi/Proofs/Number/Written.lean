import Quasi.Proofs.Number.Numeral

/-!
# How numbers are written

The text of an integer is a numeral that denotes the integer. The text of a finite number has a
digit in front, after its sign, and a point or a power of ten further on, so it never reads as an
integer and is no other word. Numerals denote finite numbers and the infinities only.
-/

namespace Quasi

open Text

namespace Numeral

/-! ## Integers -/

theorem numeralValue_toDigits (n : Nat) : numeralValue (Nat.toDigits 10 n) = n := by
  have hfold (digits : List Char) (h : ∀ c ∈ digits, c.isDigit = true) (start : Nat) :
      digits.foldl (fun value c => 10 * value + (digit? c).getD 0) start =
        Nat.ofDigitChars 10 digits start := by
    induction digits generalizing start with
    | nil => rfl
    | cons c rest ih =>
        rw [List.foldl_cons, digit?_of_isDigit (h c (by simp)), ih fun d hd => h d (by simp [hd])]
        rfl
  rw [numeralValue, hfold _ (fun c hc => Nat.isDigit_of_mem_toDigits (by decide) (by decide) hc) 0,
    Nat.ofDigitChars_ten_toDigits]

theorem sign_of_isDigit {c : Char} {rest : List Char} (h : c.isDigit = true) :
    sign (c :: rest) = (false, c :: rest) := by
  rw [sign.eq_def]
  split
  next heq => cases heq; cases h
  next heq => cases heq; cases h
  · rfl

theorem read?_digits {text digits : List Char} {negative : Bool}
    (hsign : sign text = (negative, digits)) (hne : digits ≠ [])
    (hdigits : ∀ c ∈ digits, isDecimal c = true) :
    read? text = some ⟨negative, digits, [], false, none⟩ := by
  have htake : digits.takeWhile isDecimal = digits := List.takeWhile_eq_self_iff.mpr hdigits
  have hdrop : digits.dropWhile isDecimal = [] := List.dropWhile_eq_nil_iff.mpr hdigits
  rw [read?_no_point (by simp [hsign, hdrop])]
  simp [hsign, htake, hdrop, hne, exponent?]

theorem toList_toString (i : Int) : (toString i).toList =
    if 0 ≤ i then Nat.toDigits 10 i.natAbs else '-' :: Nat.toDigits 10 i.natAbs := by
  rw [Int.toString_eq_repr, Int.repr_eq_if]
  split
  next h =>
    rw [Nat.repr_eq_ofList_toDigits, String.toList_ofList, show i.toNat = i.natAbs by omega]
  next h =>
    rw [Nat.repr_eq_ofList_toDigits, show (-i).toNat = i.natAbs by omega]
    simp

theorem isDigit_of_mem_toDigits {n : Nat} {c : Char} (h : c ∈ Nat.toDigits 10 n) :
    c.isDigit = true :=
  Nat.isDigit_of_mem_toDigits (by decide) (by decide) h

/-- A digit after the sign, if there is one, and nothing but digits and marks. -/
structure Written (text : List Char) : Prop where
  head : ∃ c rest, (sign text).2 = c :: rest ∧ c.isDigit = true
  chars : ∀ c ∈ text, c.isDigit = true ∨ c ∈ marks

theorem head_toDigits (n : Nat) : ∃ c rest, Nat.toDigits 10 n = c :: rest ∧ c.isDigit = true := by
  obtain ⟨c, rest, h⟩ := List.exists_cons_of_ne_nil (Nat.toDigits_ne_nil (n := n) (b := 10))
  exact ⟨c, rest, h, isDigit_of_mem_toDigits (h ▸ List.mem_cons_self)⟩

theorem sign_toString (i : Int) :
    sign (toString i).toList = (decide (i < 0), Nat.toDigits 10 i.natAbs) := by
  obtain ⟨c, rest, heq, hc⟩ := head_toDigits i.natAbs
  rw [toList_toString]
  split
  next h => rw [heq, sign_of_isDigit hc, decide_eq_false (by omega)]
  next h => rw [decide_eq_true (by omega)]; rfl

theorem written_toString (i : Int) : Written (toString i).toList := by
  refine ⟨by rw [sign_toString]; exact head_toDigits i.natAbs, fun c hc => ?_⟩
  rw [toList_toString] at hc
  split at hc
  · exact .inl (isDigit_of_mem_toDigits hc)
  · rcases List.mem_cons.mp hc with rfl | hc
    · exact .inr (by decide)
    · exact .inl (isDigit_of_mem_toDigits hc)

/-- The text of an integer is read back as the integer. -/
theorem read?_toString (i : Int) : ∃ n, read? (toString i).toList = some n ∧
    n.isIntegral = true ∧ n.intValue = i := by
  refine ⟨_, read?_digits (sign_toString i) Nat.toDigits_ne_nil fun c hc =>
    isDecimal_of_isDigit c (isDigit_of_mem_toDigits hc), rfl, ?_⟩
  simp only [intValue, numeralValue_toDigits, decide_eq_true_eq]
  split <;> omega

end Numeral

/-! ## Other numbers -/

/-- A digit in front and a point or a power of ten further on, and nothing but digits and marks. -/
structure Pointed (body : List Char) : Prop where
  head : ∃ c rest, body = c :: rest ∧ c.isDigit = true
  mark : '.' ∈ body ∨ 'e' ∈ body
  chars : ∀ c ∈ body, c.isDigit = true ∨ c ∈ Numeral.marks

namespace Decimal

theorem isDigit_of_mem_text {d : Decimal} {c : Char} (h : c ∈ d.text) : c.isDigit = true :=
  Numeral.isDigit_of_mem_toDigits h

theorem chars_exponentText (exponent : Int) :
    ∀ c ∈ exponentText exponent, c.isDigit = true ∨ c ∈ Numeral.marks := by
  intro c hc
  simp only [exponentText, List.cons_append, List.mem_cons, List.mem_append,
    List.mem_replicate] at hc
  rcases hc with rfl | rfl | ⟨-, rfl⟩ | hc
  · decide
  · split <;> decide
  · decide
  · exact .inl (Numeral.isDigit_of_mem_toDigits hc)

theorem pointed_positional (d : Decimal) : Pointed (d.positional.1 ++ '.' ::
    (if d.positional.2 = [] then ['0'] else d.positional.2)) := by
  have hne : d.text ≠ [] := Nat.toDigits_ne_nil
  have hdigits {c : Char} (hc : c ∈ d.text) : c.isDigit = true := isDigit_of_mem_text hc
  have hhead : ∃ c rest, d.positional.1 = c :: rest := by
    refine List.exists_cons_of_ne_nil ?_
    rw [positional]
    split
    · simp
    · have := List.length_pos_iff.mpr hne
      simp only [ne_eq, List.append_eq_nil_iff, List.take_eq_nil_iff, hne, or_false]
      omega
  have hfirst : ∀ c ∈ d.positional.1, c.isDigit = true := by
    intro c hc
    rw [positional] at hc
    split at hc
    · cases hc
      · rfl
      next h => cases h
    · rcases List.mem_append.mp hc with hc | hc
      · exact hdigits (List.mem_of_mem_take hc)
      · rw [(List.mem_replicate.mp hc).2]
        rfl
  have hsecond : ∀ c ∈ d.positional.2, c.isDigit = true := by
    intro c hc
    rw [positional] at hc
    split at hc
    · rcases List.mem_append.mp hc with hc | hc
      · rw [(List.mem_replicate.mp hc).2]
        rfl
      · exact hdigits hc
    · exact hdigits (List.mem_of_mem_drop hc)
  obtain ⟨c, rest, heq⟩ := hhead
  refine ⟨⟨c, rest ++ '.' :: _, by rw [heq]; rfl, hfirst c (heq ▸ List.mem_cons_self)⟩,
    .inl (by simp), fun e he => ?_⟩
  rcases List.mem_append.mp he with he | he
  · exact .inl (hfirst e he)
  rcases List.mem_cons.mp he with rfl | he
  · exact .inr (by decide)
  split at he
  · exact .inl (by rw [List.mem_singleton.mp he]; rfl)
  · exact .inl (hsecond e he)

end Decimal

namespace Binary64

theorem isNaN_of_isFinite {x : Binary64} (h : x.isFinite = true) : x.isNaN = false := by
  simp only [isFinite, isNaN, decide_eq_true_eq, decide_eq_false_iff_not] at *
  omega

theorem isInfinite_of_isFinite {x : Binary64} (h : x.isFinite = true) : x.isInfinite = false := by
  simp only [isFinite, isInfinite, decide_eq_true_eq, decide_eq_false_iff_not] at *
  omega

theorem pointed_text {x : Binary64} (h : x.isFinite = true) : ∃ body, Pointed body ∧
    x.text.toList = if x.negative then '-' :: body else body := by
  rw [text]
  simp only [isNaN_of_isFinite h, isInfinite_of_isFinite h, Bool.false_eq_true, if_false,
    String.toList_ofList]
  refine ⟨_, ?_, rfl⟩
  split
  · have hdigits {c : Char} (hc : c ∈ x.shortest.text) : c.isDigit = true :=
      Decimal.isDigit_of_mem_text hc
    have hexponent := Decimal.chars_exponentText (x.shortest.point - 1)
    split
    next first heq =>
      refine ⟨⟨first, _, rfl, hdigits (heq ▸ List.mem_cons_self)⟩, .inr ?_, fun c hc => ?_⟩
      · simp [Decimal.exponentText]
      · rcases List.mem_cons.mp hc with rfl | hc
        · exact .inl (hdigits (heq ▸ List.mem_cons_self))
        · exact hexponent c hc
    next first others _ heq =>
      refine ⟨⟨first, _, rfl, hdigits (heq ▸ List.mem_cons_self)⟩, .inl ?_, fun c hc => ?_⟩
      · simp
      · simp only [List.cons_append, List.mem_cons, List.mem_append] at hc
        rcases hc with rfl | rfl | hc | hc
        · exact .inl (hdigits (heq ▸ List.mem_cons_self))
        · exact .inr (by decide)
        · exact .inl (hdigits (heq ▸ List.mem_cons_of_mem _ hc))
        · exact hexponent c hc
    next heq => exact (Nat.toDigits_ne_nil heq).elim
  · exact x.shortest.pointed_positional

theorem sign_text {x : Binary64} {body : List Char} (hbody : Pointed body)
    (h : x.text.toList = if x.negative then '-' :: body else body) :
    Numeral.sign x.text.toList = (x.negative, body) := by
  obtain ⟨c, rest, rfl, hc⟩ := hbody.head
  rw [h]
  cases x.negative with
  | true => rfl
  | false => exact Numeral.sign_of_isDigit hc

theorem written_text {x : Binary64} (h : x.isFinite = true) : Numeral.Written x.text.toList := by
  obtain ⟨body, hbody, htext⟩ := pointed_text h
  refine ⟨by rw [sign_text hbody htext]; exact hbody.head, ?_⟩
  rw [htext]
  split
  · intro c hc
    rcases List.mem_cons.mp hc with rfl | hc
    · exact .inr (by decide)
    · exact hbody.chars c hc
  · exact hbody.chars

/-- If the looser rules give a number for the text of a finite number, the text is a numeral for
it, and not one of an integer. -/
theorem read?_text {x y : Binary64} (h : x.isFinite = true)
    (hnumber : Numeral.number? x.text = some y) : ∃ n, Numeral.read? x.text.toList = some n ∧
      n.isIntegral = false ∧ n.value = y := by
  obtain ⟨body, hbody, htext⟩ := pointed_text h
  have hsign := sign_text hbody htext
  have hchars := (written_text h).chars
  have hascii : x.text.toList.map asciiChar = x.text.toList := by
    refine (List.map_congr_left fun c hc => ?_).trans (List.map_id _)
    rw [asciiChar, if_pos, id]
    rcases hchars c hc with hdigit | hmark
    · have := toNat_of_isDigit hdigit
      omega
    · have : ∀ c ∈ Numeral.marks, c.toNat < 0x80 := by simp [Numeral.marks]
      exact this c hmark
  have hword : Numeral.word? x.text.toList = none := by
    obtain ⟨c, rest, rfl, hc⟩ := hbody.head
    have hlower : c.toLower = c := by
      have hlt := (toNat_of_isDigit hc).2
      refine dif_neg fun h => ?_
      have hle : 0x41 ≤ c.toNat := UInt32.le_iff_toNat_le.mp h.1
      omega
    have hne (d : Char) (letters : List Char) (hd : d.isDigit = false) :
        String.ofList ((c :: rest).map Char.toLower) ≠ String.ofList (d :: letters) := by
      rw [ne_eq, String.ofList_inj, List.map_cons, hlower, List.cons.injEq]
      rintro ⟨rfl, -⟩
      rw [hd] at hc
      cases hc
    simp only [Numeral.word?, hsign]
    rw [if_neg (not_or.mpr ⟨hne 'i' _ rfl, hne 'i' _ rfl⟩), if_neg (hne 'n' _ rfl)]
  rw [Numeral.number?_eq fun c hc => (hchars c hc).imp_left (isDecimal_of_isDigit c), hascii,
    hword] at hnumber
  obtain ⟨n, hn, hvalue⟩ := Option.map_eq_some_iff.mp hnumber
  refine ⟨n, hn, ?_, hvalue⟩
  by_contra hintegral
  have hall := Numeral.isDecimal_of_isIntegral hn (by simpa using hintegral)
  rw [hsign] at hall
  rcases hbody.mark with hmark | hmark
  · exact absurd (hall _ hmark) (by decide)
  · exact absurd (hall _ hmark) (by decide)

/-! ## Words -/

theorem magnitude_ofMagnitude {negative : Bool} {m : Nat} (h : m < Nat.pow 2 63) :
    (ofMagnitude negative m).magnitude = m := by
  have h63 : Nat.pow 2 63 = 9223372036854775808 := rfl
  rw [magnitude, ofMagnitude, UInt64.toNat_ofNat']
  rw [h63] at h ⊢
  cases negative <;> simp <;> omega

theorem ofMagnitude_magnitude (x : Binary64) : ofMagnitude x.negative x.magnitude = x := by
  have h63 : Nat.pow 2 63 = 9223372036854775808 := rfl
  have hlt := x.bits.toNat_lt
  rcases x with ⟨bits⟩
  simp only [ofMagnitude, magnitude, negative, h63, decide_eq_true_eq, mk.injEq] at *
  apply UInt64.toNat.inj
  rw [UInt64.toNat_ofNat']
  split <;> omega

theorem eq_infinity {x : Binary64} (h : x.isInfinite = true) : x = infinity x.negative := by
  rw [isInfinite, decide_eq_true_eq] at h
  rw [infinity, ← h, ofMagnitude_magnitude]

theorem isNaN_ofMagnitude {negative : Bool} {m : Nat} (h : m ≤ infinityWord) :
    (ofMagnitude negative m).isNaN = false := by
  have hlt : m < Nat.pow 2 63 := Nat.lt_of_le_of_lt h (by decide)
  rw [isNaN, magnitude_ofMagnitude hlt, decide_eq_false_iff_not]
  omega

theorem isNaN_ofRatio (negative : Bool) (num den : Nat) :
    (ofRatio negative num den).isNaN = false := by
  rw [ofRatio]
  split
  · exact isNaN_ofMagnitude (Nat.zero_le _)
  · exact isNaN_ofMagnitude (Nat.min_le_left _ _)

end Binary64

theorem Numeral.isNaN_value (n : Numeral) : n.value.isNaN = false := by
  rw [value, round]
  split
  · exact Binary64.isNaN_ofMagnitude (Nat.zero_le _)
  · split
    · exact Binary64.isNaN_ofMagnitude (Nat.le_refl _)
    · split <;> exact Binary64.isNaN_ofRatio _ _ _

end Quasi
