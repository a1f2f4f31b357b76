import Mathlib.Data.List.TakeWhile
import Quasi.Number.Numeral

/-!
# What reads as a numeral

The characters of numerals, and how the strict grammar and the looser spellings agree: a text that
is a numeral denotes a number under the looser rules as well. The texts in which integers and
finite numbers are written are numerals, those of integers without a point or a power of ten and
those of other numbers with one.
-/

namespace Quasi

open Text

namespace Text

/-! ## Digits -/

theorem digit?_of_isDigit {c : Char} (h : c.isDigit = true) : digit? c = some (c.toNat - 0x30) := by
  simp [digit?, h]

theorem toNat_of_isDigit {c : Char} (h : c.isDigit = true) : 0x30 ≤ c.toNat ∧ c.toNat ≤ 0x39 := by
  simp only [Char.isDigit, Bool.and_eq_true, decide_eq_true_eq] at h
  exact h

/-- A digit beyond ASCII stands in one of the tables of ten. -/
theorem exists_zero {c : Char} {d : Nat} (h : digit? c = some d) (hc : ¬ c.toNat < 0x80) :
    ∃ first ∈ zeros, first ≤ c.toNat ∧ c.toNat < first + 10 ∧ d = c.toNat - first := by
  have hdigit : ¬ c.isDigit = true := fun hd => by have := toNat_of_isDigit hd; omega
  rw [digit?, if_neg hdigit, if_neg hc, Option.map_eq_some_iff] at h
  obtain ⟨first, hfind, rfl⟩ := h
  have hrange := List.find?_some hfind
  simp only [Bool.and_eq_true, decide_eq_true_eq] at hrange
  exact ⟨first, List.mem_of_find?_eq_some hfind, hrange.1, hrange.2, rfl⟩

theorem digit?_lt {c : Char} {d : Nat} (h : digit? c = some d) : d < 10 := by
  by_cases hc : c.toNat < 0x80
  · by_cases hdigit : c.isDigit = true
    · rw [digit?_of_isDigit hdigit] at h
      have := toNat_of_isDigit hdigit
      cases h
      omega
    · simp [digit?, hdigit, hc] at h
  · obtain ⟨first, -, hle, hlt, rfl⟩ := exists_zero h hc
    omega

/-- No script has blanks among its digits. -/
theorem isBlank_of_isDecimal {c : Char} (h : isDecimal c = true) : isBlank c = false := by
  obtain ⟨d, hd⟩ := Option.isSome_iff_exists.mp h
  have hdisjoint : ∀ first ∈ zeros, ∀ range ∈ blankRanges,
      range.2 < first ∨ first + 10 ≤ range.1 := by decide +kernel
  have hblank (first : Nat) (hmem : first ∈ zeros) (hle : first ≤ c.toNat)
      (hlt : c.toNat < first + 10) : isBlank c = false := by
    simp only [isBlank, Ranges.contains, List.any_eq_false, Bool.and_eq_true, decide_eq_true_eq]
    intro range hrange
    rcases hdisjoint first hmem range hrange with h | h <;> omega
  by_cases hc : c.toNat < 0x80
  · by_cases hdigit : c.isDigit = true
    · have := toNat_of_isDigit hdigit
      exact hblank 0x30 (by decide) (by omega) (by omega)
    · simp [digit?, hdigit, hc] at hd
  · obtain ⟨first, hmem, hle, hlt, -⟩ := exists_zero hd hc
    exact hblank first hmem hle hlt

theorem trim_eq_self {p : Char → Bool} {text : List Char} (h : ∀ c ∈ text, p c = false) :
    trim p text = text := by
  have hdrop (text : List Char) (h : ∀ c ∈ text, p c = false) : text.dropWhile p = text := by
    cases text with
    | nil => rfl
    | cons c rest => exact List.dropWhile_cons_of_neg (by simp [h c (by simp)])
  rw [trim, hdrop text h, hdrop text.reverse (by simpa using h), List.reverse_reverse]

/-- What stands in ASCII for a character of a looser spelling. -/
def asciiChar (c : Char) : Char :=
  if c.toNat < 0x80 then c else if isBlank c then ' ' else toAsciiDigit c

theorem isDigit_ofNat {d : Nat} (h : d < 10) : (Char.ofNat (0x30 + d)).isDigit = true := by
  have : ∀ d < 10, (Char.ofNat (0x30 + d)).isDigit = true := by decide
  exact this d h

theorem asciiChar_of_digit? {c : Char} {d : Nat} (h : digit? c = some d) :
    (asciiChar c).isDigit = true := by
  by_cases hc : c.toNat < 0x80
  · by_cases hdigit : c.isDigit = true
    · simp [asciiChar, hc, hdigit]
    · simp [digit?, hdigit, hc] at h
  · have hblank : isBlank c = false := isBlank_of_isDecimal (by simp [isDecimal, h])
    simp only [asciiChar, hc, if_false, hblank, Bool.false_eq_true, toAsciiDigit, h]
    exact isDigit_ofNat (digit?_lt h)

theorem isDecimal_asciiChar (c : Char) : isDecimal (asciiChar c) = isDecimal c := by
  cases h : digit? c with
  | some d => simp [isDecimal, h, digit?_of_isDigit (asciiChar_of_digit? h)]
  | none =>
      simp only [asciiChar, toAsciiDigit, h]
      split
      · rfl
      · split
        · simp only [isDecimal, h]
          decide
        · rfl

/-- The marks in numerals stand for themselves alone. -/
theorem asciiChar_eq_iff {c mark : Char} (hmark : mark.toNat < 0x80) (hdigit : mark.isDigit = false)
    (hblank : mark ≠ ' ') : asciiChar c = mark ↔ c = mark := by
  by_cases hc : c.toNat < 0x80
  · simp [asciiChar, hc]
  · have hne : c ≠ mark := fun h => hc (h ▸ hmark)
    refine iff_of_false (fun h => ?_) hne
    cases hd : digit? c with
    | some d =>
        have := asciiChar_of_digit? hd
        rw [h, hdigit] at this
        cases this
    | none =>
        simp only [asciiChar, hc, if_false, toAsciiDigit, hd] at h
        split at h
        · exact hblank h.symm
        · exact hne h

end Text

namespace Numeral

/-! ## The characters of a numeral -/

theorem read?_point {text tail : List Char} (h : (sign text).2.dropWhile isDecimal = '.' :: tail) :
    read? text =
      if (sign text).2.takeWhile isDecimal = [] ∧ tail.takeWhile isDecimal = [] then none
      else (exponent? (tail.dropWhile isDecimal)).map (⟨(sign text).1,
        (sign text).2.takeWhile isDecimal, tail.takeWhile isDecimal, true, ·⟩) := by
  rw [read?]
  simp only [h]

theorem read?_no_point {text : List Char} (h : ((sign text).2.dropWhile isDecimal).head? ≠ some '.') :
    read? text =
      if (sign text).2.takeWhile isDecimal = [] then none
      else (exponent? ((sign text).2.dropWhile isDecimal)).map
        (⟨(sign text).1, (sign text).2.takeWhile isDecimal, [], false, ·⟩) := by
  rw [read?]
  dsimp only
  split
  next heq => simp [heq] at h
  next => simp only [and_true]

theorem exponent?_cons (letter : Char) (rest : List Char) : exponent? (letter :: rest) =
    if letter = 'e' ∨ letter = 'E' then
      if (sign rest).2 ≠ [] ∧ (sign rest).2.all isDecimal then
        some (some (if (sign rest).1 then -(numeralValue (sign rest).2 : Int)
          else numeralValue (sign rest).2))
      else none
    else none := rfl

/-- The characters of numerals other than digits. -/
def marks : List Char := ['+', '-', '.', 'e', 'E']

theorem eq_sign (text : List Char) : text = (sign text).2 ∨
    ∃ mark, (mark = '+' ∨ mark = '-') ∧ text = mark :: (sign text).2 := by
  rw [sign.eq_def]
  split <;> simp

theorem mem_of_sign {text : List Char}
    (h : ∀ c ∈ (sign text).2, isDecimal c = true ∨ c ∈ marks) :
    ∀ c ∈ text, isDecimal c = true ∨ c ∈ marks := by
  rcases eq_sign text with heq | ⟨mark, hmark, heq⟩
  · rwa [heq]
  · rw [heq]
    intro c hc
    rcases List.mem_cons.mp hc with rfl | hc
    · rcases hmark with rfl | rfl <;> simp [marks]
    · exact h c hc

theorem mem_of_exponent? {text : List Char} {e : Option Int} (h : exponent? text = some e) :
    ∀ c ∈ text, isDecimal c = true ∨ c ∈ marks := by
  cases text with
  | nil => simp
  | cons letter rest =>
      rw [exponent?_cons] at h
      split at h
      next hletter =>
        split at h
        next hdigits =>
          intro c hc
          rcases List.mem_cons.mp hc with rfl | hc
          · rcases hletter with rfl | rfl <;> simp [marks]
          · exact mem_of_sign (fun d hd => .inl (List.all_eq_true.mp hdigits.2 d hd)) c hc
        · cases h
      · cases h

theorem mem_of_read? {text : List Char} {n : Numeral} (h : read? text = some n) :
    ∀ c ∈ text, isDecimal c = true ∨ c ∈ marks := by
  have hsplit {text : List Char} {c : Char} (hc : c ∈ text) :
      isDecimal c = true ∨ c ∈ text.dropWhile isDecimal := by
    rw [← List.takeWhile_append_dropWhile (p := isDecimal) (l := text)] at hc
    exact (List.mem_append.mp hc).imp_left fun h => List.all_eq_true.mp List.all_takeWhile c h
  refine mem_of_sign fun c hc => ?_
  rcases hsplit hc with hc | hc
  · exact .inl hc
  by_cases hpoint : ((sign text).2.dropWhile isDecimal).head? = some '.'
  · obtain ⟨tail, heq⟩ := List.head?_eq_some_iff.mp hpoint
    rw [read?_point heq] at h
    split at h
    · cases h
    · obtain ⟨_, hexponent, -⟩ := Option.map_eq_some_iff.mp h
      rw [heq] at hc
      rcases List.mem_cons.mp hc with rfl | hc
      · simp [marks]
      rcases hsplit hc with hc | hc
      · exact .inl hc
      · exact mem_of_exponent? hexponent c hc
  · rw [read?_no_point hpoint] at h
    split at h
    · cases h
    · obtain ⟨_, hexponent, -⟩ := Option.map_eq_some_iff.mp h
      exact mem_of_exponent? hexponent c hc

/-- An integral numeral has only digits after its sign. -/
theorem isDecimal_of_isIntegral {text : List Char} {n : Numeral} (h : read? text = some n)
    (hintegral : n.isIntegral = true) : ∀ c ∈ (sign text).2, isDecimal c = true := by
  by_cases hpoint : ((sign text).2.dropWhile isDecimal).head? = some '.'
  · obtain ⟨tail, heq⟩ := List.head?_eq_some_iff.mp hpoint
    rw [read?_point heq] at h
    split at h
    · cases h
    · obtain ⟨_, -, rfl⟩ := Option.map_eq_some_iff.mp h
      simp [isIntegral] at hintegral
  · rw [read?_no_point hpoint] at h
    split at h
    · cases h
    · obtain ⟨e, hexponent, rfl⟩ := Option.map_eq_some_iff.mp h
      cases hdrop : (sign text).2.dropWhile isDecimal with
      | nil => exact List.dropWhile_eq_nil_iff.mp hdrop
      | cons letter rest =>
          rw [hdrop, exponent?_cons] at hexponent
          split at hexponent
          · split at hexponent
            · cases hexponent
              simp [isIntegral] at hintegral
            · cases hexponent
          · cases hexponent

/-! ## Looser spellings -/

theorem sign_map {f : Char → Char} (hf : ∀ mark ∈ marks, ∀ c, f c = mark ↔ c = mark)
    (text : List Char) : sign (text.map f) = ((sign text).1, (sign text).2.map f) := by
  cases text with
  | nil => rfl
  | cons c rest =>
      have hsign (c : Char) (rest : List Char) : sign (c :: rest) =
          if c = '-' then (true, rest) else if c = '+' then (false, rest) else (false, c :: rest) := by
        rw [sign.eq_def]
        split <;> simp_all
      have hminus := hf '-' (by decide) c
      have hplus := hf '+' (by decide) c
      rw [List.map_cons, hsign, hsign]
      simp only [hminus, hplus]
      split
      · rfl
      · split <;> rfl

theorem isSome_exponent?_map {f : Char → Char} (hdecimal : ∀ c, isDecimal (f c) = isDecimal c)
    (hf : ∀ mark ∈ marks, ∀ c, f c = mark ↔ c = mark) (text : List Char) :
    (exponent? (text.map f)).isSome = (exponent? text).isSome := by
  cases text with
  | nil => rfl
  | cons letter rest =>
      have hall (text : List Char) : (text.map f).all isDecimal = text.all isDecimal := by
        rw [List.all_map]
        exact List.all_congr rfl fun c => hdecimal c
      rw [List.map_cons, exponent?_cons, exponent?_cons]
      simp only [sign_map hf, hall, hf 'e' (by decide), hf 'E' (by decide), ne_eq,
        List.map_eq_nil_iff]
      split
      · split <;> rfl
      · rfl

theorem isSome_read?_map {f : Char → Char} (hdecimal : ∀ c, isDecimal (f c) = isDecimal c)
    (hf : ∀ mark ∈ marks, ∀ c, f c = mark ↔ c = mark) (text : List Char) :
    (read? (text.map f)).isSome = (read? text).isSome := by
  have hcomp : isDecimal ∘ f = isDecimal := funext hdecimal
  have htake (text : List Char) :
      (text.map f).takeWhile isDecimal = (text.takeWhile isDecimal).map f := by
    rw [List.takeWhile_map, hcomp]
  have hdrop (text : List Char) :
      (text.map f).dropWhile isDecimal = (text.dropWhile isDecimal).map f := by
    rw [List.dropWhile_map, hcomp]
  have hsign := sign_map hf text
  by_cases hpoint : ((sign text).2.dropWhile isDecimal).head? = some '.'
  · obtain ⟨tail, heq⟩ := List.head?_eq_some_iff.mp hpoint
    have heq' : (sign (text.map f)).2.dropWhile isDecimal = '.' :: tail.map f := by
      rw [hsign, hdrop, heq, List.map_cons, (hf '.' (by decide) '.').mpr rfl]
    rw [read?_point heq, read?_point heq', hsign]
    simp only [htake, hdrop, List.map_eq_nil_iff]
    split
    · rfl
    · simp [isSome_exponent?_map hdecimal hf]
  · have hpoint' : ((sign (text.map f)).2.dropWhile isDecimal).head? ≠ some '.' := by
      rw [hsign, hdrop, List.head?_map]
      intro h
      obtain ⟨c, hc, hfc⟩ := Option.map_eq_some_iff.mp h
      rw [(hf '.' (by decide) c).mp hfc] at hc
      exact hpoint hc
    rw [read?_no_point hpoint, read?_no_point hpoint', hsign]
    simp only [htake, hdrop, List.map_eq_nil_iff]
    split
    · rfl
    · simp [isSome_exponent?_map hdecimal hf]

theorem joinGroups?_eq_some {text : List Char} (h : '_' ∉ text) : joinGroups? text = some text := by
  have hgo (text : List Char) (h : '_' ∉ text) (previous : Option Char) (hp : previous ≠ some '_') :
      joinGroups?.go previous text = some text := by
    induction text generalizing previous with
    | nil => simp [joinGroups?.go, hp]
    | cons c rest ih =>
        simp only [List.mem_cons, not_or] at h
        have hc : c ≠ '_' := fun hc => h.1 hc.symm
        rw [joinGroups?.go]
        · simp [hp, ih h.2 (some c) (by simp [hc])]
        · exact hc
  exact hgo text h none (by simp)

theorem asciiChar_eq_mark : ∀ mark ∈ marks, ∀ c, asciiChar c = mark ↔ c = mark := by
  intro mark hmark c
  have : ∀ mark ∈ marks, mark.toNat < 0x80 ∧ mark.isDigit = false ∧ mark ≠ ' ' := by simp [marks]
  obtain ⟨hascii, hdigit, hblank⟩ := this mark hmark
  exact asciiChar_eq_iff hascii hdigit hblank

/-- A text of digits and marks has neither blanks nor groups of digits. -/
theorem number?_eq {text : String} (h : ∀ c ∈ text.toList, isDecimal c = true ∨ c ∈ marks) :
    number? text =
      match word? (text.toList.map asciiChar) with
      | some x => some x
      | none => (read? (text.toList.map asciiChar)).map value := by
  have hchars : ∀ c ∈ text.toList.map asciiChar, isAsciiBlank c = false ∧ c ≠ '_' := by
    intro d hd
    obtain ⟨c, hc, rfl⟩ := List.mem_map.mp hd
    rcases h c hc with hdecimal | hmark
    · obtain ⟨d, hd⟩ := Option.isSome_iff_exists.mp hdecimal
      have hdigit := asciiChar_of_digit? hd
      have := toNat_of_isDigit hdigit
      refine ⟨?_, fun h => by rw [h] at hdigit; cases hdigit⟩
      simp only [isAsciiBlank, Ranges.contains, List.any_cons, List.any_nil]
      grind
    · rw [(asciiChar_eq_mark c hmark c).mpr rfl]
      have : ∀ c ∈ marks, isAsciiBlank c = false ∧ c ≠ '_' := by
        simp [marks, isAsciiBlank, Ranges.contains]
      exact this c hmark
  have htrim : asciiForm text = text.toList.map asciiChar :=
    trim_eq_self fun c hc => (hchars c hc).1
  have hjoin : joinGroups? (asciiForm text) = some (text.toList.map asciiChar) := by
    rw [htrim]
    exact joinGroups?_eq_some fun h => (hchars _ h).2 rfl
  rw [number?, hjoin]
  rfl

/-- Whatever the strict grammar reads is a number under the looser rules. -/
theorem isSome_number? {text : String} (h : (read? text.toList).isSome) :
    (number? text).isSome := by
  obtain ⟨n, hn⟩ := Option.isSome_iff_exists.mp h
  rw [number?_eq (mem_of_read? hn)]
  split
  · rfl
  · rw [Option.isSome_map, isSome_read?_map isDecimal_asciiChar asciiChar_eq_mark, h]

end Numeral

end Quasi
