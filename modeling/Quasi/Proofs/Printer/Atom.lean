import Quasi.Printer.Deparse
import Quasi.Proofs.Number.Written
import Quasi.Proofs.Reader.Lexing
import Quasi.Proofs.Reader.Grammar

/-!
# Atoms in their written form

The text of a constant, or of a name that stands between backquotes, is one token, and this token
reads as the constant or the symbol again.
-/

namespace Quasi

open Text Reader

/-! ## Texts between quotation marks -/

namespace Text.StringLiteral

theorem decode_cons {c : Char} {rest : List Char} (hc : c ≠ '\\') (hcontrol : isControl c = false) :
    decode (c :: rest) = (decode rest).map (c :: ·) := by
  rw [decode.eq_def]
  split
  next heq => cases heq
  next heq => cases heq; exact (hc rfl).elim
  next heq => cases heq; simp [hcontrol]

theorem decode_letter {letter c : Char} {rest : List Char} (hletter : letter? letter = some c)
    (hu : letter ≠ 'u') : decode ('\\' :: letter :: rest) = (decode rest).map (c :: ·) := by
  rw [decode.eq_def]
  simp only [hletter]

/-- The escape by a UTF-16 unit of a character below the surrogates. -/
theorem decode_unit {n : Nat} {rest units : List Char} (hunit : unit? units = some (n, rest))
    (hn : n < 0xd800) : decode ('\\' :: 'u' :: units) = (decode rest).map (Char.ofNat n :: ·) := by
  have hhigh : isHighSurrogate n = false := by simp [isHighSurrogate]; omega
  have hlow : isLowSurrogate n = false := by simp [isLowSurrogate]; omega
  have hescape : unitEscape? units = some (Char.ofNat n, rest) := by
    rw [unitEscape?, hunit]
    simp only [Option.bind_eq_bind, Option.bind_some, hhigh, Bool.false_and, Bool.false_eq_true,
      if_false, unitChar, hlow, Bool.or_self]
    split <;> rfl
  rw [decode.eq_def]
  simp only
  split
  next heq => rw [hescape] at heq; cases heq; rfl
  next heq => rw [hescape] at heq; cases heq

theorem unit?_hex {n : Nat} (hn : n < 0x20) (rest : List Char) :
    unit? (hex 4 n ++ rest) = some (n, rest) := by
  have hunit : ∀ n < 0x20, unit? (hex 4 n) = some (n, []) := by decide
  have hlength := length_hex 4 n
  have h := hunit n hn
  generalize hex 4 n = digits at *
  match digits, hlength with
  | [a, b, c, d], _ =>
      simp only [List.cons_append, List.nil_append, unit?, Option.bind_eq_bind,
        Option.bind_eq_some_iff] at h ⊢
      obtain ⟨a', ha, b', hb, c', hc, d', hd, heq⟩ := h
      cases heq
      exact ⟨a', ha, b', hb, c', hc, d', hd, rfl⟩

theorem decode_escape (c : Char) (rest : List Char) :
    decode ((escape? c).getD [c] ++ rest) = (decode rest).map (c :: ·) := by
  rw [escape?.eq_def]
  split
  · exact @decode_letter '"' _ rest rfl (by decide)
  · exact @decode_letter '\\' _ rest rfl (by decide)
  · exact @decode_letter 'n' _ rest rfl (by decide)
  · exact @decode_letter 'r' _ rest rfl (by decide)
  · exact @decode_letter 't' _ rest rfl (by decide)
  · exact @decode_letter 'b' _ rest rfl (by decide)
  · exact @decode_letter 'f' _ rest rfl (by decide)
  next hbackslash _ _ _ _ _ =>
    split
    next hcontrol =>
      have hlt : c.toNat < 0x20 := by simpa [isControl] using hcontrol
      have hdecode := decode_unit (unit?_hex hlt rest) (by omega)
      rw [Char.ofNat_toNat] at hdecode
      exact hdecode
    next hcontrol => exact decode_cons hbackslash (by simpa using hcontrol)

theorem decode_encode (text : List Char) : decode (encode text) = .ok text := by
  induction text with
  | nil => rw [encode, List.flatMap_nil, decode.eq_def]
  | cons c rest ih =>
      rw [encode, List.flatMap_cons, decode_escape, ← encode, ih]
      rfl

theorem encloses_of_chars {mark : Char} {text : List Char}
    (h : ∀ c ∈ text, c ≠ mark ∧ c ≠ '\\') : Encloses mark text := by
  induction text with
  | nil => exact encloses_nil
  | cons c rest ih =>
      obtain ⟨hmark, hbackslash⟩ := h c (by simp)
      exact (encloses_singleton hmark hbackslash).append (ih fun d hd => h d (by simp [hd]))

theorem encloses_escape? (c : Char) : Encloses '"' ((escape? c).getD [c]) := by
  rw [escape?.eq_def]
  split
  iterate 7 exact encloses_escape
  next hquote hbackslash _ _ _ _ _ =>
    split
    · refine encloses_escape.append (encloses_of_chars fun d hd => ?_)
      obtain ⟨place, -, rfl⟩ := List.mem_map.mp hd
      have hdigit : ∀ k < 16, Nat.digitChar k ≠ '"' ∧ Nat.digitChar k ≠ '\\' := by decide
      exact hdigit _ (Nat.mod_lt _ (by decide))
    · exact encloses_singleton hquote hbackslash

theorem spells_quote (text : String) :
    Spells (quote text).toList (Reads · (.const (.str text))) := by
  have hbody : Encloses '"' (encode text.toList) := Encloses.flatMap fun c _ => encloses_escape? c
  rw [quote, String.toList_ofList]
  refine spells_string hbody fun offset => ?_
  refine .string rfl ?_
  have hinner :
      Reader.inner (String.ofList ('"' :: encode text.toList ++ ['"'])) = encode text.toList := by
    simp [Reader.inner]
  rw [stringText?, hinner, decode_encode]
  simp [Except.map]

end Text.StringLiteral

/-! ## Names between backquotes -/

namespace Name

/-- What stands for a character between backquotes. -/
def escape (c : Char) : List Char := if c = '\\' ∨ c = backquote then ['\\', c] else [c]

theorem toList_backquoted (name : String) :
    (backquoted name).toList = backquote :: name.toList.flatMap escape ++ [backquote] := by
  rw [backquoted, String.toList_ofList]
  rfl

theorem unescape_cons {c : Char} (h : c ≠ '\\') (rest : List Char) :
    unescape (c :: rest) = c :: unescape rest := by
  rw [unescape.eq_def]
  split
  next heq => cases heq; exact (h rfl).elim
  next heq => cases heq; rfl
  next heq => cases heq

theorem unescape_escape (name : List Char) : unescape (name.flatMap escape) = name := by
  induction name with
  | nil => rfl
  | cons c rest ih =>
      rw [List.flatMap_cons, escape]
      split
      next h =>
        have hc : c ≠ '\n' := by rcases h with rfl | rfl <;> decide
        simp [unescape, hc, ih]
      next h =>
        rw [List.singleton_append, unescape_cons fun hc => h (.inl hc), ih]

theorem encloses_escape (c : Char) : Encloses backquote (escape c) := by
  rw [escape]
  split
  · exact Reader.encloses_escape
  next h => exact encloses_singleton (fun hc => h (.inr hc)) (fun hc => h (.inl hc))

theorem spells_backquoted (name : String) :
    Spells (backquoted name).toList (Reads · (.symbol name)) := by
  rw [toList_backquoted]
  refine Reader.spells_backquoted (Encloses.flatMap fun c _ => encloses_escape c) fun offset => ?_
  have hname : backquotedName
      (String.ofList (backquote :: name.toList.flatMap escape ++ [backquote])) = name := by
    simp [backquotedName, Reader.inner, unescape_escape]
  have hreads {text : String} (h : backquotedName text = name) :
      Reads [⟨.backquoted, text, offset⟩] (.symbol name) := by
    rw [← h]
    exact .backquoted rfl
  exact hreads hname

end Name

/-! ## Words -/

section Words

variable {word : String}

theorem spells_atom (hne : word.toList ≠ []) (hword : ∀ c ∈ word.toList, isWordChar c = true)
    (hblock : ¬ ['#', '|'] <+: word.toList) (hname : isArgumentName word.toList = false) :
    Spells word.toList (Reads · (atom word)) := by
  refine spells_word hne hword hblock fun offset => ?_
  rw [hname, String.ofList_toList]
  exact .word rfl

theorem spells_const {value : Value} (hword : ∀ c ∈ word.toList, isWordChar c = true)
    (hstart : ∃ c rest, word.toList = c :: rest ∧ c ≠ '#' ∧ c ≠ ':')
    (hatom : atom word = .const value) : Spells word.toList (Reads · (.const value)) := by
  obtain ⟨c, rest, heq, hblock, hcolon⟩ := hstart
  rw [← hatom]
  refine spells_atom (by simp [heq]) hword (fun h => hblock ?_)
    (by rw [heq, isArgumentName_cons hcolon])
  rw [heq] at h
  exact (List.cons_prefix_cons.mp h).1.symm

end Words

/-! ## Numbers -/

section Numbers

variable {word : String}

theorem literal?_written (h : Numeral.Written word.toList) : literal? word = none := by
  obtain ⟨c, rest, hsign, hc⟩ := h.head
  have hne (text : String) (d : Char) (others : List Char)
      (htext : (Numeral.sign text.toList).2 = d :: others) (hd : d.isDigit = false) :
      word ≠ text := by
    rintro rfl
    rw [hsign] at htext
    cases htext
    rw [hd] at hc
    cases hc
  rw [literal?, if_neg (hne _ _ _ rfl rfl), if_neg (hne _ _ _ rfl rfl), if_neg (hne _ _ _ rfl rfl),
    if_neg (hne _ _ _ rfl rfl), if_neg (hne _ _ _ rfl rfl), if_neg (hne _ _ _ rfl rfl)]

theorem spells_written {value : Value} (h : Numeral.Written word.toList)
    (hatom : atom word = .const value) : Spells word.toList (Reads · (.const value)) := by
  have hchar {c : Char} (hc : c.isDigit = true ∨ c ∈ Numeral.marks) :
      isWordChar c = true ∧ c ≠ '#' ∧ c ≠ ':' := by
    rcases hc with hc | hc
    · have hne (d : Char) (hd : d.isDigit = false) : c ≠ d := fun h => by
        rw [h, hd] at hc
        cases hc
      have hblank := isBlank_of_isDecimal (isDecimal_of_isDigit c hc)
      refine ⟨?_, hne '#' rfl, hne ':' rfl⟩
      simp [isWordChar, hblank, hne '(' rfl, hne ')' rfl, hne '\'' rfl, hne backquote rfl,
        hne '"' rfl, hne ',' rfl, hne ';' rfl]
    · have : ∀ c ∈ Numeral.marks, isWordChar c = true ∧ c ≠ '#' ∧ c ≠ ':' := by
        simp only [Numeral.marks, List.forall_mem_cons, List.not_mem_nil, false_implies,
          implies_true]
        decide
      exact this c hc
  refine spells_const (fun c hc => (hchar (h.chars c hc)).1) ?_ hatom
  obtain ⟨c, rest, heq⟩ := List.exists_cons_of_ne_nil (l := word.toList) (by
    obtain ⟨c, rest, hsign, -⟩ := h.head
    rintro heq
    rw [heq] at hsign
    cases hsign)
  exact ⟨c, rest, heq, (hchar (h.chars c (heq ▸ List.mem_cons_self))).2⟩

theorem spells_int (i : Int) : Spells (toString i).toList (Reads · (.const (.int i))) := by
  have hwritten := Numeral.written_toString i
  obtain ⟨n, hn, hintegral, hvalue⟩ := Numeral.read?_toString i
  refine spells_written hwritten ?_
  rw [atom, literal?_written hwritten]
  simp only [hn, hintegral, if_true, hvalue]

/-- A number that is no NaN reads back if its text denotes it, as far as it is finite. -/
theorem spells_num {x : Binary64} (hnan : x.isNaN = false)
    (hfinite : x.isFinite = true → Numeral.number? x.text = some x) :
    Spells x.literal.toList (Reads · (.const (.num x))) := by
  rw [Binary64.literal, if_neg (by simp [hnan])]
  by_cases hinfinite : x.isInfinite = true
  · rw [if_pos hinfinite, Binary64.eq_infinity hinfinite]
    cases x.negative with
    | false =>
        exact spells_const (List.all_eq_true.mp (by decide))
          ⟨'I', ['n', 'f'], rfl, by decide, by decide⟩ rfl
    | true =>
        exact spells_const (List.all_eq_true.mp (by decide))
          ⟨'-', ['I', 'n', 'f'], rfl, by decide, by decide⟩ rfl
  · have h : x.isFinite = true := by
      simp only [Binary64.isNaN, Binary64.isInfinite, Binary64.isFinite, decide_eq_true_eq,
        decide_eq_false_iff_not] at *
      omega
    obtain ⟨n, hn, hintegral, hvalue⟩ := Binary64.read?_text h (hfinite h)
    have hwritten := Binary64.written_text h
    rw [if_neg hinfinite]
    refine spells_written hwritten ?_
    rw [atom, literal?_written hwritten]
    simp only [hn, hintegral, Bool.false_eq_true, if_false, hvalue]

end Numbers

end Quasi
