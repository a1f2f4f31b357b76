import Mathlib.Data.List.Infix
import Quasi.Reader.Token

/-!
# Lexing piece by piece

What the lexer does with a text that is put together from pieces. A piece spells the tokens it is
read as whenever the text after it does not go on with the characters of a word, so pieces can be
joined without looking at the lexer again. Conversely every token of a source is a part of it, and
its characters are those of its kind.
-/

namespace Quasi.Reader

open Text

/-- The stream with more tokens in front. -/
def TokenStream.prepend (tokens : List Token) (stream : TokenStream) : TokenStream :=
  ⟨tokens ++ stream.tokens, stream.fault⟩

@[simp] theorem TokenStream.prepend_nil (stream : TokenStream) : stream.prepend [] = stream := rfl

@[simp] theorem TokenStream.prepend_prepend (front back : List Token) (stream : TokenStream) :
    (stream.prepend back).prepend front = stream.prepend (front ++ back) := by
  simp [TokenStream.prepend]

/-! ## One step -/

section Step

variable {total : Nat} {c : Char} {text rest : List Char}

/-- The lexer without the lengths that make it end. -/
theorem lexFrom_eq (total : Nat) (text : List Char) : lexFrom total text =
    match skipGap text with
    | .error rest => ⟨[], some (.openComment (total - rest.length))⟩
    | .ok [] => ⟨[], none⟩
    | .ok (c :: rest) =>
        match scan? (c :: rest) with
        | none => ⟨[], some (.character c (total - (rest.length + 1)))⟩
        | some (kind, n) => (lexFrom total ((c :: rest).drop n)).prepend
            [⟨kind, String.ofList ((c :: rest).take n), total - (rest.length + 1)⟩] := by
  rw [lexFrom.eq_def]
  split
  next h => simp only [h]
  next h => simp only [h]
  next h =>
    simp only [h]
    split
    next hs => simp only [hs]
    next hs => simp only [hs, TokenStream.prepend, List.cons_append, List.nil_append]

theorem lexFrom_nil (total : Nat) : lexFrom total [] = ⟨[], none⟩ := by
  rw [lexFrom_eq, skipGap.eq_def]

theorem skipGap_blank (h : isBlank c = true) : skipGap (c :: rest) = skipGap rest := by
  rw [skipGap.eq_def]
  split
  next heq => cases heq
  next heq => cases heq; exact absurd h (by decide)
  next heq => cases heq; exact absurd h (by decide)
  next heq => cases heq; rw [if_pos h]

/-- Whether a token can start here: no blank stands here, and no comment starts. -/
def StartsToken (text : List Char) : Prop :=
  ∃ c rest, text = c :: rest ∧ isBlank c = false ∧ c ≠ ';' ∧ ¬ ['#', '|'] <+: text

theorem StartsToken.skipGap (h : StartsToken text) : skipGap text = .ok text := by
  obtain ⟨c, rest, rfl, hblank, hline, hblock⟩ := h
  rw [Reader.skipGap.eq_def]
  split
  next heq => cases heq
  next heq => cases heq; exact (hline rfl).elim
  next heq => cases heq; exact (hblock ⟨_, rfl⟩).elim
  next heq => cases heq; simp [hblank]

theorem lexFrom_blank (h : isBlank c = true) : lexFrom total (c :: rest) = lexFrom total rest := by
  rw [lexFrom_eq, lexFrom_eq total rest, skipGap_blank h]

theorem lexFrom_scan {kind : TokenKind} {n : Nat} (h : StartsToken text)
    (hscan : scan? text = some (kind, n)) : lexFrom total text =
      (lexFrom total (text.drop n)).prepend
        [⟨kind, String.ofList (text.take n), total - text.length⟩] := by
  rw [lexFrom_eq, h.skipGap]
  obtain ⟨c, rest, rfl, -⟩ := h
  simp only [hscan, List.length_cons]

end Step

/-! ## Pieces -/

/-- The text does not go on with a character of a word. -/
def Delimited (rest : List Char) : Prop := ∀ c ∈ rest.head?, isWordChar c = false

/-- What a token is, apart from where it stands. -/
def Token.content (token : Token) : TokenKind × String := (token.kind, token.text)

/-- The tokens of a text without their offsets. -/
def contents (text : List Char) : List (TokenKind × String) :=
  (lexFrom text.length text).tokens.map Token.content

/-- The text is read as tokens of which `reads` holds, and as the same tokens but for their offsets,
whatever delimited text follows it. -/
def Spells (text : List Char) (reads : List Token → Prop) : Prop :=
  ∀ total rest, Delimited rest → ∃ tokens, reads tokens ∧
    tokens.map Token.content = contents text ∧
    lexFrom total (text ++ rest) = (lexFrom total rest).prepend tokens

/-- Characters that only keep pieces apart. -/
structure IsGap (gap : List Char) : Prop where
  blank : ∀ c ∈ gap, isBlank c = true
  ne_nil : gap ≠ []

section Pieces

variable {text next rest gap : List Char} {reads reads' : List Token → Prop}

theorem delimited_nil : Delimited [] := by
  intro c h
  cases h

theorem delimited_cons {c : Char} (h : isWordChar c = false) : Delimited (c :: rest) := by
  intro d hd
  cases hd
  exact h

theorem IsGap.delimited (h : IsGap gap) : Delimited (gap ++ rest) := by
  obtain ⟨c, others, rfl⟩ := List.exists_cons_of_ne_nil h.ne_nil
  refine delimited_cons ?_
  simp [isWordChar, h.blank c List.mem_cons_self]

theorem IsGap.lexFrom (h : IsGap gap) (total : Nat) (rest : List Char) :
    Reader.lexFrom total (gap ++ rest) = Reader.lexFrom total rest := by
  have hblank := h.blank
  clear h
  induction gap with
  | nil => rfl
  | cons c gap ih =>
      rw [List.forall_mem_cons] at hblank
      rw [List.cons_append, lexFrom_blank hblank.1, ih hblank.2]

/-- A text that is read as the same tokens whatever follows it is read so alone. -/
theorem spells_of_contents (found : List (TokenKind × String))
    (h : ∀ total rest, Delimited rest → ∃ tokens, reads tokens ∧
      tokens.map Token.content = found ∧
      lexFrom total (text ++ rest) = (lexFrom total rest).prepend tokens) :
    Spells text reads ∧ contents text = found := by
  have hfound : contents text = found := by
    obtain ⟨tokens, -, hcontent, hlex⟩ := h text.length [] delimited_nil
    rw [List.append_nil, lexFrom_nil] at hlex
    rw [contents, hlex, ← hcontent]
    simp [TokenStream.prepend]
  refine ⟨?_, hfound⟩
  subst hfound
  exact h

theorem Spells.mono (h : Spells text reads) (himp : ∀ tokens, reads tokens → reads' tokens) :
    Spells text reads' := by
  intro total rest hrest
  obtain ⟨tokens, hreads, hlex⟩ := h total rest hrest
  exact ⟨tokens, himp tokens hreads, hlex⟩

theorem contents_nil : contents [] = [] := by
  rw [contents, lexFrom_nil, List.map_nil]

theorem spells_nil (h : reads []) : Spells [] reads :=
  fun _ _ _ => ⟨[], h, contents_nil.symm, rfl⟩

theorem Spells.contents_gap (hgap : IsGap gap) (h : Spells text reads) :
    contents (gap ++ text) = contents text := by
  have hfound := spells_of_contents (contents text) fun total rest hrest => by
    have hlex := h total rest hrest
    rwa [← hgap.lexFrom total (text ++ rest), ← List.append_assoc] at hlex
  exact hfound.2

theorem Spells.after_gap (hgap : IsGap gap) (h : Spells text reads) :
    Spells (gap ++ text) reads := by
  intro total rest hrest
  rw [List.append_assoc, hgap.lexFrom, h.contents_gap hgap]
  exact h total rest hrest

theorem Spells.of_gap (hgap : IsGap gap) (h : Spells (gap ++ text) reads) : Spells text reads := by
  refine (spells_of_contents (contents (gap ++ text)) fun total rest hrest => ?_).1
  have hlex := h total rest hrest
  rwa [List.append_assoc, hgap.lexFrom] at hlex

section Append

variable (h : Spells text reads) (hdelimited : ∀ rest, Delimited rest → Delimited (next ++ rest))
  (h' : Spells next reads')

include h hdelimited h'

theorem Spells.append_contents :
    Spells (text ++ next) (fun tokens =>
      ∃ front back, tokens = front ++ back ∧ reads front ∧ reads' back) ∧
    contents (text ++ next) = contents text ++ contents next := by
  refine spells_of_contents _ fun total rest hrest => ?_
  obtain ⟨front, hfront, hcontent, hlex⟩ := h total (next ++ rest) (hdelimited rest hrest)
  obtain ⟨back, hback, hcontent', hlex'⟩ := h' total rest hrest
  refine ⟨front ++ back, ⟨front, back, rfl, hfront, hback⟩, ?_, ?_⟩
  · rw [List.map_append, hcontent, hcontent']
  · rw [List.append_assoc, hlex, hlex', TokenStream.prepend_prepend]

/-- Two pieces one after the other, the second of which starts with a delimiter. -/
theorem Spells.append : Spells (text ++ next) fun tokens =>
      ∃ front back, tokens = front ++ back ∧ reads front ∧ reads' back :=
  (h.append_contents hdelimited h').1

theorem Spells.contents_append : contents (text ++ next) = contents text ++ contents next :=
  (h.append_contents hdelimited h').2

end Append

/-- The source that consists of one piece. -/
theorem Spells.lex {source : String} (h : Spells source.toList reads) :
    ∃ tokens, reads tokens ∧ lex source = ⟨tokens, none⟩ := by
  obtain ⟨tokens, hreads, -, hlex⟩ := h source.toList.length [] delimited_nil
  refine ⟨tokens, hreads, ?_⟩
  rw [List.append_nil] at hlex
  rw [Reader.lex, hlex, lexFrom_nil]
  simp [TokenStream.prepend]

/-- One token whose end the lexer finds by itself. -/
theorem spells_token {kind : TokenKind} (hstart : ∀ rest, Delimited rest → StartsToken (text ++ rest))
    (hscan : ∀ rest, Delimited rest → scan? (text ++ rest) = some (kind, text.length))
    (h : ∀ offset, reads [⟨kind, String.ofList text, offset⟩]) : Spells text reads := by
  refine (spells_of_contents [(kind, String.ofList text)] fun total rest hrest => ?_).1
  refine ⟨_, h (total - (text ++ rest).length), rfl, ?_⟩
  rw [lexFrom_scan (hstart rest hrest) (hscan rest hrest), List.drop_left, List.take_left]

theorem startsToken_cons {c : Char} (hblank : isBlank c = false) (hline : c ≠ ';')
    (hblock : c ≠ '#') : StartsToken (c :: rest) :=
  ⟨c, rest, rfl, hblank, hline, fun h => hblock (List.cons_prefix_cons.mp h).1.symm⟩

theorem spells_closeParen (h : ∀ offset, reads [⟨.closeParen, ")", offset⟩]) :
    Spells [')'] reads :=
  spells_token (fun _ _ => startsToken_cons (by decide) (by decide) (by decide))
    (fun _ _ => rfl) h

theorem contents_closeParen : contents [')'] = [(.closeParen, ")")] := by
  have hstart : StartsToken [')'] := startsToken_cons (by decide) (by decide) (by decide)
  have hscan : scan? [')'] = some (.closeParen, 1) := rfl
  rw [contents, lexFrom_scan hstart hscan, List.drop_one, List.tail_cons, lexFrom_nil]
  rfl

theorem Spells.parens_contents (h : Spells text reads) :
    Spells ('(' :: (text ++ [')'])) (fun tokens => ∃ left inside right,
      tokens = left :: (inside ++ [right]) ∧ left.kind = .openParen ∧ right.kind = .closeParen ∧
        reads inside) ∧
    contents ('(' :: (text ++ [')'])) =
      (.openParen, "(") :: (contents text ++ [(.closeParen, ")")]) := by
  have hclose : Spells [')'] fun tokens => ∃ right, tokens = [right] ∧ right.kind = .closeParen :=
    spells_closeParen fun _ => ⟨_, rfl, rfl⟩
  have hinner := h.append (fun _ _ => delimited_cons rfl) hclose
  have hcontents := h.contents_append (fun _ _ => delimited_cons rfl) hclose
  rw [contents_closeParen] at hcontents
  refine spells_of_contents _ fun total rest hrest => ?_
  obtain ⟨_, ⟨inside, _, rfl, hinside, right, rfl, hright⟩, hcontent, hlex⟩ :=
    hinner total rest hrest
  have hopen : StartsToken ('(' :: (text ++ [')'] ++ rest)) :=
    startsToken_cons (by decide) (by decide) (by decide)
  have hscan : scan? ('(' :: (text ++ [')'] ++ rest)) = some (.openParen, 1) := rfl
  rw [List.cons_append, lexFrom_scan hopen hscan, List.drop_one, List.tail_cons, hlex,
    TokenStream.prepend_prepend]
  refine ⟨_, ⟨_, inside, right, rfl, rfl, hright, hinside⟩, ?_, rfl⟩
  rw [List.map_cons, hcontent, hcontents]
  rfl

theorem spells_parens (h : Spells text reads) : Spells ('(' :: (text ++ [')'])) fun tokens =>
    ∃ left inside right, tokens = left :: (inside ++ [right]) ∧ left.kind = .openParen ∧
      right.kind = .closeParen ∧ reads inside :=
  h.parens_contents.1

theorem Spells.contents_parens (h : Spells text reads) : contents ('(' :: (text ++ [')'])) =
    (.openParen, "(") :: (contents text ++ [(.closeParen, ")")]) :=
  h.parens_contents.2

end Pieces

/-! ## Words -/

section Words

variable {word rest : List Char} {reads : List Token → Prop}

/-- A character of a word starts no other token. -/
theorem scan?_of_isWordChar {c : Char} (h : isWordChar c = true) : scan? (c :: rest) =
    some (if isArgumentName ((c :: rest).takeWhile isWordChar) then .argumentName else .word,
      ((c :: rest).takeWhile isWordChar).length) := by
  rw [scan?.eq_def]
  split
  next heq => cases heq
  next heq => cases heq; simp [isWordChar] at h
  next heq => cases heq; simp [isWordChar] at h
  next heq => cases heq; simp [isWordChar] at h
  next heq => cases heq; simp [isWordChar] at h
  next heq => cases heq; simp [isWordChar] at h
  next heq => cases heq; simp [isWordChar] at h
  next heq =>
    cases heq
    have hne : c ≠ backquote := fun hc => by simp [hc, isWordChar] at h
    simp [hne, List.takeWhile_cons_of_pos h]

theorem takeWhile_word (hword : ∀ c ∈ word, isWordChar c = true) (hrest : Delimited rest) :
    (word ++ rest).takeWhile isWordChar = word := by
  rw [List.takeWhile_append_of_pos hword]
  cases rest with
  | nil => simp
  | cons c rest => rw [List.takeWhile_cons_of_neg (by simp [hrest c rfl]), List.append_nil]

theorem prefix_of_delimited {front : List Char} (hfront : ∀ c ∈ front, isWordChar c = true)
    (hword : ∀ c ∈ word, isWordChar c = true) (hrest : Delimited rest)
    (h : front <+: word ++ rest) : front <+: word := by
  obtain ⟨back, h⟩ := h
  have htake := takeWhile_word hword hrest
  rw [← h, List.takeWhile_append_of_pos hfront] at htake
  exact ⟨_, htake⟩

theorem isArgumentName_cons {c : Char} (h : c ≠ ':') : isArgumentName (c :: rest) = false := by
  rw [isArgumentName.eq_def]
  split
  next heq => cases heq; exact (h rfl).elim
  · rfl

/-- A word is a token of its own unless it starts like a block comment. -/
theorem spells_word (hne : word ≠ []) (hword : ∀ c ∈ word, isWordChar c = true)
    (hblock : ¬ ['#', '|'] <+: word)
    (h : ∀ offset, reads [⟨if isArgumentName word then .argumentName else .word,
      String.ofList word, offset⟩]) : Spells word reads := by
  obtain ⟨c, others, rfl⟩ := List.exists_cons_of_ne_nil hne
  have hc : isWordChar c = true := hword c (by simp)
  refine spells_token (fun rest hrest => ?_) (fun rest hrest => ?_) h
  · refine ⟨c, others ++ rest, rfl, ?_, ?_, fun hprefix => hblock ?_⟩
    · simp [isWordChar] at hc; tauto
    · rintro rfl; simp [isWordChar] at hc
    · exact prefix_of_delimited (List.all_eq_true.mp (by decide)) hword hrest hprefix
  · have htake := takeWhile_word hword hrest
    rw [List.cons_append] at htake ⊢
    rw [scan?_of_isWordChar hc, htake]

end Words

/-! ## Quoted tokens -/

section Quoted

variable {mark c : Char} {body rest : List Char} {reads : List Token → Prop}

theorem closing?_mark (h : mark ≠ '\\') : closing? mark (mark :: rest) = some 1 := by
  rw [closing?.eq_def]
  split
  next heq => cases heq
  next heq => cases heq; exact (h rfl).elim
  next heq => cases heq; simp

theorem closing?_cons (hmark : c ≠ mark) (hc : c ≠ '\\') :
    closing? mark (c :: rest) = (closing? mark rest).map (· + 1) := by
  rw [closing?.eq_def]
  split
  next heq => cases heq
  next heq => cases heq; exact (hc rfl).elim
  next heq => cases heq; simp [hmark, hc]

theorem closing?_append {text more : List Char} {n : Nat} (hmark : mark ≠ '\\')
    (h : closing? mark text = some n) : closing? mark (text ++ more) = some n := by
  fun_induction closing? mark text generalizing n with
  | case1 => cases h
  | case2 c text ih =>
      obtain ⟨m, hm, rfl⟩ := Option.map_eq_some_iff.mp h
      rw [List.cons_append, List.cons_append, closing?, ih hm, Option.map_some]
  | case3 text hescape =>
      cases h
      exact closing?_mark hmark
  | case4 => cases h
  | case5 c text hescape hne hslash ih =>
      obtain ⟨m, hm, rfl⟩ := Option.map_eq_some_iff.mp h
      rw [List.cons_append, closing?_cons hne hslash, ih hm, Option.map_some]

theorem closing?_le {text : List Char} {n : Nat} (h : closing? mark text = some n) :
    n ≤ text.length := by
  fun_induction closing? mark text generalizing n with
  | case1 => cases h
  | case2 c text ih =>
      obtain ⟨m, hm, rfl⟩ := Option.map_eq_some_iff.mp h
      have := ih hm
      simp only [List.length_cons]
      omega
  | case3 text hescape => cases h; simp
  | case4 => cases h
  | case5 c text hescape hne hslash ih =>
      obtain ⟨m, hm, rfl⟩ := Option.map_eq_some_iff.mp h
      have := ih hm
      simp only [List.length_cons]
      omega

/-- No mark within the text closes the token. -/
def Encloses (mark : Char) (body : List Char) : Prop :=
  ∀ rest, closing? mark (body ++ rest) = (closing? mark rest).map (· + body.length)

theorem encloses_nil : Encloses mark [] := by
  intro rest
  simp

theorem encloses_singleton (hmark : c ≠ mark) (hc : c ≠ '\\') : Encloses mark [c] :=
  fun _ => closing?_cons hmark hc

theorem encloses_escape : Encloses mark ['\\', c] := fun _ => rfl

theorem Encloses.append {next : List Char} (h : Encloses mark body) (h' : Encloses mark next) :
    Encloses mark (body ++ next) := by
  intro rest
  rw [List.append_assoc, h, h', Option.map_map, List.length_append]
  congr 1
  funext n
  simp only [Function.comp_apply]
  omega

theorem Encloses.flatMap {text : List Char} {escape : Char → List Char}
    (h : ∀ c ∈ text, Encloses mark (escape c)) : Encloses mark (text.flatMap escape) := by
  induction text with
  | nil => exact encloses_nil
  | cons c text ih =>
      rw [List.flatMap_cons]
      exact (h c (by simp)).append (ih fun d hd => h d (by simp [hd]))

theorem Encloses.closing? (h : Encloses mark body) (hmark : mark ≠ '\\') :
    closing? mark (body ++ mark :: rest) = some (body.length + 1) := by
  rw [h, closing?_mark hmark, Option.map_some, Nat.add_comm]

theorem spells_string (hbody : Encloses '"' body)
    (h : ∀ offset, reads [⟨.string, String.ofList ('"' :: body ++ ['"']), offset⟩]) :
    Spells ('"' :: body ++ ['"']) reads := by
  refine spells_token (fun _ _ => startsToken_cons (by decide) (by decide) (by decide))
    (fun rest _ => ?_) h
  have hclose : closing? '"' (body ++ '"' :: rest) = some (body.length + 1) :=
    hbody.closing? (by decide)
  simp only [List.cons_append, List.append_assoc, List.nil_append]
  simp [scan?, hclose]

theorem spells_backquoted (hbody : Encloses backquote body)
    (h : ∀ offset,
      reads [⟨.backquoted, String.ofList (backquote :: body ++ [backquote]), offset⟩]) :
    Spells (backquote :: body ++ [backquote]) reads := by
  refine spells_token (fun _ _ => startsToken_cons (by decide) (by decide) (by decide))
    (fun rest _ => ?_) h
  have hclose : closing? backquote (body ++ backquote :: rest) = some (body.length + 1) :=
    hbody.closing? (by decide)
  have hscan (rest : List Char) : scan? (backquote :: rest) =
      (closing? backquote rest).map (.backquoted, · + 1) := rfl
  simp only [List.cons_append, List.append_assoc, List.nil_append]
  simp [hscan, hclose]

end Quoted

/-! ## The tokens of a source -/

section Tokens

variable {text rest : List Char}

theorem afterComment?_suffix {depth : Nat} (h : afterComment? depth text = some rest) :
    rest <:+ text := by
  fun_induction afterComment? depth text with
  | case1 text => cases h; exact List.suffix_rfl
  | case2 => cases h
  | case3 _ _ ih => exact (ih h).trans (List.suffix_append ['#', '|'] _)
  | case4 _ _ ih => exact (ih h).trans (List.suffix_append ['|', '#'] _)
  | case5 _ _ _ _ _ ih => exact (ih h).trans (List.suffix_cons _ _)

theorem afterLine_suffix (text : List Char) : afterLine text <:+ text :=
  (List.drop_suffix _ _).trans (List.dropWhile_suffix _)

theorem afterLine_append (text more : List Char) : afterLine (text ++ '\n' :: more) =
    if '\n' ∈ text then afterLine text ++ '\n' :: more else more := by
  induction text with
  | nil => simp [afterLine]
  | cons c text ih =>
      by_cases hc : c = '\n'
      · subst hc
        simp [afterLine]
      · have hcons (back : List Char) : afterLine (c :: back) = afterLine back := by
          simp [afterLine, hc]
        have hmem : '\n' ∈ c :: text ↔ '\n' ∈ text := by
          simp [Ne.symm hc]
        rw [List.cons_append, hcons, hcons, ih]
        simp only [hmem]

theorem afterLine_of_not_mem (h : '\n' ∉ text) : afterLine text = [] := by
  induction text with
  | nil => rfl
  | cons c text ih =>
      have hc : c ≠ '\n' := by
        rintro rfl
        exact h List.mem_cons_self
      have hrest := ih fun hmem => h (List.mem_cons_of_mem c hmem)
      simpa [afterLine, hc] using hrest

theorem skipGap_suffix (h : skipGap text = .ok rest) : rest <:+ text := by
  fun_induction skipGap text with
  | case1 => cases h; exact List.suffix_rfl
  | case2 rest' ih => exact ((ih h).trans (afterLine_suffix _)).trans (List.suffix_cons _ _)
  | case3 _ _ hc ih =>
      exact ((ih h).trans (afterComment?_suffix hc)).trans (List.suffix_append ['#', '|'] _)
  | case4 => cases h
  | case5 _ _ _ _ _ ih => exact (ih h).trans (List.suffix_cons _ _)
  | case6 => cases h; exact List.suffix_rfl

/-- A block comment that is never closed is the end of the text. -/
theorem skipGap_open_suffix (h : skipGap text = .error rest) : rest <:+ text := by
  fun_induction skipGap text with
  | case1 => cases h
  | case2 rest' ih => exact ((ih h).trans (afterLine_suffix _)).trans (List.suffix_cons _ _)
  | case3 _ _ hc ih =>
      exact ((ih h).trans (afterComment?_suffix hc)).trans (List.suffix_append ['#', '|'] _)
  | case4 => cases h; exact List.suffix_rfl
  | case5 _ _ _ _ _ ih => exact (ih h).trans (List.suffix_cons _ _)
  | case6 => cases h

/-- What the characters of a token of some kind are. -/
def TokenKind.Admits : TokenKind → List Char → Prop
  | .word, text => ∀ c ∈ text, isWordChar c = true
  | .argumentName, text => isArgumentName text = true ∧ ∀ c ∈ text, isWordChar c = true
  | .backquoted, text => backquote ∈ text
  | _, _ => True

theorem scan?_admits {kind : TokenKind} {n : Nat} (h : scan? text = some (kind, n)) :
    kind.Admits (text.take n) := by
  cases text with
  | nil => cases h
  | cons c rest =>
      by_cases hword : isWordChar c = true
      · rw [scan?_of_isWordChar hword] at h
        obtain ⟨hkind, hn⟩ := Prod.mk.inj (Option.some.inj h)
        have htake := List.prefix_iff_eq_take.mp (List.takeWhile_prefix isWordChar (l := c :: rest))
        rw [← hn, ← htake]
        have hall : ∀ d ∈ (c :: rest).takeWhile isWordChar, isWordChar d = true :=
          List.all_eq_true.mp List.all_takeWhile
        split at hkind
        next hname => rw [← hkind]; exact ⟨hname, hall⟩
        · rw [← hkind]; exact hall
      · rw [scan?.eq_def] at h
        split at h
        next heq => cases heq
        next => cases h; trivial
        next => cases h; trivial
        next => cases h; trivial
        next => cases h; trivial
        next => cases h; trivial
        next => obtain ⟨_, -, h⟩ := Option.map_eq_some_iff.mp h; cases h; trivial
        next heq =>
          cases heq
          split at h
          next hc =>
            obtain ⟨_, -, h⟩ := Option.map_eq_some_iff.mp h
            cases h
            exact hc ▸ List.mem_cons_self
          next => simp [List.takeWhile_cons_of_neg hword] at h

theorem skipGap_start (h : skipGap text = .ok rest) : ¬ ['#', '|'] <+: rest := by
  fun_induction skipGap text with
  | case1 => cases h; simp
  | case2 rest' ih => exact ih h
  | case3 _ _ hc ih => exact ih h
  | case4 => cases h
  | case5 _ _ _ _ _ ih => exact ih h
  | case6 c rest' hline hblock hblank =>
      cases h
      rintro ⟨back, heq⟩
      cases heq
      exact hblock back rfl rfl

/-- Every token is a part of the source with the characters of its kind, and none starts like a
block comment. -/
theorem mem_lexFrom {total : Nat} {token : Token} (h : token ∈ (lexFrom total text).tokens) :
    token.text.toList <:+: text ∧ token.kind.Admits token.text.toList ∧
      ¬ ['#', '|'] <+: token.text.toList := by
  fun_induction lexFrom total text with
  | case1 => cases h
  | case2 => cases h
  | case3 => cases h
  | case4 text c rest hgap kind n hscan first others ih =>
      have hsuffix := (skipGap_suffix hgap).isInfix
      rcases List.mem_cons.mp h with rfl | h
      · simp only [first, String.toList_ofList]
        have htake := List.take_prefix n (c :: rest)
        exact ⟨htake.isInfix.trans hsuffix, scan?_admits hscan,
          fun hblock => skipGap_start hgap (hblock.trans htake)⟩
      · obtain ⟨hpart, hadmits⟩ := ih h
        exact ⟨(hpart.trans (List.drop_suffix _ _).isInfix).trans hsuffix, hadmits⟩

end Tokens

end Quasi.Reader
