import Quasi.Proofs.Reader.Lexing

/-!
# Sources are tiled by their tokens

What tokens and the gaps between them are, said without a lexer: a gap consists of blanks, of
comments that run to the end of their line and of block comments with whatever comments are nested
in them, and a word goes on for as long as characters of words follow. A source is cut into tokens
and gaps in one way only, from its start up to its end or up to a block comment or a quotation that
is never closed. That is where the lexer stops, and what it gives are the tokens before.
-/

namespace Quasi.Reader

open Text

/-! ## Gaps and tokens -/

/-- The rest of a block comment: what is in it, and the mark that closes it. Comments in it are
nested, and at no other character a mark starts. -/
inductive Inside : List Char → Prop where
  | close : Inside ['|', '#']
  | nested {inner rest : List Char} (hinner : Inside inner) (hrest : Inside rest) :
      Inside ('#' :: '|' :: (inner ++ rest))
  | other {c : Char} {rest : List Char} (hopen : ¬ ['#', '|'] <+: c :: rest)
      (hclose : ¬ ['|', '#'] <+: c :: rest) (hrest : Inside rest) : Inside (c :: rest)

/-- Blanks and comments, each line comment with the end of its line. -/
inductive Gap : List Char → Prop where
  | nil : Gap []
  | blank {c : Char} {rest : List Char} (hc : isBlank c = true) (hrest : Gap rest) : Gap (c :: rest)
  | line {line rest : List Char} (hline : '\n' ∉ line) (hrest : Gap rest) :
      Gap (';' :: (line ++ '\n' :: rest))
  | block {body rest : List Char} (hbody : Inside body) (hrest : Gap rest) :
      Gap ('#' :: '|' :: (body ++ rest))

/-- The rest of a quotation: what is quoted, and the mark that closes it. A backslash stands before
any character, and before every mark within. -/
inductive Quoted (mark : Char) : List Char → Prop where
  | close : Quoted mark [mark]
  | escape (c : Char) {rest : List Char} (hrest : Quoted mark rest) :
      Quoted mark ('\\' :: c :: rest)
  | other {c : Char} {rest : List Char} (hmark : c ≠ mark) (hc : c ≠ '\\')
      (hrest : Quoted mark rest) : Quoted mark (c :: rest)

/-- A word, as far as it goes: no character of a word follows it. Marks of block comments may be in
it, but none at its start. -/
structure IsWord (word after : List Char) : Prop where
  ne_nil : word ≠ []
  chars : ∀ c ∈ word, isWordChar c = true
  block : ¬ ['#', '|'] <+: word
  ends : Delimited after

/-- A text that is a token of some kind where another text follows. -/
inductive IsToken : TokenKind → List Char → List Char → Prop where
  | openParen (after : List Char) : IsToken .openParen ['('] after
  | closeParen (after : List Char) : IsToken .closeParen [')'] after
  | quote (after : List Char) : IsToken .quote ['\''] after
  | unquote {after : List Char} (h : ¬ ['@'] <+: after) : IsToken .quote [','] after
  | splice (after : List Char) : IsToken .quote [',', '@'] after
  | string {body : List Char} (h : Quoted '"' body) (after : List Char) :
      IsToken .string ('"' :: body) after
  | backquoted {body : List Char} (h : Quoted backquote body) (after : List Char) :
      IsToken .backquoted (backquote :: body) after
  | argumentName {word after : List Char} (h : IsWord word after)
      (hname : isArgumentName word = true) : IsToken .argumentName word after
  | word {word after : List Char} (h : IsWord word after) (hname : isArgumentName word = false) :
      IsToken .word word after

/-- A text that starts at an offset begins with tokens and gaps before each of them. They end at
another offset, where the rest of the text starts. -/
inductive Tiles : Nat → List Char → List Token → Nat → List Char → Prop where
  | nil (offset : Nat) (rest : List Char) : Tiles offset rest [] offset rest
  | cons {offset stop : Nat} {gap after rest : List Char} {token : Token} {tokens : List Token}
      (hgap : Gap gap) (htoken : IsToken token.kind token.text.toList after)
      (hoffset : token.offset = offset + gap.length)
      (h : Tiles (token.offset + token.text.length) after tokens stop rest) :
      Tiles offset (gap ++ (token.text.toList ++ after)) (token :: tokens) stop rest

/-- A text at whose start a block comment or a quotation starts that nothing closes. -/
inductive Stuck : Nat → List Char → SyntaxFault → Prop where
  | comment {text : List Char} (offset : Nat)
      (h : ∀ body after, text = body ++ after → ¬ Inside body) :
      Stuck offset ('#' :: '|' :: text) (.openComment offset)
  | quotation {mark : Char} {text : List Char} (offset : Nat)
      (hmark : mark = '"' ∨ mark = backquote)
      (h : ∀ body after, text = body ++ after → ¬ Quoted mark body) :
      Stuck offset (mark :: text) (.character mark offset)

/-- What follows the last token: a gap up to the end of the source, in which the last line comment
may lack the end of its line, or a gap up to where the lexer gets stuck. -/
inductive Ends : Nat → List Char → Option SyntaxFault → Prop where
  | gap {gap : List Char} (offset : Nat) (hgap : Gap gap) : Ends offset gap none
  | line {gap line : List Char} (offset : Nat) (hgap : Gap gap) (hline : '\n' ∉ line) :
      Ends offset (gap ++ ';' :: line) none
  | stuck {offset : Nat} {gap rest : List Char} {fault : SyntaxFault} (hgap : Gap gap)
      (h : Stuck (offset + gap.length) rest fault) : Ends offset (gap ++ rest) (some fault)

/-! ## Block comments -/

section Comments

variable {body text rest : List Char}

theorem Inside.two_le_length (h : Inside body) : 2 ≤ body.length := by
  induction h with
  | close => exact Nat.le_refl 2
  | nested _ _ ihinner ihrest =>
      simp only [List.length_cons, List.length_append]
      omega
  | other _ _ _ ih =>
      simp only [List.length_cons]
      omega

/-- Whether a mark starts depends on two characters. -/
theorem mark_prefix_append {a b : Char} (h : 2 ≤ text.length) :
    [a, b] <+: text ++ rest ↔ [a, b] <+: text := by
  refine ⟨fun hstart => ?_, fun hstart => hstart.trans (List.prefix_append text rest)⟩
  exact List.prefix_of_prefix_length_le hstart (List.prefix_append text rest) h

theorem afterComment?_other {depth : Nat} {c : Char} (hopen : ¬ ['#', '|'] <+: c :: rest)
    (hclose : ¬ ['|', '#'] <+: c :: rest) :
    afterComment? (depth + 1) (c :: rest) = afterComment? (depth + 1) rest := by
  rw [afterComment?]
  · rintro more rfl rfl
    exact hopen ⟨more, rfl⟩
  · rintro more rfl rfl
    exact hclose ⟨more, rfl⟩

/-- The rest of a comment closes one of those that are open. -/
theorem Inside.afterComment? (h : Inside body) (depth : Nat) (rest : List Char) :
    Reader.afterComment? (depth + 1) (body ++ rest) = Reader.afterComment? depth rest := by
  induction h generalizing depth rest with
  | close => rfl
  | @nested inner more _ _ ihinner ihrest =>
      have hopen : Reader.afterComment? (depth + 1) ('#' :: '|' :: (inner ++ (more ++ rest))) =
          Reader.afterComment? (depth + 2) (inner ++ (more ++ rest)) := rfl
      rw [List.cons_append, List.cons_append, List.append_assoc, hopen, ihinner, ihrest]
  | @other c more hopen hclose hrest ih =>
      have hlength : 2 ≤ (c :: more).length := Nat.le_succ_of_le hrest.two_le_length
      rw [List.cons_append, afterComment?_other, ih]
      · exact mt (mark_prefix_append hlength).mp hopen
      · exact mt (mark_prefix_append hlength).mp hclose

/-- A scan that leaves some comment has passed the rest of it. -/
theorem exists_inside {depth : Nat} (h : afterComment? (depth + 1) text = some rest) :
    ∃ body after, text = body ++ after ∧ Inside body ∧
      afterComment? depth after = some rest := by
  induction hn : text.length using Nat.strong_induction_on generalizing text depth with
  | _ n ih =>
      subst hn
      rw [afterComment?.eq_def] at h
      split at h
      next heq => cases heq
      next => cases h
      next d more heq =>
        cases heq
        -- the nested comment is passed first, and then the rest of this one
        obtain ⟨inner, after, rfl, hinner, hafter⟩ :=
          ih _ (by simp only [List.length_cons]; omega) h rfl
        obtain ⟨back, after', rfl, hback, hafter'⟩ :=
          ih _ (by simp only [List.length_cons, List.length_append]; omega) hafter rfl
        exact ⟨'#' :: '|' :: (inner ++ back), after', by simp, .nested hinner hback, hafter'⟩
      next d more heq =>
        cases heq
        exact ⟨['|', '#'], more, rfl, .close, h⟩
      next d c more hopen hclose heq =>
        cases heq
        obtain ⟨body, after, rfl, hbody, hafter⟩ :=
          ih _ (by simp only [List.length_cons]; omega) h rfl
        have hlength : 2 ≤ (c :: body).length := Nat.le_succ_of_le hbody.two_le_length
        refine ⟨c :: body, after, rfl, .other ?_ ?_ hbody, hafter⟩
        · intro hprefix
          obtain ⟨more, hmore⟩ := (mark_prefix_append hlength).mpr hprefix
          obtain ⟨hc, hrest⟩ := List.cons.inj hmore
          exact hopen _ hc.symm hrest.symm
        · intro hprefix
          obtain ⟨more, hmore⟩ := (mark_prefix_append hlength).mpr hprefix
          obtain ⟨hc, hrest⟩ := List.cons.inj hmore
          exact hclose _ hc.symm hrest.symm

/-- A comment is never closed if no part of what follows is the rest of it. -/
theorem afterComment?_eq_none_iff :
    afterComment? 1 text = none ↔ ∀ body after, text = body ++ after → ¬ Inside body := by
  constructor
  · rintro hnone body after rfl hbody
    rw [hbody.afterComment?, afterComment?] at hnone
    cases hnone
  · intro h
    cases hscan : afterComment? 1 text with
    | none => rfl
    | some rest =>
        obtain ⟨body, after, htext, hbody, -⟩ := exists_inside hscan
        exact absurd hbody (h body after htext)

end Comments

/-! ## Gaps -/

section Gaps

variable {gap text rest line : List Char}

theorem skipGap_line (h : '\n' ∉ line) : skipGap (';' :: line) = .ok [] := by
  rw [skipGap, afterLine_of_not_mem h, skipGap.eq_def]

theorem skipGap_block (text : List Char) : skipGap ('#' :: '|' :: text) =
    match afterComment? 1 text with
    | some rest => skipGap rest
    | none => .error ('#' :: '|' :: text) := by
  rw [skipGap]
  split <;> simp_all only

/-- Gaps are skipped. -/
theorem Gap.skipGap (h : Gap gap) (rest : List Char) :
    Reader.skipGap (gap ++ rest) = Reader.skipGap rest := by
  induction h with
  | nil => rfl
  | blank hc _ ih => rw [List.cons_append, skipGap_blank hc, ih]
  | line hline _ ih =>
      rw [List.cons_append, List.append_assoc, List.cons_append, Reader.skipGap, afterLine_append,
        if_neg hline, ih]
  | @block body more hbody _ ih =>
      rw [List.cons_append, List.cons_append, List.append_assoc, skipGap_block,
        hbody.afterComment?, Reader.afterComment?]
      exact ih

theorem Gap.lexFrom (h : Gap gap) (total : Nat) (rest : List Char) :
    Reader.lexFrom total (gap ++ rest) = Reader.lexFrom total rest := by
  rw [lexFrom_eq, lexFrom_eq total rest, h.skipGap]

theorem exists_line (text : List Char) :
    '\n' ∉ text ∨ ∃ line, '\n' ∉ line ∧ text = line ++ '\n' :: afterLine text := by
  by_cases h : '\n' ∈ text
  · obtain ⟨line, rest, rfl, hline⟩ := List.eq_append_cons_of_mem h
    exact .inr ⟨line, hline, by rw [afterLine_append, if_neg hline]⟩
  · exact .inl h

/-- Every text begins with a gap, after which it ends, a line comment runs to the end, a block
comment is never closed, or a token may start. -/
theorem exists_gap (text : List Char) : ∃ gap rest, text = gap ++ rest ∧ Gap gap ∧
    (rest = [] ∨ (∃ line, rest = ';' :: line ∧ '\n' ∉ line) ∨
      (∃ more, rest = '#' :: '|' :: more ∧ afterComment? 1 more = none) ∨
      StartsToken rest) := by
  fun_induction skipGap text with
  | case1 => exact ⟨[], [], rfl, .nil, .inl rfl⟩
  | case2 text ih =>
      rcases exists_line text with hline | ⟨line, hline, htext⟩
      · exact ⟨[], ';' :: text, rfl, .nil, .inr (.inl ⟨text, rfl, hline⟩)⟩
      · obtain ⟨gap, rest, hrest, hgap, hends⟩ := ih
        refine ⟨';' :: (line ++ '\n' :: gap), rest, ?_, .line hline hgap, hends⟩
        rw [htext, hrest]
        simp
  | case3 text rest hclosed ih =>
      obtain ⟨body, after, rfl, hbody, hafter⟩ := exists_inside hclosed
      obtain rfl : after = rest := by simpa [afterComment?] using hafter
      obtain ⟨gap, rest', rfl, hgap, hends⟩ := ih
      exact ⟨'#' :: '|' :: (body ++ gap), rest', by simp, .block hbody hgap, hends⟩
  | case4 text hopen =>
      exact ⟨[], _, rfl, .nil, .inr (.inr (.inl ⟨text, rfl, hopen⟩))⟩
  | case5 c text hline hblock hblank ih =>
      obtain ⟨gap, rest, rfl, hgap, hends⟩ := ih
      exact ⟨c :: gap, rest, rfl, .blank hblank hgap, hends⟩
  | case6 c text hline hblock hblank =>
      refine ⟨[], c :: text, rfl, .nil, .inr (.inr (.inr ⟨c, text, rfl, ?_, ?_, ?_⟩))⟩
      · exact Bool.eq_false_iff.mpr hblank
      · exact hline
      · rintro ⟨more, hmore⟩
        obtain ⟨hc, htext⟩ := List.cons.inj hmore
        exact hblock more hc.symm htext.symm

end Gaps

/-! ## Quotations -/

section Quotations

variable {mark : Char} {body text : List Char}

/-- The scan of a quotation ends with the mark that closes it. -/
theorem Quoted.closing? (h : Quoted mark body) (hmark : mark ≠ '\\') (after : List Char) :
    Reader.closing? mark (body ++ after) = some body.length := by
  induction h with
  | close => exact closing?_mark hmark
  | escape c _ ih => rw [List.cons_append, List.cons_append, Reader.closing?, ih]; rfl
  | other hne hc _ ih => rw [List.cons_append, closing?_cons hne hc, ih]; rfl

theorem exists_quoted {n : Nat} (h : closing? mark text = some n) :
    ∃ body after, text = body ++ after ∧ Quoted mark body := by
  fun_induction closing? mark text generalizing n with
  | case1 => cases h
  | case2 c text ih =>
      obtain ⟨k, hk, -⟩ := Option.map_eq_some_iff.mp h
      obtain ⟨body, after, rfl, hbody⟩ := ih hk
      exact ⟨'\\' :: c :: body, after, rfl, .escape c hbody⟩
  | case3 text hescape => exact ⟨[mark], text, rfl, .close⟩
  | case4 => cases h
  | case5 c text hescape hne hslash ih =>
      obtain ⟨k, hk, -⟩ := Option.map_eq_some_iff.mp h
      obtain ⟨body, after, rfl, hbody⟩ := ih hk
      exact ⟨c :: body, after, rfl, .other hne hslash hbody⟩

/-- A quotation is never closed if no part of what follows is the rest of it. -/
theorem closing?_eq_none_iff (hmark : mark ≠ '\\') :
    closing? mark text = none ↔ ∀ body after, text = body ++ after → ¬ Quoted mark body := by
  constructor
  · rintro hnone body after rfl hbody
    rw [hbody.closing? hmark] at hnone
    cases hnone
  · intro h
    cases hscan : closing? mark text with
    | none => rfl
    | some n =>
        obtain ⟨body, after, htext, hbody⟩ := exists_quoted hscan
        exact absurd hbody (h body after htext)

end Quotations

/-! ## Tokens -/

section Tokens

variable {kind : TokenKind} {word after text : List Char}

theorem IsWord.exists_cons (h : IsWord word after) : ∃ c rest, word = c :: rest ∧
    isWordChar c = true := by
  obtain ⟨c, rest, rfl⟩ := List.exists_cons_of_ne_nil h.ne_nil
  exact ⟨c, rest, rfl, h.chars c List.mem_cons_self⟩

theorem IsWord.startsToken (h : IsWord word after) : StartsToken (word ++ after) := by
  obtain ⟨c, rest, rfl, hc⟩ := h.exists_cons
  refine ⟨c, rest ++ after, rfl, ?_, ?_, fun hprefix => h.block ?_⟩
  · simp only [isWordChar, Bool.and_eq_true, Bool.not_eq_true'] at hc
    tauto
  · rintro rfl
    exact absurd hc (by decide)
  · exact prefix_of_delimited (List.all_eq_true.mp (by decide)) h.chars h.ends hprefix

theorem IsWord.scan? (h : IsWord word after) : Reader.scan? (word ++ after) =
    some (if isArgumentName word then .argumentName else .word, word.length) := by
  have htake := takeWhile_word h.chars h.ends
  obtain ⟨c, rest, rfl, hc⟩ := h.exists_cons
  rw [List.cons_append] at htake ⊢
  rw [scan?_of_isWordChar hc, htake]

/-- Where a character of a word starts no comment, a word stands. -/
theorem exists_word {c : Char} (hc : isWordChar c = true) (hblock : ¬ ['#', '|'] <+: c :: text) :
    ∃ word after, c :: text = word ++ after ∧ IsWord word after := by
  refine ⟨(c :: text).takeWhile isWordChar, (c :: text).dropWhile isWordChar,
    List.takeWhile_append_dropWhile.symm, ?_, ?_, ?_, ?_⟩
  · simp [List.takeWhile_cons_of_pos hc]
  · exact List.all_eq_true.mp List.all_takeWhile
  · exact fun hstart => hblock (hstart.trans (List.takeWhile_prefix _))
  · intro d hd
    have hnot := List.head?_dropWhile_not isWordChar (c :: text)
    rwa [Option.mem_def.mp hd] at hnot

theorem IsToken.startsToken (h : IsToken kind word after) : StartsToken (word ++ after) := by
  cases h with
  | argumentName h _ | word h _ => exact h.startsToken
  | _ => exact startsToken_cons (by decide) (by decide) (by decide)

/-- A token is scanned to its end. -/
theorem IsToken.scan? (h : IsToken kind word after) :
    Reader.scan? (word ++ after) = some (kind, word.length) := by
  cases h with
  | openParen | closeParen | quote | splice => rfl
  | unquote hat =>
      rw [List.singleton_append, Reader.scan?]
      · rfl
      · rintro more rfl
        exact hat ⟨more, rfl⟩
  | string hbody =>
      rw [List.cons_append, Reader.scan?, hbody.closing? (by decide)]
      rfl
  | @backquoted body hbody =>
      have hscan : Reader.scan? (backquote :: (body ++ after)) =
          (closing? backquote (body ++ after)).map (.backquoted, · + 1) := rfl
      rw [List.cons_append, hscan, hbody.closing? (by decide)]
      rfl
  | argumentName hword hname => rw [hword.scan?, if_pos hname]
  | word hword hname => rw [hword.scan?, hname, if_neg Bool.false_ne_true]

/-- Where a token may start, one does, unless a quotation is never closed. -/
theorem token_or_open (h : StartsToken text) :
    (∃ kind word after, text = word ++ after ∧ IsToken kind word after) ∨
      ∃ mark more, text = mark :: more ∧ (mark = '"' ∨ mark = backquote) ∧
        closing? mark more = none := by
  obtain ⟨c, rest, rfl, hblank, hline, hblock⟩ := h
  by_cases hword : isWordChar c = true
  · obtain ⟨word, after, htext, hword⟩ := exists_word hword hblock
    cases hname : isArgumentName word with
    | true => exact .inl ⟨_, word, after, htext, .argumentName hword hname⟩
    | false => exact .inl ⟨_, word, after, htext, .word hword hname⟩
  -- all other characters are the marks of tokens
  have hmarks : c = '(' ∨ c = ')' ∨ c = '\'' ∨ c = backquote ∨ c = '"' ∨ c = ',' := by
    simp only [isWordChar, hblank, Bool.not_false, Bool.true_and, Bool.and_eq_true,
      decide_eq_true_eq] at hword
    tauto
  rcases hmarks with rfl | rfl | rfl | rfl | rfl | rfl
  · exact .inl ⟨_, ['('], rest, rfl, .openParen rest⟩
  · exact .inl ⟨_, [')'], rest, rfl, .closeParen rest⟩
  · exact .inl ⟨_, ['\''], rest, rfl, .quote rest⟩
  · cases hclose : closing? backquote rest with
    | none => exact .inr ⟨backquote, rest, rfl, .inr rfl, hclose⟩
    | some n =>
        obtain ⟨body, after, rfl, hbody⟩ := exists_quoted hclose
        exact .inl ⟨_, backquote :: body, after, rfl, .backquoted hbody after⟩
  · cases hclose : closing? '"' rest with
    | none => exact .inr ⟨'"', rest, rfl, .inl rfl, hclose⟩
    | some n =>
        obtain ⟨body, after, rfl, hbody⟩ := exists_quoted hclose
        exact .inl ⟨_, '"' :: body, after, rfl, .string hbody after⟩
  · by_cases hat : ['@'] <+: rest
    · obtain ⟨after, rfl⟩ := hat
      exact .inl ⟨_, [',', '@'], after, rfl, .splice after⟩
    · exact .inl ⟨_, [','], rest, rfl, .unquote hat⟩

end Tokens

/-! ## Tilings -/

section Tilings

variable {kind : TokenKind} {offset stop total : Nat} {text rest : List Char} {token : Token}
  {tokens : List Token} {fault : Option SyntaxFault}

/-- A token is lexed where it stands. -/
theorem IsToken.lexFrom {word after : List Char} (h : IsToken kind word after) (total : Nat) :
    Reader.lexFrom total (word ++ after) = (Reader.lexFrom total after).prepend
      [⟨kind, String.ofList word, total - (word ++ after).length⟩] := by
  rw [lexFrom_scan h.startsToken h.scan?, List.drop_left, List.take_left]

/-- What is tiled is lexed into its tokens. -/
theorem Tiles.lexFrom (h : Tiles offset text tokens stop rest)
    (htotal : total = offset + text.length) :
    Reader.lexFrom total text = (Reader.lexFrom total rest).prepend tokens ∧
      total = stop + rest.length := by
  induction h with
  | nil => exact ⟨rfl, htotal⟩
  | @cons offset stop gap after rest token tokens hgap htoken hoffset h ih =>
      have hlength : token.text.toList.length = token.text.length := String.length_toList
      simp only [List.length_append, hlength] at htotal
      obtain ⟨hlex, hstop⟩ := ih (by omega)
      have hstart : total - (token.text.toList ++ after).length = token.offset := by
        simp only [List.length_append, hlength]
        omega
      refine ⟨?_, hstop⟩
      rw [hgap.lexFrom, htoken.lexFrom, hlex, hstart, String.ofList_toList,
        TokenStream.prepend_prepend, List.singleton_append]

/-- Where the lexer gets stuck it reports what is never closed. -/
theorem Stuck.lexFrom {fault : SyntaxFault} (h : Stuck offset rest fault)
    (htotal : total = offset + rest.length) : Reader.lexFrom total rest = ⟨[], some fault⟩ := by
  cases h with
  | comment offset h =>
      rw [lexFrom_eq, skipGap_block, afterComment?_eq_none_iff.mpr h]
      dsimp only
      rw [Nat.sub_eq_of_eq_add htotal]
  | @quotation mark text offset hmark h =>
      have hstart : StartsToken (mark :: text) := by
        rcases hmark with rfl | rfl <;> exact startsToken_cons (by decide) (by decide) (by decide)
      have hscan : scan? (mark :: text) = none := by
        rcases hmark with rfl | rfl
        · rw [scan?, (closing?_eq_none_iff (by decide)).mpr h, Option.map_none]
        · have hopen : closing? backquote text = none := (closing?_eq_none_iff (by decide)).mpr h
          exact congrArg (Option.map _) hopen
      rw [lexFrom_eq, hstart.skipGap]
      dsimp only
      rw [hscan, ← List.length_cons (a := mark), Nat.sub_eq_of_eq_add htotal]

/-- What follows the last token is lexed into none. -/
theorem Ends.lexFrom (h : Ends offset rest fault) (htotal : total = offset + rest.length) :
    Reader.lexFrom total rest = ⟨[], fault⟩ := by
  cases h with
  | gap offset hgap => rw [← List.append_nil rest, hgap.lexFrom, lexFrom_nil]
  | line offset hgap hline => rw [hgap.lexFrom, lexFrom_eq, skipGap_line hline]
  | stuck hgap h =>
      rw [hgap.lexFrom]
      rw [List.length_append, ← Nat.add_assoc] at htotal
      exact h.lexFrom htotal

/-- Every text has a tiling, and the lexer gives its tokens and what ends it. -/
theorem exists_tiles (htotal : total = offset + text.length) : ∃ stop rest,
    Tiles offset text (lexFrom total text).tokens stop rest ∧
      Ends stop rest (lexFrom total text).fault := by
  induction hn : text.length using Nat.strong_induction_on generalizing text offset with
  | _ n ih =>
      subst hn
      have hnone {fault : Option SyntaxFault} (hends : Ends offset text fault) : ∃ stop rest,
          Tiles offset text (lexFrom total text).tokens stop rest ∧
            Ends stop rest (lexFrom total text).fault := by
        rw [hends.lexFrom htotal]
        exact ⟨offset, text, .nil offset text, hends⟩
      obtain ⟨gap, rest, rfl, hgap, hrest⟩ := exists_gap text
      rcases hrest with rfl | ⟨line, rfl, hline⟩ | ⟨more, rfl, hopen⟩ | hstart
      · rw [List.append_nil] at hnone htotal ⊢
        exact hnone (.gap offset hgap)
      · exact hnone (.line offset hgap hline)
      · exact hnone (.stuck hgap (.comment _ (afterComment?_eq_none_iff.mp hopen)))
      rcases token_or_open hstart with
        ⟨kind, word, after, rfl, hword⟩ | ⟨mark, more, rfl, hmark, hopen⟩
      · have hpos : 0 < word.length := pos_of_scan? hword.scan?
        let token : Token := ⟨kind, String.ofList word, offset + gap.length⟩
        have htext : token.text.toList = word := String.toList_ofList
        have hlength : token.text.length = word.length := by rw [← String.length_toList, htext]
        simp only [List.length_append] at htotal ih
        have hoffset : total - (word ++ after).length = token.offset := by
          simp only [token, List.length_append]
          omega
        have hafter : total = token.offset + token.text.length + after.length := by
          simp only [token] at hlength ⊢
          omega
        obtain ⟨stop, rest, htiles, hends⟩ := ih after.length (by omega) hafter rfl
        have hcons : Tiles offset (gap ++ (token.text.toList ++ after))
            (token :: (lexFrom total after).tokens) stop rest :=
          .cons hgap (htext ▸ hword) rfl htiles
        rw [htext] at hcons
        rw [hgap.lexFrom, hword.lexFrom, hoffset]
        exact ⟨stop, rest, hcons, hends⟩
      · have hne : mark ≠ '\\' := by rcases hmark with rfl | rfl <;> decide
        exact hnone (.stuck hgap (.quotation _ hmark ((closing?_eq_none_iff hne).mp hopen)))

theorem IsToken.pos {word after : List Char} (h : IsToken kind word after) : 0 < word.length :=
  pos_of_scan? h.scan?

/-- The text of a token is the part of the source at its offset. -/
theorem Tiles.slice (h : Tiles offset text tokens stop rest) {front : List Char}
    (hfront : front.length = offset) : ∀ token ∈ tokens,
      ((front ++ text).drop token.offset).take token.text.length = token.text.toList := by
  induction h generalizing front with
  | nil => exact fun _ hmem => (List.not_mem_nil hmem).elim
  | @cons offset stop gap after rest token tokens hgap htoken hoffset h ih =>
      have hlength : token.text.toList.length = token.text.length := String.length_toList
      have hstart : (front ++ gap).length = token.offset := by
        rw [List.length_append, hfront, hoffset]
      rw [List.forall_mem_cons]
      constructor
      · rw [← List.append_assoc, ← hstart, List.drop_left, ← hlength, List.take_left]
      · have hend : (front ++ gap ++ token.text.toList).length =
            token.offset + token.text.length := by
          rw [List.length_append, hstart, hlength]
        have hlater := ih hend
        simpa only [List.append_assoc] using hlater

/-- One token starts and ends before another one. -/
def Token.Before (first second : Token) : Prop :=
  first.offset < second.offset ∧ first.offset + first.text.length ≤ second.offset

theorem Tiles.ordered (h : Tiles offset text tokens stop rest) :
    (∀ token ∈ tokens, offset ≤ token.offset) ∧ tokens.Pairwise Token.Before := by
  induction h with
  | nil => exact ⟨fun _ hmem => (List.not_mem_nil hmem).elim, .nil⟩
  | @cons offset stop gap after rest token tokens hgap htoken hoffset h ih =>
      obtain ⟨hlater, hpairs⟩ := ih
      have hpos : 0 < token.text.length := by
        rw [← String.length_toList]
        exact htoken.pos
      refine ⟨List.forall_mem_cons.mpr ⟨by omega, fun other hmem => ?_⟩,
        .cons (fun other hmem => ?_) hpairs⟩
      · have := hlater other hmem
        omega
      · have := hlater other hmem
        exact ⟨by omega, this⟩

end Tilings

/-- The lexer comes to an end with the tokens and the fault, if any, of a tiling of the source, and
a source has one tiling. It has a fault if and only if after the tokens and a gap a block comment or
a quotation starts that is never closed. Each token is a part of the source at its offset, and ends
before the next one starts. -/
theorem tokens_tile_source (source : String) :
    (∀ stream, lex source = stream ↔ ∃ stop rest,
      Tiles 0 source.toList stream.tokens stop rest ∧ Ends stop rest stream.fault) ∧
    (∀ tokens fault, lex source = ⟨tokens, some fault⟩ ↔ ∃ stop gap rest,
      Tiles 0 source.toList tokens stop (gap ++ rest) ∧ Gap gap ∧
        Stuck (stop + gap.length) rest fault) ∧
    (∀ token ∈ (lex source).tokens,
      (source.toList.drop token.offset).take token.text.length = token.text.toList) ∧
    (lex source).tokens.Pairwise Token.Before := by
  have htotal : source.toList.length = 0 + source.toList.length := (Nat.zero_add _).symm
  have hunique (tokens : List Token) (fault : Option SyntaxFault) (stop : Nat) (rest : List Char)
      (htiles : Tiles 0 source.toList tokens stop rest) (hends : Ends stop rest fault) :
      lex source = ⟨tokens, fault⟩ := by
    obtain ⟨hlex, hstop⟩ := htiles.lexFrom htotal
    rw [lex, hlex, hends.lexFrom hstop, TokenStream.prepend, List.append_nil]
  obtain ⟨stop, rest, htiles, hends⟩ := exists_tiles htotal
  refine ⟨fun stream => ⟨?_, ?_⟩, fun tokens fault => ⟨fun hlex => ?_, ?_⟩, ?_, ?_⟩
  · rintro rfl
    exact ⟨stop, rest, htiles, hends⟩
  · rintro ⟨stop, rest, htiles, hends⟩
    exact hunique stream.tokens stream.fault stop rest htiles hends
  · change Tiles 0 source.toList (lex source).tokens stop rest at htiles
    change Ends stop rest (lex source).fault at hends
    rw [hlex] at htiles hends
    cases hends with
    | @stuck _ gap rest _ hgap hstuck => exact ⟨stop, gap, rest, htiles, hgap, hstuck⟩
  · rintro ⟨stop, gap, rest, htiles, hgap, hstuck⟩
    exact hunique tokens (some fault) stop (gap ++ rest) htiles (.stuck hgap hstuck)
  · exact htiles.slice (List.length_nil : ([] : List Char).length = 0)
  · exact htiles.ordered.2

/-- A word with the mark of a comment in it, a line comment and a text that is never closed. -/
theorem tokens_tile_source_open :
    lex "a#|b ;c\n\"d" = ⟨[⟨.word, "a#|b", 0⟩], some (.character '"' 8)⟩ := by
  let word : Token := ⟨.word, "a#|b", 0⟩
  have hword : IsWord word.text.toList [' ', ';', 'c', '\n', '"', 'd'] :=
    ⟨by decide, List.all_eq_true.mp (by decide), by decide, delimited_cons (by decide)⟩
  have hline : Gap (';' :: (['c'] ++ '\n' :: [])) := .line (by decide) .nil
  have hopen : closing? '"' ['d'] = none := rfl
  have hlength : word.text.length = 4 := by decide
  have hrest : Tiles (word.offset + word.text.length) [' ', ';', 'c', '\n', '"', 'd'] [] 4
      [' ', ';', 'c', '\n', '"', 'd'] := by
    rw [hlength]
    exact .nil 4 _
  have hsource : "a#|b ;c\n\"d".toList =
      [] ++ (word.text.toList ++ [' ', ';', 'c', '\n', '"', 'd']) := by decide
  have htiles : Tiles 0 "a#|b ;c\n\"d".toList [word] 4 [' ', ';', 'c', '\n', '"', 'd'] :=
    hsource ▸ .cons .nil (.word hword (by decide)) rfl hrest
  exact ((tokens_tile_source _).2.1 _ _).mpr ⟨4, [' ', ';', 'c', '\n'], ['"', 'd'], htiles,
    .blank (by decide) hline,
    .quotation 8 (.inl rfl) ((closing?_eq_none_iff (by decide)).mp hopen)⟩

end Quasi.Reader
