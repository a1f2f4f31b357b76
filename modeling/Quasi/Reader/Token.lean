import Quasi.Failure.Fault
import Quasi.Text.Blank

/-!
# Tokens

The words of source text. Blanks, line comments and nested block comments stand between tokens
and mean nothing. `skipGap` passes over them, `scan?` measures the token at the start of a text,
and `lex` reads a whole source into its tokens and the fault, if any, that stopped it.
-/

namespace Quasi.Reader

open Text

inductive TokenKind where
  | openParen
  | closeParen
  | quote
  | string
  | backquoted
  | argumentName
  | word
deriving DecidableEq, Repr

structure Token where
  kind : TokenKind
  text : String
  offset : Nat
deriving DecidableEq, Repr

/-- The tokens of a source, and the fault at which reading them stopped. -/
structure TokenStream where
  tokens : List Token
  fault : Option SyntaxFault

/-! ## Gaps -/

/-- The text after the block comments that are open, `depth` of them. -/
def afterComment? : Nat → List Char → Option (List Char)
  | 0, text => some text
  | _ + 1, [] => none
  | depth + 1, '#' :: '|' :: rest => afterComment? (depth + 2) rest
  | depth + 1, '|' :: '#' :: rest => afterComment? depth rest
  | depth + 1, _ :: rest => afterComment? (depth + 1) rest

theorem length_of_afterComment? {depth : Nat} {text rest : List Char}
    (h : afterComment? depth text = some rest) : rest.length ≤ text.length := by
  fun_induction afterComment? depth text with
  | case1 text => simp_all
  | case2 => simp at h
  | case3 _ _ ih => have := ih h; simp only [List.length_cons]; omega
  | case4 _ _ ih => have := ih h; simp only [List.length_cons]; omega
  | case5 _ _ _ _ _ ih => have := ih h; simp only [List.length_cons]; omega

/-- The text after the current line. -/
def afterLine (text : List Char) : List Char := (text.dropWhile (· ≠ '\n')).drop 1

theorem length_dropWhile_le (p : Char → Bool) (text : List Char) :
    (text.dropWhile p).length ≤ text.length := by
  induction text with
  | nil => simp
  | cons c rest ih =>
      rw [List.dropWhile_cons]
      split
      · exact Nat.le_succ_of_le ih
      · exact Nat.le_refl _

theorem length_afterLine (text : List Char) : (afterLine text).length ≤ text.length := by
  have := length_dropWhile_le (· ≠ '\n') text
  simp only [afterLine, List.length_drop]
  omega

/-- The text from the next token on, or from the block comment that is never closed. -/
def skipGap (text : List Char) : Except (List Char) (List Char) :=
  match text with
  | [] => .ok []
  | ';' :: rest => skipGap (afterLine rest)
  | '#' :: '|' :: rest =>
      match _h : afterComment? 1 rest with
      | some rest' => skipGap rest'
      | none => .error ('#' :: '|' :: rest)
  | c :: rest => if isBlank c then skipGap rest else .ok (c :: rest)
termination_by text.length
decreasing_by
  · have := length_afterLine rest
    simp only [List.length_cons]
    omega
  · have := length_of_afterComment? _h
    simp only [List.length_cons]
    omega
  · simp

theorem length_of_skipGap {text rest : List Char} (h : skipGap text = .ok rest) :
    rest.length ≤ text.length := by
  fun_induction skipGap text with
  | case1 => simp_all
  | case2 rest' ih =>
      have := ih h
      have := length_afterLine rest'
      simp only [List.length_cons]
      omega
  | case3 _ _ hc ih =>
      have := ih h
      have := length_of_afterComment? hc
      simp only [List.length_cons]
      omega
  | case4 => simp at h
  | case5 _ _ _ _ _ ih =>
      have := ih h
      simp only [List.length_cons]
      omega
  | case6 => simp_all

/-! ## Tokens -/

/-- The mark around names that are not words. -/
def backquote : Char := Char.ofNat 0x60

/-- The characters of words: all but blanks and the marks of other tokens. -/
def isWordChar (c : Char) : Bool :=
  !isBlank c && c ≠ '(' && c ≠ ')' && c ≠ '\'' && c ≠ backquote && c ≠ '"' && c ≠ ',' && c ≠ ';'

/-- The number of characters up to and including the mark that closes a quoted token. A backslash
takes the next character with it. -/
def closing? (mark : Char) : List Char → Option Nat
  | [] => none
  | '\\' :: _ :: rest => (closing? mark rest).map (· + 2)
  | c :: rest =>
      if c = mark then some 1
      else if c = '\\' then none
      else (closing? mark rest).map (· + 1)

/-- Whether a word is the name of an argument: a colon and a word that starts with neither a colon
nor an equals sign. -/
def isArgumentName : List Char → Bool
  | ':' :: c :: _ => c ≠ ':' && c ≠ '='
  | _ => false

/-- The kind and the length of the token at the start of a text. -/
def scan? : List Char → Option (TokenKind × Nat)
  | [] => none
  | '(' :: _ => some (.openParen, 1)
  | ')' :: _ => some (.closeParen, 1)
  | '\'' :: _ => some (.quote, 1)
  | ',' :: '@' :: _ => some (.quote, 2)
  | ',' :: _ => some (.quote, 1)
  | '"' :: rest => (closing? '"' rest).map (.string, · + 1)
  | c :: rest =>
      if c = backquote then (closing? backquote rest).map (.backquoted, · + 1)
      else
        let word := (c :: rest).takeWhile isWordChar
        if word = [] then none
        else some (if isArgumentName word then .argumentName else .word, word.length)

theorem pos_of_scan? {text : List Char} {kind : TokenKind} {n : Nat}
    (h : scan? text = some (kind, n)) : 0 < n := by
  unfold scan? at h
  split at h
  all_goals try simp only [Option.some.injEq, Prod.mk.injEq, reduceCtorEq] at h
  all_goals try omega
  · simp only [Option.map_eq_some_iff, Prod.mk.injEq] at h
    obtain ⟨_, _, _, h⟩ := h
    omega
  · split at h
    · simp only [Option.map_eq_some_iff, Prod.mk.injEq] at h
      obtain ⟨_, _, _, h⟩ := h
      omega
    · split at h
      · simp at h
      · rename_i hw
        simp only [Option.some.injEq, Prod.mk.injEq] at h
        rw [← h.2]
        exact List.length_pos_iff.mpr hw

/-- The tokens of the end of a source of `total` characters. -/
def lexFrom (total : Nat) (text : List Char) : TokenStream :=
  match _hg : skipGap text with
  | .error rest => ⟨[], some (.openComment (total - rest.length))⟩
  | .ok [] => ⟨[], none⟩
  | .ok (c :: rest) =>
      match _hs : scan? (c :: rest) with
      | none => ⟨[], some (.character c (total - (rest.length + 1)))⟩
      | some (kind, n) =>
          let token := ⟨kind, String.ofList ((c :: rest).take n), total - (rest.length + 1)⟩
          let others := lexFrom total ((c :: rest).drop n)
          ⟨token :: others.tokens, others.fault⟩
termination_by text.length
decreasing_by
  have := length_of_skipGap _hg
  have := pos_of_scan? _hs
  simp only [List.length_cons] at *
  simp only [List.length_drop, List.length_cons]
  omega

def lex (source : String) : TokenStream := lexFrom source.toList.length source.toList

end Quasi.Reader
