/-!
# Blank characters

Blanks separate tokens, are trimmed from settings and are collapsed in labels. The class is the
Unicode white space together with the four information separators.
-/

namespace Quasi.Text

/-- Inclusive ranges of code points. -/
abbrev Ranges := List (Nat × Nat)

def Ranges.contains (ranges : Ranges) (code : Nat) : Bool :=
  ranges.any fun range => range.1 ≤ code && code ≤ range.2

def blankRanges : Ranges :=
  [(0x09, 0x0d), (0x1c, 0x20), (0x85, 0x85), (0xa0, 0xa0), (0x1680, 0x1680), (0x2000, 0x200a),
   (0x2028, 0x2029), (0x202f, 0x202f), (0x205f, 0x205f), (0x3000, 0x3000)]

def isBlank (c : Char) : Bool := blankRanges.contains c.toNat

/-- The blanks that surround a numeral written in ASCII. -/
def isAsciiBlank (c : Char) : Bool := Ranges.contains [(0x09, 0x0d), (0x20, 0x20)] c.toNat

/-- The text without the characters of class `p` at its two ends. -/
def trim (p : Char → Bool) (text : List Char) : List Char :=
  ((text.dropWhile p).reverse.dropWhile p).reverse

/-- The maximal runs of characters outside the class `p`. -/
def runs (p : Char → Bool) : List Char → List (List Char)
  | [] => []
  | c :: rest =>
      if p c then runs p rest
      else
        match rest, runs p rest with
        | next :: _, run :: others => if p next then [c] :: run :: others else (c :: run) :: others
        | _, others => [c] :: others

/-- The text with every run of blanks between words replaced by one space. -/
def collapse (text : String) : String :=
  String.intercalate " " ((runs isBlank text.toList).map String.ofList)

theorem isBlank_of_isWhitespace (c : Char) (h : c.isWhitespace = true) : isBlank c = true := by
  simp only [Char.isWhitespace, Bool.or_eq_true, decide_eq_true_eq] at h
  rcases h with ((h | h) | h) | h <;> subst h <;> decide

theorem trim_of_class (p : Char → Bool) (text : List Char) (h : ∀ c ∈ text, p c = true) :
    trim p text = [] := by
  have hd : text.dropWhile p = [] := by
    induction text with
    | nil => rfl
    | cons c rest ih =>
        rw [List.dropWhile_cons_of_pos (h c (by simp))]
        exact ih fun d hd => h d (by simp [hd])
  simp [trim, hd]

end Quasi.Text
