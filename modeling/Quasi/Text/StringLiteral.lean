import Quasi.Text.Digit
import Quasi.Text.Surrogate

/-!
# String literals

A literal stands between double quotes. A backslash starts an escape: a single letter for the
common controls, or `u` and four hexadecimal digits for a UTF-16 unit, two of which may form a
pair. Control characters have to be escaped. `decode` and `encode` work on the characters between
the quotes.
-/

namespace Quasi.Text.StringLiteral

/-- Why a literal cannot be read. -/
inductive Fault where
  | control
  | escape
  | unit
deriving DecidableEq, Repr

def Fault.message : Fault → String
  | .control => "Invalid control character at"
  | .escape => "Invalid \\escape"
  | .unit => "Invalid \\uXXXX escape"

def isControl (c : Char) : Bool := c.toNat < 0x20

/-- The character that a one-letter escape stands for. -/
def letter? : Char → Option Char
  | '"' => some '"'
  | '\\' => some '\\'
  | '/' => some '/'
  | 'b' => some '\x08'
  | 'f' => some '\x0c'
  | 'n' => some '\n'
  | 'r' => some '\r'
  | 't' => some '\t'
  | _ => none

/-- The UTF-16 unit that the first four characters write, and the characters after them. -/
def unit? : List Char → Option (Nat × List Char)
  | a :: b :: c :: d :: rest => do
      let a ← hexDigit? a
      let b ← hexDigit? b
      let c ← hexDigit? c
      let d ← hexDigit? d
      return (((a * 16 + b) * 16 + c) * 16 + d, rest)
  | _ => none

theorem length_of_unit? {text rest : List Char} {unit : Nat} (h : unit? text = some (unit, rest)) :
    rest.length < text.length := by
  unfold unit? at h
  split at h
  · simp only [Option.bind_eq_bind, Option.bind_eq_some_iff] at h
    obtain ⟨_, _, _, _, _, _, _, _, h⟩ := h
    simp only [Option.pure_def, Option.some.injEq, Prod.mk.injEq] at h
    simp [← h.2]
    omega
  · simp at h

/-- What a unit escape writes: after a high surrogate a whole second escape is tried, and joined
to the first if it is a low surrogate. -/
def unitEscape? (text : List Char) : Option (Char × List Char) := do
  let (first, rest) ← unit? text
  match rest with
  | '\\' :: 'u' :: tail =>
      if isHighSurrogate first && 4 ≤ tail.length then do
        let (second, rest') ← unit? tail
        if isLowSurrogate second then return (Char.ofNat (joinSurrogates first second), rest')
        else return (unitChar first, rest)
      else return (unitChar first, rest)
  | _ => return (unitChar first, rest)

theorem length_of_unitEscape? {text rest : List Char} {c : Char}
    (h : unitEscape? text = some (c, rest)) : rest.length < text.length := by
  unfold unitEscape? at h
  simp only [Option.bind_eq_bind, Option.bind_eq_some_iff] at h
  obtain ⟨⟨first, rest₁⟩, hfirst, h⟩ := h
  have hlt := length_of_unit? hfirst
  simp only at h
  split at h
  · rename_i tail
    split at h
    · simp only [Option.bind_eq_some_iff] at h
      obtain ⟨⟨second, rest₂⟩, hsecond, h⟩ := h
      have hlt₂ := length_of_unit? hsecond
      simp only at h
      split at h
      · simp only [Option.pure_def, Option.some.injEq, Prod.mk.injEq] at h
        rw [← h.2]
        simp only [List.length_cons] at hlt
        omega
      · simp only [Option.pure_def, Option.some.injEq, Prod.mk.injEq] at h
        rw [← h.2]
        exact hlt
    · simp only [Option.pure_def, Option.some.injEq, Prod.mk.injEq] at h
      rw [← h.2]
      exact hlt
  · simp only [Option.pure_def, Option.some.injEq, Prod.mk.injEq] at h
    rw [← h.2]
    exact hlt

/-- The text that the characters between the quotes write. -/
def decode (text : List Char) : Except Fault (List Char) :=
  match text with
  | [] => .ok []
  | '\\' :: rest =>
      match rest with
      | 'u' :: units =>
          match _h : unitEscape? units with
          | some (c, rest') => (decode rest').map (c :: ·)
          | none => .error .unit
      | escaped :: rest' =>
          match letter? escaped with
          | some c => (decode rest').map (c :: ·)
          | none => .error .escape
      | [] => .error .escape
  | c :: rest => if isControl c then .error .control else (decode rest).map (c :: ·)
termination_by text.length
decreasing_by
  all_goals first
    | simp only [List.length_cons]; have := length_of_unitEscape? _h; omega
    | simp only [List.length_cons]; omega

/-- The escape that writes a character, if it needs one. -/
def escape? : Char → Option (List Char)
  | '"' => some ['\\', '"']
  | '\\' => some ['\\', '\\']
  | '\n' => some ['\\', 'n']
  | '\r' => some ['\\', 'r']
  | '\t' => some ['\\', 't']
  | '\x08' => some ['\\', 'b']
  | '\x0c' => some ['\\', 'f']
  | c => if isControl c then some ('\\' :: 'u' :: hex 4 c.toNat) else none

def encode (text : List Char) : List Char :=
  text.flatMap fun c => (escape? c).getD [c]

/-- The literal for a text, quotes included. -/
def quote (text : String) : String :=
  String.ofList ('"' :: encode text.toList ++ ['"'])

end Quasi.Text.StringLiteral
