/-!
# Halves of surrogate pairs

A string literal may name half of a surrogate pair. Half a pair is no character, so the text
holds a stand-in in its place, from a plane to which no characters are assigned.
-/

namespace Quasi.Text

def isHighSurrogate (unit : Nat) : Bool := 0xd800 ≤ unit && unit < 0xdc00

def isLowSurrogate (unit : Nat) : Bool := 0xdc00 ≤ unit && unit < 0xe000

/-- The code point that a pair of surrogates stands for. -/
def joinSurrogates (high low : Nat) : Nat := 0x10000 + (high - 0xd800) * 0x400 + (low - 0xdc00)

/-- The stand-in for half a pair. -/
def loneSurrogate (unit : Nat) : Char := Char.ofNat (0xd0000 + unit)

/-- The half that a character stands in for. -/
def loneSurrogate? (c : Char) : Option Nat :=
  if 0xdd800 ≤ c.toNat ∧ c.toNat < 0xde000 then some (c.toNat - 0xd0000) else none

/-- The character of a code unit, half a pair included. -/
def unitChar (unit : Nat) : Char :=
  if isHighSurrogate unit || isLowSurrogate unit then loneSurrogate unit else Char.ofNat unit

end Quasi.Text
