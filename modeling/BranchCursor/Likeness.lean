import BranchCursor.Text.Lowercase

/-! When a pattern character counts as equal to a content character. -/
namespace BranchCursor

/-- A way to compare; the pattern character comes first. Callers may bring their own. -/
inductive Likeness where
  | exact
  | asciiCase
  | anyCase
  | digits
  | anything
  | nothing
  | upTo
  | own (same : Char → Char → Bool)

namespace Likeness

/-- Maps the letters `A` to `Z` to lower case and nothing else. -/
def foldAscii (c : Char) : Char := if 'A' ≤ c ∧ c ≤ 'Z' then Char.ofNat (c.toNat + 32) else c

def isAscii (c : Char) : Bool := c.toNat < 128

def isAsciiDigit (c : Char) : Bool := '0' ≤ c && c ≤ '9'

/-- Equality of the lowercase forms, decided early for equal characters and within ASCII. -/
def sameLowercase (e a : Char) : Bool :=
  if e = a then true
  else if isAscii e && isAscii a then foldAscii e == foldAscii a
  else Text.lowercase e == Text.lowercase a

/-- `digits` lets `0` stand for any digit; `upTo` takes every character from the pattern's on. -/
def like : Likeness → Char → Char → Bool
  | exact, e, a => e == a
  | asciiCase, e, a => foldAscii e == foldAscii a
  | anyCase, e, a => sameLowercase e a
  | digits, e, a => e == a || (e == '0' && isAsciiDigit a)
  | anything, _, _ => true
  | nothing, _, _ => false
  | upTo, e, a => e ≤ a
  | own same, e, a => same e a

end Likeness

end BranchCursor
