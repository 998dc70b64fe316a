import BranchCursor.Program

/-! Walks along a cursor: skipping, reading ahead and iterating.
A walk starts at a cursor that its caller keeps; on the way it keeps only where it stands. -/
namespace BranchCursor

namespace Program

/-- The cursor `n` positions further on, or past the end if that comes first. -/
def skip : Nat → Cursor → Program Cursor
  | 0, c => done c
  | n + 1, c => if c.isFinish then done c else next c [] (skip n)

/-- Up to `n` more characters after those read before. -/
def readOn : Nat → Cursor → Array Char → Program (Array Char)
  | 0, _, text => done text
  | n + 1, c, text =>
    current c [] fun
      | none => done text
      | some a => next c [] fun d => readOn n d (text.push a)

/-- Up to `n` characters from a cursor on. -/
def peek (n : Nat) (c : Cursor) : Program (Array Char) := readOn n c #[]

/-- All characters from a cursor on, given a bound on their number. -/
def collect (bound : Nat) (c : Cursor) : Program (Array Char) := peek (bound + 1) c

/-- The answers of an iterator that is asked `n` more times, and where it stands then. At the
end it stays where it is and answers with nothing. -/
def iterate : Nat → Cursor → Array (Option Char) → Program (Array (Option Char) × Cursor)
  | 0, c, given => done (given, c)
  | n + 1, c, given =>
    current c [] fun
      | none => iterate n c (given.push none)
      | some a => next c [] fun d => iterate n d (given.push (some a))

end Program

end BranchCursor
