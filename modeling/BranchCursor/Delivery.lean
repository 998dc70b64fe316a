import BranchCursor.Error

/-! What a character source answers when it is asked for the next character. -/
namespace BranchCursor

/-- A character, the end of the content, or a failure. -/
inductive Delivery where
  | char (c : Char)
  | finished
  | fault (cause : CursorError)
  deriving DecidableEq, Repr

namespace Delivery

def char? : Delivery → Option Char
  | char c => some c
  | finished | fault _ => none

def error? : Delivery → Option CursorError
  | fault cause => some cause
  | char _ | finished => none

end Delivery

end BranchCursor
