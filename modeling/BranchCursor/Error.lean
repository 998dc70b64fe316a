/-! Failures as causes: what a byte stream, a caller or an input can do wrong.
Every wording is in `message`; nothing else in the library builds an error text. -/
namespace BranchCursor

/-- Why a byte stream or a file gave no bytes. -/
inductive ReadFailure where
  | other (text : String)
  | timedOut
  | unexpectedEnd
  | permissionDenied
  | brokenPipe
  | wouldBlock
  | interrupted
  | notFound
  | notDirectory
  | isDirectory
  | nameTooLong
  | notText
  deriving DecidableEq, Repr

namespace ReadFailure

def message : ReadFailure → String
  | other text => text
  | timedOut => "timed out"
  | unexpectedEnd => "unexpected end of file"
  | permissionDenied => "permission denied"
  | brokenPipe => "broken pipe"
  | wouldBlock => "operation would block"
  | interrupted => "operation interrupted"
  | notFound => "No such file or directory (os error 2)"
  | notDirectory => "Not a directory (os error 20)"
  | isDirectory => "Is a directory (os error 21)"
  | nameTooLong => "File name too long (os error 36)"
  | notText => "stream did not contain valid UTF-8"

end ReadFailure

/-- An argument no operation can work with. -/
inductive Misuse where
  | emptyPattern
  | shortBuffer
  | stated (text : String)
  deriving DecidableEq, Repr

def Misuse.message : Misuse → String
  | emptyPattern => "match pattern must not be empty"
  | shortBuffer => "read buffer must hold at least 4 bytes"
  | stated text => text

/-- What a cursor operation can fail with. -/
inductive CursorError where
  | misuse (cause : Misuse)
  | outOfRange (index length : Nat)
  | passed (position readPosition : Nat)
  | source (cause : ReadFailure)
  | illFormed (offset : Nat)
  deriving DecidableEq, Repr

namespace CursorError

def message : CursorError → String
  | misuse cause => s!"invalid argument: {cause.message}"
  | outOfRange index length => s!"index {index} out of range for buffer of length {length}"
  | passed position readPosition =>
    s!"position {position} already passed by reader at {readPosition}"
  | source cause => s!"source read failed: {cause.message}"
  | illFormed offset => s!"invalid UTF-8 at byte offset {offset}"

/-- The caller's mistakes, as opposed to failures of the source. -/
def isUsage : CursorError → Bool
  | misuse _ | outOfRange .. | passed .. => true
  | source _ | illFormed _ => false

end CursorError

end BranchCursor
