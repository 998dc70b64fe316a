import BranchCursor.Likeness
import BranchCursor.Search
import BranchCursor.Source

/-! The steps of a session over named cursors, iterators and feeds, and their answers. -/
namespace BranchCursor.Session

/-- A step on a cursor. Those that make something name it. -/
inductive CursorStep where
  | current
  | next (name : String)
  | skip (n : Nat) (name : String)
  | clone (name : String)
  | peek (n : Nat)
  | collect
  | position
  | isFinish
  | compare (pattern : List Char) (likeness : Likeness) (traced : Bool)
  | buffered
  | remaining
  | describe
  | iterate (name : String)
  | handle (name : String)
  | scan (patterns : List (List Char)) (likeness : Likeness)
  | drop

/-- A step on the handle of a feed. -/
inductive HandleStep where
  | cursorAt (position : Nat) (name : String)
  | takeFault
  | takeLog
  | status
  | describe
  | drop

/-- A step on an iterator. -/
inductive IteratorStep where
  | take (n : Nat)
  | drop

inductive Step where
  | openSource (name : String) (source : Source)
  | probe (name : String)
  | cursor (name : String) (step : CursorStep)
  | handle (name : String) (step : HandleStep)
  | iterator (name : String) (step : IteratorStep)

/-- What a step answers with. -/
inductive Answer where
  | nothing
  | unknown (name : String)
  | refused (cause : CursorError)
  | cursor (view : CursorView)
  | char (c : Option Char)
  | text (content : Array Char)
  | count (n : Option Nat)
  | flag (b : Bool)
  | traced (verdict : Except CursorError Comparison)
  | remaining (rest : Option (List Char × Nat))
  | description (s : String)
  | hits (found : Array Hit)
  | fault (cause : Option CursorError)
  | log (entries : Array LogEntry)
  | given (chars : Array (Option Char))
  | probe (p : Probe)

/-- What the work of a step comes to: an answer, a cursor to be named, or what an iterator gave
and where it stands then. -/
inductive Outcome where
  | answered (answer : Answer)
  | made (name : String) (c : Cursor)
  | gave (name : String) (chars : Array (Option Char)) (c : Cursor)

/-- An answer, and the status of the feed involved once the step is over. -/
structure Reply where
  answer : Answer
  status : Option Status

end BranchCursor.Session
