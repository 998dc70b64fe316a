import BranchCursor.Feed.Attach
import BranchCursor.Feed.Pull

/-! A position in a character sequence: past its end, in a text held in memory, or in a feed.
A cursor never changes; moving on makes a new one. -/
namespace BranchCursor

/-- A position inside a text that is wholly in memory. -/
structure TextCursor where
  buffer : Array Char
  index : Nat
  inside : index < buffer.size
  deriving DecidableEq

namespace TextCursor

def make (buffer : Array Char) (index : Nat) : Except CursorError TextCursor :=
  if inside : index < buffer.size then .ok ⟨buffer, index, inside⟩
  else .error (.outOfRange index buffer.size)

def current (t : TextCursor) : Char :=
  have := t.inside
  t.buffer[t.index]

/-- The next position, unless this is the last one. -/
def next? (t : TextCursor) : Option TextCursor :=
  if inside : t.index + 1 < t.buffer.size then some ⟨t.buffer, t.index + 1, inside⟩ else none

/-- The characters from here to the end. -/
def remaining (t : TextCursor) : List Char := t.buffer.toList.drop t.index

end TextCursor

/-- Past the end, in a text, or in a feed under the name of its mark. -/
inductive Cursor where
  | finish
  | text (t : TextCursor)
  | mark (id : MarkId)
  deriving DecidableEq

/-- What a cursor shows of itself. -/
inductive CursorView where
  | finish
  | text (position : Nat)
  | mark (position : Nat)
  deriving DecidableEq, Repr

namespace Cursor

/-- A cursor at `index` of a text, or past its end. -/
def ofText (buffer : Array Char) (index : Nat) : Cursor :=
  if inside : index < buffer.size then text ⟨buffer, index, inside⟩ else finish

def ofMark? : Option MarkId → Cursor
  | some id => mark id
  | none => finish

/-- The cursor that an advance leads to; a refused one leads nowhere. -/
def ofAdvance : Except CursorError (Option MarkId) → Cursor
  | .ok made => ofMark? made
  | .error _ => finish

/-- Whether the cursor keeps a mark alive. -/
def holds (id : MarkId) : Cursor → Bool
  | mark own => own == id
  | finish | text _ => false

def isFinish : Cursor → Bool
  | finish => true
  | text _ | mark _ => false

def isMark : Cursor → Bool
  | mark _ => true
  | finish | text _ => false

def view (f : Feed) : Cursor → CursorView
  | finish => .finish
  | text t => .text t.index
  | mark id => .mark (f.mark id).position

def position? (f : Feed) : Cursor → Option Nat
  | finish => none
  | text t => some t.index
  | mark id => some (f.mark id).position

/-- How many characters a cursor in a feed can serve without reading. -/
def buffered? (f : Feed) : Cursor → Option Nat
  | mark id => some (f.buffered id)
  | finish | text _ => none

/-- The rest of a text and the length of all of it. -/
def remaining? : Cursor → Option (List Char × Nat)
  | text t => some (t.remaining, t.buffer.size)
  | finish | mark _ => none

/-- The character at the cursor; only a cursor in a feed may have to read for it. -/
def current (alive : MarkId → Bool) : Cursor → Feed → Option Char × Feed
  | finish, f => (none, f)
  | text t, f => (some t.current, f)
  | mark id, f => f.current alive id

/-- The cursor one character further on; nothing is read. -/
def next (alive : MarkId → Bool) : Cursor → Feed → Cursor × Feed
  | finish, f => (finish, f)
  | text t, f => (match t.next? with | some t => text t | none => finish, f)
  | mark id, f =>
    let r := f.next alive id
    (ofAdvance r.1, r.2)

/-- No more characters than this can follow. -/
def bound (f : Feed) : Cursor → Nat
  | finish => 0
  | text t => t.buffer.size
  | mark _ => f.bound

end Cursor

end BranchCursor
