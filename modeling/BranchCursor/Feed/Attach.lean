import BranchCursor.Feed.Basic

/-! New cursors on a feed; none of these operations reads. A cursor that knows its node hands the
next one, once it was pulled, to its successor; all others wait on the roster. -/
namespace BranchCursor.Feed

/-- A new cursor. One without a node waits on the roster. -/
def attach (alive : MarkId → Bool) (position : Nat) (head : Option NodeId) (f : Feed) :
    MarkId × Feed :=
  let id := f.marks.size
  match head with
  | some node => (id, { f with marks := f.marks.push ⟨position, some node⟩ })
  | none =>
    let swept := f.roster.overdue alive
    let f := { f with
      marks := f.marks.push ⟨position, none⟩
      roster := f.roster.subscribe alive id }
    (id, if 0 < swept then f.record position none .pruned else f)

/-- The node after the node of a mark, if the mark has one and the next was pulled. -/
def successor (f : Feed) (m : Mark) : Option NodeId :=
  m.head.bind fun id => f.nodes[id]?.bind Node.next

/-- Whether a new cursor at `position` could never get its character. -/
def hasPassed (f : Feed) (position : Nat) : Bool := position < f.readPosition

/-- The cursor after a cursor, without reading: it gets its node if that was pulled, and there is
none past the end of an exhausted source. A successor that was passed without being kept for the
cursor is refused; no cursor that is held ever meets this. -/
def next (alive : MarkId → Bool) (id : MarkId) (f : Feed) :
    Except CursorError (Option MarkId) × Feed :=
  let here := f.mark id
  let position := here.position + 1
  match f.successor here with
  | some node =>
    let r := f.attach alive position (some node)
    (.ok (some r.1), r.2)
  | none =>
    if f.hasPassed position then (.error (.passed position f.readPosition), f)
    else if f.exhausted then (.ok none, f)
    else
      let r := f.attach alive position none
      (.ok (some r.1), r.2)

/-- A new cursor at any position that has not been read yet. Those behind are refused, since
pulled characters are there only for the cursors that existed when they were pulled. -/
def cursorAt (alive : MarkId → Bool) (position : Nat) (f : Feed) :
    Except CursorError (Option MarkId) × Feed :=
  if f.hasPassed position then (.error (.passed position f.readPosition), f)
  else if f.exhausted then (.ok none, f)
  else
    let r := f.attach alive position none
    (.ok (some r.1), r.2)

end BranchCursor.Feed
