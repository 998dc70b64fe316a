import BranchCursor.Walk

/-! Several cursors over one source that all read to its end, while its root waits. -/
namespace BranchCursor

/-- What each cursor read, what the root read after them, and the feed in the end. -/
structure Gathering where
  texts : List (Array Char)
  root : Array Char
  feed : Feed

namespace Gathering

/-- Whether one of some cursors holds a mark. -/
def held (cursors : List Cursor) (id : MarkId) : Bool := cursors.any (·.holds id)

/-- New cursors at given positions, after those made before. -/
def attachAt (made : List Cursor) : List Nat → Feed → Except CursorError (List Cursor × Feed)
  | [], f => .ok (made, f)
  | position :: later, f =>
    match f.cursorAt (held made) position with
    | (.ok id, f) => attachAt (made ++ [.ofMark? id]) later f
    | (.error cause, _) => .error cause

/-- Cursors at given distances from the root, after those made before. -/
def skipFrom (root : Cursor) (made : List Cursor) : List Nat → Feed → List Cursor × Feed
  | [], f => (made, f)
  | n :: later, f =>
    let r := (Program.skip n root).run (held made) f
    skipFrom root (made ++ [r.1]) later r.2

/-- Makes cursors at `starts` and `skips` from the root before anything is read; then each reads
everything it can, and the root last. -/
def make (starts skips : List Nat) (root : Cursor) (f : Feed) : Except CursorError Gathering :=
  (attachAt [root] starts f).map fun attached =>
    let cursors := skipFrom root attached.1 skips attached.2
    let readers := cursors.1.drop 1
    let bound := cursors.2.bound
    let r := Program.runAll (root.holds ·)
      (readers.map fun c => (Program.collect bound c).keeping c) cursors.2
    let last := (Program.collect bound root).run (root.holds ·) r.2
    ⟨r.1, last.1, last.2⟩

end Gathering

end BranchCursor
