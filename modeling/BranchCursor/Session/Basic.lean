import BranchCursor.Source
import BranchCursor.Program

/-! A session: named cursors, iterators and handles over any number of feeds.
A mark is alive while a name, an iterator or the running work holds its cursor. -/
namespace BranchCursor

/-- A cursor and its family. -/
structure Place where
  cursor : Cursor
  family : Nat
  deriving DecidableEq

/-- Whether a place holds a mark of family `i`. -/
def Place.holds (i : Nat) (id : MarkId) (p : Place) : Bool := p.family == i && p.cursor.holds id

/-- Values by name; the last one stored under a name counts. -/
abbrev Named (α : Type) := List (String × α)

namespace Named

variable {α : Type}

def get? (name : String) (entries : Named α) : Option α :=
  (entries.find? (·.1 == name)).map (·.2)

def erase (name : String) (entries : Named α) : Named α := entries.filter (·.1 != name)

def put (name : String) (a : α) (entries : Named α) : Named α := (name, a) :: entries.erase name

@[simp] theorem get?_erase_self (name : String) (entries : Named α) :
    (entries.erase name).get? name = none := by
  simp [get?, erase]

theorem get?_erase_ne {name other : String} (h : other ≠ name) (entries : Named α) :
    (entries.erase name).get? other = entries.get? other := by
  simp only [get?, erase, List.find?_filter]
  congr 2
  funext e
  by_cases he : e.1 = other
  · simp [he, h]
  · simp [he]

@[simp] theorem get?_put_self (name : String) (a : α) (entries : Named α) :
    (entries.put name a).get? name = some a := by
  simp [get?, put]

theorem get?_put_ne {name other : String} (h : other ≠ name) (a : α) (entries : Named α) :
    (entries.put name a).get? other = entries.get? other := by
  rw [← get?_erase_ne h entries]
  simp [get?, put, Ne.symm h]

end Named

/-- All cursors that come from one root: the name it was opened under, what it was opened on,
and the feed they share. -/
structure Family where
  name : String
  source : Source
  feed : Feed

/-- The families opened so far, and what is named. Handles stand for the feeds of families. -/
structure Session where
  families : Array Family := #[]
  cursors : Named Place := []
  iterators : Named Place := []
  handles : Named Nat := []

namespace Session

def feed (i : Nat) (s : Session) : Feed :=
  match s.families[i]? with
  | some family => family.feed
  | none => .idle

def setFeed (i : Nat) (f : Feed) (s : Session) : Session :=
  { s with families := s.families.modify i ({ · with feed := f }) }

/-- Whether a mark of family `i` is held by a name or an iterator. -/
def alive (i : Nat) (s : Session) (id : MarkId) : Bool :=
  s.cursors.any (·.2.holds i id) || s.iterators.any (·.2.holds i id)

def status (i : Nat) (s : Session) : Status := (s.feed i).status (s.alive i)

/-- The status of the feed behind a cursor that is in one. -/
def statusOf (p : Place) (s : Session) : Option Status :=
  if p.cursor.isMark then some (s.status p.family) else none

/-- Runs work on one feed while everything named is held. -/
def perform {α : Type} (i : Nat) (p : Program α) (s : Session) : α × Session :=
  let r := p.run (s.alive i) (s.feed i)
  (r.1, s.setFeed i r.2)

def nameCursor (name : String) (p : Place) (s : Session) : Session :=
  { s with cursors := s.cursors.put name p }

@[simp] theorem cursors_setFeed (i : Nat) (f : Feed) (s : Session) :
    (s.setFeed i f).cursors = s.cursors := rfl

@[simp] theorem iterators_setFeed (i : Nat) (f : Feed) (s : Session) :
    (s.setFeed i f).iterators = s.iterators := rfl

theorem feed_setFeed {i : Nat} {s : Session} (h : i < s.families.size) (f : Feed) :
    (s.setFeed i f).feed i = f := by
  simp [feed, setFeed, Array.getElem_modify, h]

theorem feed_setFeed_ne {i j : Nat} (h : i ≠ j) (f : Feed) (s : Session) :
    (s.setFeed i f).feed j = s.feed j := by
  simp [feed, setFeed, Array.getElem?_modify, h]

end Session

end BranchCursor
