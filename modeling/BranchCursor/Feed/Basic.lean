import BranchCursor.Roster
import BranchCursor.Supply

/-! The state shared by all cursors over one forward-only source.
Every pulled character is a node, linked to the next one. A cursor is known to its feed as a mark,
which leads into this chain; a mark without a node waits on the roster. The feed keeps no mark
alive: its operations take `alive`, the marks held while they run. -/
namespace BranchCursor

/-- The choices made when a lazy root cursor is opened. -/
structure Options where
  logging : Bool := false
  pruneThreshold : Nat := 64
  bufferSize : Nat := 8192
  lossy : Bool := true
  deriving DecidableEq, Repr

/-- What the read log tells about. -/
inductive ReadEvent where
  | pulled
  | exhausted
  | fault
  | pruned
  deriving DecidableEq, Repr

def ReadEvent.message : ReadEvent → String
  | pulled => "pulled character"
  | exhausted => "source exhausted"
  | fault => "source fault"
  | pruned => "pruned subscribers"

/-- One line of the read log, with the length of the roster after the event. -/
structure LogEntry where
  offset : Nat
  character : Option Char
  event : ReadEvent
  subscribers : Nat
  deriving DecidableEq, Repr

/-- The name of a pulled character in its feed. -/
abbrev NodeId := Nat

/-- A pulled character, linked to the one after it once that was pulled. Nothing links back. -/
structure Node where
  char : Char
  offset : Nat
  next : Option NodeId := none
  deriving DecidableEq, Repr

/-- A link is set once and stays. -/
def Node.link (id : NodeId) (n : Node) : Node := { n with next := n.next.or (some id) }

/-- The name of a cursor in its feed; the clones of a cursor share it. -/
abbrev MarkId := Nat

/-- A cursor's position, and its node once a pull, or its predecessor, told it. -/
structure Mark where
  position : Nat
  head : Option NodeId
  deriving DecidableEq, Repr

namespace Mark

/-- A pull at `offset` tells the mark its node, if it is there; a head is set once and stays. -/
def told (id : NodeId) (offset : Nat) (m : Mark) : Mark :=
  if m.position = offset then { m with head := m.head.or (some id) } else m

/-- Whether a mark still waits once `offset` was pulled. -/
def waits (offset : Nat) (m : Mark) : Bool := m.head.isNone && offset < m.position

end Mark

/-- A source read once, character by character, and the cursors over it. The tail is the node
that the next one is linked to. -/
structure Feed where
  supply : Supply
  polls : Nat := 0
  readPosition : Nat := 0
  nodes : Array Node := #[]
  tail : Option NodeId := none
  marks : Array Mark := #[]
  roster : Roster MarkId
  exhausted : Bool := false
  fault : Option CursorError := none
  logging : Bool := false
  log : Array LogEntry := #[]
  deriving Repr

/-- What can be asked about a feed without reading. -/
structure Status where
  readPosition : Nat
  exhausted : Bool
  subscribers : Nat
  live : Nat
  hasFault : Bool
  deriving DecidableEq, Repr

namespace Feed

/-- The feed of an eager family: it has nothing to read. -/
def idle : Feed := { supply := .scripted [], roster := .make 1, exhausted := true }

def make (supply : Supply) (options : Options) : Feed :=
  { supply, roster := .make options.pruneThreshold, logging := options.logging }

def mark (f : Feed) (id : MarkId) : Mark := f.marks[id]?.getD ⟨0, none⟩

/-- The character that a mark knows. -/
def known (m : Mark) (f : Feed) : Option Char :=
  m.head.bind fun id => f.nodes[id]?.map Node.char

def status (alive : MarkId → Bool) (f : Feed) : Status where
  readPosition := f.readPosition
  exhausted := f.exhausted
  subscribers := f.roster.size
  live := f.roster.liveCount alive
  hasFault := f.fault.isSome

def record (offset : Nat) (character : Option Char) (event : ReadEvent) (f : Feed) : Feed :=
  if f.logging then
    { f with log := f.log.push ⟨offset, character, event, f.roster.size⟩ }
  else f

/-- How many characters a cursor can serve without reading. -/
def buffered (id : MarkId) (f : Feed) : Nat := f.readPosition - (f.mark id).position

/-- Hands over the failure that ended the source, once. -/
def takeFault (f : Feed) : Option CursorError × Feed := (f.fault, { f with fault := none })

/-- Hands over the log collected so far. -/
def takeLog (f : Feed) : Array LogEntry × Feed := (f.log, { f with log := #[] })

/-- No more characters than this were or will be pulled. -/
def bound (f : Feed) : Nat := f.readPosition + f.supply.bound

/-- Recording changes the log and nothing else. -/
theorem record_eq (offset : Nat) (character : Option Char) (event : ReadEvent) (f : Feed) :
    ∃ log, f.record offset character event = { f with log } := by
  unfold record
  split
  · exact ⟨_, rfl⟩
  · exact ⟨f.log, rfl⟩

@[simp] theorem log_record_of_quiet (offset : Nat) (character : Option Char) (event : ReadEvent)
    (f : Feed) (h : f.logging = false) : (f.record offset character event).log = f.log := by
  simp [record, h]

end Feed

end BranchCursor
