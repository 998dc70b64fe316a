import BranchCursor.Feed.Basic

/-! Reading a feed. Each character is asked for once, when some cursor needs it, and every cursor
waiting at its position is told; after its end or first failure the source is not asked again. -/
namespace BranchCursor.Feed

/-- One waiting cursor hears that the node `node` was pulled at `offset`, and says whether it
still waits. -/
def notify (node : NodeId) (offset : Nat) (id : MarkId) (marks : Array Mark) :
    Bool × Array Mark :=
  let marks := marks.modify id (Mark.told node offset)
  (((marks[id]?).map (Mark.waits offset)).getD false, marks)

/-- A character joins the chain: the last node, if there is one, is linked to its node. -/
def extend (tail : Option NodeId) (c : Char) (offset : Nat) (nodes : Array Node) : Array Node :=
  let node := nodes.size
  let nodes :=
    match tail with
    | some last => nodes.modify last (Node.link node)
    | none => nodes
  nodes.push { char := c, offset }

/-- A character arrives: all waiting cursors hear of it, then the read position moves on. -/
def arrive (alive : MarkId → Bool) (c : Char) (f : Feed) : Feed :=
  let node := f.nodes.size
  let offset := f.readPosition
  let told := f.roster.broadcast (fun _ => alive) (notify node offset) f.marks
  { f with
    nodes := extend f.tail c offset f.nodes
    tail := some node
    roster := told.1
    marks := told.2
    readPosition := offset + 1 }.record offset (some c) .pulled

/-- Nothing more will come, so nothing will be linked to the last node. -/
def finish (cause : Option CursorError) (f : Feed) : Feed :=
  { f with exhausted := true, tail := none, fault := cause.or f.fault }.record f.readPosition none
    (if cause.isSome then .fault else .exhausted)

/-- Asks the source once, unless it is exhausted; a source is never asked again after its end
or its first failure. -/
def pull (alive : MarkId → Bool) (f : Feed) : Option Char × Feed :=
  if f.exhausted then (none, f)
  else
    let answer := f.supply.poll
    let f := { f with supply := answer.2, polls := f.polls + 1 }
    match answer.1 with
    | .char c => (some c, f.arrive alive c)
    | .finished => (none, f.finish none)
    | .fault cause => (none, f.finish (some cause))

/-- Pulls up to `n` characters, stopping where the source does. -/
def pullMany (alive : MarkId → Bool) : Nat → Feed → Feed
  | 0, f => f
  | n + 1, f =>
    match f.pull alive with
    | (some _, f) => pullMany alive n f
    | (none, f) => f

/-- Pulls until `position` has been read or the source stops. -/
def reach (alive : MarkId → Bool) (position : Nat) (f : Feed) : Feed :=
  f.pullMany alive (position + 1 - f.readPosition)

/-- The character of a cursor: the one it knows, or else the one that reading on brings it. -/
def current (alive : MarkId → Bool) (id : MarkId) (f : Feed) : Option Char × Feed :=
  match f.known (f.mark id) with
  | some c => (some c, f)
  | none =>
    let f := f.reach alive (f.mark id).position
    (f.known (f.mark id), f)

/-- An exhausted feed stays as it is. -/
theorem pull_of_exhausted (alive : MarkId → Bool) {f : Feed} (h : f.exhausted = true) :
    f.pull alive = (none, f) := by
  simp [pull, h]

/-- A position that was read needs no more reading. -/
theorem reach_of_lt (alive : MarkId → Bool) {position : Nat} {f : Feed}
    (h : position < f.readPosition) : f.reach alive position = f := by
  have hzero : position + 1 - f.readPosition = 0 := by omega
  simp [reach, hzero, pullMany]

end BranchCursor.Feed
