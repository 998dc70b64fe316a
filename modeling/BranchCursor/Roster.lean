/-! A list of subscribers that does not keep them alive. Whoever uses it says who is alive;
entries of dead subscribers stay until a sweep, or until their turn in a broadcast. -/
namespace BranchCursor

/-- The entries in order of subscription, dead ones included, and the length from which the
next subscription sweeps first. -/
structure Roster (α : Type) where
  entries : Array α
  floor : Nat
  due : Nat
  deriving Repr

namespace Roster

variable {α σ : Type}

/-- An empty roster; a threshold of zero counts as one. -/
def make (threshold : Nat) : Roster α := ⟨#[], max threshold 1, max threshold 1⟩

def size (r : Roster α) : Nat := r.entries.size

def isEmpty (r : Roster α) : Bool := r.entries.isEmpty

/-- How many entries belong to subscribers that are alive. -/
def liveCount (alive : α → Bool) (r : Roster α) : Nat := r.entries.countP alive

/-- Drops the entries of dead subscribers. -/
def prune (alive : α → Bool) (r : Roster α) : Roster α :=
  { r with entries := r.entries.filter alive }

/-- Drops dead entries and allows the list to double before the next sweep. -/
def sweep (alive : α → Bool) (r : Roster α) : Roster α :=
  let r := r.prune alive
  { r with due := max (2 * r.size) r.floor }

/-- Whether the next subscription sweeps first. -/
def isDue (r : Roster α) : Bool := r.due ≤ r.size

/-- Makes room if it is due. -/
def settle (alive : α → Bool) (r : Roster α) : Roster α :=
  if r.isDue then r.sweep alive else r

/-- Appends a subscriber, after the sweep if one is due. -/
def subscribe (alive : α → Bool) (x : α) (r : Roster α) : Roster α :=
  let r := r.settle alive
  { r with entries := r.entries.push x }

/-- How many entries the sweep before the next subscription removes. -/
def overdue (alive : α → Bool) (r : Roster α) : Nat := r.size - (r.settle alive).size

/-- Visits one entry: a dead one is dropped, a live one stays if it wants to. -/
def visit (alive : σ → α → Bool) (deliver : α → σ → Bool × σ) (seen : Array α × σ) (x : α) :
    Array α × σ :=
  if alive seen.2 x then
    let answer := deliver x seen.2
    (if answer.1 then seen.1.push x else seen.1, answer.2)
  else seen

/-- Visits every entry in order of subscription. A visit may change who is alive, which counts
from the next turn on. -/
def broadcast (alive : σ → α → Bool) (deliver : α → σ → Bool × σ) (r : Roster α) (s : σ) :
    Roster α × σ :=
  let seen := r.entries.foldl (visit alive deliver) (#[], s)
  ({ r with entries := seen.1 }, seen.2)

@[simp] theorem size_make (threshold : Nat) : (make threshold : Roster α).size = 0 := rfl

@[simp] theorem size_subscribe (alive : α → Bool) (x : α) (r : Roster α) :
    (r.subscribe alive x).size = (r.settle alive).size + 1 := by
  simp [subscribe, size]

@[simp] theorem entries_prune (alive : α → Bool) (r : Roster α) :
    (r.prune alive).entries = r.entries.filter alive := rfl

@[simp] theorem due_broadcast (alive : σ → α → Bool) (deliver : α → σ → Bool × σ)
    (r : Roster α) (s : σ) : (r.broadcast alive deliver s).1.due = r.due := rfl

example : ((make 1 : Roster Nat).subscribe (· ≠ 3) 3 |>.subscribe (· ≠ 3) 4).entries = #[4] := by
  decide

end Roster

end BranchCursor
