import BranchCursor.Roster

/-! A roster with somebody who holds its subscribers: at most one value for each number.
A value that is no longer held is dead and stays so; holding the same number again is a new value. -/
namespace BranchCursor

/-- A subscribed value: the number it is held under, and which of that number's values it is. -/
structure Subscriber where
  id : Nat
  serial : Nat
  deriving DecidableEq, Repr

/-- A roster, the values held, and how many were ever made. -/
structure Audience where
  roster : Roster Subscriber
  held : List Subscriber := []
  made : Nat := 0
  deriving Repr

namespace Audience

/-- What a broadcast meets: who answers that it stays (no list: everybody), and which numbers
are let go while a number is visited. -/
structure Response where
  keep : Option (List Nat)
  kill : List (Nat × List Nat)
  deriving Repr

inductive Step where
  | subscribe (id : Nat)
  | subscribeBriefly (id : Nat)
  | letGo (ids : List Nat)
  | broadcast (response : Response)
  | prune
  | rest
  deriving Repr

inductive Answer where
  | nothing
  | count (n : Nat)
  | visited (ids : List Nat)
  deriving DecidableEq, Repr

def make (threshold : Nat) : Audience := { roster := .make threshold }

def isAlive (held : List Subscriber) (x : Subscriber) : Bool := held.contains x

def without (ids : List Nat) (held : List Subscriber) : List Subscriber :=
  held.filter fun x => !ids.contains x.id

/-- The value held under a number, made now if there is none. -/
def hold (id : Nat) (a : Audience) : Subscriber × Audience :=
  match a.held.find? (·.id == id) with
  | some x => (x, a)
  | none =>
    let x : Subscriber := ⟨id, a.made⟩
    (x, { a with held := x :: a.held, made := a.made + 1 })

/-- Appends a subscriber, and tells how many dead ones were swept out before. -/
def join (x : Subscriber) (a : Audience) : Nat × Audience :=
  (a.roster.overdue (isAlive a.held),
    { a with roster := a.roster.subscribe (isAlive a.held) x })

namespace Response

def stays (r : Response) (id : Nat) : Bool :=
  match r.keep with
  | none => true
  | some ids => ids.contains id

def kills (r : Response) (id : Nat) : List Nat := (r.kill.lookup id).getD []

/-- A visit is noted, lets go of some values, and answers. -/
def deliver (r : Response) (x : Subscriber) (seen : List Subscriber × List Nat) :
    Bool × List Subscriber × List Nat :=
  (r.stays x.id, without (r.kills x.id) seen.1, x.id :: seen.2)

end Response

def run (step : Step) (a : Audience) : Answer × Audience :=
  match step with
  | .subscribe id =>
    let held := a.hold id
    let r := held.2.join held.1
    (.count r.1, r.2)
  | .subscribeBriefly id =>
    let r := { a with made := a.made + 1 }.join ⟨id, a.made⟩
    (.count r.1, r.2)
  | .letGo ids => (.nothing, { a with held := without ids a.held })
  | .broadcast response =>
    let r := a.roster.broadcast (fun seen => isAlive seen.1) response.deliver (a.held, [])
    (.visited r.2.2.reverse, { a with roster := r.1, held := r.2.1 })
  | .prune =>
    let roster := a.roster.prune (isAlive a.held)
    (.count (a.roster.size - roster.size), { a with roster })
  | .rest => (.nothing, a)

/-- The number of entries, whether there are none, and how many are alive. -/
def status (a : Audience) : Nat × Bool × Nat :=
  (a.roster.size, a.roster.isEmpty, a.roster.liveCount (isAlive a.held))

example : (((make 1).run (.subscribe 5)).2.run (.broadcast ⟨none, [(5, [5])]⟩)).2.status =
    (1, false, 0) := by decide

end Audience

end BranchCursor
