import BranchCursor.Cursor

/-! Work with cursors as a tree of single operations on a shared feed.
Each operation lists the cursors that the work keeps meanwhile, so a feed knows which marks are
alive; several works over one feed may be run in turn or step by step in any order. -/
namespace BranchCursor

/-- The next operation, the cursors kept besides its own, and what follows its answer. -/
inductive Program (α : Type) where
  | done (a : α)
  | current (c : Cursor) (kept : List Cursor) (follow : Option Char → Program α)
  | next (c : Cursor) (kept : List Cursor) (follow : Cursor → Program α)

namespace Program

variable {α β : Type}

/-- Goes on with the result of a work. -/
def bind : Program α → (α → Program β) → Program β
  | done a, f => f a
  | current c kept k, f => current c kept fun x => (k x).bind f
  | next c kept k, f => next c kept fun d => (k d).bind f

/-- The same work with its result put in another form. -/
def map (g : α → β) (p : Program α) : Program β := p.bind fun a => done (g a)

/-- The same work while one more cursor is kept. -/
def keeping (own : Cursor) : Program α → Program α
  | done a => done a
  | current c kept k => current c (own :: kept) fun x => (k x).keeping own
  | next c kept k => next c (own :: kept) fun d => (k d).keeping own

/-- Whether a mark is alive because of a work that is about to do its next operation. -/
def holds (id : MarkId) : Program α → Bool
  | done _ => false
  | current c kept _ | next c kept _ => c.holds id || kept.any (·.holds id)

/-- The marks alive during the next operation of a work, given those held by others. -/
def alive (held : MarkId → Bool) (p : Program α) (id : MarkId) : Bool := held id || p.holds id

/-- One operation on the feed. -/
def step (held : MarkId → Bool) (p : Program α) (f : Feed) : Program α × Feed :=
  match p with
  | done a => (done a, f)
  | current c kept k =>
    let r := c.current ((current c kept k).alive held) f
    (k r.1, r.2)
  | next c kept k =>
    let r := c.next ((next c kept k).alive held) f
    (k r.1, r.2)

/-- All operations, one after the other. -/
def run (held : MarkId → Bool) : Program α → Feed → α × Feed
  | done a, f => (a, f)
  | current c kept k, f =>
    let r := c.current ((current c kept k).alive held) f
    run held (k r.1) r.2
  | next c kept k, f =>
    let r := c.next ((next c kept k).alive held) f
    run held (k r.1) r.2

/-- Runs works over one feed in turn; those that wait keep the cursors they start with. -/
def runAll (held : MarkId → Bool) : List (Program α) → Feed → List α × Feed
  | [], f => ([], f)
  | p :: later, f =>
    let first := p.run (fun id => held id || later.any (·.holds id)) f
    let rest := runAll held later first.2
    (first.1 :: rest.1, rest.2)

theorem run_bind (held : MarkId → Bool) (p : Program α) (g : α → Program β) (f : Feed) :
    (p.bind g).run held f = (g (p.run held f).1).run held (p.run held f).2 := by
  induction p generalizing f with
  | done a => rfl
  | current c kept k ih => exact ih _ _
  | next c kept k ih => exact ih _ _

/-- A step and then the rest is the whole run. -/
theorem run_step (held : MarkId → Bool) (p : Program α) (f : Feed) :
    (p.step held f).1.run held (p.step held f).2 = p.run held f := by
  cases p <;> rfl

end Program

end BranchCursor
