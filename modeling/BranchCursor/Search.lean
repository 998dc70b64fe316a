import BranchCursor.Matching

/-! Every occurrence of some patterns from a cursor on, by one worker or by several that share
a feed. Worker `k` of `n` walks everything and tries the offsets congruent to `k` modulo `n`. -/
namespace BranchCursor

/-- A pattern, by its index, found at an offset. -/
structure Hit where
  offset : Nat
  pattern : Nat
  deriving DecidableEq, Repr

/-- By offset, then by pattern. -/
def Hit.le (a b : Hit) : Bool :=
  a.offset < b.offset || (a.offset == b.offset && a.pattern ≤ b.pattern)

/-- What a search found, or why it was refused. -/
abbrev Findings := Except CursorError (Array Hit)

namespace Program

/-- Tries patterns in order at one offset, from number `index` on. -/
def tryPatterns (like : Char → Char → Bool) (offset : Nat) (c : Cursor) :
    List (List Char) → Nat → Array Hit → Program Findings
  | [], _, hits => done (.ok hits)
  | pattern :: later, index, hits =>
    (compare like pattern c).bind fun
      | .error cause => done (.error cause)
      | .ok r =>
        tryPatterns like offset c later (index + 1)
          (if r.verdict then hits.push ⟨offset, index⟩ else hits)

/-- One lane of a search: walks to the end and tries the offsets that are its own. The first
number bounds how many characters may still come. -/
def lane (like : Char → Char → Bool) (patterns : List (List Char)) (k lanes : Nat) :
    Nat → Nat → Cursor → Array Hit → Program Findings
  | 0, _, _, hits => done (.ok hits)
  | more + 1, offset, c, hits =>
    current c [] fun
      | none => done (.ok hits)
      | some _ =>
        (if offset % lanes = k then tryPatterns like offset c patterns 0 hits
          else done (.ok hits)).bind fun
          | .error cause => done (.error cause)
          | .ok hits => next c [] fun d => lane like patterns k lanes more (offset + 1) d hits

/-- A lane from its start. -/
def search (like : Char → Char → Bool) (patterns : List (List Char)) (k lanes bound : Nat)
    (c : Cursor) : Program Findings :=
  lane like patterns k lanes (bound + 1) 0 c #[]

/-- A search by one worker. -/
def scan (like : Char → Char → Bool) (patterns : List (List Char)) (bound : Nat) (c : Cursor) :
    Program Findings :=
  search like patterns 0 1 bound c

end Program

namespace Findings

/-- The findings of one lane after those before; the first refusal wins. -/
def join (before own : Findings) : Findings :=
  match before, own with
  | .ok a, .ok b => .ok (a ++ b)
  | .ok _, .error cause => .error cause
  | .error cause, _ => .error cause

/-- The findings of all lanes, sorted. -/
def merge (lanes : List Findings) : Findings :=
  match lanes.foldl join (.ok #[]) with
  | .ok hits => .ok (hits.toList.mergeSort Hit.le).toArray
  | .error cause => .error cause

end Findings

namespace Cursor

/-- Finds every offset from the cursor on where a pattern occurs, sorted by offset and then by
pattern. No workers count as one, and nobody but the workers keeps the cursor. -/
def scan (like : Char → Char → Bool) (patterns : List (List Char)) (workers : Nat)
    (held : MarkId → Bool) (c : Cursor) (f : Feed) : Findings × Feed :=
  let bound := c.bound f
  if workers ≤ 1 then (Program.scan like patterns bound c).run held f
  else
    let crew := (List.range workers).map fun k =>
      Program.search like patterns k workers bound c
    let r := Program.runAll held crew f
    (Findings.merge r.1, r.2)

end Cursor

example : ((Cursor.ofText #['a', 'b', 'a', 'b'] 0).scan (· == ·) [['a', 'b'], ['b']] 1
    (fun _ => false) .idle).1.toOption = some #[⟨0, 0⟩, ⟨1, 1⟩, ⟨2, 0⟩, ⟨3, 1⟩] := by
  decide +kernel

end BranchCursor
