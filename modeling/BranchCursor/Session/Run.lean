import BranchCursor.Description
import BranchCursor.Session.Basic
import BranchCursor.Session.Step
import BranchCursor.Walk

/-! What each step of a session does. A step on a missing name changes nothing. -/
namespace BranchCursor.Session

/-- Names a cursor and answers with it. The old holder of the name is let go. -/
def introduce (name : String) (i : Nat) (c : Cursor) (s : Session) : Answer × Session :=
  (.cursor (c.view (s.feed i)), s.nameCursor name ⟨c, i⟩)

def openSource (name : String) (source : Source) (s : Session) : Answer × Session :=
  match source.open? with
  | .error cause => (.refused cause, s)
  | .ok (c, feed) =>
    let i := s.families.size
    { s with families := s.families.push { name, source, feed } }.introduce name i c

/-- The probes of all watched sources by name, in the order of their opening. -/
def probes (s : Session) : List (String × Probe) :=
  s.families.toList.filterMap fun family =>
    (family.source.probe? family.feed).map (family.name, ·)

/-- The probe of the watched source opened last under a name. -/
def probe? (name : String) (s : Session) : Option Probe := Named.get? name s.probes.reverse

/-- The verdict of a comparison; the pairs compared are told only if they are wanted. -/
def verdict (traced : Bool) (r : Except CursorError Comparison) : Answer :=
  if traced then .traced r
  else
    match r with
    | .ok found => .flag found.verdict
    | .error cause => .refused cause

def findings : Findings → Answer
  | .ok found => .hits found
  | .error cause => .refused cause

/-- The work that a step does with its cursor. What only stores or drops something needs none. -/
def CursorStep.work (f : Feed) (c : Cursor) : CursorStep → Program Outcome
  | current => (Program.current c [] .done).map fun x => .answered (.char x)
  | next target => (Program.next c [] .done).map (.made target)
  | skip n target => (Program.skip n c).map (.made target)
  | clone target => .done (.made target c)
  | peek n => (Program.peek n c).map fun text => .answered (.text text)
  | collect => (Program.collect (c.bound f) c).map fun text => .answered (.text text)
  | position => .done (.answered (.count (c.position? f)))
  | isFinish => .done (.answered (.flag c.isFinish))
  | compare pattern likeness traced =>
    (Program.compare likeness.like pattern c).map fun r => .answered (verdict traced r)
  | buffered => .done (.answered (.count (c.buffered? f)))
  | remaining => .done (.answered (.remaining c.remaining?))
  | describe => .done (.answered (.description (c.describe f)))
  | scan patterns likeness =>
    (Program.scan likeness.like patterns (c.bound f) c).map fun r => .answered (findings r)
  | iterate _ | handle _ | drop => .done (.answered .nothing)

/-- Tells the outcome of work on the feed of family `i`, and names what it made. -/
def conclude (i : Nat) (r : Outcome) (s : Session) : Answer × Session :=
  match r with
  | .answered answer => (answer, s)
  | .made name c => s.introduce name i c
  | .gave name chars c => (.given chars, { s with iterators := s.iterators.put name ⟨c, i⟩ })

/-- Runs the work of a step while everything named is held. -/
def carryOut (i : Nat) (p : Program Outcome) (s : Session) : Answer × Session :=
  let r := s.perform i p
  r.2.conclude i r.1

def onCursor (name : String) (p : Place) (step : CursorStep) (s : Session) : Answer × Session :=
  match step with
  | .iterate target => (.nothing, { s with iterators := s.iterators.put target p })
  | .handle target =>
    if p.cursor.isMark then (.flag true, { s with handles := s.handles.put target p.family })
    else (.flag false, s)
  | .drop => (.nothing, { s with cursors := s.cursors.erase name })
  | step => s.carryOut p.family (step.work (s.feed p.family) p.cursor)

def onHandle (name : String) (i : Nat) (step : HandleStep) (s : Session) : Answer × Session :=
  match step with
  | .cursorAt position target =>
    let r := (s.feed i).cursorAt (s.alive i) position
    let s := s.setFeed i r.2
    match r.1 with
    | .ok id => s.introduce target i (.ofMark? id)
    | .error cause => (.refused cause, s)
  | .takeFault =>
    let r := (s.feed i).takeFault
    (.fault r.1, s.setFeed i r.2)
  | .takeLog =>
    let r := (s.feed i).takeLog
    (.log r.1, s.setFeed i r.2)
  | .status => (.nothing, s)
  | .describe => (.description (s.feed i).describe, s)
  | .drop => (.nothing, { s with handles := s.handles.erase name })

/-- The work of an iterator that is asked `n` more times. -/
def iteration (name : String) (n : Nat) (c : Cursor) : Program Outcome :=
  (Program.iterate n c #[]).map fun r => .gave name r.1 r.2

/-- A session that lets go of an iterator. -/
def release (name : String) (s : Session) : Session :=
  { s with iterators := s.iterators.erase name }

/-- While an iterator runs it holds the cursor it has reached, and no longer its start. -/
def onIterator (name : String) (p : Place) (step : IteratorStep) (s : Session) :
    Answer × Session :=
  match step with
  | .take n => (s.release name).carryOut p.family (iteration name n p.cursor)
  | .drop => (.nothing, s.release name)

/-- One step and its reply. -/
def run (step : Step) (s : Session) : Reply × Session :=
  match step with
  | .openSource name source =>
    let r := s.openSource name source
    let status :=
      match r.1 with
      | .cursor (.mark _) => some (r.2.status s.families.size)
      | _ => none
    (⟨r.1, status⟩, r.2)
  | .probe name =>
    match s.probe? name with
    | some p => (⟨.probe p, none⟩, s)
    | none => (⟨.unknown name, none⟩, s)
  | .cursor name step =>
    match s.cursors.get? name with
    | none => (⟨.unknown name, none⟩, s)
    | some p =>
      let r := s.onCursor name p step
      (⟨r.1, r.2.statusOf p⟩, r.2)
  | .handle name step =>
    match s.handles.get? name with
    | none => (⟨.unknown name, none⟩, s)
    | some i =>
      let r := s.onHandle name i step
      (⟨r.1, some (r.2.status i)⟩, r.2)
  | .iterator name step =>
    match s.iterators.get? name with
    | none => (⟨.unknown name, none⟩, s)
    | some p =>
      let r := s.onIterator name p step
      (⟨r.1, none⟩, r.2)

/-- Steps one after the other, with their replies. -/
def runAll : List Step → Session → List Reply × Session
  | [], s => ([], s)
  | step :: later, s =>
    let first := s.run step
    let rest := runAll later first.2
    (first.1 :: rest.1, rest.2)

end BranchCursor.Session
