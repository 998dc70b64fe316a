import BranchCursor.CommandLine.Run

/-! The program itself: it reads its input, and all the rest is `CommandLine.run`. -/
namespace BranchCursor.CommandLine

/-- The cause behind a failure to open or read, in the words of the system where it has any. -/
def causeOf : IO.Error → ReadFailure
  | .noFileOrDirectory .. => .notFound
  | .inappropriateType _ code details =>
    if code = 20 then .notDirectory
    else if code = 21 then .isDirectory
    else .other s!"{details} (os error {code})"
  | .permissionDenied _ code details => .other s!"{details} (os error {code})"
  | .invalidArgument _ code details => .other s!"{details} (os error {code})"
  | e => .other (toString e)

/-- All that a stream gives. -/
def eventsOf (stream : IO.FS.Stream) : IO (List ByteEvent) := do
  let mut found := #[]
  let mut more := true
  while more do
    match ← (stream.read 65536).toBaseIO with
    | .ok bytes =>
      if bytes.isEmpty then more := false else found := found.push (.data bytes.toList)
    | .error e =>
      found := found.push (.failure (causeOf e))
      more := false
  return found.toList

def openFile (path : String) : IO (Except ReadFailure (List ByteEvent)) := do
  match ← (IO.FS.Handle.mk ⟨path⟩ .read).toBaseIO with
  | .ok handle => return .ok (← eventsOf (.ofHandle handle))
  | .error e => return .error (causeOf e)

/-- Reads the input that the arguments ask for, if they are good, and runs. -/
def start (args : List String) : IO UInt32 := do
  let mut stdin := []
  let mut file := .error .notFound
  if let .ok settings := Settings.parse args then
    match settings.input with
    | some path => file ← openFile path
    | none => stdin ← eventsOf (← IO.getStdin)
  let program := (← IO.appPath).toString
  let opened := file
  let outcome := run { program, stdin, files := fun _ => opened } args
  IO.print outcome.stdout
  IO.eprint outcome.stderr
  return outcome.code.toUInt32

end BranchCursor.CommandLine

def main (args : List String) : IO UInt32 := BranchCursor.CommandLine.start args
