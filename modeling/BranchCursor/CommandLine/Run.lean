import BranchCursor.CommandLine.Arguments
import BranchCursor.Likeness
import BranchCursor.Search
import BranchCursor.Source
import BranchCursor.Text.Quoted

/-! The program as a function of its arguments, its standard input and the files it can open.
Standard output is written only after the whole input was read without a fault. -/
namespace BranchCursor.CommandLine

/-- How a run ends. -/
structure Outcome where
  code : Nat
  stdout : String := ""
  stderr : String := ""
  deriving DecidableEq, Repr

/-- What the program is run with besides its arguments. -/
structure Surroundings where
  program : String
  stdin : List ByteEvent
  files : String → Except ReadFailure (List ByteEvent)

/-- What a run on good arguments can fail with. -/
inductive Failure where
  | reading (cause : ReadFailure)
  | cursor (cause : CursorError)
  deriving DecidableEq, Repr

def Failure.message : Failure → String
  | reading cause => cause.message
  | cursor cause => cause.message

def helpText (program : String) : String :=
  "\n".intercalate [
    s!"Usage: {program} [OPTIONS] [INPUT]",
    "",
    "Scan INPUT (default stdin) for PATTERN occurrences and print",
    "`offset<TAB>pattern` for each match, offsets counted in characters.",
    "",
    "Options:",
    "-p, --pattern PATTERN     Pattern to look for (repeatable, required)",
    "-i, --ignore-case         Compare with Unicode case folding",
    "--eager               Load the whole input before scanning",
    "--workers N           Threads sharing one lazy reader (default 1)",
    "--buffer-size BYTES   Read buffer for lazy decoding (default 8192)",
    "--strict-utf8         Fail on invalid UTF-8 instead of replacing it",
    "--count               Print only the number of matches",
    "--log                 Print the read log to stderr (lazy input only)",
    "-h, --help                Show this help",
    "",
    ""]

def Stop.outcome (program : String) : Stop → Outcome
  | help => { code := 0, stderr := helpText program }
  | noPattern => { code := 2, stderr := helpText program }
  | misused cause => { code := 2, stderr := cause.message ++ "\n" }

/-- All bytes up to the end, or the first failure that is not an interruption. -/
def contents : List ByteEvent → Except ReadFailure (List UInt8)
  | [] | .stop :: _ | .data [] :: _ => .ok []
  | .data bytes :: later => (contents later).map (bytes ++ ·)
  | .failure .interrupted :: later => contents later
  | .failure cause :: _ => .error cause

namespace Settings

def options (s : Settings) : Options where
  logging := s.log
  bufferSize := s.bufferSize
  lossy := !s.strict

def likeness (s : Settings) : Likeness := if s.ignoreCase then .anyCase else .exact

/-- What the input gives: the file named last, or the standard input. -/
def events (world : Surroundings) (s : Settings) : Except ReadFailure (List ByteEvent) :=
  match s.input with
  | some path => world.files path
  | none => .ok world.stdin

/-- The root cursor: over the whole text at once, or over a decoder that reads on demand. -/
def openRoot (input : List ByteEvent) (s : Settings) : Except Failure (Cursor × Feed) :=
  if s.eager then
    match contents input with
    | .error cause => .error (.reading cause)
    | .ok bytes =>
      match Utf8.decode? bytes with
      | none => .error (.reading .notText)
      | some text => .ok (.ofText text 0, .idle)
  else (Source.open? (.bytes { events := input } s.options)).mapError .cursor

end Settings

def logLine (e : LogEntry) : String :=
  let character :=
    match e.character with
    | some c => Text.jsonString c.toString
    | none => "null"
  "\x7b\"offset\":" ++ toString e.offset ++ ",\"character\":" ++ character ++
    ",\"message\":" ++ Text.jsonString e.event.message ++
    ",\"subscribers\":" ++ toString e.subscribers ++ "\x7d\n"

def hitLine (patterns : Array String) (h : Hit) : String :=
  toString h.offset ++ "\t" ++ patterns[h.pattern]?.getD "" ++ "\n"

/-- What is printed when all went well. -/
def listing (s : Settings) (hits : Array Hit) : String :=
  if s.count then toString hits.size ++ "\n"
  else String.join (hits.toList.map (hitLine s.patterns))

/-- The log collected by the feed, if it was asked for. -/
def logText (s : Settings) (f : Feed) : String :=
  if s.log then String.join (f.log.toList.map logLine) else ""

def failed (before : String) (cause : Failure) : Outcome :=
  { code := 1, stderr := before ++ "error: " ++ cause.message ++ "\n" }

/-- What is said of a search that is over; a fault of its feed is looked for before anything is
printed. -/
def report (s : Settings) (found : Findings) (f : Feed) : Outcome :=
  match found with
  | .error cause => failed "" (.cursor cause)
  | .ok hits =>
    match f.fault with
    | some cause => failed (logText s f) (.cursor cause)
    | none => { code := 0, stdout := listing s hits, stderr := logText s f }

/-- Searches from a root for all patterns. -/
def search (s : Settings) (root : Cursor) (f : Feed) : Outcome :=
  let r := root.scan s.likeness.like (s.patterns.toList.map String.toList) s.workers
    (fun _ => false) f
  report s r.1 r.2

/-- A whole run of the program. -/
def run (world : Surroundings) (args : List String) : Outcome :=
  match Settings.parse args with
  | .error stop => stop.outcome world.program
  | .ok s =>
    match s.events world with
    | .error cause => failed "" (.reading cause)
    | .ok input =>
      match s.openRoot input with
      | .error cause => failed "" cause
      | .ok (root, f) => search s root f

/-- Arguments that give no settings decide the run alone. -/
theorem run_of_stop (world : Surroundings) {args : List String} {stop : Stop}
    (h : Settings.parse args = .error stop) : run world args = stop.outcome world.program := by
  unfold run
  rw [h]

end BranchCursor.CommandLine
