/-! The words of the command line, read from left to right as items: a flag, an option with its
value, or the input. The first word that fits nothing, or asks for help, ends the reading. -/
namespace BranchCursor.CommandLine

inductive Flag where
  | ignoreCase
  | eager
  | strict
  | count
  | log
  deriving DecidableEq, Repr

/-- An option that takes the following word as its value, whatever that looks like. -/
inductive Valued where
  | pattern
  | workers
  | bufferSize
  deriving DecidableEq, Repr

inductive Item where
  | flag (f : Flag)
  | pattern (word : String)
  | workers (n : Nat)
  | bufferSize (n : Nat)
  | input (word : String)
  deriving DecidableEq, Repr

/-- What is wrong with the arguments. -/
inductive UsageError where
  | missingValue (option : Valued)
  | badValue (option : Valued)
  | unknownOption (word : String)
  | logWithEager
  deriving DecidableEq, Repr

def UsageError.message : UsageError → String
  | missingValue .pattern => "Missing PATTERN for --pattern"
  | missingValue .workers => "Missing N for --workers"
  | missingValue .bufferSize => "Missing BYTES for --buffer-size"
  | badValue .pattern => "PATTERN must not be empty"
  | badValue .workers => "--workers expects a positive integer"
  | badValue .bufferSize => "--buffer-size expects an integer of at least 4"
  | unknownOption word => s!"Unknown option: {word}"
  | logWithEager => "--log reads from a lazy reader and cannot be combined with --eager"

/-- Why the arguments give no settings. -/
inductive Stop where
  | help
  | noPattern
  | misused (cause : UsageError)
  deriving DecidableEq, Repr

/-- The part a word plays where an item starts. -/
inductive Role where
  | help
  | flag (f : Flag)
  | valued (option : Valued)
  | unknown
  | input
  deriving DecidableEq, Repr

/-- A word of its own is an input unless it starts with a dash and goes on. -/
def plainRole (word : String) : Role :=
  match word.toList with
  | '-' :: _ :: _ => .unknown
  | _ => .input

def role (word : String) : Role :=
  match word with
  | "-h" | "--help" => .help
  | "-p" | "--pattern" => .valued .pattern
  | "-i" | "--ignore-case" => .flag .ignoreCase
  | "--eager" => .flag .eager
  | "--workers" => .valued .workers
  | "--buffer-size" => .valued .bufferSize
  | "--strict-utf8" => .flag .strict
  | "--count" => .flag .count
  | "--log" => .flag .log
  | word => plainRole word

/-- Numbers are written in 64 bits. -/
def countLimit : Nat := UInt64.size

/-- Decimal digits after a number read so far, as long as it stays below the limit. -/
def digits? (n : Nat) : List Char → Option Nat
  | [] => some n
  | c :: later =>
    if '0' ≤ c ∧ c ≤ '9' then
      let n := 10 * n + (c.toNat - '0'.toNat)
      if n < countLimit then digits? n later else none
    else none

/-- A number: at least one decimal digit, after an optional plus sign. -/
def count? (word : String) : Option Nat :=
  match word.toList with
  | [] | ['+'] => none
  | '+' :: later => digits? 0 later
  | cs => digits? 0 cs

/-- The item that an option makes of its value. -/
def Valued.item? (word : String) : Valued → Option Item
  | pattern => if word.isEmpty then none else some (.pattern word)
  | workers => (count? word).bind fun n => if 0 < n then some (.workers n) else none
  | bufferSize => (count? word).bind fun n => if 4 ≤ n then some (.bufferSize n) else none

/-- Reads all words as items. -/
def items : List String → Except Stop (List Item)
  | [] => .ok []
  | word :: later =>
    match role word with
    | .help => .error .help
    | .flag f => (items later).map (.flag f :: ·)
    | .input => (items later).map (.input word :: ·)
    | .unknown => .error (.misused (.unknownOption word))
    | .valued option =>
      match later with
      | [] => .error (.misused (.missingValue option))
      | value :: later =>
        match option.item? value with
        | none => .error (.misused (.badValue option))
        | some item => (items later).map (item :: ·)

/-- What a run of the program is to do. -/
structure Settings where
  patterns : Array String := #[]
  ignoreCase : Bool := false
  eager : Bool := false
  strict : Bool := false
  count : Bool := false
  log : Bool := false
  workers : Nat := 1
  bufferSize : Nat := 8192
  input : Option String := none
  deriving DecidableEq, Repr

namespace Settings

def set (f : Flag) (s : Settings) : Settings :=
  match f with
  | .ignoreCase => { s with ignoreCase := true }
  | .eager => { s with eager := true }
  | .strict => { s with strict := true }
  | .count => { s with count := true }
  | .log => { s with log := true }

/-- Patterns add up; of other values the last one counts. -/
def add (s : Settings) : Item → Settings
  | .flag f => s.set f
  | .pattern word => { s with patterns := s.patterns.push word }
  | .workers n => { s with workers := n }
  | .bufferSize n => { s with bufferSize := n }
  | .input word => { s with input := some word }

def ofItems (found : List Item) : Settings := found.foldl add {}

/-- At least one pattern is needed, and eager input has no read log. -/
def check (s : Settings) : Except Stop Settings :=
  if s.patterns.isEmpty then .error .noPattern
  else if s.log && s.eager then .error (.misused .logWithEager)
  else .ok s

/-- The settings that a list of arguments stands for. -/
def parse (words : List String) : Except Stop Settings :=
  match items words with
  | .ok found => (ofItems found).check
  | .error stop => .error stop

end Settings

example : (Settings.parse ["-p", "-i", "x"]).toOption =
    some { patterns := #["-i"], input := some "x" } := by decide +kernel
example : count? "+007" = some 7 := by decide +kernel
example : count? "18446744073709551616" = none := by decide +kernel

end BranchCursor.CommandLine
