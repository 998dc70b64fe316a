import BranchCursor.Proofs.InputTexts
import Mathlib.Data.List.Forall2

/-! What a run of the program prints. Either its whole input is a text, and then the occurrences of
the patterns in it are listed; or nothing is printed, not even what was found before a failure. How
many work on it, in what portions bytes are read and whether that is logged makes no difference. -/
namespace BranchCursor.CommandLine

/-- The exit code and what stands on standard output. -/
def Outcome.shown (o : Outcome) : Nat × String := (o.code, o.stdout)

namespace Settings

/-- The patterns as they are searched for. -/
def wanted (s : Settings) : List (List Char) := s.patterns.toList.map String.toList

variable {s : Settings}

end Settings

variable {s : Settings} {b : Backing} {root : Cursor} {f : Feed}

variable {world elsewhere : Surroundings} {args other : List String}

namespace Settings

variable {t : Settings}

end Settings

end BranchCursor.CommandLine
