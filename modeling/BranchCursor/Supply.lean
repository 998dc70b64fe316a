import BranchCursor.Bytes.Decoder

/-! Where the characters of a shared reader come from: a script of answers, which is also what
an iterator over characters is, or a decoder over bytes. -/
namespace BranchCursor

/-- A source of characters that can be asked for the next one only. -/
inductive Supply where
  | scripted (answers : List Delivery)
  | decoded (d : Decoder)
  deriving DecidableEq, Repr

namespace Supply

/-- Asks for the next character. A script that is used up stays at its end. -/
def poll : Supply → Delivery × Supply
  | scripted [] => (.finished, scripted [])
  | scripted (a :: later) => (a, scripted later)
  | decoded d => (d.next.1, decoded d.next.2)

/-- No more characters than this are still to come. -/
def bound : Supply → Nat
  | scripted answers => answers.length
  | decoded d => d.bound

/-- The room of every read made so far, where there are reads at all. -/
def rooms? : Supply → Option (List Nat)
  | scripted _ => none
  | decoded d => some d.input.rooms

end Supply

end BranchCursor
