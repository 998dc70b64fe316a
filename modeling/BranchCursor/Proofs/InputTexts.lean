import BranchCursor.CommandLine.Run
import BranchCursor.Proofs.DecodedText
import BranchCursor.Proofs.SearchFaults
import BranchCursor.Proofs.Settings
import Mathlib.Data.List.TakeWhile

/-! The text that a run searches, which is the same whether it is loaded first or read on demand:
the characters of all segments of the input, if no read fails and each ill-formed run is replaced.
Where there is no such text, loading it is refused, or else the failure comes after what is read. -/
namespace BranchCursor

namespace Segment

variable {cut : List Segment} {barrier : Option ReadFailure}

end Segment

namespace Utf8

end Utf8

namespace CommandLine

/-- Two inputs give the same bytes, each in its own portions, or both fail. -/
structure SameBytes (input other : List ByteEvent) : Prop where
  fails : (ByteStream.barrier? { events := input }).isSome =
    (ByteStream.barrier? { events := other }).isSome
  bytes : ByteStream.barrier? { events := input } = none →
    ByteStream.front { events := input } = ByteStream.front { events := other }

theorem SameBytes.refl (input : List ByteEvent) : SameBytes input input := ⟨rfl, fun _ => rfl⟩

/-- Whatever is opened in the one gives the same bytes in the other, if it can be opened at all. -/
structure Surroundings.Alike (world other : Surroundings) : Prop where
  stdin : SameBytes world.stdin other.stdin
  files : ∀ path,
    (∃ input input', world.files path = .ok input ∧ other.files path = .ok input' ∧
      SameBytes input input') ∨
    ∃ cause cause', world.files path = .error cause ∧ other.files path = .error cause'

theorem Surroundings.Alike.refl (world : Surroundings) : world.Alike world where
  stdin := SameBytes.refl world.stdin
  files path := by
    cases h : world.files path with
    | error cause => exact Or.inr ⟨cause, cause, rfl, rfl⟩
    | ok input => exact Or.inl ⟨input, input, rfl, rfl, SameBytes.refl input⟩

namespace Settings

variable {s : Settings} {input : List ByteEvent}

end Settings

end CommandLine

end BranchCursor
