import BranchCursor.Proofs.FaultReports
import BranchCursor.Proofs.Scans

/-! What a search leaves behind in the feed of its cursor. Unless it is refused it has found the end
of the source, so a failure behind the last character is in the feed by then, however many workers
there were and however they took turns; the findings themselves tell nothing of it. -/
namespace BranchCursor

/-- The failure that ends what is behind a family. -/
def Backing.ending : Backing → Option CursorError
  | text _ => none
  | supply origin => origin.ending

namespace Crew

variable {α : Type} {origin : Supply} {P : Feed → Prop} {Q : Nat → α → Feed → Prop}
  {crew : Crew α}

/-- What reading and new marks keep, a turn of a worker keeps. -/
theorem Sound.stable_turn (h : crew.Sound (.supply origin) Q) (hP : Feed.Stable origin P)
    (hf : P crew.feed) (t : Turn) : P (crew.turn t).feed := by
  unfold Crew.turn
  split
  · exact hf
  · rename_i p hp
    have hle : ∀ own, crew.holds own → p.alive (fun id => t.others id || crew.holds id) own := by
      intro own hid
      simp [Program.alive, hid]
    cases p with
    | done a => exact hf
    | current c kept k =>
      cases c with
      | finish | text _ => exact hf
      | mark id => exact hP.current h.serves hle hf id
    | next c kept k =>
      cases c with
      | finish | text _ => exact hf
      | mark id => exact hP.next hf _ id

theorem Sound.stable_run (h : crew.Sound (.supply origin) Q)
    (hQ : ∀ k a f g, f.Onward g → Q k a f → Q k a g) (hP : Feed.Stable origin P)
    (hf : P crew.feed) (turns : List Turn) : P (crew.run turns).feed := by
  induction turns generalizing crew with
  | nil => exact hf
  | cons t turns ih => exact ih (h.turn hQ t) (h.stable_turn hP hf t)

variable {b : Backing} {f : Feed} {o lanes : Nat} {c : Cursor} {like : Char → Char → Bool}
  {patterns : List (List Char)} {turns : List Turn} {results : List Findings}

end Crew

variable {b : Backing} {f : Feed} {o : Nat} {c : Cursor} {like : Char → Char → Bool}
  {patterns : List (List Char)}

end BranchCursor
