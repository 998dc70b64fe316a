import BranchCursor.Session.Run
import BranchCursor.Proofs.Searches

/-! What the steps of a session on a cursor come to.
Most answers depend on nothing but the characters from the cursor on. -/
namespace BranchCursor

/-- What is behind the family of a root. -/
def Source.backing : Source → Backing
  | text content => .text content
  | textAt buffer _ => .text buffer
  | nothing => .text #[]
  | iterated content _ => .supply (.scripted (content.map .char))
  | scripted answers _ => .supply (.scripted answers)
  | bytes input options =>
    match Decoder.make input options.bufferSize options.lossy with
    | .ok d => .supply (.decoded d)
    | .error _ => .supply (.scripted [])

/-- Where a root stands. -/
def Source.start : Source → Nat
  | textAt _ index => index
  | text _ | nothing | iterated .. | scripted .. | bytes .. => 0

namespace Session

/-- The answer of a step on a cursor from which `rest` remains, if that determines it. -/
def CursorStep.answer? (rest : List Char) : CursorStep → Option Answer
  | current => some (.char rest.head?)
  | peek n => some (.text (rest.take n).toArray)
  | collect => some (.text rest.toArray)
  | compare pattern likeness traced =>
    some (verdict traced (Comparison.of likeness.like pattern rest))
  | scan patterns likeness =>
    some (findings (Findings.ofLane likeness.like patterns 0 1 0 rest #[]))
  | next _ | skip .. | clone _ | position | isFinish | buffered | remaining | describe
  | iterate _ | handle _ | drop => none

/-- The name that a step gives to a cursor, and how far on that is. -/
def CursorStep.target? : CursorStep → Option (String × Nat)
  | next name => some (name, 1)
  | skip n name => some (name, n)
  | clone name => some (name, 0)
  | current | peek _ | collect | position | isFinish | compare .. | buffered | remaining
  | describe | iterate _ | handle _ | scan .. | drop => none

/-- Whether a step has its cursor do something; the others only store or drop. -/
def CursorStep.works : CursorStep → Bool
  | iterate _ | handle _ | drop => false
  | current | next _ | skip .. | clone _ | peek _ | collect | position | isFinish | compare ..
  | buffered | remaining | describe | scan .. => true

/-- The cursor that an outcome is about, if any. -/
def Outcome.cursor? : Outcome → Option Cursor
  | answered _ => none
  | made _ c | gave _ _ c => some c

end Session

open Cursor (Within within_of_subset)

variable {b : Backing} {f : Feed} {o : Nat} {c : Cursor} {alive : MarkId → Bool}

/-- The bound of a cursor counts all that follows it. -/
theorem Cursor.Stands.length_le_bound (hc : c.Stands b f o) (hs : f.Serves b alive) :
    b.content.length ≤ o + c.bound f := by
  cases c with
  | finish => exact Nat.le_trans hc (Nat.le_add_right o _)
  | text t =>
    obtain ⟨rfl, -⟩ := hc
    simp [Backing.content, bound]
  | mark id =>
    obtain ⟨hb, -, -⟩ := hc
    cases b with
    | text _ => cases hb
    | supply origin =>
      have hs' : f.Sound origin alive := hs
      simp only [Backing.content, bound, Feed.bound]
      cases he : f.exhausted with
      | true =>
        rw [hs'.ended he]
        omega
      | false =>
        have hpolls : f.polls = f.readPosition := by simpa [he] using hs'.polls
        have hlen := Supply.length_content_le f.supply
        rw [hs'.supply, hpolls, Supply.content_after hs'.within, List.length_drop] at hlen
        rw [hs'.supply, hpolls]
        omega

namespace Session

/-- The outcome of a step: the answer, or the cursor made and where it stands. -/
structure Concludes (b : Backing) (o : Nat) (step : CursorStep) (r : Outcome) (g : Feed)
    (hand : List Cursor) : Prop where
  answer : ∀ a, step.answer? (b.content.drop o) = some a → r = .answered a
  made : ∀ name n, step.target? = some (name, n) →
    ∃ d, r = .made name d ∧ d.Stands b g (o + n) ∧ Within [d] hand
  silent : step.target? = none → ∃ a, r = .answered a

theorem Concludes.of_answer {step : CursorStep} {g : Feed} {hand : List Cursor} {a : Answer}
    (ht : step.target? = none) (ha : ∀ a', step.answer? (b.content.drop o) = some a' → a' = a) :
    Concludes b o step (.answered a) g hand where
  answer a' h := by rw [ha a' h]
  made name n h := by
    rw [ht] at h
    cases h
  silent _ := ⟨a, rfl⟩

theorem Concludes.of_made {step : CursorStep} {g : Feed} {hand : List Cursor} {name : String}
    {n : Nat} {d : Cursor} (ht : step.target? = some (name, n))
    (ha : step.answer? (b.content.drop o) = none) (hd : d.Stands b g (o + n))
    (hw : Within [d] hand) : Concludes b o step (.made name d) g hand where
  answer a' h := by
    rw [ha] at h
    cases h
  made name' n' h := by
    rw [ht] at h
    cases h
    exact ⟨d, rfl, hd, hw⟩
  silent h := by
    rw [ht] at h
    cases h

/-- A cursor that a step makes stands somewhere and is in hand. -/
theorem Concludes.cursor {step : CursorStep} {r : Outcome} {g : Feed} {hand : List Cursor}
    {d : Cursor} (h : Concludes b o step r g hand) (hd : r.cursor? = some d) :
    (∃ o, d.Stands b g o) ∧ Within [d] hand := by
  cases ht : step.target? with
  | none =>
    obtain ⟨a, rfl⟩ := h.silent ht
    cases hd
  | some made =>
    obtain ⟨d', rfl, hstands, hwithin⟩ := h.made made.1 made.2 ht
    cases hd
    exact ⟨⟨_, hstands⟩, hwithin⟩

/-- The work of every step concludes as the content says, whatever happens meanwhile. -/
theorem CursorStep.ensures_work (step : CursorStep) (hc : c.Stands b f o)
    (hs : f.Serves b alive) :
    (step.work f c).Ensures b (Concludes b o step) f [c] := by
  have hin : Within [c] [c] := Within.refl _
  have hbound := hc.length_le_bound hs
  cases step with
  | current =>
    refine ⟨hin, o, hc, fun g _ => Concludes.of_answer rfl ?_⟩
    intro a' h
    simpa [answer?, List.head?_drop] using h.symm
  | next name =>
    refine ⟨hin, o, hc, fun g d _ hd => ?_⟩
    exact Concludes.of_made rfl rfl hd (within_of_subset (by simp))
  | skip n name =>
    apply Program.Ensures.map
    refine (Program.ensures_skip n hc hin).imp ?_
    rintro d g hand' - ⟨hd, hw⟩
    exact Concludes.of_made rfl rfl hd hw
  | clone name => exact Concludes.of_made rfl rfl hc hin
  | peek n =>
    apply Program.Ensures.map
    refine (Program.ensures_peek n hc hin).imp ?_
    intro r g hand' _ hr
    refine Concludes.of_answer rfl ?_
    intro a' h
    simpa [answer?, ← hr] using h.symm
  | collect =>
    apply Program.Ensures.map
    refine (Program.ensures_collect hbound hc hin).imp ?_
    intro r g hand' _ hr
    refine Concludes.of_answer rfl ?_
    intro a' h
    simpa [answer?, ← hr] using h.symm
  | compare pattern likeness traced =>
    apply Program.Ensures.map
    refine (Program.ensures_compare likeness.like pattern hc hin).imp ?_
    rintro r g hand' - ⟨rfl, -⟩
    refine Concludes.of_answer rfl ?_
    intro a' h
    simpa [answer?] using h.symm
  | scan patterns likeness =>
    apply Program.Ensures.map
    refine (Program.ensures_scan patterns hbound hc hin).imp ?_
    rintro r g hand' - rfl
    refine Concludes.of_answer rfl ?_
    intro a' h
    simpa [answer?] using h.symm
  | position | isFinish | buffered | remaining | describe | iterate _ | handle _ | drop =>
    refine Concludes.of_answer rfl ?_
    intro a' h
    cases h

/-- An iterator gives one character for each call, and stays at the end. -/
theorem ensures_iteration (name : String) (n : Nat) (hc : c.Stands b f o) :
    (iteration name n c).Ensures b
      (fun r g hand' => ∃ d,
        r = .gave name ((List.range n).map fun k => b.content[o + k]?).toArray d ∧
        d.Stands b g (o + min n (b.content.length - o)) ∧ Within [d] hand') f [c] := by
  apply Program.Ensures.map
  refine (Program.ensures_iterate n #[] hc (Within.refl _)).imp ?_
  rintro ⟨chars, d⟩ g hand' - ⟨hr, hd, hw⟩
  refine ⟨d, ?_, hd, hw⟩
  have hchars : chars = ((List.range n).map fun k => b.content[o + k]?).toArray := by
    apply Array.ext'
    simpa using hr
  rw [hchars]

end Session

end BranchCursor
