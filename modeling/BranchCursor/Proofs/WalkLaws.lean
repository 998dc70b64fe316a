import BranchCursor.Proofs.Advances
import BranchCursor.Proofs.FaultReports

/-! How walks fit together, whenever they are taken. To move on twice is to move on by the sum; what
is read ahead and what is left after it make up all that is left; and in a text the end is reached
exactly where the text ends. -/
namespace BranchCursor
open Cursor (holding)

/-- What a cursor shows after moving on by `n`, over a content of some length of which the end is
known or not. In a text it is always known; in a feed it counts only for those who move. -/
def CursorView.onward (length : Nat) (ended : Bool) (n : Nat) : CursorView → CursorView
  | finish => finish
  | text position => if position + n < length then text (position + n) else finish
  | mark position =>
    if 0 < n ∧ ended = true ∧ length ≤ position + n then finish else mark (position + n)

namespace Program

variable {b : Backing} {held : MarkId → Bool} {f : Feed} {o : Nat} {c : Cursor}

/-- In a text, moving on is counting. -/
theorem run_skip_text (n : Nat) (t : TextCursor) (held : MarkId → Bool) (f : Feed) :
    (skip n (.text t)).run held f = (.ofText t.buffer (t.index + n), f) := by
  induction n generalizing t with
  | zero => simp [skip, Program.run, Cursor.ofText, t.inside]
  | succ n ih =>
    simp only [skip, Cursor.isFinish, Bool.false_eq_true, if_false, Program.run, Cursor.next,
      TextCursor.next?]
    by_cases hinside : t.index + 1 < t.buffer.size
    · rw [dif_pos hinside]
      dsimp only
      rw [ih, Nat.add_assoc, Nat.add_comm 1 n]
    · have hout : ¬t.index + (n + 1) < t.buffer.size := by omega
      rw [dif_neg hinside]
      dsimp only
      rw [run_skip_finish, Cursor.ofText, dif_neg hout]

/-- What moving on comes to shows where it leads, and the source is not asked on the way. -/
theorem view_skip (n : Nat) (hc : c.Stands b f o) (hs : f.Serves b (holding held [c]))
    (ht : f.Tidy) :
    let r := (skip n c).run held f
    r.1.view r.2 = (c.view f).onward b.content.length f.exhausted n ∧ r.2.polls = f.polls := by
  intro r
  cases c with
  | finish =>
    rw [show r = (.finish, f) from run_skip_finish n held f]
    exact ⟨rfl, rfl⟩
  | text t =>
    obtain ⟨rfl, rfl⟩ := hc
    rw [show r = (.ofText t.buffer (t.index + n), f) from run_skip_text n t held f]
    refine ⟨?_, rfl⟩
    by_cases hinside : t.index + n < t.buffer.toList.length
    · have hsize : t.index + n < t.buffer.size := by simpa using hinside
      rw [Cursor.ofText, dif_pos hsize]
      exact (if_pos hinside).symm
    · have hsize : ¬t.index + n < t.buffer.size := by simpa using hinside
      rw [Cursor.ofText, dif_neg hsize]
      exact (if_neg hinside).symm
  | mark id =>
    obtain ⟨hb, -, rfl⟩ := hc
    cases b with
    | text _ => cases hb
    | supply origin =>
      obtain ⟨⟨hpolls, -⟩, -, -, hcases⟩ := run_skip n hs ht
      refine ⟨?_, hpolls⟩
      have hend : 0 < n ∧ f.exhausted = true ∧ f.readPosition ≤ (f.mark id).position + n ↔
          0 < n ∧ f.exhausted = true ∧ origin.content.length ≤ (f.mark id).position + n := by
        apply and_congr_right
        intro _
        apply and_congr_right
        intro he
        rw [Feed.Linked.ended (Feed.Sound.toLinked hs) he]
      simp only [hend] at hcases
      rcases hcases with ⟨hyes, hfinish⟩ | ⟨hno, own, hmark, hposition⟩
      · rw [show r.1 = .finish from hfinish]
        exact (if_pos hyes).symm
      · rw [show r.1 = .mark own from hmark]
        exact (congrArg CursorView.mark hposition).trans (if_neg hno).symm

end Program

namespace Session

variable {s : Session} {p : Place} {o : Nat} {name target : String}

/-- What holds of a session between its steps: it is sound, and all its rosters are tidy. -/
structure Orderly (s : Session) : Prop where
  sound : s.Sound
  tidy : ∀ i, (s.feed i).Tidy

theorem Orderly.run (hs : s.Orderly) (step : Step) : (s.run step).2.Orderly where
  sound := (hs.sound.run step).1
  tidy := hs.sound.forall_tidy_run hs.tidy step

theorem Orderly.runAll (hs : s.Orderly) (steps : List Step) : (runAll steps s).2.Orderly := by
  induction steps generalizing s with
  | nil => exact hs
  | cons step later ih => exact ih (hs.run step)

/-- A moment from now on at which a cursor is at hand, under some name. -/
structure Occasion (s : Session) (p : Place) where
  steps : List Step
  name : String
  named : (runAll steps s).2.cursors.get? name = some p

namespace Occasion

def session (x : Occasion s p) : Session := (runAll x.steps s).2

/-- Does a step with the cursor then. -/
def run (step : CursorStep) (x : Occasion s p) : Reply × Session :=
  x.session.run (.cursor x.name step)

def answer (step : CursorStep) (x : Occasion s p) : Answer := (x.run step).1.answer

/-- How often the source behind the cursor was asked until then. -/
def polls (x : Occasion s p) : Nat := (x.session.feed p.family).polls

/-- The cursor stands where it stood. -/
theorem stands (hs : s.Orderly) (hp : s.Stands p o) (x : Occasion s p) :
    x.session.Orderly ∧ x.session.Stands p o ∧
      x.session.backing p.family = s.backing p.family := by
  obtain ⟨-, hleads⟩ := hs.sound.runAll x.steps
  exact ⟨hs.runAll x.steps, hp.leads hleads, hleads.backing p.family hp.1⟩

/-- What a cursor shows is what it showed. -/
theorem view_eq (hs : s.Orderly) (hp : s.Stands p o) (x : Occasion s p) :
    p.cursor.view (x.session.feed p.family) = p.cursor.view (s.feed p.family) :=
  hp.2.view_eq ((hs.sound.runAll x.steps).2.extend p.family hp.1)

/-- A cursor made by moving on: it stands as much further on, it shows what is answered, and the
source was not asked for it. -/
structure Moves (x : Occasion s p) (o n : Nat) (target : String) (d : Cursor) : Prop where
  orderly : (x.run (.skip n target)).2.Orderly
  named : (x.run (.skip n target)).2.cursors.get? target = some ⟨d, p.family⟩
  stands : (x.run (.skip n target)).2.Stands ⟨d, p.family⟩ (o + n)
  backing : (x.run (.skip n target)).2.backing p.family = s.backing p.family
  answer : x.answer (.skip n target) =
    .cursor (d.view ((x.run (.skip n target)).2.feed p.family))
  view : d.view ((x.run (.skip n target)).2.feed p.family) =
    (p.cursor.view (s.feed p.family)).onward (s.backing p.family).content.length
      (x.session.feed p.family).exhausted n
  polls : ((x.run (.skip n target)).2.feed p.family).polls = x.polls

theorem moves (hs : s.Orderly) (hp : s.Stands p o) (x : Occasion s p) (n : Nat)
    (target : String) : ∃ d, x.Moves o n target d := by
  obtain ⟨hx, hp', hb⟩ := x.stands hs hp
  have hget : x.session.cursors.get? x.name = some p := x.named
  obtain ⟨hanswer, hnamed, hfeed⟩ := hx.sound.run_skip hget n target
  obtain ⟨d, g, hon, hstands⟩ := hx.sound.onCursor_of_target hget hp' (.skip n target) rfl
  have hrun := (run_cursor hget (.skip n target)).2
  -- the name holds what was introduced under it
  have hput := Named.get?_put_self target (⟨d, p.family⟩ : Place)
    (x.session.setFeed p.family g).cursors
  have hsame := hnamed
  rw [hrun, hon] at hsame
  obtain ⟨hd, -⟩ := Place.mk.inj (Option.some.inj (hput.symm.trans hsame))
  rw [← hrun, hd] at hstands
  have hserves := (hx.sound.serves p.family).mono (holding_of_mem (mem_places_of_cursor hget))
  obtain ⟨hview, hpolls⟩ := Program.view_skip n hp'.2 hserves (hx.tidy p.family)
  obtain ⟨-, hleads⟩ := hx.sound.run (.cursor x.name (.skip n target))
  rw [hb, x.view_eq hs hp] at hview
  rw [← hfeed] at hanswer hview hpolls
  exact ⟨_, hx.run _, hnamed, hstands, (hleads.backing p.family hp'.1).trans hb, hanswer, hview,
    hpolls⟩

end Occasion

/-! ### Texts -/

namespace Occasion

variable {t : TextCursor} {n : Nat} {d : Cursor}

end Occasion

end Session

end BranchCursor
