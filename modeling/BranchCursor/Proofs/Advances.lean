import BranchCursor.Proofs.Comparisons
import BranchCursor.Proofs.ExactRoster

/-! Where moving on leads from a cursor in a feed. Nothing is read on the way; the end is reached
only if it is known, and otherwise a cursor that has its character or waits for it. -/
namespace BranchCursor
open Cursor (holding)

namespace Feed

variable {origin : Supply} {held alive : MarkId → Bool} {f : Feed} {id : MarkId}

end Feed

namespace Program

variable {origin : Supply} {held : MarkId → Bool} {f : Feed} {id : MarkId}

theorem run_skip_finish (n : Nat) (held : MarkId → Bool) (f : Feed) :
    (skip n .finish).run held f = (.finish, f) := by
  cases n <;> rfl

/-- Nothing is polled on the way, and there is a mark as far on as it is to be, unless the end is
known and not beyond that. -/
theorem run_skip (n : Nat) (hs : f.Sound origin (holding held [.mark id])) (ht : f.Tidy) :
    let position := (f.mark id).position
    let r := (skip n (.mark id)).run held f
    (r.2.polls = f.polls ∧ r.2.supply = f.supply ∧ r.2.readPosition = f.readPosition ∧
      r.2.exhausted = f.exhausted) ∧
    r.2.Sound origin (holding held [r.1]) ∧ r.2.Tidy ∧
    ((0 < n ∧ f.exhausted = true ∧ f.readPosition ≤ position + n) ∧ r.1 = .finish ∨
      ¬(0 < n ∧ f.exhausted = true ∧ f.readPosition ≤ position + n) ∧
        ∃ own, r.1 = .mark own ∧ (r.2.mark own).position = position + n) := by
  induction n generalizing f id with
  | zero =>
    refine ⟨⟨rfl, rfl, rfl, rfl⟩, hs, ht, Or.inr ⟨?_, id, rfl, rfl⟩⟩
    exact fun h => absurd h.1 (Nat.lt_irrefl 0)
  | succ n ih =>
    intro position r
    have hown : holding held [.mark id] id = true := by simp [holding, Cursor.holds]
    have hstands : (Cursor.mark id).Stands (.supply origin) f position :=
      ⟨rfl, hs.inside id hown, rfl⟩
    have hrun : r = (skip n ((Cursor.mark id).next (holding held [.mark id]) f).1).run held
        ((Cursor.mark id).next (holding held [.mark id]) f).2 := by
      simp only [r, skip, Cursor.isFinish, Bool.false_eq_true, if_false, Program.run, alive_next]
    have htidy := (hstands.next_instant hs fun own hid => by simp [holding, hid]).next.tidy ht
    rcases Cursor.next_mark hs (fun _ hid => hid) hown with
      ⟨he, hl, hnext⟩ | ⟨hmore, g, hnext, hg, -, -, hposition, hread, hexh, hsupply, hpolls⟩
    · -- the end is known to be here, and no step leads on from it
      rw [hnext, run_skip_finish] at hrun
      rw [hrun]
      have hend := hs.ended he
      refine ⟨⟨rfl, rfl, rfl, rfl⟩, hs.mono ?_, ht, Or.inl ⟨⟨n.succ_pos, he, ?_⟩, rfl⟩⟩
      · intro own hid
        rw [holding, Bool.or_eq_true] at hid ⊢
        exact Or.inl (hid.resolve_right (by simp [Cursor.holds]))
      · omega
    · rw [hnext] at hrun htidy
      have hg' : g.Sound origin (holding held [.mark f.marks.size]) := by
        refine hg.mono ?_
        intro own hid
        simp only [holding, List.any_cons, List.any_nil, Bool.or_false, Cursor.holds,
          Bool.or_eq_true, beq_iff_eq] at hid ⊢
        exact hid.imp Or.inl Eq.symm
      obtain ⟨⟨hpolls', hsupply', hread', hexh'⟩, hs', ht', hcases⟩ := ih hg' htidy
      rw [hrun]
      refine ⟨⟨hpolls'.trans hpolls, hsupply'.trans hsupply, hread'.trans hread,
        hexh'.trans hexh⟩, hs', ht', ?_⟩
      rw [hposition, hread, hexh] at hcases
      have hthere : position + 1 + n = position + (n + 1) := by omega
      rw [← hthere]
      refine hcases.imp (fun h => ⟨⟨n.succ_pos, h.1.2⟩, h.2⟩) fun h => ⟨?_, h.2⟩
      rintro ⟨-, he, hle⟩
      refine h.1 ⟨Nat.pos_of_ne_zero fun hzero => hmore ⟨he, ?_⟩, he, hle⟩
      rw [← hs.ended he]
      omega

end Program

namespace Session

variable {s : Session} {p : Place} {name : String} {id : MarkId} {i : Nat} {origin : Supply}

/-- A step that moves on names what moving on comes to. -/
theorem Sound.run_skip (hs : s.Sound) (hget : s.cursors.get? name = some p) (n : Nat)
    (target : String) :
    let r := (Program.skip n p.cursor).run (s.alive p.family) (s.feed p.family)
    let t := s.run (.cursor name (.skip n target))
    t.1.answer = .cursor (r.1.view r.2) ∧ t.2.cursors.get? target = some ⟨r.1, p.family⟩ ∧
      t.2.feed p.family = r.2 := by
  intro r t
  obtain ⟨o, hp⟩ := hs.placed p (mem_places_of_cursor hget)
  have hstep : (t.1.answer, t.2) = (s.setFeed p.family r.2).introduce target p.family r.1 :=
    run_of_work hget (.skip n target) rfl rfl
  obtain ⟨hanswer, hstate⟩ := Prod.mk.inj hstep
  have hfeed := feed_setFeed hp.1 r.2
  refine ⟨?_, ?_, ?_⟩
  · rw [hanswer, hfeed]
  · rw [hstate]
    exact Named.get?_put_self _ _ _
  · rw [hstate]
    exact hfeed

end Session
end BranchCursor
