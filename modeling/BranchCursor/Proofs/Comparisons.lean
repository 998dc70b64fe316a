import BranchCursor.Proofs.Answers
import BranchCursor.Proofs.Scans

/-! How patterns are compared: directly with a text, by walking along any cursor, or not at all.
All ways come to one verdict by the same questions, asked pair by pair up to the first that
differs, and they leave the cursor where it is. -/
namespace BranchCursor

namespace Comparison

/-- The pairs up to the first that is not alike, that one included. -/
def untilUnlike (like : Char → Char → Bool) (pairs : List (Char × Char)) : List (Char × Char) :=
  pairs.take (pairs.findIdx (fun x => !like x.1 x.2) + 1)

variable {like other : Char → Char → Bool} {pattern rest : List Char} {asked : Array (Char × Char)}

theorem untilUnlike_cons (like : Char → Char → Bool) (e a : Char) (pairs : List (Char × Char)) :
    untilUnlike like ((e, a) :: pairs) =
      (e, a) :: if like e a = true then untilUnlike like pairs else [] := by
  cases h : like e a <;> simp [untilUnlike, List.findIdx_cons, h]

/-- Whatever was asked before, the pairs asked about are those up to the first that differs. -/
theorem toList_asked_along (like : Char → Char → Bool) (pattern rest : List Char)
    (asked : Array (Char × Char)) :
    (along like pattern rest asked).asked.toList =
      asked.toList ++ untilUnlike like (pattern.zip rest) := by
  induction pattern generalizing rest asked with
  | nil => simp [along, untilUnlike]
  | cons e later ih =>
    cases rest with
    | nil => simp [along, untilUnlike]
    | cons a rest =>
      rw [along, List.zip_cons_cons, untilUnlike_cons]
      by_cases hlike : like e a = true
      · rw [if_pos hlike, if_pos hlike, ih]
        simp
      · rw [if_neg hlike, if_neg hlike]
        simp

/-- What is alike otherwise makes no difference. -/
theorem along_congr (h : ∀ x ∈ untilUnlike like (pattern.zip rest), other x.1 x.2 = like x.1 x.2)
    (asked : Array (Char × Char)) :
    along other pattern rest asked = along like pattern rest asked := by
  induction pattern generalizing rest asked with
  | nil => rfl
  | cons e later ih =>
    cases rest with
    | nil => rfl
    | cons a rest =>
      rw [List.zip_cons_cons, untilUnlike_cons] at h
      obtain ⟨hfirst, hlater⟩ := List.forall_mem_cons.mp h
      have hsame : other e a = like e a := hfirst
      rw [along, along, hsame]
      by_cases hlike : like e a = true
      · rw [if_pos hlike] at hlater
        rw [if_pos hlike, if_pos hlike, ih hlater]
      · rw [if_neg hlike, if_neg hlike]

end Comparison

theorem TextCursor.compare_eq (like : Char → Char → Bool) (pattern : List Char) (t : TextCursor) :
    t.compare like pattern = Comparison.along like pattern t.remaining #[] :=
  compareWith_eq like t.buffer pattern t.index #[]

/-- What a cursor shows of itself does not depend on how far its feed has got. -/
theorem Cursor.Stands.view_eq {b : Backing} {f g : Feed} {o : Nat} {c : Cursor}
    (hc : c.Stands b f o) (hext : f.Extends g) : c.view g = c.view f := by
  cases c with
  | finish => rfl
  | text t => rfl
  | mark id => exact congrArg CursorView.mark (hext.position id hc.2.1)

namespace Program

variable {like : Char → Char → Bool} {pattern : List Char} {b : Backing} {f : Feed} {o : Nat}
  {c : Cursor} {held : MarkId → Bool}

theorem run_map {α β : Type} (held : MarkId → Bool) (g : α → β) (p : Program α) (f : Feed) :
    (p.map g).run held f = (g (p.run held f).1, (p.run held f).2) :=
  run_bind held p _ f

/-- The empty pattern is refused before any operation and any question. -/
theorem run_compare_nil (held : MarkId → Bool) (like : Char → Char → Bool) (c : Cursor)
    (f : Feed) : (compare like [] c).run held f = (.error (.misuse .emptyPattern), f) := rfl

theorem run_compare (hc : c.Stands b f o) (hs : f.Serves b (Cursor.holding held [c]))
    (like : Char → Char → Bool) (pattern : List Char) :
    ((compare like pattern c).run held f).1 = Comparison.of like pattern (b.content.drop o) := by
  obtain ⟨hand, ⟨hr, -⟩, -⟩ := (ensures_compare like pattern hc (Cursor.Within.refl _)).run hs
  exact hr

theorem run_compareWalking (hc : c.Stands b f o) (hs : f.Serves b (Cursor.holding held [c]))
    (like : Char → Char → Bool) (pattern : List Char) :
    ((compareWalking like pattern c #[]).run held f).1 =
      Comparison.along like pattern (b.content.drop o) #[] := by
  have hensures : (compareWalking like pattern c #[]).Ensures b _ f [c] :=
    ensures_compareWalking pattern #[] hc (Cursor.Within.refl _)
  obtain ⟨hand, hr, -⟩ := hensures.run hs
  exact hr

end Program

namespace Session

variable {s : Session} {p : Place} {name : String}

/-- A step answers and names by what its work comes to. -/
theorem run_of_work {α : Type} {w : Program α} {g : α → Outcome}
    (hget : s.cursors.get? name = some p) (step : CursorStep) (hworks : step.works = true)
    (hwork : step.work (s.feed p.family) p.cursor = w.map g) :
    let r := w.run (s.alive p.family) (s.feed p.family)
    let t := s.run (.cursor name step)
    (t.1.answer, t.2) = (s.setFeed p.family r.2).conclude p.family (g r.1) := by
  obtain ⟨hanswer, hstate⟩ := run_cursor hget step
  have hrun := Program.run_map (s.alive p.family) g w (s.feed p.family)
  have hon := onCursor_of_works hworks name p s
  rw [hwork, carryOut, perform, hrun] at hon
  exact Prod.ext (hanswer.trans (congrArg Prod.fst hon)) (hstate.trans (congrArg Prod.snd hon))

/-- A comparison tells what was found, and the cursor is where it was with all that follows. -/
theorem Sound.run_compare (hs : s.Sound) (hget : s.cursors.get? name = some p)
    (pattern : List Char) (likeness : Likeness) (traced : Bool) :
    let f := s.feed p.family
    let rest := p.cursor.rest (s.backing p.family) f
    let r := (Program.compare likeness.like pattern p.cursor).run (s.alive p.family) f
    let t := s.run (.cursor name (.compare pattern likeness traced))
    t.1.answer = verdict traced r.1 ∧ t.2.feed p.family = r.2 ∧ t.2.cursors = s.cursors ∧
      p.cursor.view (t.2.feed p.family) = p.cursor.view f ∧
      p.cursor.rest (t.2.backing p.family) (t.2.feed p.family) = rest ∧
      (t.2.run (.cursor name .collect)).1.answer = .text rest.toArray := by
  intro f rest r t
  obtain ⟨o, hp⟩ := hs.placed _ (mem_places_of_cursor hget)
  have hrest : rest = (s.backing p.family).content.drop o := hp.2.rest_eq
  have hstep : (t.1.answer, t.2) = (verdict traced r.1, s.setFeed p.family r.2) :=
    run_of_work hget (.compare pattern likeness traced) rfl rfl
  obtain ⟨hanswer, hstate⟩ := Prod.mk.inj hstep
  obtain ⟨ht, hleads⟩ := hs.run (.cursor name (.compare pattern likeness traced))
  have hpt : t.2.Stands p o := hp.leads hleads
  have hback : t.2.backing p.family = s.backing p.family := hleads.backing p.family hp.1
  have hcursors : t.2.cursors = s.cursors := by rw [hstate, cursors_setFeed]
  have hfeed : t.2.feed p.family = r.2 := by rw [hstate, feed_setFeed hp.1]
  refine ⟨hanswer, hfeed, hcursors, hp.2.view_eq (hleads.extend p.family hp.1), ?_, ?_⟩
  · rw [hpt.2.rest_eq, hback, hrest]
  · refine ht.answer_run (hcursors ▸ hget) hpt .collect ?_
    rw [CursorStep.answer?, hback, hrest]

/-- From every cursor that any steps lead to and under every likeness, a comparison with an empty
pattern is refused, whatever is alike and before anything is done; any other comes to whether the
pattern begins what is left, by asking about pair after pair up to the first that differs. To walk
along the cursor, to compare with a text from which the same is left, and to compare under anything
that agrees on the pairs asked about come to the same; and the cursor stays where it is. -/
theorem comparisons_agree (steps : List Step) {name : String} {p : Place}
    (hname : (runAll steps {}).2.cursors.get? name = some p) (likeness : Likeness)
    (pattern : List Char) :
    let s := (runAll steps {}).2
    let f := s.feed p.family
    let rest := p.cursor.rest (s.backing p.family) f
    let compared := fun like =>
      (Program.compare like pattern p.cursor).run (s.alive p.family) f
    let r := compared likeness.like
    (r.1 = .error (.misuse .emptyPattern) ↔ pattern = []) ∧
    (pattern = [] → ∀ other, compared other = (.error (.misuse .emptyPattern), f)) ∧
    (pattern ≠ [] → ∃ found, r.1 = .ok found ∧
      (found.verdict = true ↔ pattern.length ≤ rest.length ∧ ∀ (j : Nat) (e a : Char),
        pattern[j]? = some e → rest[j]? = some a → likeness.like e a = true) ∧
      found.asked.toList = Comparison.untilUnlike likeness.like (pattern.zip rest) ∧
      ((Program.compareWalking likeness.like pattern p.cursor #[]).run (s.alive p.family) f).1 =
        found ∧
      (∀ t : TextCursor, t.remaining = rest → t.compare likeness.like pattern = found) ∧
      ∀ other, (∀ x ∈ found.asked, other x.1 x.2 = likeness.like x.1 x.2) →
        (compared other).1 = .ok found) ∧
    ∀ traced,
      let t := s.run (.cursor name (.compare pattern likeness traced))
      t.1.answer = verdict traced r.1 ∧ t.2.feed p.family = r.2 ∧ t.2.cursors = s.cursors ∧
      p.cursor.view (t.2.feed p.family) = p.cursor.view f ∧
      p.cursor.rest (t.2.backing p.family) (t.2.feed p.family) = rest ∧
      (t.2.run (.cursor name .collect)).1.answer = .text rest.toArray := by
  intro s f rest compared r
  have hs : s.Sound := sound_runAll steps
  have hmem := mem_places_of_cursor hname
  obtain ⟨o, hp⟩ := hs.placed _ hmem
  have hserves := (hs.serves p.family).mono (holding_of_mem hmem)
  have hrest : rest = (s.backing p.family).content.drop o := hp.2.rest_eq
  have hcompared : ∀ like, (compared like).1 = Comparison.of like pattern rest := by
    intro like
    rw [hrest]
    exact Program.run_compare hp.2 hserves like pattern
  refine ⟨?_, ?_, ?_, ?_⟩
  · rw [hcompared, Comparison.of]
    by_cases hempty : pattern = [] <;> simp [hempty]
  · rintro rfl other
    exact Program.run_compare_nil _ _ _ _
  · intro hne
    have hok : ∀ like, (compared like).1 = .ok (Comparison.along like pattern rest #[]) :=
      fun like => (hcompared like).trans (if_neg hne)
    have hasked := Comparison.toList_asked_along likeness.like pattern rest #[]
    refine ⟨_, hok likeness.like, Comparison.verdict_along #[], hasked, ?_, ?_, ?_⟩
    · rw [hrest]
      exact Program.run_compareWalking hp.2 hserves likeness.like pattern
    · intro t ht
      rw [TextCursor.compare_eq, ht]
    · intro other hother
      rw [hok, Comparison.along_congr fun x hx => hother x ?_]
      rw [← Array.mem_toList_iff, hasked]
      exact hx
  · exact hs.run_compare hname pattern likeness

/-- The content runs out before the pattern, when one of its two characters was read. What is alike
here goes one way only, so the pattern's characters come first in every pair. -/
theorem comparisons_agree_running_out :
    let steps := [.openSource "r" (.iterated ['b', 'd'] {}), .cursor "r" (.peek 1)]
    let s := (runAll steps {}).2
    let pattern := ['a', 'c', 'a']
    s.cursors.get? "r" = some ⟨.mark 0, 0⟩ ∧ pattern ≠ [] ∧
    (s.run (.cursor "r" (.compare pattern .upTo true))).1.answer =
      .traced (.ok ⟨false, #[('a', 'b'), ('c', 'd')]⟩) ∧
    (∀ t : TextCursor, t.remaining = ['b', 'd'] →
      t.compare Likeness.upTo.like pattern = ⟨false, #[('a', 'b'), ('c', 'd')]⟩) ∧
    ((s.run (.cursor "r" (.compare pattern .upTo true))).2.run (.cursor "r" .collect)).1.answer =
      .text #['b', 'd'] := by
  intro steps s pattern
  have hname : s.cursors.get? "r" = some ⟨.mark 0, 0⟩ := by decide +kernel
  have hne : pattern ≠ [] := by decide
  have hrest : (Cursor.mark 0).rest (s.backing 0) (s.feed 0) = ['b', 'd'] := by decide +kernel
  have hdirect : Comparison.along Likeness.upTo.like pattern ['b', 'd'] #[] =
      ⟨false, #[('a', 'b'), ('c', 'd')]⟩ := by decide +kernel
  clear_value steps
  obtain ⟨-, -, hfound, hstep⟩ := comparisons_agree steps hname .upTo pattern
  obtain ⟨found, hr, -, -, -, htext, -⟩ := hfound hne
  obtain ⟨hanswer, -, -, -, -, hcollect⟩ := hstep true
  dsimp only at hr htext hanswer hcollect
  rw [hrest] at htext hcollect
  have hvalue : found = ⟨false, #[('a', 'b'), ('c', 'd')]⟩ := by
    rw [← htext ⟨#['b', 'd'], 0, by decide⟩ rfl, TextCursor.compare_eq]
    exact hdirect
  rw [hr, hvalue] at hanswer
  exact ⟨hname, hne, hanswer, fun t ht => (htext t ht).trans hvalue, hcollect⟩

end Session

end BranchCursor
