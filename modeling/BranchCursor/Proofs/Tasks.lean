import BranchCursor.Proofs.Answers
import BranchCursor.Proofs.Inspections

/-! The work that a step gives to a feed, seen operation by operation.
A step that gives none may add a mark to a feed, but reads nothing. -/
namespace BranchCursor
open Cursor (holding)

theorem Feed.cursorAt_quiet (alive : MarkId → Bool) (position : Nat) (f : Feed) :
    (f.cursorAt alive position).2.readPosition = f.readPosition ∧
    (f.cursorAt alive position).2.exhausted = f.exhausted := by
  obtain ⟨roster, log, he, -⟩ := attach_cases alive position none f
  unfold cursorAt
  split
  · exact ⟨rfl, rfl⟩
  · split
    · exact ⟨rfl, rfl⟩
    · rw [he]
      exact ⟨rfl, rfl⟩

namespace Session

/-- Work on the feed of a family, and the marks held by others meanwhile. -/
structure Task where
  family : Nat
  held : MarkId → Bool
  feed : Feed
  work : Program Outcome

/-- The work that a step does, if it does any. -/
def task? (step : Step) (s : Session) : Option Task :=
  match step with
  | .cursor name step => (s.cursors.get? name).map fun p =>
    ⟨p.family, s.alive p.family, s.feed p.family, step.work (s.feed p.family) p.cursor⟩
  | .iterator name (.take n) => (s.iterators.get? name).map fun p =>
    ⟨p.family, (s.release name).alive p.family, s.feed p.family, iteration name n p.cursor⟩
  | .openSource .. | .probe _ | .handle .. | .iterator _ .drop => none

variable {s t : Session} {i : Nat} {p : Place} {o : Nat} {name : String}

/-- Carried out, work changes the feed of its family and no other. -/
theorem feed_carryOut (hi : i < s.families.size) (w : Program Outcome) (j : Nat) :
    (s.carryOut i w).2.feed j =
      if j = i then (w.run (s.alive i) (s.feed i)).2 else s.feed j := by
  rw [carryOut, feed_of_families (families_conclude _ _ _)]
  by_cases hj : j = i
  · subst hj
    rw [if_pos rfl]
    exact feed_setFeed hi _
  · rw [if_neg hj]
    exact feed_setFeed_ne (Ne.symm hj) _ _

/-- A step with a task does just that to its feed. -/
theorem feed_run_of_task {step : Step} {task : Task} (hs : s.Sound)
    (ht : s.task? step = some task) (i : Nat) :
    (s.run step).2.feed i =
      if i = task.family then (task.work.run task.held task.feed).2 else s.feed i := by
  cases step with
  | cursor name step =>
    obtain ⟨p, hget, rfl⟩ := Option.map_eq_some_iff.mp ht
    obtain ⟨o, hp⟩ := hs.placed p (mem_places_of_cursor hget)
    rw [(run_cursor hget step).2]
    cases hworks : step.works with
    | true =>
      rw [onCursor_of_works hworks]
      exact feed_carryOut hp.1 _ i
    | false =>
      obtain ⟨hsame, hwork⟩ := families_of_not_works hworks name p s
      rw [feed_of_families hsame, hwork]
      by_cases hi : i = p.family
      · rw [if_pos hi, hi]
        rfl
      · rw [if_neg hi]
  | iterator name step =>
    cases step with
    | take n =>
      obtain ⟨p, hget, rfl⟩ := Option.map_eq_some_iff.mp ht
      obtain ⟨o, hp⟩ := hs.placed p (mem_places_of_iterator hget)
      rw [(run_iterator hget (.take n)).2]
      exact feed_carryOut (s := s.release name) hp.1 _ i
    | drop => cases ht
  | openSource _ _ | probe _ | handle _ _ => cases ht

/-- A task works with a cursor that stands somewhere and is held anyway, on a feed that is sound for
it, too; and a cursor that it comes to is in hand at its end. -/
theorem Sound.task_hand {step : Step} {task : Task} (hs : s.Sound)
    (ht : s.task? step = some task) :
    task.family < s.families.size ∧ task.feed = s.feed task.family ∧
    ∃ c o Q, c.Stands (s.backing task.family) task.feed o ∧
      (∀ id, holding task.held [c] id → s.alive task.family id) ∧
      task.work.Ensures (s.backing task.family) Q task.feed [c] ∧
      ∀ r g hand', Q r g hand' → ∀ d, r.cursor? = some d → Cursor.Within [d] hand' := by
  cases step with
  | cursor name step =>
    obtain ⟨p, hget, rfl⟩ := Option.map_eq_some_iff.mp ht
    have hmem := mem_places_of_cursor hget
    obtain ⟨o, hp⟩ := hs.placed p hmem
    exact ⟨hp.1, rfl, p.cursor, o, _, hp.2, holding_of_mem hmem,
      step.ensures_work hp.2 (hs.serves p.family), fun _ _ _ h _ hd => (h.cursor hd).2⟩
  | iterator name step =>
    cases step with
    | take n =>
      obtain ⟨p, hget, rfl⟩ := Option.map_eq_some_iff.mp ht
      obtain ⟨o, hp⟩ := hs.placed p (mem_places_of_iterator hget)
      refine ⟨hp.1, rfl, p.cursor, o, _, hp.2, holding_release hget,
        ensures_iteration name n hp.2, ?_⟩
      rintro r g hand' ⟨d, rfl, -, hwithin⟩ d' hd
      cases hd
      exact hwithin
    | drop => cases ht
  | openSource _ _ | probe _ | handle _ _ => cases ht

theorem Sound.task {step : Step} {task : Task} (hs : s.Sound) (ht : s.task? step = some task) :
    task.family < s.families.size ∧ task.feed = s.feed task.family ∧
    ∃ c o Q, c.Stands (s.backing task.family) task.feed o ∧
      task.feed.Serves (s.backing task.family) (holding task.held [c]) ∧
      task.work.Ensures (s.backing task.family) Q task.feed [c] := by
  obtain ⟨hi, hfeed, c, o, Q, hc, hheld, hensures, -⟩ := hs.task_hand ht
  exact ⟨hi, hfeed, c, o, Q, hc, hfeed ▸ (hs.serves task.family).mono hheld, hensures⟩

/-- What a step on a handle makes of the feed. -/
def HandleStep.effect (alive : MarkId → Bool) (f : Feed) : HandleStep → Feed
  | cursorAt position _ => (f.cursorAt alive position).2
  | takeFault => f.takeFault.2
  | takeLog => f.takeLog.2
  | status | describe | drop => f

theorem feed_onHandle {j : Nat} (hj : j < s.families.size) (name : String) (step : HandleStep)
    (i : Nat) :
    (s.onHandle name j step).2.feed i =
      if i = j then step.effect (s.alive j) (s.feed j) else s.feed i := by
  have hset : ∀ g, (s.setFeed j g).feed i = if i = j then g else s.feed i := by
    intro g
    split
    · rename_i h
      rw [h, feed_setFeed hj]
    · rename_i h
      exact feed_setFeed_ne (Ne.symm h) g s
  have hsame : s.feed i = if i = j then s.feed j else s.feed i := by
    split
    · rename_i h
      rw [h]
    · rfl
  cases step with
  | cursorAt position target =>
    unfold onHandle
    dsimp only
    split <;> exact hset _
  | takeFault | takeLog => exact hset _
  | status | describe | drop => exact hsame

/-- A step without a task leaves a feed as it is, unless it is about a handle of this feed. -/
theorem feed_run_of_no_task {step : Step} (hs : s.Sound) (ht : s.task? step = none)
    (hi : i < s.families.size) :
    (s.run step).2.feed i = s.feed i ∨
    ∃ name handleStep, step = .handle name handleStep ∧ s.handles.get? name = some i ∧
      (s.run step).2.feed i = handleStep.effect (s.alive i) (s.feed i) := by
  have hgoes := goes_run step s
  generalize (s.run step).2 = t at hgoes ⊢
  cases hgoes with
  | still step => exact Or.inl rfl
  | opened name ho =>
    have hne : i ≠ s.families.size := Nat.ne_of_lt hi
    exact Or.inl (by simp [nameCursor, feed, Array.getElem?_push, hne])
  | cursor hget step =>
    rw [task?, hget] at ht
    cases ht
  | @handle name j hget step =>
    have hfeed := feed_onHandle (hs.lt_size_of_handle hget) name step i
    by_cases h : i = j
    · subst h
      rw [if_pos rfl] at hfeed
      exact Or.inr ⟨name, step, rfl, hget, hfeed⟩
    · rw [if_neg h] at hfeed
      exact Or.inl hfeed
  | iterator hget step =>
    cases step with
    | take n =>
      rw [task?, hget] at ht
      cases ht
    | drop => exact Or.inl rfl

/-- A step without a task reads nothing. -/
theorem quiet_run {step : Step} (hs : s.Sound) (ht : s.task? step = none)
    (hi : i < s.families.size) :
    ((s.run step).2.feed i).readPosition = (s.feed i).readPosition ∧
    ((s.run step).2.feed i).exhausted = (s.feed i).exhausted := by
  rcases feed_run_of_no_task hs ht hi with h | ⟨name, step, -, -, h⟩
  · rw [h]
    exact ⟨rfl, rfl⟩
  · rw [h]
    cases step with
    | cursorAt position target => exact Feed.cursorAt_quiet _ _ _
    | takeFault | takeLog | status | describe | drop => exact ⟨rfl, rfl⟩

end Session

end BranchCursor
