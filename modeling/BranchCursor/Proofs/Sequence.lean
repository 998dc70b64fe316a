import BranchCursor.Proofs.Answers

/-! One sequence for all: whatever was done before and by whom, a cursor over a feed sees the
content of its source from its own position on, and so does an iterator opened at it. -/
namespace BranchCursor.Session

/-- Whether a step drops an iterator, or lets another cursor have its name. -/
def Step.letsGo (name : String) : Step → Bool
  | cursor _ (.iterate other) | iterator other .drop => other == name
  | openSource .. | probe _ | cursor .. | handle .. | iterator .. => false

/-- How often a step calls an iterator. -/
def Step.calls (name : String) : Step → Nat
  | iterator other (.take n) => if other = name then n else 0
  | openSource .. | probe _ | cursor .. | handle .. | iterator .. => 0

/-- What an iterator gave in a step. -/
def Step.taken (name : String) (step : Step) (reply : Reply) : List (Option Char) :=
  match step, reply.answer with
  | .iterator other (.take _), .given chars => if other = name then chars.toList else []
  | _, _ => []

/-- How often some steps call an iterator. -/
def calls (name : String) (steps : List Step) : Nat :=
  steps.foldr (fun step n => step.calls name + n) 0

/-- All that an iterator gives in the course of some steps. -/
def taken (name : String) : List Step → Session → List (Option Char)
  | [], _ => []
  | step :: later, s =>
    let r := s.run step
    step.taken name r.1 ++ taken name later r.2

variable {s : Session} {p : Place} {o : Nat} {name : String}

theorem Step.idle_of_turns_ne {step : Step} (h : step.turns ≠ some name) (reply : Reply) :
    step.calls name = 0 ∧ step.taken name reply = [] := by
  cases step with
  | iterator other step =>
    have hne : other ≠ name := fun he => h (congrArg some he)
    cases step with
    | take n =>
      refine ⟨if_neg hne, ?_⟩
      unfold Step.taken
      split
      · rename_i heq _
        cases heq
        exact if_neg hne
      · rfl
    | drop => exact ⟨rfl, rfl⟩
  | openSource _ _ | probe _ | cursor _ _ | handle _ _ => exact ⟨rfl, rfl⟩

/-- In one step an iterator gives as many characters as it is called, and goes on by them. -/
theorem Sound.taken_run (hs : s.Sound) (hget : s.iterators.get? name = some p)
    (hp : s.Stands p o) {step : Step} (hkeep : step.letsGo name = false) :
    let content := (s.backing p.family).content
    let t := s.run step
    step.taken name t.1 = (List.range (step.calls name)).map (fun k => content[o + k]?) ∧
    ∃ d, t.2.iterators.get? name = some ⟨d, p.family⟩ ∧
      t.2.Stands ⟨d, p.family⟩ (o + min (step.calls name) (content.length - o)) := by
  by_cases hturns : step.turns = some name
  · cases step with
    | cursor other step =>
      cases step with
      | iterate target =>
        cases hturns
        simp [Step.letsGo] at hkeep
      | _ => cases hturns
    | iterator other step =>
      cases hturns
      cases step with
      | take n =>
        obtain ⟨hanswer, -, d, hiterators, hstands⟩ := hs.run_take hget hp n
        have hcalls : (Step.iterator name (.take n)).calls name = n := if_pos rfl
        rw [hcalls]
        refine ⟨?_, d, ?_, hstands⟩
        · simp only [Step.taken, hanswer, if_true]
        · rw [hiterators, Named.get?_put_self]
      | drop => simp [Step.letsGo] at hkeep
    | openSource _ _ | probe _ | handle _ _ => cases hturns
  · obtain ⟨hcalls, htaken⟩ := Step.idle_of_turns_ne hturns (s.run step).1
    dsimp only
    rw [hcalls, htaken]
    refine ⟨rfl, p.cursor, ?_, ?_⟩
    · rw [(hs.leaves_run step).iterators name hturns, hget]
    · simpa using hp.leads (hs.run step).2

/-- Over any steps that keep an iterator, it gives the characters in order and then none. -/
theorem Sound.taken_eq (hs : s.Sound) (hget : s.iterators.get? name = some p)
    (hp : s.Stands p o) {later : List Step} (hkeep : ∀ step ∈ later, step.letsGo name = false) :
    taken name later s =
      (List.range (calls name later)).map fun k => (s.backing p.family).content[o + k]? := by
  induction later generalizing s p o with
  | nil => rfl
  | cons step later ih =>
    obtain ⟨hgiven, d, hget', hp'⟩ := hs.taken_run hget hp (hkeep step List.mem_cons_self)
    obtain ⟨hs', hleads⟩ := hs.run step
    have hrest := ih hs' hget' hp' fun step' h => hkeep step' (List.mem_cons_of_mem _ h)
    rw [hleads.backing p.family hp.1] at hrest
    have hcalls : calls name (step :: later) = step.calls name + calls name later := rfl
    rw [taken, hgiven, hrest, hcalls, List.range_add, List.map_append, List.map_map]
    congr 1
    apply List.map_congr_left
    intro k _
    -- past the end the iterator stays, but there is nothing more to give either
    by_cases hn : step.calls name ≤ (s.backing p.family).content.length - o
    · rw [Nat.min_eq_left hn, Nat.add_assoc]
      rfl
    · rw [List.getElem?_eq_none (by omega)]
      exact (List.getElem?_eq_none (by dsimp only; omega)).symm

/-- In every session that any steps lead to, a cursor over a feed sees the content of its source
from its position on, and an iterator opened there gives it character by character, and then
nothing, whatever is done between its calls. -/
theorem cursor_sees_content (steps : List Step) {name : String} {i : Nat} {id : MarkId}
    (hname : (runAll steps {}).2.cursors.get? name = some ⟨.mark id, i⟩) :
    let s := (runAll steps {}).2
    let content := (s.backing i).content
    let position := ((s.feed i).mark id).position
    (∃ family origin, s.families[i]? = some family ∧ family.source.backing = .supply origin ∧
      content = origin.content) ∧
    (s.run (.cursor name .current)).1.answer = .char content[position]? ∧
    (∀ n, (s.run (.cursor name (.peek n))).1.answer =
      .text ((content.drop position).take n).toArray) ∧
    (s.run (.cursor name .collect)).1.answer = .text (content.drop position).toArray ∧
    ∀ target later, (∀ step ∈ later, step.letsGo target = false) →
      taken target later (s.run (.cursor name (.iterate target))).2 =
        (List.range (calls target later)).map fun k => content[position + k]? := by
  intro s content position
  have hs : s.Sound := sound_runAll steps
  have hmem := mem_places_of_cursor hname
  obtain ⟨o, hp⟩ := hs.placed _ hmem
  have ho : position = o := hp.2.2.2
  rw [ho]
  refine ⟨?_, ?_, ?_, ?_, ?_⟩
  · obtain ⟨family, origin, hfamily, hsource, hb⟩ := hp.family_of_mark
    exact ⟨family, origin, hfamily, hsource, congrArg Backing.content hb⟩
  · refine hs.answer_run hname hp .current ?_
    rw [CursorStep.answer?, List.head?_drop]
  · intro n
    exact hs.answer_run hname hp (.peek n) rfl
  · exact hs.answer_run hname hp .collect rfl
  · intro target later hkeep
    obtain ⟨hs', hleads⟩ := hs.run (.cursor name (.iterate target))
    have hp' := hp.leads hleads
    have hget : (s.run (.cursor name (.iterate target))).2.iterators.get? target =
        some ⟨.mark id, i⟩ := by
      rw [(run_cursor hname (.iterate target)).2]
      exact Named.get?_put_self _ _ _
    have h := hs'.taken_eq hget hp' hkeep
    rw [hleads.backing i hp.1] at h
    exact h

/-- A script with an end in its middle: the second cursor was there before its character came by
way of the first one, which is dropped before the iterator goes on. -/
theorem cursor_sees_content_script :
    let script := [.char 'x', .char 'y', .char 'z', .finished, .char 'w']
    let steps := [.openSource "a" (.scripted script {}), .cursor "a" (.next "b"),
      .cursor "a" (.peek 2)]
    let later := [.iterator "it" (.take 1), .cursor "a" .drop, .cursor "b" .drop,
      .iterator "it" (.take 3)]
    let s := (runAll steps {}).2
    s.cursors.get? "b" = some ⟨.mark 1, 0⟩ ∧ (∀ step ∈ later, step.letsGo "it" = false) ∧
    (s.run (.cursor "b" .current)).1.answer = .char (some 'y') ∧
    (s.run (.cursor "b" .collect)).1.answer = .text #['y', 'z'] ∧
    taken "it" later (s.run (.cursor "b" (.iterate "it"))).2 =
      [some 'y', some 'z', none, none] := by
  intro script steps later s
  have hname : s.cursors.get? "b" = some ⟨.mark 1, 0⟩ := by decide +kernel
  have hkeep : ∀ step ∈ later, step.letsGo "it" = false := by decide
  have hcontent : (s.backing 0).content = ['x', 'y', 'z'] := by decide +kernel
  have hposition : ((s.feed 0).mark 1).position = 1 := by decide +kernel
  have hcalls : calls "it" later = 4 := by decide
  have hvalues : (List.range 4).map (fun k => ['x', 'y', 'z'][1 + k]?) =
      [some 'y', some 'z', none, none] := by decide
  -- what is done no longer matters, so nothing need be evaluated from here on
  clear_value later steps
  have h := cursor_sees_content steps hname
  dsimp only at h
  rw [hcontent, hposition] at h
  obtain ⟨-, hcurrent, -, hcollect, htaken⟩ := h
  refine ⟨hname, hkeep, hcurrent, hcollect, ?_⟩
  rw [htaken "it" later hkeep, hcalls, hvalues]

end BranchCursor.Session
