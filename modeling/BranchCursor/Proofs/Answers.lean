import BranchCursor.Proofs.Runs

/-! What steps of a sound session answer, what they name, and what they leave alone. -/
namespace BranchCursor.Session

/-- The name of a cursor that a step may give to another one, or drop. -/
def Step.binds : Step → Option String
  | openSource name _ | cursor name .drop | handle _ (.cursorAt _ name) => some name
  | cursor _ step => step.target?.map (·.1)
  | probe _ | handle .. | iterator .. => none

/-- The name of an iterator that a step may make, use or drop. -/
def Step.turns : Step → Option String
  | cursor _ (.iterate name) | iterator name _ => some name
  | openSource .. | probe _ | cursor .. | handle .. => none

variable {s t : Session} {p : Place} {o n : Nat} {name target other : String} {a : Answer}

theorem run_cursor (hget : s.cursors.get? name = some p) (step : CursorStep) :
    (s.run (.cursor name step)).1.answer = (s.onCursor name p step).1 ∧
    (s.run (.cursor name step)).2 = (s.onCursor name p step).2 := by
  simp only [run, hget, and_self]

theorem run_iterator (hget : s.iterators.get? name = some p) (step : IteratorStep) :
    (s.run (.iterator name step)).1.answer = (s.onIterator name p step).1 ∧
    (s.run (.iterator name step)).2 = (s.onIterator name p step).2 := by
  simp only [run, hget, and_self]

/-! ### Cursors -/

/-- A step that names no cursor answers, and changes nothing but a feed. -/
theorem Sound.onCursor_of_silent (hs : s.Sound) (hget : s.cursors.get? name = some p)
    (hp : s.Stands p o) (step : CursorStep) (hworks : step.works = true)
    (ht : step.target? = none) :
    ∃ a g, s.onCursor name p step = (a, s.setFeed p.family g) ∧
      ∀ a', step.answer? ((s.backing p.family).content.drop o) = some a' → a = a' := by
  obtain ⟨⟨hand', hc⟩, -, -, hrun⟩ := hs.carryOut_work hp (mem_places_of_cursor hget) step
  obtain ⟨a, ha⟩ := hc.silent ht
  rw [onCursor_of_works hworks, hrun, ha]
  refine ⟨a, _, rfl, fun a' ha' => ?_⟩
  have h := hc.answer a' ha'
  rw [ha] at h
  exact Outcome.answered.inj h

/-- A step that names a cursor names one further on, and changes nothing else but a feed. -/
theorem Sound.onCursor_of_target (hs : s.Sound) (hget : s.cursors.get? name = some p)
    (hp : s.Stands p o) (step : CursorStep)
    (ht : step.target? = some (target, n)) :
    ∃ d g, s.onCursor name p step = (s.setFeed p.family g).introduce target p.family d ∧
      (s.onCursor name p step).2.Stands ⟨d, p.family⟩ (o + n) := by
  obtain ⟨⟨hand', hc⟩, -, -, hrun⟩ := hs.carryOut_work hp (mem_places_of_cursor hget) step
  obtain ⟨d, hd, hstands, -⟩ := hc.made target n ht
  have hworks : step.works = true := by
    cases step with
    | iterate _ | handle _ | drop => cases ht
    | _ => rfl
  rw [onCursor_of_works hworks, hrun]
  refine ⟨d, _, by rw [hd]; rfl, ?_⟩
  exact stands_conclude hp.1 hstands _

/-- A step whose answer the content determines gives that answer. -/
theorem Sound.answer_run (hs : s.Sound) (hget : s.cursors.get? name = some p)
    (hp : s.Stands p o) (step : CursorStep)
    (ha : step.answer? ((s.backing p.family).content.drop o) = some a) :
    (s.run (.cursor name step)).1.answer = a := by
  have hsort : step.works = true ∧ step.target? = none := by
    cases step with
    | current | peek _ | collect | compare _ _ _ | scan _ _ => exact ⟨rfl, rfl⟩
    | _ => cases ha
  obtain ⟨a', g, hrun, hanswer⟩ := hs.onCursor_of_silent hget hp step hsort.1 hsort.2
  rw [(run_cursor hget step).1, hrun]
  exact hanswer a ha

/-! ### Iterators -/

/-- An iterator gives the characters from where it stands, and goes on from there. -/
theorem Sound.run_take (hs : s.Sound) (hget : s.iterators.get? name = some p)
    (hp : s.Stands p o) (n : Nat) :
    let content := (s.backing p.family).content
    let t := s.run (.iterator name (.take n))
    t.1.answer = .given ((List.range n).map fun k => content[o + k]?).toArray ∧
    t.2.cursors = s.cursors ∧
    ∃ d, t.2.iterators = (s.iterators.erase name).put name ⟨d, p.family⟩ ∧
      t.2.Stands ⟨d, p.family⟩ (o + min n (content.length - o)) := by
  obtain ⟨-, -, hanswer, d, hcursors, hiterators, hstands⟩ := hs.carryOut_iteration hp hget n
  obtain ⟨hrun, hstate⟩ := run_iterator hget (.take n)
  dsimp only
  rw [hrun, hstate]
  exact ⟨hanswer, hcursors, d, hiterators, hstands⟩

/-! ### Frames -/

/-- The names other than the one that a step binds, and the iterators it does not use. -/
structure Step.Leaves (step : Step) (s t : Session) : Prop where
  cursors : ∀ other, step.binds ≠ some other → t.cursors.get? other = s.cursors.get? other
  iterators : ∀ other, step.turns ≠ some other → t.iterators.get? other = s.iterators.get? other

theorem Step.leaves_of_eq (step : Step) (hc : t.cursors = s.cursors)
    (hi : t.iterators = s.iterators) : step.Leaves s t :=
  ⟨fun _ _ => by rw [hc], fun _ _ => by rw [hi]⟩

theorem Step.leaves_put {step : Step} (hb : step.binds = some target)
    (hc : t.cursors = s.cursors.put target p) (hi : t.iterators = s.iterators) :
    step.Leaves s t where
  cursors other h := by
    rw [hb] at h
    rw [hc, Named.get?_put_ne fun he => h (congrArg some he.symm)]
  iterators other _ := by rw [hi]

/-- Work that names a cursor binds that name alone. -/
theorem Sound.leaves_onCursor (hs : s.Sound) (hget : s.cursors.get? name = some p)
    (step : CursorStep) : (Step.cursor name step).Leaves s (s.onCursor name p step).2 := by
  obtain ⟨o, hp⟩ := hs.placed p (mem_places_of_cursor hget)
  by_cases hworks : step.works = true
  · have hbinds : (Step.cursor name step).binds = step.target?.map (·.1) := by
      cases step with
      | drop => cases hworks
      | _ => rfl
    cases ht : step.target? with
    | none =>
      obtain ⟨a, g, hrun, -⟩ := hs.onCursor_of_silent hget hp step hworks ht
      rw [hrun]
      exact Step.leaves_of_eq _ rfl rfl
    | some made =>
      obtain ⟨d, g, hrun, -⟩ := hs.onCursor_of_target hget hp step ht
      rw [ht] at hbinds
      rw [hrun]
      exact Step.leaves_put hbinds rfl rfl
  · cases step with
    | iterate target =>
      refine ⟨fun _ _ => rfl, fun other h => ?_⟩
      exact Named.get?_put_ne (fun he => h (congrArg some he.symm)) _ _
    | handle target =>
      unfold Session.onCursor
      dsimp only
      split <;> exact Step.leaves_of_eq _ rfl rfl
    | drop =>
      refine ⟨fun other h => ?_, fun _ _ => rfl⟩
      exact Named.get?_erase_ne (fun he => h (congrArg some he.symm)) _
    | _ => exact absurd rfl hworks

theorem Sound.leaves_onIterator (hs : s.Sound) (hget : s.iterators.get? name = some p)
    (step : IteratorStep) : (Step.iterator name step).Leaves s (s.onIterator name p step).2 := by
  obtain ⟨o, hp⟩ := hs.placed p (mem_places_of_iterator hget)
  cases step with
  | take n =>
    obtain ⟨-, -, -, d, hcursors, hiterators, -⟩ := hs.carryOut_iteration hp hget n
    refine ⟨fun _ _ => congrArg (Named.get? _) hcursors, fun other h => ?_⟩
    have hne : other ≠ name := fun he => h (congrArg some he.symm)
    simp only [Session.onIterator, hiterators]
    rw [Named.get?_put_ne hne, Named.get?_erase_ne hne]
  | drop =>
    refine ⟨fun _ _ => rfl, fun other h => ?_⟩
    exact Named.get?_erase_ne (fun he => h (congrArg some he.symm)) _

/-- A step leaves all names and iterators alone that it does not itself mention. -/
theorem Sound.leaves_run (hs : s.Sound) (step : Step) : step.Leaves s (s.run step).2 := by
  have hgoes := goes_run step s
  generalize (s.run step).2 = t at hgoes ⊢
  cases hgoes with
  | still step => exact Step.leaves_of_eq step rfl rfl
  | opened name ho => exact Step.leaves_put rfl rfl rfl
  | cursor hget step => exact hs.leaves_onCursor hget step
  | handle hget step =>
    cases step with
    | cursorAt position target =>
      simp only [Session.onHandle]
      split
      · exact Step.leaves_put rfl rfl rfl
      · exact Step.leaves_of_eq _ rfl rfl
    | _ => exact Step.leaves_of_eq _ rfl rfl
  | iterator hget step => exact hs.leaves_onIterator hget step

end BranchCursor.Session
