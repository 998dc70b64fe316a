import BranchCursor.Proofs.Sessions

/-! What each step of a sound session does, and that the session stays sound.
A step that works with a cursor answers by the content alone, or names a cursor further on. -/
namespace BranchCursor
open Cursor (Within holding)

variable {b : Backing} {alive : MarkId → Bool} {f : Feed}

/-! ### Handles -/

/-- A cursor asked for by its position stands somewhere, and is new in hand. -/
theorem Feed.Serves.cursorAt (hs : f.Serves b alive) (position : Nat) :
    let r := f.cursorAt alive position
    f.Extends r.2 ∧ r.2.Serves b alive ∧
    ∀ made, r.1 = .ok made → (∃ o, (Cursor.ofMark? made).Stands b r.2 o) ∧
      r.2.Serves b (holding alive [Cursor.ofMark? made]) := by
  unfold Feed.cursorAt
  by_cases hpassed : f.hasPassed position = true
  · rw [if_pos hpassed]
    refine ⟨Feed.Extends.refl f, hs, ?_⟩
    intro made h
    cases h
  rw [if_neg hpassed]
  by_cases he : f.exhausted = true
  · rw [if_pos he]
    refine ⟨Feed.Extends.refl f, hs, ?_⟩
    intro made h
    cases h
    refine ⟨⟨b.content.length, Nat.le_refl _⟩, hs.mono ?_⟩
    simp [holding, Cursor.ofMark?, Cursor.holds]
  rw [if_neg he]
  cases b with
  | text buffer =>
    rw [Feed.Serves] at hs
    subst hs
    exact absurd rfl he
  | supply origin =>
    have hread : f.readPosition ≤ position := by simpa [Feed.hasPassed] using hpassed
    obtain ⟨hid, hsize, hmark, hext⟩ := Feed.attach_spec alive position none f
    have hnew : (f.attach alive position none).2.Sound origin
        fun id => alive id || id == f.marks.size :=
      Feed.Sound.attach hs (fun _ h => h) (if_neg (Nat.not_lt.mpr hread)).symm
    refine ⟨hext, Feed.Sound.mono hnew (by simp +contextual), ?_⟩
    intro made h
    cases h
    rw [hid]
    refine ⟨⟨position, rfl, hsize ▸ Nat.lt_succ_self _, congrArg Mark.position hmark⟩,
      Feed.Sound.mono hnew ?_⟩
    intro id hh
    simp only [holding, Cursor.ofMark?, Cursor.holds, List.any_cons, List.any_nil,
      Bool.or_false, Bool.or_eq_true, beq_iff_eq] at hh ⊢
    exact hh.imp_right Eq.symm

theorem Feed.Serves.takeFault (hs : f.Serves b alive) : f.takeFault.2.Serves b alive := by
  cases b with
  | text buffer =>
    rw [Feed.Serves] at hs
    subst hs
    rfl
  | supply origin => exact Feed.Sound.withNotes hs none f.log

theorem Feed.Serves.takeLog (hs : f.Serves b alive) : f.takeLog.2.Serves b alive := by
  cases b with
  | text buffer =>
    rw [Feed.Serves] at hs
    subst hs
    rfl
  | supply origin => exact Feed.Sound.withNotes hs f.fault #[]

namespace Session

variable {s t : Session} {i : Nat} {p : Place} {o : Nat} {name target : String}

/-! ### New holders of cursors -/

theorem Sound.nameCursor (hs : s.Sound) (hp : s.Stands p o)
    (hserves : (s.feed p.family).Serves (s.backing p.family)
      (holding (s.alive p.family) [p.cursor])) (name : String) :
    (s.nameCursor name p).Sound :=
  hs.withPlace hp hserves rfl (fun _ hq => mem_places_nameCursor hq) rfl

theorem Sound.putIterator (hs : s.Sound) (hp : s.Stands p o)
    (hserves : (s.feed p.family).Serves (s.backing p.family)
      (holding (s.alive p.family) [p.cursor])) (name : String) :
    ({ s with iterators := s.iterators.put name p } : Session).Sound :=
  hs.withPlace hp hserves rfl (fun _ hq => mem_places_putIterator hq) rfl

theorem Sound.dropCursor (hs : s.Sound) (name : String) :
    ({ s with cursors := s.cursors.erase name } : Session).Sound :=
  hs.fewer rfl (fun _ hq => mem_places_dropCursor hq) hs.handled

theorem Sound.release (hs : s.Sound) (name : String) : (s.release name).Sound :=
  hs.fewer rfl (fun _ hq => mem_places_release hq) hs.handled

/-! ### Opening -/

/-- A family more, whose root is not named yet. -/
theorem Sound.pushFamily {source : Source} {c : Cursor} (hs : s.Sound)
    (ho : source.open? = .ok (c, f)) (name : String) :
    let t : Session := { s with families := s.families.push { name, source, feed := f } }
    t.Sound ∧ s.Leads t ∧ t.backing s.families.size = source.backing ∧
    t.Stands ⟨c, s.families.size⟩ source.start ∧
    (t.feed s.families.size).Serves (t.backing s.families.size)
      (holding (t.alive s.families.size) [c]) := by
  intro t
  obtain ⟨hstands, hserves⟩ := Source.stands_of_open? ho
  have hfeed : ∀ j < s.families.size, t.feed j = s.feed j := by
    intro j hj
    simp [t, feed, Array.getElem?_push, Nat.ne_of_lt hj]
  have hback : ∀ j < s.families.size, t.backing j = s.backing j := by
    intro j hj
    simp [t, backing, Array.getElem?_push, Nat.ne_of_lt hj]
  have hfeed_self : t.feed s.families.size = f := by simp [t, feed]
  have hback_self : t.backing s.families.size = source.backing := by simp [t, backing]
  have hleads : s.Leads t := by
    refine ⟨?_, hback, fun j hj => ?_⟩
    · simp [t]
    · rw [hfeed j hj]
      exact Feed.Extends.refl _
  -- nothing was held of the new family before
  have hfresh : ∀ j, s.families.size ≤ j → ∀ id, t.alive j id = false := by
    intro j hj id
    rw [Bool.eq_false_iff]
    intro hid
    obtain ⟨q, hq, hh⟩ := alive_iff.mp hid
    obtain ⟨o, hlt, -⟩ := hs.placed q hq
    rw [Place.holds, Bool.and_eq_true, beq_iff_eq] at hh
    rw [hh.1] at hlt
    omega
  have hheld : (t.feed s.families.size).Serves (t.backing s.families.size)
      (holding (t.alive s.families.size) [c]) := by
    rw [hfeed_self, hback_self]
    refine hserves.mono ?_
    intro id hid
    simpa [holding, hfresh _ (Nat.le_refl _) id] using hid
  refine ⟨⟨?_, ?_, ?_⟩, hleads, hback_self, ⟨?_, ?_⟩, hheld⟩
  · intro j
    rcases Nat.lt_trichotomy j s.families.size with hj | rfl | hj
    · rw [hfeed j hj, hback j hj]
      exact hs.serves j
    · exact hheld.mono (by simp +contextual [holding])
    · have hout : t.families[j]? = none := by
        simp only [t, Array.getElem?_eq_none_iff, Array.size_push]
        omega
      simp only [feed, backing, hout]
      rfl
  · intro q hq
    obtain ⟨o, ho⟩ := hs.placed q hq
    exact ⟨o, ho.leads hleads⟩
  · intro e he
    exact Nat.lt_of_lt_of_le (hs.handled e he) hleads.size
  · simp [t]
  · rw [hfeed_self, hback_self]
    exact hstands

/-! ### Work -/

theorem families_conclude (i : Nat) (r : Outcome) (s : Session) :
    (s.conclude i r).2.families = s.families := by
  cases r <;> rfl

/-- A cursor that stands where work has brought its feed stands in the session from then on. -/
theorem stands_conclude {d : Cursor} {g : Feed} (hi : i < s.families.size)
    (hd : d.Stands (s.backing i) g o) (r : Outcome) :
    ((s.setFeed i g).conclude i r).2.Stands ⟨d, i⟩ o := by
  have hstands : (s.setFeed i g).Stands ⟨d, i⟩ o := by
    refine ⟨(size_setFeed i g s).symm ▸ hi, ?_⟩
    rw [backing_setFeed, feed_setFeed hi]
    exact hd
  exact hstands.leads (leads_of_families (families_conclude i r _))

/-- Work on the feed of a family, with cursors in hand that others need not hold. -/
theorem Sound.carryOut {Q : Outcome → Feed → List Cursor → Prop} {hand : List Cursor}
    {w : Program Outcome} (hs : s.Sound) (hi : i < s.families.size)
    (hserves : (s.feed i).Serves (s.backing i) (holding (s.alive i) hand))
    (hw : w.Ensures (s.backing i) Q (s.feed i) hand)
    (hQ : ∀ r g hand', Q r g hand' → ∀ d, r.cursor? = some d →
      (∃ o, d.Stands (s.backing i) g o) ∧ Within [d] hand') :
    let r := w.run (s.alive i) (s.feed i)
    (∃ hand', Q r.1 r.2 hand') ∧ (s.carryOut i w).2.Sound ∧ s.Leads (s.carryOut i w).2 ∧
    s.carryOut i w = (s.setFeed i r.2).conclude i r.1 := by
  intro r
  obtain ⟨hand', hq, hserves', hext, -⟩ := hw.run hserves
  have hsound : (s.setFeed i r.2).Sound := by
    refine hs.setFeed hi hext (hserves'.mono ?_)
    intro id hid
    simp [holding, hid]
  have hleads : s.Leads (s.setFeed i r.2) := leads_setFeed hi hext
  have hrun : s.carryOut i w = (s.setFeed i r.2).conclude i r.1 := rfl
  have hnew : ∀ d, r.1.cursor? = some d → (∃ o, (s.setFeed i r.2).Stands ⟨d, i⟩ o) ∧
      ((s.setFeed i r.2).feed i).Serves ((s.setFeed i r.2).backing i)
        (holding ((s.setFeed i r.2).alive i) [d]) := by
    intro d hd
    obtain ⟨⟨o, hstands⟩, hwithin⟩ := hQ _ _ _ hq d hd
    refine ⟨⟨o, (size_setFeed i r.2 s).symm ▸ hi, ?_⟩, ?_⟩
    · rw [backing_setFeed, feed_setFeed hi]
      exact hstands
    · rw [backing_setFeed, feed_setFeed hi]
      exact hserves'.mono (Cursor.holding_mono hwithin)
  refine ⟨⟨hand', hq⟩, ?_, ?_, hrun⟩
  · rw [hrun]
    generalize r.1 = outcome at hnew
    cases outcome with
    | answered a => exact hsound
    | made name d =>
      obtain ⟨⟨o, hstands⟩, hheld⟩ := hnew d rfl
      exact hsound.nameCursor hstands hheld name
    | gave name chars d =>
      obtain ⟨⟨o, hstands⟩, hheld⟩ := hnew d rfl
      exact hsound.putIterator hstands hheld name
  · rw [hrun]
    exact hleads.trans (leads_of_families (families_conclude i r.1 _))

/-- The work of a step on a cursor that is held anyway. -/
theorem Sound.carryOut_work (hs : s.Sound) (hp : s.Stands p o) (hmem : p ∈ s.places)
    (step : CursorStep) :
    let w := step.work (s.feed p.family) p.cursor
    let r := w.run (s.alive p.family) (s.feed p.family)
    (∃ hand', Concludes (s.backing p.family) o step r.1 r.2 hand') ∧
    (s.carryOut p.family w).2.Sound ∧ s.Leads (s.carryOut p.family w).2 ∧
    s.carryOut p.family w = (s.setFeed p.family r.2).conclude p.family r.1 :=
  hs.carryOut hp.1 ((hs.serves _).mono (holding_of_mem hmem))
    (step.ensures_work hp.2 (hs.serves _)) fun _ _ _ h _ hd => h.cursor hd

/-- An iterator that was let go held its cursor before. -/
theorem holding_release (hget : s.iterators.get? name = some p) (id : MarkId)
    (hid : holding ((s.release name).alive p.family) [p.cursor] id) : s.alive p.family id := by
  apply holding_of_mem (mem_places_of_iterator hget)
  rw [holding, Bool.or_eq_true] at hid ⊢
  exact hid.imp_left (alive_of_subset fun _ hq => mem_places_release hq)

/-- The feed of an iterator that was let go is still sound for its cursor. -/
theorem Sound.serves_release (hs : s.Sound) (hget : s.iterators.get? name = some p) :
    (s.feed p.family).Serves (s.backing p.family)
      (holding ((s.release name).alive p.family) [p.cursor]) :=
  (hs.serves p.family).mono (holding_release hget)

/-- The work of an iterator, whose cursor nobody else need hold. -/
theorem Sound.carryOut_iteration (hs : s.Sound) (hp : s.Stands p o)
    (hget : s.iterators.get? name = some p) (n : Nat) :
    let content := (s.backing p.family).content
    let t := (s.release name).carryOut p.family (iteration name n p.cursor)
    t.2.Sound ∧ s.Leads t.2 ∧
    t.1 = .given ((List.range n).map fun k => content[o + k]?).toArray ∧
    ∃ d, t.2.cursors = s.cursors ∧ t.2.iterators = (s.iterators.erase name).put name ⟨d, p.family⟩ ∧
      t.2.Stands ⟨d, p.family⟩ (o + min n (content.length - o)) := by
  intro content t
  obtain ⟨⟨hand', d, hr, hstands, -⟩, hsound, hleads, hrun⟩ :=
    (hs.release name).carryOut hp.1 (hs.serves_release hget) (ensures_iteration name n hp.2) (by
      rintro r g hand' ⟨d, rfl, hstands, hwithin⟩ d' hd
      cases hd
      exact ⟨⟨_, hstands⟩, hwithin⟩)
  rw [hr] at hrun
  have hrelease : s.Leads (s.release name) := leads_of_families rfl
  refine ⟨hsound, hrelease.trans hleads, ?_, d, ?_, ?_, ?_⟩
  · exact congrArg Prod.fst hrun
  · exact congrArg (fun t => t.2.cursors) hrun
  · exact congrArg (fun t => t.2.iterators) hrun
  · have hd := stands_conclude (s := s.release name) hp.1 hstands (Outcome.gave name
      ((List.range n).map fun k => content[o + k]?).toArray d)
    exact congrArg (fun t => t.2) hrun ▸ hd

/-! ### Every step -/

/-- What a step can come to: nothing, a new family, or what the one does that it is about. -/
inductive Goes (s : Session) : Step → Session → Prop
  | still (step : Step) : Goes s step s
  | opened {source : Source} {c : Cursor} {f : Feed} (name : String)
      (ho : source.open? = .ok (c, f)) : Goes s (.openSource name source)
        (({ s with families := s.families.push { name, source, feed := f } } : Session).nameCursor
          name ⟨c, s.families.size⟩)
  | cursor {name : String} {p : Place} (hget : s.cursors.get? name = some p)
      (step : CursorStep) : Goes s (.cursor name step) (s.onCursor name p step).2
  | handle {name : String} {i : Nat} (hget : s.handles.get? name = some i)
      (step : HandleStep) : Goes s (.handle name step) (s.onHandle name i step).2
  | iterator {name : String} {p : Place} (hget : s.iterators.get? name = some p)
      (step : IteratorStep) : Goes s (.iterator name step) (s.onIterator name p step).2

theorem goes_run (step : Step) (s : Session) : s.Goes step (s.run step).2 := by
  unfold Session.run
  cases step with
  | openSource name source =>
    simp only [Session.openSource]
    cases ho : source.open? with
    | error cause => exact Goes.still _
    | ok r => exact Goes.opened name ho
  | probe name =>
    dsimp only
    split <;> exact Goes.still _
  | cursor name step =>
    dsimp only
    split
    · exact Goes.still _
    · rename_i p hget
      exact Goes.cursor hget step
  | handle name step =>
    dsimp only
    split
    · exact Goes.still _
    · rename_i i hget
      exact Goes.handle hget step
  | iterator name step =>
    dsimp only
    split
    · exact Goes.still _
    · rename_i p hget
      exact Goes.iterator hget step

theorem onCursor_of_works {step : CursorStep} (h : step.works = true) (name : String) (p : Place)
    (s : Session) :
    s.onCursor name p step =
      s.carryOut p.family (step.work (s.feed p.family) p.cursor) := by
  cases step with
  | iterate _ | handle _ | drop => cases h
  | _ => rfl

/-- The other steps do no work and leave the families alone. -/
theorem families_of_not_works {step : CursorStep} (h : step.works = false) (name : String)
    (p : Place) (s : Session) :
    (s.onCursor name p step).2.families = s.families ∧
    step.work (s.feed p.family) p.cursor = .done (.answered .nothing) := by
  cases step with
  | iterate _ | drop => exact ⟨rfl, rfl⟩
  | handle _ =>
    refine ⟨?_, rfl⟩
    unfold Session.onCursor
    dsimp only
    split <;> rfl
  | _ => cases h

theorem Sound.onCursor (hs : s.Sound) (hget : s.cursors.get? name = some p) (step : CursorStep) :
    (s.onCursor name p step).2.Sound ∧ s.Leads (s.onCursor name p step).2 := by
  have hmem := mem_places_of_cursor hget
  obtain ⟨o, hp⟩ := hs.placed p hmem
  cases hworks : step.works with
  | true =>
    rw [onCursor_of_works hworks]
    obtain ⟨-, hsound, hleads, -⟩ := hs.carryOut_work hp hmem step
    exact ⟨hsound, hleads⟩
  | false =>
    refine ⟨?_, leads_of_families (families_of_not_works hworks name p s).1⟩
    cases step with
    | iterate target =>
      exact hs.putIterator hp ((hs.serves p.family).mono (holding_of_mem hmem)) target
    | handle target =>
      unfold Session.onCursor
      dsimp only
      split
      · refine hs.fewer rfl (fun _ hq => hq) ?_
        intro e he
        rcases Named.eq_or_mem_of_mem_put he with rfl | he
        · exact hp.1
        · exact hs.handled e he
      · exact hs
    | drop => exact hs.dropCursor name
    | _ => cases hworks

theorem Sound.onHandle (hs : s.Sound) (hget : s.handles.get? name = some i) (step : HandleStep) :
    (s.onHandle name i step).2.Sound ∧ s.Leads (s.onHandle name i step).2 := by
  have hi := hs.lt_size_of_handle hget
  have hserves := hs.serves i
  cases step with
  | cursorAt position target =>
    obtain ⟨hext, hkept, hmade⟩ := hserves.cursorAt position
    have hsound := hs.setFeed hi hext hkept
    have hleads := leads_setFeed hi hext
    unfold Session.onHandle
    dsimp only
    split
    · rename_i made hok
      obtain ⟨⟨o, hstands⟩, hheld⟩ := hmade made hok
      have hp := stands_conclude hi hstands (.answered .nothing)
      refine ⟨hsound.nameCursor hp ?_ target, hleads.trans (leads_of_families rfl)⟩
      rw [backing_setFeed, feed_setFeed hi]
      exact hheld
    · exact ⟨hsound, hleads⟩
  | takeFault =>
    have hext : (s.feed i).Extends (s.feed i).takeFault.2 := ⟨Nat.le_refl _, fun _ _ => rfl⟩
    exact ⟨hs.setFeed hi hext hserves.takeFault, leads_setFeed hi hext⟩
  | takeLog =>
    have hext : (s.feed i).Extends (s.feed i).takeLog.2 := ⟨Nat.le_refl _, fun _ _ => rfl⟩
    exact ⟨hs.setFeed hi hext hserves.takeLog, leads_setFeed hi hext⟩
  | status | describe => exact ⟨hs, Leads.refl s⟩
  | drop =>
    refine ⟨hs.fewer rfl (fun _ hq => hq) ?_, leads_of_families rfl⟩
    intro e he
    exact hs.handled e (Named.mem_of_mem_erase he)

theorem Sound.onIterator (hs : s.Sound) (hget : s.iterators.get? name = some p)
    (step : IteratorStep) :
    (s.onIterator name p step).2.Sound ∧ s.Leads (s.onIterator name p step).2 := by
  cases step with
  | take n =>
    obtain ⟨o, hp⟩ := hs.placed p (mem_places_of_iterator hget)
    obtain ⟨hsound, hleads, -⟩ := hs.carryOut_iteration hp hget n
    exact ⟨hsound, hleads⟩
  | drop => exact ⟨hs.release name, leads_of_families rfl⟩

/-- Every step keeps a session sound. -/
theorem Sound.run (hs : s.Sound) (step : Step) :
    (s.run step).2.Sound ∧ s.Leads (s.run step).2 := by
  have hgoes := goes_run step s
  generalize (s.run step).2 = t at hgoes ⊢
  cases hgoes with
  | still step => exact ⟨hs, Leads.refl s⟩
  | opened name ho =>
    obtain ⟨hsound, hleads, -, hstands, hserves⟩ := hs.pushFamily ho name
    exact ⟨hsound.nameCursor hstands hserves name, hleads.trans (leads_of_families rfl)⟩
  | cursor hget step => exact hs.onCursor hget step
  | handle hget step => exact hs.onHandle hget step
  | iterator hget step => exact hs.onIterator hget step

/-- Any steps in any order keep a session sound. -/
theorem Sound.runAll (hs : s.Sound) (steps : List Step) :
    (runAll steps s).2.Sound ∧ s.Leads (runAll steps s).2 := by
  induction steps generalizing s with
  | nil => exact ⟨hs, Leads.refl s⟩
  | cons step later ih =>
    obtain ⟨hsound, hleads⟩ := hs.run step
    obtain ⟨hsound', hleads'⟩ := ih hsound
    exact ⟨hsound', hleads.trans hleads'⟩

/-- Every session that steps can lead to is sound. -/
theorem sound_runAll (steps : List Step) : (runAll steps {}).2.Sound :=
  (sound_empty.runAll steps).1

end Session

end BranchCursor
