import BranchCursor.Proofs.Bounds
import BranchCursor.Proofs.ExactRoster
import BranchCursor.Proofs.Retunings

/-! Two sessions side by side that take the same steps on the same sources, opened with other
choices. All answers are the same and all that is shown of the feeds, but for what tells of logs,
rosters and reads themselves. -/
namespace BranchCursor
open Cursor (Within holding)

/-- A family that was opened with other choices and is as far on. -/
structure Family.Retuned (a b : Family) : Prop where
  name : a.name = b.name
  source : a.source.Retuned b.source
  feed : a.feed.Same b.feed

/-- Where entries are related one by one, so is what they hold under a name. -/
theorem Named.rel_get? {α β : Type} {R : α → β → Prop} {entries : Named α} {others : Named β}
    (h : List.Forall₂ (fun a b => a.1 = b.1 ∧ R a.2 b.2) entries others) (name : String) :
    Option.Rel R (entries.get? name) (others.get? name) := by
  induction h with
  | nil => exact .none
  | @cons a b _ _ hab _ ih =>
    by_cases hname : a.1 = name
    · have hname' : b.1 = name := hab.1.symm.trans hname
      simp only [Named.get?, List.find?_cons, hname, hname', beq_self_eq_true]
      exact .some hab.2
    · have hname' : b.1 ≠ name := fun he => hname (hab.1.trans he)
      simpa only [Named.get?, List.find?_cons, beq_false_of_ne hname, beq_false_of_ne hname']
        using ih

namespace Session

/-- Steps that are the same but for the choices that a source is opened with. -/
inductive Step.Retuned : Step → Step → Prop
  | same (step : Step) : Retuned step step
  | opened (name : String) {source other : Source} (h : source.Retuned other) :
      Retuned (.openSource name source) (.openSource name other)

/-- Answers to a step that are the same, unless it takes a log, asks for the reads of a byte stream
or has a feed described, where the number of its subscribers may differ. -/
inductive Answer.Tuned : Step → Answer → Answer → Prop
  | same (step : Step) (answer : Answer) : Tuned step answer answer
  | log (name : String) (entries entries' : Array LogEntry) :
      Tuned (.handle name .takeLog) (.log entries) (.log entries')
  | description (name : String) (read : Nat) (exhausted : Bool) (n n' : Nat) :
      Tuned (.handle name .describe)
        (.description (fieldText "SharedReader" [("read_position", toString read),
          ("exhausted", toString exhausted), ("subscribers", toString n)]))
        (.description (fieldText "SharedReader" [("read_position", toString read),
          ("exhausted", toString exhausted), ("subscribers", toString n')]))
  | reads (name : String) (rooms rooms' : List Nat) :
      Tuned (.probe name) (.probe (.reads rooms)) (.probe (.reads rooms'))

/-- Replies to a step with such answers, and the same status but for the length of the roster. -/
structure Reply.Tuned (step : Step) (a b : Reply) : Prop where
  answer : Answer.Tuned step a.answer b.answer
  status : Option.Rel Status.Tuned a.status b.status

/-! ### Sessions that are the same -/

/-- Sessions in which the same is named, over families that differ by choices only. -/
structure Same (s t : Session) : Prop where
  families : ∀ i : Nat, Option.Rel Family.Retuned s.families[i]? t.families[i]?
  cursors : s.cursors = t.cursors
  iterators : s.iterators = t.iterators
  handles : s.handles = t.handles

variable {s t : Session} {i : Nat} {p : Place} {name : String} {step other : Step}

/-- A family is there in both, or in neither. -/
theorem Same.family (h : s.Same t) (i : Nat) :
    (s.families[i]? = none ∧ t.families[i]? = none) ∨
    ∃ a b, s.families[i]? = some a ∧ t.families[i]? = some b ∧ a.Retuned b := by
  have hi := h.families i
  generalize s.families[i]? = a at hi ⊢
  generalize t.families[i]? = b at hi ⊢
  cases hi with
  | some hfamily => exact Or.inr ⟨_, _, rfl, rfl, hfamily⟩
  | none => exact Or.inl ⟨rfl, rfl⟩

theorem Same.size (h : s.Same t) : s.families.size = t.families.size := by
  have hiff : ∀ i : Nat, s.families.size ≤ i ↔ t.families.size ≤ i := by
    intro i
    rw [← Array.getElem?_eq_none_iff, ← Array.getElem?_eq_none_iff]
    rcases h.family i with ⟨ha, hb⟩ | ⟨a, b, ha, hb, -⟩ <;> simp [ha, hb]
  exact Nat.le_antisymm ((hiff _).mpr (Nat.le_refl _)) ((hiff _).mp (Nat.le_refl _))

theorem Same.feed (h : s.Same t) (i : Nat) : (s.feed i).Same (t.feed i) := by
  rcases h.family i with ⟨ha, hb⟩ | ⟨a, b, ha, hb, hfamily⟩
  · simp only [Session.feed, ha, hb]
    exact Feed.Same.refl _
  · simp only [Session.feed, ha, hb]
    exact hfamily.feed

theorem Same.backing (h : s.Same t) (i : Nat) : (s.backing i).Alike (t.backing i) := by
  rcases h.family i with ⟨ha, hb⟩ | ⟨a, b, ha, hb, hfamily⟩
  · simp only [Session.backing, ha, hb]
    exact .refl _
  · simp only [Session.backing, ha, hb]
    exact hfamily.source.alike

theorem Same.alive (h : s.Same t) (i : Nat) : s.alive i = t.alive i := by
  funext id
  rw [Session.alive, Session.alive, h.cursors, h.iterators]

theorem Same.setFeed {f g : Feed} (h : s.Same t) (hsame : f.Same g) (i : Nat) :
    (s.setFeed i f).Same (t.setFeed i g) := by
  refine ⟨fun j => ?_, h.cursors, h.iterators, h.handles⟩
  simp only [Session.setFeed, Array.getElem?_modify]
  rcases h.family j with ⟨ha, hb⟩ | ⟨a, b, ha, hb, hfamily⟩
  · rw [ha, hb]
    split <;> exact .none
  · rw [ha, hb]
    split
    · exact .some ⟨hfamily.name, hfamily.source, hsame⟩
    · exact .some hfamily

theorem Same.push {a b : Family} (h : s.Same t) (hfamily : a.Retuned b) :
    ({ s with families := s.families.push a } : Session).Same
      { t with families := t.families.push b } := by
  refine ⟨fun i => ?_, h.cursors, h.iterators, h.handles⟩
  simp only [Array.getElem?_push, ← h.size]
  split
  · exact .some hfamily
  · exact h.families i

theorem Same.introduce (h : s.Same t) (name : String) (i : Nat) (c : Cursor) :
    (s.introduce name i c).1 = (t.introduce name i c).1 ∧
    (s.introduce name i c).2.Same (t.introduce name i c).2 :=
  ⟨congrArg Answer.cursor (c.view_same (h.feed i)), h.families,
    congrArg (Named.put name (Place.mk c i)) h.cursors, h.iterators, h.handles⟩

theorem Same.putIterator (h : s.Same t) (name : String) (p : Place) :
    ({ s with iterators := s.iterators.put name p } : Session).Same
      { t with iterators := t.iterators.put name p } :=
  ⟨h.families, h.cursors, congrArg (Named.put name p) h.iterators, h.handles⟩

theorem Same.release (h : s.Same t) (name : String) : (s.release name).Same (t.release name) :=
  ⟨h.families, h.cursors, congrArg (Named.erase name) h.iterators, h.handles⟩

theorem Same.conclude (h : s.Same t) (i : Nat) (r : Outcome) :
    (s.conclude i r).1 = (t.conclude i r).1 ∧ (s.conclude i r).2.Same (t.conclude i r).2 := by
  cases r with
  | answered answer => exact ⟨rfl, h⟩
  | made name c => exact h.introduce name i c
  | gave name chars c => exact ⟨rfl, h.putIterator name ⟨c, i⟩⟩

/-- Work that comes to the same over both feeds is carried out alike. -/
theorem Same.carryOut {w w' : Program Outcome} (h : s.Same t)
    (hrun : (w.run (s.alive i) (s.feed i)).1 = (w'.run (s.alive i) (t.feed i)).1 ∧
      (w.run (s.alive i) (s.feed i)).2.Same (w'.run (s.alive i) (t.feed i)).2) :
    (s.carryOut i w).1 = (t.carryOut i w').1 ∧ (s.carryOut i w).2.Same (t.carryOut i w').2 := by
  obtain ⟨houtcome, hsame⟩ := hrun
  simp only [Session.carryOut, Session.perform, ← h.alive, houtcome]
  exact (h.setFeed hsame i).conclude i _

/-! ### Sound sessions that are the same -/

/-- Such sessions that are sound, with tidy rosters. -/
structure Tuned (s t : Session) : Prop extends s.Same t where
  sound : s.Sound
  sound' : t.Sound
  tidy : ∀ i, (s.feed i).Tidy
  tidy' : ∀ i, (t.feed i).Tidy

theorem tuned_empty : ({} : Session).Tuned {} :=
  ⟨⟨fun _ => .none, rfl, rfl, rfl⟩, sound_empty, sound_empty, fun _ => Feed.tidy_idle,
    fun _ => Feed.tidy_idle⟩

/-- As many cursors wait in both, so the status differs in the length of the roster at most. -/
theorem Tuned.status (h : s.Tuned t) (i : Nat) : (s.status i).Tuned (t.status i) := by
  have hfeed := h.feed i
  have hserves := h.sound.serves i
  have hserves' := h.sound'.serves i
  have hbacking := h.backing i
  rw [← h.alive] at hserves'
  rw [Session.status, Session.status, ← h.alive]
  generalize s.backing i = b at hserves hbacking
  generalize t.backing i = b' at hserves' hbacking
  cases hbacking with
  | text buffer =>
    rw [show s.feed i = .idle from hserves, show t.feed i = .idle from hserves']
    exact ⟨rfl, rfl, rfl, rfl⟩
  | supply _ _ => exact hfeed.status ((h.tidy i).awaits hserves) ((h.tidy' i).awaits hserves')

theorem Tuned.statusOf (h : s.Tuned t) (p : Place) :
    Option.Rel Status.Tuned (s.statusOf p) (t.statusOf p) := by
  unfold Session.statusOf
  split
  · exact .some (h.status p.family)
  · exact .none

/-! ### Opening and probing -/

theorem Tuned.openSource (h : s.Tuned t) {source other : Source} (hsource : source.Retuned other)
    (name : String) :
    (s.openSource name source).1 = (t.openSource name other).1 ∧
    (s.openSource name source).2.Same (t.openSource name other).2 := by
  rcases hsource.open? with ⟨cause, ho, ho'⟩ | ⟨c, f, g, ho, ho', hsame⟩
  · unfold Session.openSource
    rw [ho, ho']
    exact ⟨rfl, h.toSame⟩
  · have hfamily : Family.Retuned ⟨name, source, f⟩ ⟨name, other, g⟩ := ⟨rfl, hsource, hsame⟩
    unfold Session.openSource
    rw [ho, ho', ← h.size]
    exact (h.toSame.push hfamily).introduce name _ c

theorem Tuned.probes (h : s.Tuned t) :
    List.Forall₂ (fun a b => a.1 = b.1 ∧ Probe.Tuned a.2 b.2) s.probes t.probes := by
  have hfamilies : List.Forall₂ (fun a b : Family => a.name = b.name ∧
      Option.Rel Probe.Tuned (a.source.probe? a.feed) (b.source.probe? b.feed))
      s.families.toList t.families.toList := by
    refine List.forall₂_iff_get.mpr ⟨h.size, fun i hi hi' => ?_⟩
    rcases h.family i with ⟨ha, -⟩ | ⟨a, b, ha, hb, hfamily⟩
    · exact absurd (Array.getElem?_eq_none_iff.mp ha) (Nat.not_le.mpr hi)
    · have hrooms := (h.backing i).isSome_rooms? (h.sound.serves i) (h.sound'.serves i)
      simp only [Session.feed, ha, hb] at hrooms
      obtain ⟨_, rfl⟩ := Array.getElem?_eq_some_iff.mp ha
      obtain ⟨_, rfl⟩ := Array.getElem?_eq_some_iff.mp hb
      exact ⟨hfamily.name, hfamily.source.probe? hfamily.feed hrooms⟩
  refine List.rel_filterMap (fun {a b} hab => ?_) hfamilies
  obtain ⟨hname, hprobe⟩ := hab
  generalize a.source.probe? a.feed = x at hprobe
  generalize b.source.probe? b.feed = y at hprobe
  cases hprobe with
  | some hprobe => exact .some ⟨hname, hprobe⟩
  | none => exact .none

theorem Tuned.probe? (h : s.Tuned t) (name : String) :
    Option.Rel Probe.Tuned (s.probe? name) (t.probe? name) :=
  Named.rel_get? (List.forall₂_reverse_iff.mpr h.probes) name

/-! ### Work -/

/-- The work of a step comes to the same over both feeds, though the bounds on what it may have to
read differ. -/
theorem CursorStep.run_work_same {b b' : Backing} {f g : Feed} {o o' : Nat} {c : Cursor}
    {held : MarkId → Bool} (step : CursorStep) (hb : b.Alike b') (hsame : f.Same g)
    (hc : c.Stands b f o) (hc' : c.Stands b' g o') (hf : f.Serves b (holding held [c]))
    (hg : g.Serves b' (holding held [c])) :
    ((step.work f c).run held f).1 = ((step.work g c).run held g).1 ∧
    ((step.work f c).run held f).2.Same ((step.work g c).run held g).2 := by
  have hwork : step.work f c = step.work g c →
      ((step.work f c).run held f).1 = ((step.work g c).run held g).1 ∧
      ((step.work f c).run held f).2.Same ((step.work g c).run held g).2 := by
    intro heq
    have hensures := step.ensures_work hc hf
    rw [heq] at hensures ⊢
    exact hensures.same (step.ensures_work hc' hg) hb hsame hf hg
  have hbound := hc.length_le_bound hf
  have hbound' := hc'.length_le_bound hg
  have hmax : b.content.length ≤ o + max (c.bound f) (c.bound g) := by omega
  have hmax' : b'.content.length ≤ o' + max (c.bound f) (c.bound g) := by omega
  cases step with
  | collect =>
    exact Program.same_map _ (Program.run_collect_eq hbound hmax hc hf)
      (Program.run_collect_eq hbound' hmax' hc' hg)
      ((Program.ensures_collect hmax hc (Within.refl _)).same
        (Program.ensures_collect hmax' hc' (Within.refl _)) hb hsame hf hg)
  | scan patterns likeness =>
    exact Program.same_map _ (Program.run_scan_eq hbound hmax hc hf)
      (Program.run_scan_eq hbound' hmax' hc' hg)
      ((Program.ensures_scan patterns hmax hc (Within.refl _)).same
        (Program.ensures_scan patterns hmax' hc' (Within.refl _)) hb hsame hf hg)
  | position => exact hwork (by rw [work, work, c.position?_same hsame])
  | buffered => exact hwork (by rw [work, work, c.buffered?_same hsame])
  | describe => exact hwork (by rw [work, work, c.describe_same hsame])
  | current | next _ | skip _ _ | clone _ | peek _ | isFinish | compare _ _ _ | remaining
  | iterate _ | handle _ | drop => exact hwork rfl

theorem Tuned.onCursor (h : s.Tuned t) (hget : s.cursors.get? name = some p)
    (step : CursorStep) :
    (s.onCursor name p step).1 = (t.onCursor name p step).1 ∧
    (s.onCursor name p step).2.Same (t.onCursor name p step).2 := by
  have hmem := mem_places_of_cursor hget
  have hmem' := mem_places_of_cursor (h.cursors ▸ hget)
  obtain ⟨o, hp⟩ := h.sound.placed p hmem
  obtain ⟨o', hp'⟩ := h.sound'.placed p hmem'
  have hserves := (h.sound.serves p.family).mono (holding_of_mem hmem)
  have hserves' := (h.sound'.serves p.family).mono (holding_of_mem hmem')
  cases hworks : step.works with
  | true =>
    rw [← h.alive] at hserves'
    rw [onCursor_of_works hworks, onCursor_of_works hworks]
    exact h.toSame.carryOut (step.run_work_same (h.backing _) (h.feed _) hp.2 hp'.2 hserves
      hserves')
  | false =>
    cases step with
    | iterate target => exact ⟨rfl, h.toSame.putIterator target p⟩
    | handle target =>
      simp only [Session.onCursor]
      split
      · exact ⟨rfl, h.families, h.cursors, h.iterators,
          congrArg (Named.put target p.family) h.handles⟩
      · exact ⟨rfl, h.toSame⟩
    | drop =>
      exact ⟨rfl, h.families, congrArg (Named.erase name) h.cursors, h.iterators, h.handles⟩
    | _ => cases hworks

theorem Tuned.onIterator (h : s.Tuned t) (hget : s.iterators.get? name = some p)
    (step : IteratorStep) :
    (s.onIterator name p step).1 = (t.onIterator name p step).1 ∧
    (s.onIterator name p step).2.Same (t.onIterator name p step).2 := by
  cases step with
  | take n =>
    have hget' : t.iterators.get? name = some p := h.iterators ▸ hget
    obtain ⟨o, hp⟩ := h.sound.placed p (mem_places_of_iterator hget)
    obtain ⟨o', hp'⟩ := h.sound'.placed p (mem_places_of_iterator hget')
    have hserves' := h.sound'.serves_release hget'
    rw [← (h.toSame.release name).alive] at hserves'
    exact (h.toSame.release name).carryOut ((ensures_iteration name n hp.2).same
      (ensures_iteration name n hp'.2) (h.backing _) (h.feed _) (h.sound.serves_release hget)
      hserves')
  | drop => exact ⟨rfl, h.toSame.release name⟩

theorem Tuned.onHandle (h : s.Tuned t) (name : String) (i : Nat) (step : HandleStep) :
    Answer.Tuned (.handle name step) (s.onHandle name i step).1 (t.onHandle name i step).1 ∧
    (s.onHandle name i step).2.Same (t.onHandle name i step).2 := by
  cases step with
  | cursorAt position target =>
    obtain ⟨hmade, hsame⟩ := (h.feed i).cursorAt (s.alive i) position
    have hset := h.toSame.setFeed hsame i
    simp only [Session.onHandle, ← h.alive, ← hmade]
    split
    · obtain ⟨hanswer, hend⟩ := hset.introduce target i (.ofMark? _)
      rw [hanswer]
      exact ⟨.same _ _, hend⟩
    · exact ⟨.same _ _, hset⟩
  | takeFault =>
    obtain ⟨hfault, hsame⟩ := (h.feed i).takeFault
    simp only [Session.onHandle, hfault]
    exact ⟨.same _ _, h.toSame.setFeed hsame i⟩
  | takeLog => exact ⟨.log name _ _, h.toSame.setFeed (h.feed i).takeLog i⟩
  | status => exact ⟨.same _ _, h.toSame⟩
  | describe =>
    simp only [Session.onHandle, Feed.describe, (h.feed i).read, (h.feed i).exhausted]
    exact ⟨.description name _ _ _ _, h.toSame⟩
  | drop =>
    exact ⟨.same _ _, h.families, h.cursors, h.iterators,
      congrArg (Named.erase name) h.handles⟩

/-! ### Every step -/

theorem Tuned.after (h : s.Tuned t) (step other : Step)
    (hsame : (s.run step).2.Same (t.run other).2) : (s.run step).2.Tuned (t.run other).2 where
  toSame := hsame
  sound := (h.sound.run step).1
  sound' := (h.sound'.run other).1
  tidy := h.sound.forall_tidy_run h.tidy step
  tidy' := h.sound'.forall_tidy_run h.tidy' other

theorem Tuned.run_open (h : s.Tuned t) {source other : Source} (hsource : source.Retuned other)
    (name : String) :
    Reply.Tuned (.openSource name source) (s.run (.openSource name source)).1
      (t.run (.openSource name other)).1 ∧
    (s.run (.openSource name source)).2.Tuned (t.run (.openSource name other)).2 := by
  obtain ⟨hanswer, hsame⟩ := h.openSource hsource name
  have hafter := h.after (.openSource name source) (.openSource name other) hsame
  refine ⟨⟨?_, ?_⟩, hafter⟩
  · simp only [Session.run, hanswer]
    exact .same _ _
  · simp only [Session.run, hanswer, ← h.size]
    split
    · exact .some (hafter.status _)
    · exact .none

/-- A step keeps such sessions what they are, and its replies agree. -/
theorem Tuned.run (h : s.Tuned t) (hstep : step.Retuned other) :
    Reply.Tuned step (s.run step).1 (t.run other).1 ∧ (s.run step).2.Tuned (t.run other).2 := by
  cases hstep with
  | opened name hsource => exact h.run_open hsource name
  | same step =>
    cases step with
    | openSource name source => exact h.run_open (.same source) name
    | probe name =>
      have hprobe := h.probe? name
      simp only [Session.run]
      generalize s.probe? name = a at hprobe ⊢
      generalize t.probe? name = b at hprobe ⊢
      cases hprobe with
      | none => exact ⟨⟨.same _ _, .none⟩, h⟩
      | some hprobe =>
        cases hprobe with
        | polls count => exact ⟨⟨.same _ _, .none⟩, h⟩
        | reads rooms rooms' => exact ⟨⟨.reads name rooms rooms', .none⟩, h⟩
    | cursor name step =>
      have hafter := h.after (.cursor name step) (.cursor name step)
      cases hget : s.cursors.get? name with
      | none =>
        simp only [Session.run, ← h.cursors, hget]
        exact ⟨⟨.same _ _, .none⟩, h⟩
      | some p =>
        obtain ⟨hanswer, hsame⟩ := h.onCursor hget step
        simp only [Session.run, ← h.cursors, hget] at hafter ⊢
        rw [hanswer]
        exact ⟨⟨.same _ _, (hafter hsame).statusOf p⟩, hafter hsame⟩
    | handle name step =>
      have hafter := h.after (.handle name step) (.handle name step)
      cases hget : s.handles.get? name with
      | none =>
        simp only [Session.run, ← h.handles, hget]
        exact ⟨⟨.same _ _, .none⟩, h⟩
      | some i =>
        obtain ⟨hanswer, hsame⟩ := h.onHandle name i step
        simp only [Session.run, ← h.handles, hget] at hafter ⊢
        exact ⟨⟨hanswer, .some ((hafter hsame).status i)⟩, hafter hsame⟩
    | iterator name step =>
      have hafter := h.after (.iterator name step) (.iterator name step)
      cases hget : s.iterators.get? name with
      | none =>
        simp only [Session.run, ← h.iterators, hget]
        exact ⟨⟨.same _ _, .none⟩, h⟩
      | some p =>
        obtain ⟨hanswer, hsame⟩ := h.onIterator hget step
        simp only [Session.run, ← h.iterators, hget] at hafter ⊢
        rw [hanswer]
        exact ⟨⟨.same _ _, .none⟩, hafter hsame⟩

/-- So do all steps. -/
theorem Tuned.runAll (h : s.Tuned t) {steps others : List Step}
    (hsteps : List.Forall₂ Step.Retuned steps others) :
    (∀ (k : Nat) step, steps[k]? = some step → ∃ reply reply',
      (Session.runAll steps s).1[k]? = some reply ∧
      (Session.runAll others t).1[k]? = some reply' ∧ Reply.Tuned step reply reply') ∧
    (Session.runAll steps s).2.Tuned (Session.runAll others t).2 := by
  induction hsteps generalizing s t with
  | nil => exact ⟨fun k step hk => (by cases hk), h⟩
  | @cons step other later others hstep _ ih =>
    obtain ⟨hreply, hafter⟩ := h.run hstep
    obtain ⟨hreplies, hend⟩ := ih hafter
    refine ⟨fun k told hk => ?_, hend⟩
    cases k with
    | zero =>
      cases hk
      exact ⟨_, _, rfl, rfl, hreply⟩
    | succ k => exact hreplies k told hk

/-- Choices never show: two sessions of the same steps on the same sources reply the same to every
step, whatever is logged, whenever rosters are swept and however much is read at once. But for logs,
the reads of byte streams and the lengths of rosters, all that can be asked is the same, and so are
the numbers of polls. -/
theorem choices_never_show {steps others : List Step}
    (hsteps : List.Forall₂ Step.Retuned steps others) :
    let r := runAll steps {}
    let r' := runAll others {}
    (∀ (k : Nat) step, steps[k]? = some step → ∃ reply reply',
      r.1[k]? = some reply ∧ r'.1[k]? = some reply' ∧ Reply.Tuned step reply reply') ∧
    r.2.families.size = r'.2.families.size ∧
    ∀ i, (r.2.status i).Tuned (r'.2.status i) ∧ (r.2.feed i).polls = (r'.2.feed i).polls := by
  intro r r'
  obtain ⟨hreplies, hend⟩ := tuned_empty.runAll hsteps
  exact ⟨hreplies, hend.size, fun i => ⟨hend.status i, (hend.feed i).polls⟩⟩

/-- Bytes read four at a time with a log and a roster swept at once, and read all together without
them. A cursor that was dropped is still on the second roster, and the reads are not the same. -/
theorem choices_never_show_over_bytes :
    let input : ByteStream := { events := [.data [0x61, 0xe2, 0x82, 0xac, 0x62]] }
    let own : Options := { logging := true, pruneThreshold := 1, bufferSize := 4 }
    let later := [.cursor "r" .current, .cursor "r" (.next "x"), .cursor "x" .drop,
      .cursor "r" (.next "x")]
    let steps := .openSource "r" (.bytes input own) :: later
    let others := .openSource "r" (.bytes input {}) :: later
    let r := runAll steps {}
    let r' := runAll others {}
    List.Forall₂ Step.Retuned steps others ∧
    (r.2.status 0).subscribers = 1 ∧ (r'.2.status 0).subscribers = 2 ∧
    (r.2.feed 0).supply.rooms? = some [4] ∧ (r'.2.feed 0).supply.rooms? = some [8192] ∧
    (r'.2.status 0).readPosition = 1 ∧ (r'.2.status 0).live = 1 ∧ (r'.2.feed 0).polls = 1 ∧
    ∃ reply reply', r.1[1]? = some reply ∧ r'.1[1]? = some reply' ∧
      Reply.Tuned (.cursor "r" .current) reply reply' := by
  intro input own later steps others r r'
  have hsource : (Source.bytes input own).Retuned (.bytes input {}) :=
    .bytes input rfl (by decide) (by decide)
  have hsteps : List.Forall₂ Step.Retuned steps others :=
    .cons (.opened "r" hsource) (List.forall₂_same.mpr fun step _ => .same step)
  have hcurrent : steps[1]? = some (.cursor "r" .current) := rfl
  have hrosters : (r.2.status 0).subscribers = 1 ∧ (r'.2.status 0).subscribers = 2 := by
    decide +kernel
  have hrooms : (r.2.feed 0).supply.rooms? = some [4] ∧
      (r'.2.feed 0).supply.rooms? = some [8192] := by decide +kernel
  have hread : (r.2.status 0).readPosition = 1 := by decide +kernel
  have hlive : (r.2.status 0).live = 1 := by decide +kernel
  have hpolls : (r.2.feed 0).polls = 1 := by decide +kernel
  clear_value steps others
  obtain ⟨hreplies, -, hstatus⟩ := choices_never_show hsteps
  obtain ⟨hshown, hpolled⟩ := hstatus 0
  exact ⟨hsteps, hrosters.1, hrosters.2, hrooms.1, hrooms.2,
    hshown.readPosition.symm.trans hread, hshown.live.symm.trans hlive,
    hpolled.symm.trans hpolls, hreplies 1 _ hcurrent⟩

end Session

end BranchCursor
