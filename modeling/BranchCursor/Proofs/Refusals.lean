import BranchCursor.Proofs.Comparisons
import BranchCursor.Proofs.FaultReports

/-! Which steps are refused, and what a late cursor gets. A step that is refused as a whole is
refused before anything is done, so the session is as it was. -/
namespace BranchCursor

namespace Source

/-- Why a source cannot be opened, if it cannot. -/
def refusal? : Source → Option CursorError
  | textAt buffer index =>
    if buffer.size ≤ index then some (.outOfRange index buffer.size) else none
  | bytes _ options => if options.bufferSize < 4 then some (.misuse .shortBuffer) else none
  | text _ | nothing | iterated .. | scripted .. => none

theorem refusal?_eq (source : Source) :
    source.refusal? = match source.open? with | .error cause => some cause | .ok _ => none := by
  cases source with
  | text _ | nothing | iterated _ _ | scripted _ _ => rfl
  | textAt buffer index =>
    by_cases hin : index < buffer.size
    · simp [refusal?, open?, TextCursor.make, hin, Except.map]
    · simp [refusal?, open?, TextCursor.make, hin, Nat.le_of_not_lt hin, Except.map]
  | bytes input options =>
    by_cases hshort : options.bufferSize < 4
    · simp [refusal?, open?, Decoder.make, hshort, Nat.not_le.mpr hshort, Except.map]
    · simp [refusal?, open?, Decoder.make, hshort, Nat.le_of_not_lt hshort, Except.map]

end Source

namespace Session

variable {s : Session} {i : Nat} {p : Place} {name target : String}

/-- Why an answer is a refusal, if it is one. -/
def Answer.refusal? : Answer → Option CursorError
  | refused cause => some cause
  | traced r =>
    match r with
    | .error cause => some cause
    | .ok _ => none
  | nothing | unknown _ | cursor _ | char _ | text _ | count _ | flag _ | remaining _
  | description _ | hits _ | fault _ | log _ | given _ | probe _ => none

/-- Why a step on a cursor is refused before anything is done, if it is. -/
def CursorStep.refusal? : CursorStep → Option CursorError
  | compare pattern _ _ => if pattern = [] then some (.misuse .emptyPattern) else none
  | current | next _ | skip .. | clone _ | peek _ | collect | position | isFinish | buffered
  | remaining | describe | iterate _ | handle _ | scan .. | drop => none

/-- Why a step on a handle is refused, if it is. -/
def HandleStep.refusal? (f : Feed) : HandleStep → Option CursorError
  | cursorAt position _ =>
    if position < f.readPosition then some (.passed position f.readPosition) else none
  | takeFault | takeLog | status | describe | drop => none

/-- Why a step is refused before anything is done, if it is. -/
def Step.refusal? (s : Session) : Step → Option CursorError
  | openSource _ source => source.refusal?
  | cursor name step => (s.cursors.get? name).bind fun _ => step.refusal?
  | handle name step => (s.handles.get? name).bind fun i => step.refusal? (s.feed i)
  | probe _ | iterator .. => none

/-- Whether a step is a search, which may have read much before it meets an empty pattern. -/
def Step.searches : Step → Bool
  | cursor _ (.scan ..) => true
  | openSource .. | probe _ | cursor .. | handle .. | iterator .. => false

/-! ### What a step is refused for -/

theorem setFeed_feed (i : Nat) (s : Session) : s.setFeed i (s.feed i) = s := by
  have hfamilies : s.families.modify i ({ · with feed := s.feed i }) = s.families := by
    refine Array.ext (by simp) fun j hj hj' => ?_
    rw [Array.getElem_modify]
    split
    · rename_i hij
      subst hij
      simp [Session.feed, hj']
    · rfl
  rw [setFeed, hfamilies]

theorem refusal?_verdict (traced : Bool) (r : Except CursorError Comparison) :
    (verdict traced r).refusal? = match r with | .error cause => some cause | .ok _ => none := by
  cases traced <;> cases r <;> rfl

theorem refusal?_openSource (name : String) (source : Source) (s : Session) :
    (s.openSource name source).1.refusal? = source.refusal? ∧
      (source.refusal? ≠ none → (s.openSource name source).2 = s) := by
  rw [source.refusal?_eq, openSource]
  cases source.open? with
  | error cause => exact ⟨rfl, fun _ => rfl⟩
  | ok r => exact ⟨rfl, fun h => absurd rfl h⟩

theorem Sound.refusal?_onCursor (hs : s.Sound) (hget : s.cursors.get? name = some p)
    (step : CursorStep) (hstep : (Step.cursor name step).searches = false) :
    (s.onCursor name p step).1.refusal? = step.refusal? ∧
      (step.refusal? ≠ none → (s.onCursor name p step).2 = s) := by
  obtain ⟨o, hp⟩ := hs.placed p (mem_places_of_cursor hget)
  have hanswered : ∀ a, step.answer? ((s.backing p.family).content.drop o) = some a →
      (s.onCursor name p step).1 = a := fun a ha =>
    (run_cursor hget step).1.symm.trans (hs.answer_run hget hp step ha)
  have hmade : ∀ target n, step.target? = some (target, n) →
      (s.onCursor name p step).1.refusal? = none := by
    intro target n ht
    obtain ⟨d, g, hon, -⟩ := hs.onCursor_of_target hget hp step ht
    rw [hon]
    rfl
  cases step with
  | compare pattern likeness traced =>
    by_cases hempty : pattern = []
    · subst hempty
      have hon : s.onCursor name p (.compare [] likeness traced) =
          (verdict traced (.error (.misuse .emptyPattern)), s) :=
        congrArg (Prod.mk _) (setFeed_feed p.family s)
      rw [hon]
      exact ⟨refusal?_verdict traced (.error _), fun _ => rfl⟩
    · rw [hanswered _ rfl, refusal?_verdict, Comparison.of, if_neg hempty, CursorStep.refusal?,
        if_neg hempty]
      exact ⟨rfl, fun h => absurd rfl h⟩
  | current | peek _ | collect =>
    rw [hanswered _ rfl]
    exact ⟨rfl, fun h => absurd rfl h⟩
  | next _ | skip _ _ | clone _ => exact ⟨hmade _ _ rfl, fun h => absurd rfl h⟩
  | handle target =>
    refine ⟨?_, fun h => absurd rfl h⟩
    simp only [Session.onCursor]
    split <;> rfl
  | position | isFinish | buffered | remaining | describe | iterate _ | drop =>
    exact ⟨rfl, fun h => absurd rfl h⟩
  | scan _ _ => cases hstep

theorem refusal?_onHandle (name : String) (i : Nat) (step : HandleStep) (s : Session) :
    (s.onHandle name i step).1.refusal? = step.refusal? (s.feed i) ∧
      (step.refusal? (s.feed i) ≠ none → (s.onHandle name i step).2 = s) := by
  cases step with
  | cursorAt position target =>
    by_cases hpassed : position < (s.feed i).readPosition
    · simp [onHandle, Feed.cursorAt, Feed.hasPassed, hpassed, HandleStep.refusal?,
        Answer.refusal?, setFeed_feed]
    · by_cases he : (s.feed i).exhausted = true
      · simp [onHandle, Feed.cursorAt, Feed.hasPassed, hpassed, he, HandleStep.refusal?, introduce,
          Answer.refusal?]
      · simp [onHandle, Feed.cursorAt, Feed.hasPassed, hpassed, he, HandleStep.refusal?, introduce,
          Answer.refusal?]
  | takeFault | takeLog | status | describe | drop => exact ⟨rfl, fun h => absurd rfl h⟩

/-- A step is refused if it cannot be done, and for no other reason; and then nothing is done. -/
theorem Sound.refusal?_run (hs : s.Sound) (step : Step) (hstep : step.searches = false) :
    (s.run step).1.answer.refusal? = step.refusal? s ∧
      (step.refusal? s ≠ none → (s.run step).2 = s) := by
  cases step with
  | openSource name source => exact refusal?_openSource name source s
  | probe name =>
    refine ⟨?_, fun h => absurd rfl h⟩
    simp only [Session.run]
    split <;> rfl
  | cursor name step =>
    cases hget : s.cursors.get? name with
    | none => simp [Session.run, hget, Step.refusal?, Answer.refusal?]
    | some p => simpa [Session.run, hget, Step.refusal?] using hs.refusal?_onCursor hget step hstep
  | handle name step =>
    cases hget : s.handles.get? name with
    | none => simp [Session.run, hget, Step.refusal?, Answer.refusal?]
    | some i => simpa [Session.run, hget, Step.refusal?] using refusal?_onHandle name i step s
  | iterator name step =>
    refine ⟨?_, fun h => absurd rfl h⟩
    cases hget : s.iterators.get? name with
    | none => simp [Session.run, hget, Step.refusal?, Answer.refusal?]
    | some p =>
      rw [(run_iterator hget step).1]
      cases step with
      | take n =>
        obtain ⟨o, hp⟩ := hs.placed p (mem_places_of_iterator hget)
        rw [← (run_iterator hget (.take n)).1, (hs.run_take hget hp n).1]
        rfl
      | drop => rfl

/-! ### Late cursors -/

/-- What was read is gone for those who come now. -/
theorem run_cursorAt_passed (hget : s.handles.get? name = some i) (position : Nat)
    (target : String) (hpassed : position < (s.feed i).readPosition) :
    let t := s.run (.handle name (.cursorAt position target))
    t.1.answer = .refused (.passed position (s.feed i).readPosition) ∧ t.2 = s := by
  have hat : (s.feed i).cursorAt (s.alive i) position =
      (.error (.passed position (s.feed i).readPosition), s.feed i) := by
    simp [Feed.cursorAt, Feed.hasPassed, hpassed]
  simp only [run, hget, onHandle, hat, setFeed_feed, and_self]

/-- After the end there is nothing to wait for. -/
theorem run_cursorAt_exhausted (hget : s.handles.get? name = some i) (position : Nat)
    (target : String) (hread : (s.feed i).readPosition ≤ position)
    (he : (s.feed i).exhausted = true) :
    let t := s.run (.handle name (.cursorAt position target))
    t.1.answer = .cursor .finish ∧ t.2 = s.nameCursor target ⟨.finish, i⟩ := by
  have hat : (s.feed i).cursorAt (s.alive i) position = (.ok none, s.feed i) := by
    simp [Feed.cursorAt, Feed.hasPassed, Nat.not_lt.mpr hread, he]
  simp only [run, hget, onHandle, hat, setFeed_feed]
  exact ⟨rfl, rfl⟩

/-- Before the end a new mark waits at the position asked for. -/
theorem run_cursorAt_ahead (hi : i < s.families.size) (hget : s.handles.get? name = some i)
    (position : Nat) (target : String) (hread : (s.feed i).readPosition ≤ position)
    (he : (s.feed i).exhausted = false) :
    let t := s.run (.handle name (.cursorAt position target))
    let id := (s.feed i).marks.size
    t.1.answer = .cursor (.mark position) ∧ t.2.cursors.get? target = some ⟨.mark id, i⟩ ∧
      id < (t.2.feed i).marks.size ∧ (t.2.feed i).mark id = ⟨position, none⟩ := by
  obtain ⟨hid, hsize, hmark, -⟩ := Feed.attach_spec (s.alive i) position none (s.feed i)
  have hat : (s.feed i).cursorAt (s.alive i) position =
      (.ok (some (s.feed i).marks.size), ((s.feed i).attach (s.alive i) position none).2) := by
    simp [Feed.cursorAt, Feed.hasPassed, Nat.not_lt.mpr hread, he, hid]
  have hrun : s.run (.handle name (.cursorAt position target)) =
      let t := (s.setFeed i ((s.feed i).attach (s.alive i) position none).2).introduce target i
        (.mark (s.feed i).marks.size)
      (⟨t.1, some (t.2.status i)⟩, t.2) := by
    simp only [run, hget, onHandle, hat, Cursor.ofMark?]
  have hfeed := feed_setFeed hi ((s.feed i).attach (s.alive i) position none).2
  intro t id
  have hfeed' : t.2.feed i = ((s.feed i).attach (s.alive i) position none).2 := by
    simp only [t, hrun]
    exact hfeed
  refine ⟨?_, ?_, ?_, ?_⟩
  · simp only [t, hrun, introduce, Cursor.view, hfeed, hmark]
  · simp only [t, hrun]
    exact Named.get?_put_self _ _ _
  · rw [hfeed', hsize]
    exact Nat.lt_succ_self _
  · rw [hfeed', hmark]

/-- A name keeps its cursor as long as no step gives it to another or drops it. -/
theorem Sound.get?_cursors_runAll (hs : s.Sound) (later : List Step)
    (h : ∀ step ∈ later, step.binds ≠ some name) :
    (Session.runAll later s).2.cursors.get? name = s.cursors.get? name := by
  induction later generalizing s with
  | nil => rfl
  | cons step later ih =>
    obtain ⟨hfirst, hrest⟩ := List.forall_mem_cons.mp h
    exact (ih (hs.run step).1 hrest).trans ((hs.leaves_run step).cursors name hfirst)

/-- After any steps, a step other than a search is refused exactly if it asks for a position that
was passed, compares with nothing, or opens a text out of its range or bytes with too short a
buffer; the session is then exactly what it was. In a search, too, the comparison that is refused
changes nothing. A cursor asked for where its feed has not read yet is past the end if the end is
known; otherwise it is a new one that, whatever is done later, gives the characters from there on
to all who hold it, and it is at hand until its name is given away or dropped. -/
theorem refused_or_content (steps : List Step) :
    let s := (runAll steps {}).2
    (∀ step : Step, step.searches = false →
      (s.run step).1.answer.refusal? = step.refusal? s ∧
        (step.refusal? s ≠ none → (s.run step).2 = s)) ∧
    (∀ like c held f, (Program.compare like [] c).run held f =
      (.error (.misuse .emptyPattern), f)) ∧
    ∀ name i, s.handles.get? name = some i → ∀ n target,
      let read := (s.feed i).readPosition
      let content := (s.backing i).content
      let id := (s.feed i).marks.size
      let t := s.run (.handle name (.cursorAt n target))
      (t.1.answer = .refused (.passed n read) ↔ n < read) ∧ (n < read → t.2 = s) ∧
      (read ≤ n → (s.feed i).exhausted = true →
        t.1.answer = .cursor .finish ∧ t.2 = s.nameCursor target ⟨.finish, i⟩) ∧
      (read ≤ n → (s.feed i).exhausted = false →
        t.1.answer = .cursor (.mark n) ∧ t.2.cursors.get? target = some ⟨.mark id, i⟩ ∧
        (t.2.feed i).mark id = ⟨n, none⟩ ∧
        ∀ later, let u := (runAll later t.2).2
          ((∀ step ∈ later, step.binds ≠ some target) →
            u.cursors.get? target = some ⟨.mark id, i⟩) ∧
          (∀ own, u.cursors.get? own = some ⟨.mark id, i⟩ →
            (u.run (.cursor own .current)).1.answer = .char content[n]? ∧
            (u.run (.cursor own .collect)).1.answer = .text (content.drop n).toArray) ∧
          ∀ own, u.iterators.get? own = some ⟨.mark id, i⟩ → ∀ k,
            (u.run (.iterator own (.take k))).1.answer =
              .given ((List.range k).map fun j => content[n + j]?).toArray) := by
  intro s
  have hs : s.Sound := sound_runAll steps
  refine ⟨fun step hstep => hs.refusal?_run step hstep,
    fun like c held f => Program.run_compare_nil held like c f, ?_⟩
  intro name i hget n target read content id t
  have hpassed := run_cursorAt_passed hget n target
  refine ⟨⟨fun ha => ?_, fun hlt => (hpassed hlt).1⟩, fun hlt => (hpassed hlt).2, ?_,
    fun hread he => ?_⟩
  · -- whatever is not behind the feed is answered with a cursor
    by_contra hge
    have hrefusal := (hs.refusal?_run (.handle name (.cursorAt n target)) rfl).1
    simp only [Step.refusal?, hget, Option.bind_some, HandleStep.refusal?] at hrefusal
    rw [ha, if_neg hge] at hrefusal
    cases hrefusal
  · exact run_cursorAt_exhausted hget n target
  · have hi := hs.lt_size_of_handle hget
    obtain ⟨hanswer, hnamed, hid, hmark⟩ := run_cursorAt_ahead hi hget n target hread he
    obtain ⟨ht, hleads⟩ := hs.run (.handle name (.cursorAt n target))
    refine ⟨hanswer, hnamed, hmark, fun later => ⟨fun hlater => ?_, ?_⟩⟩
    · exact (ht.get?_cursors_runAll later hlater).trans hnamed
    · cases hb : s.backing i with
      | text buffer =>
        -- an eager family has nothing to read, so its feed is at its end from the start
        have hserves := hs.serves i
        rw [hb] at hserves
        rw [show s.feed i = .idle from hserves] at he
        cases he
      | supply origin =>
        have hcontent : content = origin.content := congrArg Backing.content hb
        have hlater := ht.answers_later ((hleads.backing i hi).trans hb) hid later
        rw [hmark, ← hcontent] at hlater
        exact hlater

/-- One of three characters was read. Behind that a cursor is refused, as is a comparison with
nothing; one asked for right there is overtaken by the other cursor and still has the rest, and
one asked for after that is past the end. -/
theorem refused_or_content_at_boundary :
    let steps := [.openSource "r" (.iterated ['a', 'b', 'c'] {}), .cursor "r" (.handle "h"),
      .cursor "r" (.peek 1)]
    let s := (runAll steps {}).2
    let late := runAll [.cursor "r" .collect] (s.run (.handle "h" (.cursorAt 1 "x"))).2
    let refused := s.run (.handle "h" (.cursorAt 0 "y"))
    let empty := s.run (.cursor "r" (.compare [] .exact false))
    (refused.1.answer = .refused (.passed 0 1) ∧ refused.2 = s) ∧
    (empty.1.answer.refusal? = some (.misuse .emptyPattern) ∧ empty.2 = s) ∧
    (late.2.run (.cursor "x" .collect)).1.answer = .text #['b', 'c'] ∧
    let ended := (runAll (steps ++ [.cursor "r" .collect]) {}).2
    (ended.run (.handle "h" (.cursorAt 3 "z"))).1.answer = .cursor .finish := by
  intro steps s late refused empty
  have hhandle : s.handles.get? "h" = some 0 := by decide +kernel
  have hname : s.cursors.get? "r" = some ⟨.mark 0, 0⟩ := by decide +kernel
  have hread : (s.feed 0).readPosition = 1 := by decide +kernel
  have hgoing : (s.feed 0).exhausted = false := by decide +kernel
  have hcontent : (s.backing 0).content = ['a', 'b', 'c'] := by decide +kernel
  have hhandle' : (runAll (steps ++ [.cursor "r" .collect]) {}).2.handles.get? "h" = some 0 := by
    decide +kernel
  have hread' : ((runAll (steps ++ [.cursor "r" .collect]) {}).2.feed 0).readPosition = 3 := by
    decide +kernel
  have hover : ((runAll (steps ++ [.cursor "r" .collect]) {}).2.feed 0).exhausted = true := by
    decide +kernel
  clear_value steps
  obtain ⟨hsteps, -, hhandles⟩ := refused_or_content steps
  obtain ⟨hpassed, hstill, -, -⟩ := hhandles "h" 0 hhandle 0 "y"
  obtain ⟨-, -, -, hahead⟩ := hhandles "h" 0 hhandle 1 "x"
  obtain ⟨-, -, -, hlater⟩ := hahead (Nat.le_of_eq hread) hgoing
  obtain ⟨hkept, hgives, -⟩ := hlater [.cursor "r" .collect]
  obtain ⟨hwhy, hempty⟩ := hsteps (.cursor "r" (.compare [] .exact false)) rfl
  have hrefusal : (Step.cursor "r" (.compare [] .exact false)).refusal? s =
      some (.misuse .emptyPattern) := by
    rw [Step.refusal?, hname]
    rfl
  obtain ⟨-, -, hend, -⟩ :=
    (refused_or_content (steps ++ [.cursor "r" .collect])).2.2 "h" 0 hhandle' 3 "z"
  have hone : 0 < (s.feed 0).readPosition := hread ▸ Nat.zero_lt_one
  refine ⟨⟨?_, hstill hone⟩, ⟨hwhy.trans hrefusal, hempty ?_⟩, ?_, ?_⟩
  · rw [← hread]
    exact hpassed.mpr hone
  · rw [hrefusal]
    exact Option.some_ne_none _
  · have hcollect := (hgives "x" (hkept (by simp [Step.binds, CursorStep.target?]))).2
    rw [hcontent] at hcollect
    exact hcollect
  · exact (hend (Nat.le_of_eq hread') hover).1

end Session
end BranchCursor
