import BranchCursor.Proofs.ExactDemand
import BranchCursor.Proofs.Waiting

/-! The feed of a family through a whole session, instant by instant.
From the new feed on, each instant comes from the one before by letting go of marks, by a pull or
by a new mark, whatever steps are taken and to which families they belong. -/
namespace BranchCursor
open Cursor (holding)
open Instant (Next Change)

/-- A cursor asked for by its position is made without a pull. -/
theorem Feed.cursorAt_change {alive later : MarkId → Bool} {position : Nat} {f : Feed}
    (h : ∀ id, later id → alive id ∨
      ∃ made, (f.cursorAt alive position).1 = .ok made ∧ (Cursor.ofMark? made).holds id) :
    Change ⟨alive, f⟩ ⟨later, (f.cursorAt alive position).2⟩ := by
  unfold cursorAt at h ⊢
  by_cases hpassed : f.hasPassed position = true
  · simp only [if_pos hpassed] at h ⊢
    refine Change.letGo f fun id hid => (h id hid).resolve_right ?_
    rintro ⟨made, hmade, -⟩
    cases hmade
  · have hread : f.readPosition ≤ position := by simpa [hasPassed] using hpassed
    by_cases he : f.exhausted = true
    · simp only [if_neg hpassed, if_pos he] at h ⊢
      refine Change.letGo f fun id hid => (h id hid).resolve_right ?_
      rintro ⟨made, hmade, hholds⟩
      cases hmade
      cases hholds
    · simp only [if_neg hpassed, if_neg he] at h ⊢
      refine Change.attach (if_neg (Nat.not_lt.mpr hread)).symm (fun _ => ?_) fun id hid => ?_
      · exact Bool.eq_false_iff.mpr he
      · refine (h id hid).imp_right ?_
        rintro ⟨made, hmade, hholds⟩
        cases hmade
        rw [(attach_spec alive position none f).1] at hholds
        exact (beq_iff_eq.mp hholds).symm

namespace Session

variable {s t : Session} {i j : Nat} {id : MarkId} {origin : Supply} {l : List Instant}

/-! ### Who is held after a step -/

/-- Work lets nobody be held who was not, but for the cursor that it comes to. -/
theorem alive_conclude {f : Feed} {r : Outcome}
    (hid : ((s.setFeed j f).conclude j r).2.alive i id = true) :
    s.alive i id = true ∨ j = i ∧ ∃ d, r.cursor? = some d ∧ d.holds id = true := by
  cases r with
  | answered a => exact Or.inl hid
  | made name d =>
    have h := alive_of_places (fun _ hq => mem_places_nameCursor hq) hid
    simp only [Place.holds, Bool.and_eq_true, beq_iff_eq] at h
    exact h.imp_right fun h => ⟨h.1, d, rfl, h.2⟩
  | gave name chars d =>
    have h := alive_of_places (fun _ hq => mem_places_putIterator hq) hid
    simp only [Place.holds, Bool.and_eq_true, beq_iff_eq] at h
    exact h.imp_right fun h => ⟨h.1, d, rfl, h.2⟩

/-- After a task are held those that were held by others, and the cursor that it came to. -/
theorem alive_run_of_task {step : Step} {task : Task} (ht : s.task? step = some task)
    (hid : (s.run step).2.alive i id = true) :
    if i = task.family then task.held id = true ∨
      ∃ d, (task.work.run task.held task.feed).1.cursor? = some d ∧ d.holds id = true
    else s.alive i id = true := by
  cases step with
  | cursor name step =>
    obtain ⟨p, hget, rfl⟩ := Option.map_eq_some_iff.mp ht
    rw [(run_cursor hget step).2] at hid
    have hcases : s.alive i id = true ∨ p.family = i ∧ ∃ d,
        ((step.work (s.feed p.family) p.cursor).run (s.alive p.family)
          (s.feed p.family)).1.cursor? = some d ∧ d.holds id = true := by
      cases hworks : step.works with
      | true =>
        rw [onCursor_of_works hworks] at hid
        exact alive_conclude hid
      | false =>
        refine Or.inl ?_
        cases step with
        | iterate target =>
          refine (alive_of_places (fun _ hq => mem_places_putIterator hq) hid).elim
            (fun h => h) fun h => ?_
          exact alive_iff.mpr ⟨p, mem_places_of_cursor hget, h⟩
        | handle target =>
          unfold onCursor at hid
          dsimp only at hid
          split at hid <;> exact hid
        | drop => exact alive_of_subset (fun _ hq => mem_places_dropCursor hq) hid
        | _ => cases hworks
    split
    · rename_i hi
      subst hi
      exact hcases.imp_right And.right
    · rename_i hi
      exact hcases.resolve_right fun h => hi h.1.symm
  | iterator name step =>
    cases step with
    | take n =>
      obtain ⟨p, hget, rfl⟩ := Option.map_eq_some_iff.mp ht
      rw [(run_iterator hget (.take n)).2] at hid
      have hcases := alive_conclude (s := s.release name) hid
      split
      · rename_i hi
        subst hi
        exact hcases.imp_right And.right
      · rename_i hi
        have hheld := hcases.resolve_right fun h => hi h.1.symm
        exact alive_of_subset (fun _ hq => mem_places_release hq) hheld
    | drop => cases ht
  | openSource _ _ | probe _ | handle _ _ => cases ht

/-! ### Instants -/

/-- The instants of a family in the course of a step. -/
def during (i : Nat) (step : Step) (s : Session) : List Instant :=
  match s.task? step with
  | some task => if task.family = i then task.work.instants task.held task.feed else []
  | none => []

/-- A family between two steps, if it was opened yet. -/
def present (i : Nat) (s : Session) : List Instant :=
  if i < s.families.size then [⟨s.alive i, s.feed i⟩] else []

/-- The instants of a family before, between, in the course of and after some steps. -/
def history (i : Nat) : List Step → Session → List Instant
  | [], s => s.present i
  | step :: later, s => s.present i ++ s.during i step ++ history i later (s.run step).2

/-- Whether a step takes the log of a family. -/
def takesLog (i : Nat) (step : Step) (s : Session) : Bool :=
  match step with
  | .handle name .takeLog => s.handles.get? name == some i
  | _ => false

/-- A log that is asked for is answered, and the feed starts a new one. Nothing else happens. -/
theorem run_of_takesLog {step : Step} (hi : i < s.families.size) (h : s.takesLog i step = true) :
    (s.run step).1.answer = .log (s.feed i).log ∧
    (s.run step).2.feed i = (s.feed i).takeLog.2 ∧ (s.run step).2.alive i = s.alive i ∧
    s.during i step = [] := by
  unfold takesLog at h
  split at h
  · rename_i name
    have hget := beq_iff_eq.mp h
    simp only [run, hget, onHandle]
    exact ⟨rfl, feed_setFeed hi _, rfl, rfl⟩
  · cases h

theorem Sound.takesLog_new (hs : s.Sound) (hi : s.families.size ≤ i) (step : Step) :
    s.takesLog i step = false := by
  unfold takesLog
  split
  · exact beq_eq_false_iff_ne.mpr (hs.get?_handles_ne hi _)
  · rfl

/-- The entries in an answer, if it is a log. -/
def Answer.entries : Answer → List LogEntry
  | log entries => entries.toList
  | _ => []

/-- What a step takes from the log of a family. -/
def logTaken (i : Nat) (step : Step) (s : Session) : List LogEntry :=
  if s.takesLog i step then (s.run step).1.answer.entries else []

/-- What steps take from the log of a family, one after the other. -/
def logsTaken (i : Nat) : List Step → Session → List LogEntry
  | [], _ => []
  | step :: later, s => s.logTaken i step ++ logsTaken i later (s.run step).2

/-- A step on a handle makes a mark at most, unless it takes the log. -/
theorem change_onHandle (hj : j < s.families.size) (name : String) (step : HandleStep)
    (hno : step = .takeLog → i ≠ j) :
    Change ⟨s.alive i, s.feed i⟩
      ⟨(s.onHandle name j step).2.alive i, (s.onHandle name j step).2.feed i⟩ := by
  rw [feed_onHandle hj]
  cases step with
  | cursorAt position target =>
    have hheld : ∀ id, (s.onHandle name j (.cursorAt position target)).2.alive i id = true →
        s.alive i id = true ∨ j = i ∧ ∃ made,
          ((s.feed j).cursorAt (s.alive j) position).1 = .ok made ∧
          (Cursor.ofMark? made).holds id = true := by
      intro id hid
      unfold onHandle at hid
      dsimp only at hid
      split at hid
      · rename_i made hmade
        have h := alive_of_places (fun _ hq => mem_places_nameCursor hq) hid
        simp only [Place.holds, Bool.and_eq_true, beq_iff_eq] at h
        exact h.imp_right fun h => ⟨h.1, made, hmade, h.2⟩
      · exact Or.inl hid
    split
    · rename_i hi
      subst hi
      exact Feed.cursorAt_change fun id hid => (hheld id hid).imp_right And.right
    · rename_i hi
      exact Change.letGo _ fun id hid => (hheld id hid).resolve_right fun h => hi h.1.symm
  | takeFault =>
    split
    · rename_i hi
      subst hi
      exact Change.takeFault _ _
    · exact Change.letGo _ fun _ hid => hid
  | takeLog =>
    rw [if_neg (hno rfl)]
    exact Change.letGo _ fun _ hid => hid
  | status | describe | drop =>
    have hsame : (if i = j then s.feed j else s.feed i) = s.feed i := by
      split
      · rename_i hi
        rw [hi]
      · rfl
    simp only [HandleStep.effect, hsame]
    exact Change.letGo _ fun _ hid => hid

/-- A step without a task makes a mark at most, unless it takes the log. -/
theorem Sound.change_of_no_task {step : Step} (hs : s.Sound) (ht : s.task? step = none)
    (hi : i < s.families.size) (hno : s.takesLog i step = false) :
    Change ⟨s.alive i, s.feed i⟩ ⟨(s.run step).2.alive i, (s.run step).2.feed i⟩ := by
  have hgoes := goes_run step s
  generalize (s.run step).2 = t at hgoes ⊢
  cases hgoes with
  | still step => exact Change.letGo _ fun _ hid => hid
  | @opened source c f name ho =>
    have hne : s.families.size ≠ i := Nat.ne_of_gt hi
    have hfeed : (Session.nameCursor name ⟨c, s.families.size⟩ { s with
        families := s.families.push { name, source, feed := f } }).feed i = s.feed i := by
      simp [Session.nameCursor, feed, Array.getElem?_push, Ne.symm hne]
    rw [hfeed]
    refine Change.letGo _ fun id hid => ?_
    have hcases := alive_of_places (fun _ hq => mem_places_nameCursor hq) hid
    exact hcases.resolve_right (by simp [Place.holds, hne])
  | cursor hget step =>
    rw [task?, hget] at ht
    cases ht
  | @handle name j hget step =>
    refine change_onHandle (hs.lt_size_of_handle hget) name step ?_
    rintro rfl rfl
    simp [takesLog, hget] at hno
  | iterator hget step =>
    cases step with
    | take n =>
      rw [task?, hget] at ht
      cases ht
    | drop =>
      exact Change.letGo _ fun _ hid => alive_of_subset (fun _ hq => mem_places_release hq) hid

/-- A step that does not take the log leads a family from instant to instant without that. -/
theorem Sound.isChain_change (hs : s.Sound) (hi : i < s.families.size)
    (hb : s.backing i = .supply origin) {step : Step} (hno : s.takesLog i step = false) :
    (⟨s.alive i, s.feed i⟩ :: (s.during i step ++
      [⟨(s.run step).2.alive i, (s.run step).2.feed i⟩]) : List Instant).IsChain Change := by
  unfold during
  cases ht : s.task? step with
  | none =>
    exact List.isChain_cons_cons.mpr
      ⟨hs.change_of_no_task ht hi hno, List.isChain_singleton _⟩
  | some task =>
    obtain ⟨-, htf, c, o, Q, -, hheld, hensures, hQ⟩ := hs.task_hand ht
    have hfeed := feed_run_of_task hs ht i
    dsimp only
    by_cases hfamily : i = task.family
    · subst hfamily
      have hserves := (hs.serves task.family).mono hheld
      rw [hb] at hserves hensures
      rw [← htf] at hserves ⊢
      rw [if_pos rfl] at hfeed ⊢
      obtain ⟨hand', hq, hchain⟩ := hensures.isChain hserves hheld
      rw [hfeed]
      refine hchain _ [] (fun id hid => ?_) (List.isChain_singleton _)
      have hcases := alive_run_of_task ht hid
      rw [if_pos rfl] at hcases
      rw [holding, Bool.or_eq_true]
      refine hcases.imp_right ?_
      rintro ⟨d, hd, hholds⟩
      exact hQ _ _ _ hq d hd id (by simpa using hholds)
    · rw [if_neg hfamily] at hfeed
      rw [if_neg (Ne.symm hfamily), hfeed]
      refine List.isChain_cons_cons.mpr
        ⟨Change.letGo _ fun id hid => ?_, List.isChain_singleton _⟩
      have hcases := alive_run_of_task ht hid
      rwa [if_neg hfamily] at hcases

/-- A step leads a family from instant to instant. -/
theorem Sound.isChain_run (hs : s.Sound) (hi : i < s.families.size)
    (hb : s.backing i = .supply origin) (step : Step) :
    (⟨s.alive i, s.feed i⟩ :: (s.during i step ++
      [⟨(s.run step).2.alive i, (s.run step).2.feed i⟩]) : List Instant).IsChain Next := by
  cases hlog : s.takesLog i step with
  | true =>
    obtain ⟨-, hfeed, halive, hnone⟩ := run_of_takesLog hi hlog
    rw [hnone, hfeed, halive]
    exact List.isChain_cons_cons.mpr
      ⟨Next.release _ _ fun _ hid => hid, List.isChain_singleton _⟩
  | false => exact (hs.isChain_change hi hb hlog).imp fun _ _ => Change.next

/-- The instants of a family from before a step on. -/
theorem history_cons (hi : i < s.families.size) (step : Step) (later : List Step) :
    history i (step :: later) s =
      ⟨s.alive i, s.feed i⟩ :: (s.during i step ++ history i later (s.run step).2) := by
  rw [history, present, if_pos hi]
  rfl

/-- Steps lead a family that was opened from instant to instant, up to where it is then. -/
theorem Sound.isChain_history (hs : s.Sound) (hi : i < s.families.size)
    (hb : s.backing i = .supply origin) (steps : List Step) :
    ∃ l, history i steps s = ⟨s.alive i, s.feed i⟩ :: l ∧ (history i steps s).IsChain Next ∧
      (history i steps s).getLast? =
        some ⟨(Session.runAll steps s).2.alive i, (Session.runAll steps s).2.feed i⟩ := by
  induction steps generalizing s with
  | nil =>
    refine ⟨[], ?_⟩
    simp [history, present, hi, Session.runAll]
  | cons step later ih =>
    obtain ⟨hs', hleads⟩ := hs.run step
    obtain ⟨l, hl, hchain, hlast⟩ := ih hs' (Nat.lt_of_lt_of_le hi hleads.size)
      ((hleads.backing i hi).trans hb)
    refine ⟨_, history_cons hi step later, ?_, ?_⟩
    · rw [history_cons hi, hl, ← List.cons_append]
      rw [hl] at hchain
      exact List.isChain_split.mpr ⟨hs.isChain_run hi hb step, hchain⟩
    · rw [history_cons hi, List.getLast?_cons, List.getLast?_append, hlast]
      rfl

/-! ### From the beginning -/

theorem source?_of_families (h : t.families = s.families) : t.source? i = s.source? i := by
  rw [source?, h]
  rfl

theorem source?_setFeed (i j : Nat) (f : Feed) (s : Session) :
    (s.setFeed j f).source? i = s.source? i := by
  simp only [source?, setFeed, Array.getElem?_modify]
  split
  · cases s.families[i]? <;> rfl
  · rfl

/-- A family keeps its source. -/
theorem source?_run (hi : i < s.families.size) (step : Step) :
    (s.run step).2.source? i = s.source? i := by
  have hcarry : ∀ (t : Session) j w, (t.carryOut j w).2.source? i = t.source? i := fun t j w =>
    (source?_of_families (families_conclude _ _ _)).trans (source?_setFeed i j _ t)
  have hgoes := goes_run step s
  generalize (s.run step).2 = t at hgoes ⊢
  cases hgoes with
  | still step => rfl
  | opened name ho =>
    simp [source?, Session.nameCursor, Array.getElem?_push, Nat.ne_of_lt hi]
  | cursor hget step =>
    cases hworks : step.works with
    | true =>
      rw [onCursor_of_works hworks]
      exact hcarry _ _ _
    | false => exact source?_of_families (families_of_not_works hworks _ _ s).1
  | handle hget step =>
    cases step with
    | cursorAt position target =>
      simp only [onHandle]
      split <;> exact source?_setFeed _ _ _ s
    | takeFault | takeLog => exact source?_setFeed _ _ _ s
    | status | describe | drop => rfl
  | iterator hget step =>
    cases step with
    | take n => exact hcarry _ _ _
    | drop => rfl

theorem Sound.source?_runAll (hs : s.Sound) (hi : i < s.families.size) (steps : List Step) :
    (Session.runAll steps s).2.source? i = s.source? i := by
  induction steps generalizing s with
  | nil => rfl
  | cons step later ih =>
    obtain ⟨hs', hleads⟩ := hs.run step
    exact (ih hs' (Nat.lt_of_lt_of_le hi hleads.size)).trans (source?_run hi step)

/-- The source that a session begins with is behind its first family. -/
theorem source?_runAll_opened {source : Source} {r : Cursor × Feed} (ho : source.open? = .ok r)
    (name : String) (later : List Step) :
    (runAll (.openSource name source :: later) {}).2.source? 0 = some source := by
  have hopened : (({} : Session).run (.openSource name source)).2.source? 0 = some source := by
    simp [run, openSource, ho, source?, introduce, nameCursor]
  exact ((sound_empty.run _).1.source?_runAll (lt_size_of_source? hopened) later).trans hopened

/-- Where there is a supply, a source that is read on demand was opened. -/
theorem exists_options_of_supply (h : s.backing i = .supply origin) :
    ∃ source options, s.source? i = some source ∧ source.options? = some options := by
  have hi := lt_size_of_supply h
  have hfamily : s.families[i]? = some s.families[i] := Array.getElem?_eq_getElem hi
  have hsource : s.source? i = some s.families[i].source := congrArg (Option.map _) hfamily
  obtain ⟨options, hoptions⟩ :=
    Source.options?_of_supply ((backing_of_source? hsource).symm.trans h)
  exact ⟨_, options, hsource, hoptions⟩

/-- The history of a family begins where it is opened. -/
theorem Sound.exists_opening (hs : s.Sound) (hi : s.families.size ≤ i) (steps : List Step)
    (hi' : i < (Session.runAll steps s).2.families.size) :
    ∃ t later source c, t.Sound ∧ source.open? = .ok (c, t.feed i) ∧
      t.source? i = some source ∧ history i steps s = history i later t ∧
      logsTaken i steps s = logsTaken i later t ∧
      (Session.runAll steps s).2 = (Session.runAll later t).2 := by
  induction steps generalizing s with
  | nil => exact absurd hi' (Nat.not_lt.mpr hi)
  | cons step later ih =>
    have hs' := (hs.run step).1
    have hnone : s.during i step = [] := by
      unfold during
      cases ht : s.task? step with
      | none => rfl
      | some task =>
        have hlt := (hs.task ht).1
        exact if_neg (by omega)
    have hskip : history i (step :: later) s = history i later (s.run step).2 := by
      rw [history, present, if_neg (Nat.not_lt.mpr hi), hnone]
      rfl
    have hquiet : logsTaken i (step :: later) s = logsTaken i later (s.run step).2 := by
      rw [logsTaken, logTaken, hs.takesLog_new hi]
      rfl
    rw [hskip, hquiet]
    by_cases hnew : i < (s.run step).2.families.size
    · obtain ⟨source, c, ho, hsource⟩ := opened_run hi hnew
      exact ⟨_, later, source, c, hs', ho, hsource, rfl, rfl, rfl⟩
    · exact ih hs' (Nat.le_of_not_lt hnew) hi'

/-- A family is opened by making its root on a new feed. -/
theorem Sound.change_opened {source : Source} {options : Options} {c : Cursor} (hs : s.Sound)
    (hsource : s.source? i = some source) (hoptions : source.options? = some options)
    (ho : source.open? = .ok (c, s.feed i)) :
    ∃ supply, s.backing i = .supply supply ∧
      Change ⟨fun _ => false, .make supply options⟩ ⟨s.alive i, s.feed i⟩ := by
  obtain ⟨supply, hback, hroot⟩ := Source.open?_of_options? hoptions ho
  have hb : s.backing i = .supply supply := (backing_of_source? hsource).trans hback
  have hfeed : s.feed i = ((Feed.make supply options).attach (fun _ => false) 0 none).2 :=
    congrArg Prod.snd hroot
  have hserves := hs.serves i
  rw [hb] at hserves
  have hsize := (Feed.attach_spec (fun _ => false) 0 none (Feed.make supply options)).2.1
  refine ⟨supply, hb, ?_⟩
  rw [hfeed] at hserves ⊢
  refine Change.attach rfl (fun _ => rfl) fun id hid => Or.inr ?_
  -- the root is the only mark there
  have hlt := Feed.Sound.inside hserves id hid
  rw [hsize] at hlt
  exact Nat.le_antisymm (Nat.le_of_lt_succ hlt) (Nat.zero_le id)

/-- Any steps lead the feed of a family, new at first, from instant to instant. -/
theorem isChain_history (steps : List Step) {source : Source} {options : Options}
    (hsource : (runAll steps {}).2.source? i = some source)
    (hoptions : source.options? = some options) :
    ∃ supply, (runAll steps {}).2.backing i = .supply supply ∧
      (⟨fun _ => false, .make supply options⟩ :: history i steps {}).IsChain Next ∧
      (history i steps {}).getLast? =
        some ⟨(runAll steps {}).2.alive i, (runAll steps {}).2.feed i⟩ := by
  obtain ⟨t, later, own, c, ht, ho, hown, hhistory, -, hend⟩ :=
    sound_empty.exists_opening (Nat.zero_le i) steps (lt_size_of_source? hsource)
  have hi := lt_size_of_source? hown
  rw [hend] at hsource ⊢
  obtain rfl := Option.some.inj (hown.symm.trans ((ht.source?_runAll hi later).symm.trans hsource))
  obtain ⟨supply, hb, hnew⟩ := ht.change_opened hown hoptions ho
  obtain ⟨l, hl, hchain, hlast⟩ := ht.isChain_history hi hb later
  refine ⟨supply, ((ht.runAll later).2.backing i hi).trans hb, ?_, hhistory ▸ hlast⟩
  rw [hhistory, hl]
  rw [hl] at hchain
  exact List.isChain_cons_cons.mpr ⟨hnew.next, hchain⟩

end Session

end BranchCursor
