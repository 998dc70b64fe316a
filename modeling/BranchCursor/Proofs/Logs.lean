import BranchCursor.Proofs.Notes

/-! The read log through a whole session. However often it is taken, and by whom, what was taken and
what is left of it make up one true account of everything that happened to the feed. -/
namespace BranchCursor.Session
open Instant (Next Change arrivals)

variable {s : Session} {i : Nat} {origin : Supply} {arrived taken : List LogEntry}

/-- The choice to write a log or none stays. -/
theorem Sound.logging_run (hs : s.Sound) (hi : i < s.families.size)
    (hb : s.backing i = .supply origin) (step : Step) :
    ((s.run step).2.feed i).logging = (s.feed i).logging := by
  cases hlog : s.takesLog i step with
  | true =>
    rw [(run_of_takesLog hi hlog).2.1]
    rfl
  | false =>
    have hall := Instant.forall_of_isChain
      (P := fun n => n.feed.logging = (s.feed i).logging)
      (fun _ _ hchange hm => hchange.logging.1.trans hm) (hs.isChain_change hi hb hlog) rfl
    exact hall ⟨(s.run step).2.alive i, (s.run step).2.feed i⟩ (by simp)

/-- Where no log is written there is none to be taken either. -/
theorem Sound.quiet_log_run (hs : s.Sound) (hi : i < s.families.size)
    (hb : s.backing i = .supply origin) (hlogging : (s.feed i).logging = false)
    (hempty : (s.feed i).log = #[]) (step : Step) :
    s.logTaken i step = [] ∧ ((s.run step).2.feed i).log = #[] := by
  unfold logTaken
  cases hlog : s.takesLog i step with
  | true =>
    obtain ⟨hanswer, hfeed, -⟩ := run_of_takesLog hi hlog
    rw [if_pos rfl, hanswer, hfeed]
    exact ⟨congrArg Array.toList hempty, rfl⟩
  | false =>
    have hall := Instant.forall_of_isChain
      (P := fun n => n.feed.logging = false ∧ n.feed.log = #[])
      (fun _ _ hchange hm => ⟨hchange.logging.1.trans hm.1, (hchange.logging.2 hm.1).trans hm.2⟩)
      (hs.isChain_change hi hb hlog) ⟨hlogging, hempty⟩
    exact ⟨if_neg Bool.false_ne_true,
      (hall ⟨(s.run step).2.alive i, (s.run step).2.feed i⟩ (by simp)).2⟩

theorem Sound.quiet_log_runAll (hs : s.Sound) (hi : i < s.families.size)
    (hb : s.backing i = .supply origin) (hlogging : (s.feed i).logging = false)
    (hempty : (s.feed i).log = #[]) (steps : List Step) :
    logsTaken i steps s ++ ((Session.runAll steps s).2.feed i).log.toList = [] := by
  induction steps generalizing s with
  | nil => exact congrArg Array.toList hempty
  | cons step later ih =>
    obtain ⟨hs', hleads⟩ := hs.run step
    obtain ⟨htaken, hempty'⟩ := hs.quiet_log_run hi hb hlogging hempty step
    rw [logsTaken, htaken]
    exact ih hs' (Nat.lt_of_lt_of_le hi hleads.size) ((hleads.backing i hi).trans hb)
      ((hs.logging_run hi hb step).trans hlogging) hempty'

/-- A step keeps the account, whether it adds to the log or takes it. -/
theorem Sound.logged_run (hs : s.Sound) (hi : i < s.families.size)
    (hb : s.backing i = .supply origin) (ht : (s.feed i).Tidy)
    (hlogging : (s.feed i).logging = true)
    (h : (s.feed i).Logged origin arrived (taken ++ (s.feed i).log.toList)) (step : Step) :
    ((s.run step).2.feed i).Logged origin
      (arrived ++ arrivals origin.content (⟨s.alive i, s.feed i⟩ :: (s.during i step ++
        [⟨(s.run step).2.alive i, (s.run step).2.feed i⟩])))
      (taken ++ s.logTaken i step ++ ((s.run step).2.feed i).log.toList) := by
  unfold logTaken
  cases hlog : s.takesLog i step with
  | true =>
    obtain ⟨hanswer, hfeed, -, hnone⟩ := run_of_takesLog hi hlog
    rw [if_pos rfl, hanswer, hfeed, hnone, List.nil_append, arrivals,
      Instant.arrival_eq_nil _ (by rfl)]
    have h' := h.congr (g := (s.feed i).takeLog.2) rfl rfl
    simpa [arrivals, Answer.entries, Feed.takeLog] using h'
  | false =>
    have hserves := hs.serves i
    rw [hb] at hserves
    rw [if_neg Bool.false_ne_true, List.append_nil]
    exact Instant.logged_of_isChain (hs.isChain_change hi hb hlog) hserves ht hlogging h

theorem Sound.logged_runAll (hs : s.Sound) (hi : i < s.families.size)
    (hb : s.backing i = .supply origin) (ht : (s.feed i).Tidy)
    (hlogging : (s.feed i).logging = true)
    (h : (s.feed i).Logged origin arrived (taken ++ (s.feed i).log.toList)) (steps : List Step) :
    ((Session.runAll steps s).2.feed i).Logged origin
      (arrived ++ arrivals origin.content (history i steps s))
      (taken ++ logsTaken i steps s ++ ((Session.runAll steps s).2.feed i).log.toList) := by
  induction steps generalizing s arrived taken with
  | nil =>
    rw [history, present, if_pos hi, arrivals, logsTaken, List.append_nil, List.append_nil]
    · exact h
    · simp
  | cons step later ih =>
    obtain ⟨hs', hleads⟩ := hs.run step
    have hi' := Nat.lt_of_lt_of_le hi hleads.size
    have hb' := (hleads.backing i hi).trans hb
    obtain ⟨l, hl, -⟩ := hs'.isChain_history hi' hb' later
    have hend := ih hs' hi' hb' (hs.tidy_run hi hb ht step)
      ((hs.logging_run hi hb step).trans hlogging) (hs.logged_run hi hb ht hlogging h step)
    have hall : Session.runAll (step :: later) s =
        ((s.run step).1 :: (Session.runAll later (s.run step).2).1,
          (Session.runAll later (s.run step).2).2) := rfl
    rw [history_cons hi, hl, ← List.cons_append, Instant.arrivals_split, hall]
    rw [hl] at hend
    simpa only [logsTaken, List.append_assoc, List.cons_append] using hend

/-- A log that is written is true, from the opening of its family on. -/
theorem logged_history (steps : List Step) {source : Source} {options : Options}
    (hsource : (runAll steps {}).2.source? i = some source)
    (hoptions : source.options? = some options) :
    ∃ supply, (runAll steps {}).2.backing i = .supply supply ∧
      (options.logging = false →
        logsTaken i steps {} ++ ((runAll steps {}).2.feed i).log.toList = []) ∧
      (options.logging = true → ((runAll steps {}).2.feed i).Logged supply
        (arrivals supply.content (history i steps {}))
        (logsTaken i steps {} ++ ((runAll steps {}).2.feed i).log.toList)) := by
  obtain ⟨t, later, own, c, ht, ho, hown, hhistory, hlogs, hend⟩ :=
    sound_empty.exists_opening (Nat.zero_le i) steps (lt_size_of_source? hsource)
  have hi := lt_size_of_source? hown
  rw [hend] at hsource ⊢
  obtain rfl := Option.some.inj (hown.symm.trans ((ht.source?_runAll hi later).symm.trans hsource))
  obtain ⟨supply, hb, hchange⟩ := ht.change_opened hown hoptions ho
  refine ⟨supply, ((ht.runAll later).2.backing i hi).trans hb, fun hoff => ?_, fun hon => ?_⟩
  · rw [hlogs]
    exact ht.quiet_log_runAll hi hb (hchange.logging.1.trans hoff) (hchange.logging.2 hoff) later
  · have hmade := Feed.sound_make supply options
    have htidy := Feed.tidy_make supply options
    have hblank : (Feed.make supply options).Logged supply []
        ([] ++ (Feed.make supply options).log.toList) := Feed.logged_make supply options
    have hopened := Instant.logged_of_isChain (l := [])
      (List.isChain_cons_cons.mpr ⟨hchange, List.isChain_singleton _⟩) hmade htidy hon hblank
    have hread := (unread_of_open? ho ((backing_of_source? hown).symm.trans hb)).1
    rw [List.nil_append, List.nil_append, arrivals, Instant.arrival_eq_nil _ hread] at hopened
    have hend := ht.logged_runAll hi hb (hchange.next.tidy htidy) (hchange.logging.1.trans hon)
      hopened later
    rw [hhistory, hlogs]
    exact hend

/-- In every session the log of a feed that writes one is a true account, whoever takes parts of it
and when: each character once, with its offset and how many marks wait for later ones then; the end
once and last of all; and no sweep behind what was read. A feed that writes none has none. -/
theorem log_is_faithful (steps : List Step) {i : Nat} {source : Source} {options : Options}
    (hsource : (runAll steps {}).2.source? i = some source)
    (hoptions : source.options? = some options) :
    let s := (runAll steps {}).2
    let log := logsTaken i steps {} ++ (s.feed i).log.toList
    (options.logging = false → log = []) ∧
    (options.logging = true → ∃ origin, s.backing i = .supply origin ∧
      (s.feed i).readPosition ≤ origin.content.length ∧
      (pullsIn log).map (fun e => (e.offset, e.character)) =
        (List.range (s.feed i).readPosition).map (fun k => (k, origin.content[k]?)) ∧
      pullsIn log = arrivals origin.content (history i steps {}) ∧
      (endsIn log).map (fun e => (e.offset, e.character, e.event)) =
        (if (s.feed i).exhausted then
          [((s.feed i).readPosition, none,
            if origin.ending.isSome then .fault else .exhausted)]
        else []) ∧
      ((s.feed i).exhausted = true → ∃ e, log.getLast? = some e ∧ e.event.isEnd = true) ∧
      ∀ k e, log[k]? = some e → e.event = .pruned →
        (pullsIn (log.take k)).length ≤ e.offset) := by
  intro s log
  obtain ⟨origin, hb, hoff, hon⟩ := logged_history steps hsource hoptions
  refine ⟨hoff, fun hlogging => ⟨origin, hb, ?_⟩⟩
  have hlogged := hon hlogging
  have hserves := (sound_runAll steps).serves i
  rw [hb] at hserves
  refine ⟨Feed.Linked.within hserves.toLinked, ?_, hlogged.pulls, hlogged.ends, hlogged.last,
    hlogged.pruned⟩
  exact (congrArg (List.map _) hlogged.pulls).trans hlogged.chars

/-- A log that is taken between the characters, after a sweep: another cursor waits while the first
one is read and none when the second is, and the failure is told last. -/
theorem log_is_faithful_taken_between :
    let source := Source.scripted [.char 'a', .char 'b', .fault (.source .timedOut)]
      { logging := true, pruneThreshold := 1 }
    let later := [.cursor "r" (.next "x"), .cursor "x" .drop, .cursor "r" (.next "x"),
      .cursor "r" (.handle "h"), .cursor "r" .current, .handle "h" .takeLog,
      .cursor "r" .collect]
    let steps := .openSource "r" source :: later
    let s := (runAll steps {}).2
    let log := logsTaken 0 steps {} ++ (s.feed 0).log.toList
    s.source? 0 = some source ∧ (logsTaken 0 steps {}).map LogEntry.event = [.pruned, .pulled] ∧
    pullsIn log = [⟨0, some 'a', .pulled, 1⟩, ⟨1, some 'b', .pulled, 0⟩] ∧
    (endsIn log).map (fun e => (e.offset, e.character, e.event)) = [(2, none, .fault)] ∧
    ∃ e, log.getLast? = some e ∧ e.event.isEnd = true := by
  intro source later steps s log
  have hsource : s.source? 0 = some source := source?_runAll_opened rfl "r" later
  have hparts : (logsTaken 0 steps {}).map LogEntry.event = [.pruned, .pulled] := by
    decide +kernel
  have harrivals : arrivals ['a', 'b'] (history 0 steps {}) =
      [⟨0, some 'a', .pulled, 1⟩, ⟨1, some 'b', .pulled, 0⟩] := by decide +kernel
  have hread : (s.feed 0).readPosition = 2 := by decide +kernel
  have hexh : (s.feed 0).exhausted = true := by decide +kernel
  have hback : source.backing =
      .supply (.scripted [.char 'a', .char 'b', .fault (.source .timedOut)]) := rfl
  clear_value steps
  obtain ⟨origin, hb, -, -, hpulls, hends, hlast, -⟩ :=
    (log_is_faithful steps hsource rfl).2 rfl
  obtain rfl := Backing.supply.inj
    (hb.symm.trans ((backing_of_source? hsource).trans hback))
  have hcontent : (Supply.scripted [.char 'a', .char 'b', .fault (.source .timedOut)]).content =
      ['a', 'b'] := by decide +kernel
  have hending : (Supply.scripted [.char 'a', .char 'b', .fault (.source .timedOut)]).ending =
      some (.source .timedOut) := by decide +kernel
  rw [hcontent, harrivals] at hpulls
  rw [hexh, hread, hending] at hends
  exact ⟨hsource, hparts, hpulls, hends, hlast hexh⟩

end BranchCursor.Session
