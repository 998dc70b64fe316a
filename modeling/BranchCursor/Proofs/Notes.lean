import BranchCursor.Proofs.ExactRoster

/-! What a feed writes into its log from one instant to the next, and what a log tells that was
written so from the beginning: each character as it was read, the end once and last, and no sweep
behind the position that was read. -/
namespace BranchCursor

namespace ReadEvent

def isPull : ReadEvent → Bool
  | pulled => true
  | exhausted | fault | pruned => false

/-- Whether the source has ended then. -/
def isEnd : ReadEvent → Bool
  | exhausted | fault => true
  | pulled | pruned => false

/-- What is told of the end of a source, given its failure if there is one. -/
def ending (cause : Option CursorError) : ReadEvent :=
  if cause.isSome then fault else exhausted

@[simp] theorem isPull_ending (cause : Option CursorError) : (ending cause).isPull = false := by
  cases cause <;> rfl

@[simp] theorem isEnd_ending (cause : Option CursorError) : (ending cause).isEnd = true := by
  cases cause <;> rfl

end ReadEvent

/-- The entries about characters. -/
def pullsIn (log : List LogEntry) : List LogEntry := log.filter (·.event.isPull)

/-- The entries about the end. -/
def endsIn (log : List LogEntry) : List LogEntry := log.filter (·.event.isEnd)

namespace Instant

/-- What is to be told if a character was read from one instant to the next: its offset, itself, and
how many of the marks held wait for a later one. -/
def arrival (content : List Char) (m n : Instant) : List LogEntry :=
  if m.feed.readPosition < n.feed.readPosition then
    [⟨m.feed.readPosition, content[m.feed.readPosition]?, .pulled, n.waiting⟩]
  else []

/-- What is to be told of the characters read in the course of some instants. -/
def arrivals (content : List Char) : List Instant → List LogEntry
  | m :: n :: l => arrival content m n ++ arrivals content (n :: l)
  | _ => []

theorem arrivals_split (content : List Char) (k : List Instant) (m : Instant) (l : List Instant) :
    arrivals content (k ++ m :: l) = arrivals content (k ++ [m]) ++ arrivals content (m :: l) := by
  induction k with
  | nil => rfl
  | cons n k ih =>
    cases k with
    | nil => simp [arrivals]
    | cons n' k => simpa [arrivals] using ih

/-- What is written from one instant to the next. -/
inductive Notes (origin : Supply) (m n : Instant) : List LogEntry → Prop
  | nothing (hread : n.feed.readPosition = m.feed.readPosition)
      (hended : n.feed.exhausted = m.feed.exhausted) : Notes origin m n []
  | pulled (hbefore : m.feed.exhausted = false) (hopen : n.feed.exhausted = false)
      (hread : n.feed.readPosition = m.feed.readPosition + 1) :
      Notes origin m n
        [⟨m.feed.readPosition, origin.content[m.feed.readPosition]?, .pulled, n.waiting⟩]
  | ended (subscribers : Nat) (hopen : m.feed.exhausted = false)
      (hended : n.feed.exhausted = true)
      (hread : n.feed.readPosition = m.feed.readPosition) :
      Notes origin m n [⟨m.feed.readPosition, none, .ending origin.ending, subscribers⟩]
  | pruned {position : Nat} (subscribers : Nat) (hle : m.feed.readPosition ≤ position)
      (hbefore : m.feed.exhausted = false) (hopen : n.feed.exhausted = false)
      (hread : n.feed.readPosition = m.feed.readPosition) :
      Notes origin m n [⟨position, none, .pruned, subscribers⟩]

end Instant

namespace Feed

variable {origin : Supply} {alive : MarkId → Bool} {f : Feed} {arrived log : List LogEntry}

theorem toList_log_record (h : f.logging = true) (offset : Nat) (character : Option Char)
    (event : ReadEvent) :
    (f.record offset character event).log.toList =
      f.log.toList ++ [⟨offset, character, event, f.roster.size⟩] := by
  simp [record, h]

@[simp] theorem logging_record (offset : Nat) (character : Option Char) (event : ReadEvent)
    (f : Feed) : (f.record offset character event).logging = f.logging := by
  obtain ⟨log, hlog⟩ := record_eq offset character event f
  rw [hlog]

/-- A feed that writes no log does not begin to. -/
theorem pull_logging (alive : MarkId → Bool) (f : Feed) :
    (f.pull alive).2.logging = f.logging ∧
    (f.logging = false → (f.pull alive).2.log = f.log) := by
  cases he : f.exhausted with
  | true =>
    rw [pull_of_exhausted alive he]
    exact ⟨rfl, fun _ => rfl⟩
  | false =>
    rw [pull_of_not_exhausted alive he]
    cases f.supply.poll.1.char? with
    | some c => exact ⟨logging_record _ _ _ _, fun h => log_record_of_quiet _ _ _ _ h⟩
    | none => exact ⟨logging_record _ _ _ _, fun h => log_record_of_quiet _ _ _ _ h⟩

theorem attach_logging (alive : MarkId → Bool) (position : Nat) (head : Option NodeId) (f : Feed) :
    (f.attach alive position head).2.logging = f.logging ∧
    (f.logging = false → (f.attach alive position head).2.log = f.log) := by
  cases head with
  | some node => exact ⟨rfl, fun _ => rfl⟩
  | none =>
    simp only [attach]
    split
    · exact ⟨logging_record _ _ _ _, fun h => log_record_of_quiet _ _ _ _ h⟩
    · exact ⟨rfl, fun _ => rfl⟩

theorem toList_log_arrive (h : f.logging = true) (alive : MarkId → Bool) (c : Char) :
    (f.arrive alive c).log.toList = f.log.toList ++
      [⟨f.readPosition, some c, .pulled, (f.arrive alive c).roster.size⟩] := by
  simp [arrive, record, h]

theorem toList_log_finish (h : f.logging = true) (cause : Option CursorError) :
    (f.finish cause).log.toList =
      f.log.toList ++ [⟨f.readPosition, none, .ending cause, f.roster.size⟩] := by
  simp [finish, record, h, ReadEvent.ending]

/-- A new mark is told of only if others were swept out, and then only because it waits. -/
theorem toList_log_attach (h : f.logging = true) (alive : MarkId → Bool) (position : Nat)
    (head : Option NodeId) :
    (f.attach alive position head).2.log.toList = f.log.toList ∨
    head = none ∧ ∃ subscribers, (f.attach alive position head).2.log.toList =
      f.log.toList ++ [⟨position, none, .pruned, subscribers⟩] := by
  cases head with
  | some node => exact Or.inl rfl
  | none =>
    simp only [attach]
    split
    · refine Or.inr ⟨trivial, _, toList_log_record ?_ _ _ _⟩
      exact h
    · exact Or.inl rfl

/-- A log that tells what happened to a feed from the beginning, given the entries of all characters
that were read. -/
structure Logged (origin : Supply) (arrived log : List LogEntry) (f : Feed) : Prop where
  pulls : pullsIn log = arrived
  chars : arrived.map (fun e => (e.offset, e.character)) =
    (List.range f.readPosition).map fun k => (k, origin.content[k]?)
  ends : (endsIn log).map (fun e => (e.offset, e.character, e.event)) =
    if f.exhausted then [(f.readPosition, none, .ending origin.ending)] else []
  last : f.exhausted = true → ∃ e, log.getLast? = some e ∧ e.event.isEnd = true
  pruned : ∀ k e, log[k]? = some e → e.event = .pruned →
    (pullsIn (log.take k)).length ≤ e.offset

theorem logged_make (supply : Supply) (options : Options) :
    (Feed.make supply options).Logged supply [] [] where
  pulls := rfl
  chars := rfl
  ends := rfl
  last hended := by cases hended
  pruned k e hk := by cases hk

theorem Logged.length_pulls (h : f.Logged origin arrived log) :
    (pullsIn log).length = f.readPosition := by
  have hlength := congrArg List.length h.chars
  rw [List.length_map, List.length_map, List.length_range] at hlength
  rw [h.pulls, hlength]

/-- One entry more, which if it is about a sweep is not behind what was read. -/
theorem Logged.pruned_concat (h : f.Logged origin arrived log) {e : LogEntry}
    (he : e.event = .pruned → f.readPosition ≤ e.offset) (k : Nat) (e' : LogEntry)
    (hk : (log ++ [e])[k]? = some e') (hevent : e'.event = .pruned) :
    (pullsIn ((log ++ [e]).take k)).length ≤ e'.offset := by
  rcases Nat.lt_trichotomy k log.length with hlt | rfl | hlt
  · rw [List.getElem?_append_left hlt] at hk
    rw [List.take_append_of_le_length (Nat.le_of_lt hlt)]
    exact h.pruned k e' hk hevent
  · rw [List.getElem?_concat_length] at hk
    cases hk
    rw [List.take_append_of_le_length (Nat.le_refl _), List.take_length, h.length_pulls]
    exact he hevent
  · rw [List.getElem?_eq_none (by simpa using Nat.succ_le_of_lt hlt)] at hk
    cases hk

/-- Only how far a feed has read matters, and whether it has ended. -/
theorem Logged.congr {g : Feed} (h : f.Logged origin arrived log)
    (hread : g.readPosition = f.readPosition) (hended : g.exhausted = f.exhausted) :
    g.Logged origin arrived log where
  pulls := h.pulls
  chars := hread ▸ h.chars
  ends := by
    rw [hread, hended]
    exact h.ends
  last := hended ▸ h.last
  pruned := h.pruned

end Feed

namespace Instant

variable {origin : Supply} {m n : Instant} {arrived log entries : List LogEntry}

theorem arrival_eq_nil (content : List Char)
    (hread : n.feed.readPosition = m.feed.readPosition) : arrival content m n = [] :=
  if_neg (Nat.not_lt.mpr (Nat.le_of_eq hread))

/-- What is written next keeps a log true. -/
theorem Notes.logged (hn : Notes origin m n entries) (h : m.feed.Logged origin arrived log) :
    n.feed.Logged origin (arrived ++ arrival origin.content m n) (log ++ entries) := by
  cases hn with
  | nothing hread hended =>
    rw [arrival_eq_nil _ hread, List.append_nil, List.append_nil]
    exact h.congr hread hended
  | pulled hbefore hopen hread =>
    have harrival : arrival origin.content m n = [⟨m.feed.readPosition,
        origin.content[m.feed.readPosition]?, .pulled, n.waiting⟩] :=
      if_pos (by omega)
    have hends := h.ends
    rw [hbefore] at hends
    rw [harrival]
    refine ⟨?_, ?_, ?_, ?_, h.pruned_concat fun _ => Nat.le_refl _⟩
    · simp [pullsIn, ← h.pulls, ReadEvent.isPull]
    · rw [List.map_append, h.chars, hread, List.range_succ, List.map_append]
      rfl
    · rw [hopen]
      simpa [endsIn, ReadEvent.isEnd] using hends
    · rw [hopen]
      intro hended
      cases hended
  | ended subscribers hopen hended hread =>
    have hends := h.ends
    rw [hopen] at hends
    rw [arrival_eq_nil _ hread, List.append_nil]
    refine ⟨?_, hread ▸ h.chars, ?_, fun _ => ⟨_, List.getLast?_concat, by simp⟩, ?_⟩
    · simpa [pullsIn] using h.pulls
    · rw [hended, hread]
      simpa [endsIn] using hends
    · exact h.pruned_concat fun _ => Nat.le_refl _
  | pruned subscribers hle hbefore hopen hread =>
    have hends := h.ends
    rw [hbefore] at hends
    rw [arrival_eq_nil _ hread, List.append_nil]
    refine ⟨?_, hread ▸ h.chars, ?_, ?_, h.pruned_concat fun _ => hle⟩
    · simpa [pullsIn, ReadEvent.isPull] using h.pulls
    · rw [hopen]
      simpa [endsIn, ReadEvent.isEnd] using hends
    · rw [hopen]
      intro hended
      cases hended

/-- After a pull that brought a character, all that are on the roster wait for later ones. -/
theorem size_roster_of_read (hs : n.feed.Sound origin n.alive) (ht : n.feed.Tidy)
    (hlive : ∀ id ∈ n.feed.roster.entries, n.alive id = true) :
    n.feed.roster.size = n.waiting :=
  (Array.countP_eq_size.mpr hlive).symm.trans (ht.awaits hs).live

/-! ### What is written -/

variable {alive later : MarkId → Bool} {f : Feed}

/-- A character is told of with its offset, and with those who wait for later ones. -/
theorem notes_arrive {c : Char} (hs : f.Sound origin alive) (ht : f.Tidy)
    (he : f.exhausted = false) (hc : origin.content[f.readPosition]? = some c) :
    Notes origin ⟨alive, f⟩ ⟨alive, f.asked.arrive alive c⟩
      [⟨f.readPosition, some c, .pulled, (f.asked.arrive alive c).roster.size⟩] := by
  have hsize := size_roster_of_read (n := ⟨alive, f.asked.arrive alive c⟩)
    (hs.arrive (fun _ hid => hid) he hc) (ht.arrive alive c) fun _ => Feed.alive_of_mem_arrive
  rw [← hc, hsize]
  exact .pulled he ((Feed.exhausted_arrive alive c f.asked).trans he)
    (Feed.readPosition_arrive alive c f.asked)

/-- The end is told of with the failure that ended the source. -/
theorem notes_finish (he : f.exhausted = false) (subscribers : Nat) :
    Notes origin ⟨alive, f⟩ ⟨alive, f.asked.finish origin.ending⟩
      [⟨f.readPosition, none, .ending origin.ending, subscribers⟩] := by
  obtain ⟨log, hfinish⟩ := Feed.finish_eq origin.ending f.asked
  rw [hfinish]
  exact .ended subscribers he rfl rfl

/-- A pull writes of the character that it brought, or of the end that it found. -/
theorem notes_pull (hs : f.Sound origin alive) (ht : f.Tidy) (hlogging : f.logging = true) :
    ∃ entries, (f.pull alive).2.log.toList = f.log.toList ++ entries ∧
      Notes origin ⟨alive, f⟩ ⟨alive, (f.pull alive).2⟩ entries := by
  cases he : f.exhausted with
  | true =>
    rw [Feed.pull_of_exhausted alive he]
    exact ⟨[], (List.append_nil _).symm, .nothing rfl rfl⟩
  | false =>
    rw [Feed.pull_of_not_exhausted alive he]
    cases hc : f.supply.poll.1.char? with
    | some c =>
      have hchar := hs.toLinked.char?_poll he
      rw [hc] at hchar
      exact ⟨_, Feed.toList_log_arrive (f := f.asked) hlogging alive c,
        notes_arrive hs ht he hchar.symm⟩
    | none =>
      refine ⟨_, Feed.toList_log_finish (f := f.asked) hlogging _, ?_⟩
      rw [(hs.toLinked.ending_of_poll he hc).2]
      exact notes_finish he _

/-- A new mark writes of those who were swept out before it joined, and it joins to wait. -/
theorem notes_attach {position : Nat} {head : Option NodeId} (hlogging : f.logging = true)
    (hhead : head = if position < f.readPosition then some position else none)
    (hopen : head = none → f.exhausted = false) :
    ∃ entries, (f.attach alive position head).2.log.toList = f.log.toList ++ entries ∧
      Notes origin ⟨alive, f⟩ ⟨later, (f.attach alive position head).2⟩ entries := by
  obtain ⟨roster, log, hattach, -⟩ := Feed.attach_cases alive position head f
  have hread : (f.attach alive position head).2.readPosition = f.readPosition := by rw [hattach]
  have hended : (f.attach alive position head).2.exhausted = f.exhausted := by rw [hattach]
  rcases Feed.toList_log_attach hlogging alive position head with hlog | ⟨rfl, k, hlog⟩
  · exact ⟨[], hlog.trans (List.append_nil _).symm, .nothing hread hended⟩
  · have hle : f.readPosition ≤ position := by simpa [eq_comm] using hhead
    exact ⟨_, hlog, .pruned k hle (hopen rfl) (hended.trans (hopen rfl)) hread⟩

/-- Whatever happens while nobody takes the log is written behind what is there. -/
theorem Change.notes (h : Change m n) (hs : m.feed.Sound origin m.alive) (ht : m.feed.Tidy)
    (hlogging : m.feed.logging = true) :
    ∃ entries, n.feed.log.toList = m.feed.log.toList ++ entries ∧ Notes origin m n entries := by
  cases h with
  | letGo f h => exact ⟨[], (List.append_nil _).symm, .nothing rfl rfl⟩
  | takeFault alive f => exact ⟨[], (List.append_nil _).symm, .nothing rfl rfl⟩
  | pull alive f => exact notes_pull hs ht hlogging
  | attach hhead hopen _ => exact notes_attach hlogging hhead hopen

/-- Whether a log is written does not change. -/
theorem Change.logging (h : Change m n) : n.feed.logging = m.feed.logging ∧
    (m.feed.logging = false → n.feed.log = m.feed.log) := by
  cases h with
  | letGo f h => exact ⟨rfl, fun _ => rfl⟩
  | takeFault alive f => exact ⟨rfl, fun _ => rfl⟩
  | pull alive f => exact f.pull_logging alive
  | @attach alive later f position head => exact f.attach_logging alive position head

/-- Along instants while nobody takes the log it stays true, and it grows behind what is there. -/
theorem logged_of_isChain {l : List Instant} (h : (m :: (l ++ [n])).IsChain Change)
    (hs : m.feed.Sound origin m.alive) (ht : m.feed.Tidy) (hlogging : m.feed.logging = true)
    (hm : m.feed.Logged origin arrived (log ++ m.feed.log.toList)) :
    n.feed.Logged origin (arrived ++ arrivals origin.content (m :: (l ++ [n])))
      (log ++ n.feed.log.toList) := by
  induction l generalizing m arrived with
  | nil =>
    have hchange := (List.isChain_cons_cons.mp h).1
    obtain ⟨entries, hlog, hnotes⟩ := hchange.notes hs ht hlogging
    have hn := hnotes.logged hm
    rw [List.append_assoc, ← hlog] at hn
    simpa [arrivals] using hn
  | cons k l ih =>
    obtain ⟨hchange, hrest⟩ := List.isChain_cons_cons.mp h
    obtain ⟨entries, hlog, hnotes⟩ := hchange.notes hs ht hlogging
    have hk := hnotes.logged hm
    rw [List.append_assoc, ← hlog] at hk
    have hn := ih hrest (hchange.next.sound hs) (hchange.next.tidy ht)
      (hchange.logging.1.trans hlogging) hk
    rwa [List.append_assoc] at hn

end Instant

end BranchCursor
