import BranchCursor.Description
import BranchCursor.Proofs.Waiting

/-! Two feeds side by side, over sources that yield the same, with the same marks held.
They may sweep their rosters at other times, write other logs and read other portions of bytes; all
that cursors are told of is the same. -/
namespace BranchCursor
open Cursor (Within holding)

/-- Statuses that differ at most in the length of the roster. -/
structure Status.Tuned (a b : Status) : Prop where
  readPosition : a.readPosition = b.readPosition
  exhausted : a.exhausted = b.exhausted
  live : a.live = b.live
  hasFault : a.hasFault = b.hasFault

namespace Feed

/-- Feeds that are the same but for what they read from, their rosters and their logs. -/
structure Same (f g : Feed) : Prop where
  polls : f.polls = g.polls
  read : f.readPosition = g.readPosition
  nodes : f.nodes = g.nodes
  tail : f.tail = g.tail
  marks : f.marks = g.marks
  exhausted : f.exhausted = g.exhausted
  fault : f.fault = g.fault

variable {origin other : Supply} {alive : MarkId → Bool} {f g : Feed} {id : MarkId}

theorem Same.refl (f : Feed) : f.Same f := ⟨rfl, rfl, rfl, rfl, rfl, rfl, rfl⟩

theorem Same.mark (h : f.Same g) (id : MarkId) : f.mark id = g.mark id := by
  rw [Feed.mark, Feed.mark, h.marks]

theorem Same.known (h : f.Same g) (m : Mark) : f.known m = g.known m := by
  rw [Feed.known, Feed.known, h.nodes]

theorem Same.successor (h : f.Same g) (m : Mark) : f.successor m = g.successor m := by
  rw [Feed.successor, Feed.successor, h.nodes]

theorem Same.hasPassed (h : f.Same g) (position : Nat) :
    f.hasPassed position = g.hasPassed position := by
  rw [Feed.hasPassed, Feed.hasPassed, h.read]

theorem Same.waiting (h : f.Same g) (alive : MarkId → Bool) :
    f.waiting alive = g.waiting alive := by
  simp only [Feed.waiting, h.marks, h.read, h.mark]

theorem Same.takeFault (h : f.Same g) :
    f.takeFault.1 = g.takeFault.1 ∧ f.takeFault.2.Same g.takeFault.2 :=
  ⟨h.fault, h.polls, h.read, h.nodes, h.tail, h.marks, h.exhausted, rfl⟩

theorem Same.takeLog (h : f.Same g) : f.takeLog.2.Same g.takeLog.2 :=
  ⟨h.polls, h.read, h.nodes, h.tail, h.marks, h.exhausted, h.fault⟩

/-! ### New marks -/

/-- A new mark is the same on both, whoever is swept out then. -/
theorem Same.attach (h : f.Same g) (alive : MarkId → Bool) (position : Nat)
    (head : Option NodeId) :
    (f.attach alive position head).1 = (g.attach alive position head).1 ∧
    (f.attach alive position head).2.Same (g.attach alive position head).2 := by
  obtain ⟨roster, log, hf, -⟩ := attach_cases alive position head f
  obtain ⟨roster', log', hg, -⟩ := attach_cases alive position head g
  rw [hf, hg]
  refine ⟨congrArg Array.size h.marks, h.polls, h.read, h.nodes, h.tail, ?_, h.exhausted, h.fault⟩
  exact congrArg (Array.push · _) h.marks

theorem Same.next (h : f.Same g) (alive : MarkId → Bool) (id : MarkId) :
    (f.next alive id).1 = (g.next alive id).1 ∧ (f.next alive id).2.Same (g.next alive id).2 := by
  have hattach := h.attach alive ((g.mark id).position + 1)
  simp only [Feed.next, h.mark, h.successor, h.hasPassed, h.exhausted, h.read]
  split
  · exact ⟨congrArg (fun made => Except.ok (some made)) (hattach _).1, (hattach _).2⟩
  · split
    · exact ⟨rfl, h⟩
    · split
      · exact ⟨rfl, h⟩
      · exact ⟨congrArg (fun made => Except.ok (some made)) (hattach _).1, (hattach _).2⟩

theorem Same.cursorAt (h : f.Same g) (alive : MarkId → Bool) (position : Nat) :
    (f.cursorAt alive position).1 = (g.cursorAt alive position).1 ∧
    (f.cursorAt alive position).2.Same (g.cursorAt alive position).2 := by
  have hattach := h.attach alive position none
  simp only [Feed.cursorAt, h.hasPassed, h.exhausted, h.read]
  split
  · exact ⟨rfl, h⟩
  · split
    · exact ⟨rfl, h⟩
    · exact ⟨congrArg (fun made => Except.ok (some made)) hattach.1, hattach.2⟩

/-! ### Reading -/

/-- Of the marks alive all that wait for a character are told of it, so the roster does not matter:
those that are not on it were told of theirs before. -/
theorem Sound.getElem?_marks_arrive (h : f.Sound origin alive) (c : Char) (id : MarkId) :
    (f.asked.arrive alive c).marks[id]? =
      if alive id then f.marks[id]?.map (Mark.told f.readPosition f.readPosition)
      else f.marks[id]? := by
  have harrive := Feed.getElem?_marks_arrive alive c f.asked id
  simp only [asked, h.size] at harrive
  rw [asked, harrive]
  by_cases ha : alive id = true
  · by_cases hmem : id ∈ f.roster.entries
    · rw [if_pos ⟨hmem, ha⟩, if_pos ha]
    · have hread : (f.mark id).position < f.readPosition :=
        Nat.lt_of_not_le fun hle => hmem (h.waiting id ha hle)
      have hmark : f.marks[id]? = some (f.mark id) := by simp [Feed.mark, h.inside id ha]
      rw [if_neg fun hboth => hmem hboth.1, if_pos ha, hmark, Option.map_some,
        Mark.told_of_ne (Nat.ne_of_lt hread)]
  · rw [if_neg fun hboth => ha hboth.2, if_neg ha]

theorem Same.arrive (h : f.Same g) (hf : f.Sound origin alive) (hg : g.Sound other alive)
    (c : Char) : (f.asked.arrive alive c).Same (g.asked.arrive alive c) := by
  have hmarks : (f.asked.arrive alive c).marks = (g.asked.arrive alive c).marks := by
    apply Array.ext_getElem?
    intro id
    rw [hf.getElem?_marks_arrive, hg.getElem?_marks_arrive, h.marks, h.read]
  obtain ⟨log, hlog⟩ := arrive_eq alive c f.asked
  obtain ⟨log', hlog'⟩ := arrive_eq alive c g.asked
  rw [hlog, hlog'] at hmarks ⊢
  refine ⟨congrArg (· + 1) h.polls, congrArg (· + 1) h.read, ?_, ?_, hmarks, h.exhausted, h.fault⟩
  · simp only [asked, h.nodes, h.tail, h.read]
  · simp only [asked, h.nodes]

/-- Sources that yield the same answer the same. -/
theorem Same.pull (h : f.Same g) (hyield : origin.yield = other.yield)
    (hf : f.Sound origin alive) (hg : g.Sound other alive) :
    (f.pull alive).1 = (g.pull alive).1 ∧ (f.pull alive).2.Same (g.pull alive).2 := by
  obtain ⟨hcontent, hending⟩ := Prod.mk.inj hyield
  cases he : f.exhausted with
  | true =>
    rw [pull_of_exhausted alive he, pull_of_exhausted alive (h.exhausted.symm.trans he)]
    exact ⟨rfl, h⟩
  | false =>
    have he' : g.exhausted = false := h.exhausted.symm.trans he
    have hanswer : f.supply.poll.1.char? = g.supply.poll.1.char? := by
      rw [hf.toLinked.char?_poll he, hg.toLinked.char?_poll he', hcontent, h.read]
    rw [pull_of_not_exhausted alive he, pull_of_not_exhausted alive he', ← hanswer]
    cases hc : f.supply.poll.1.char? with
    | some c => exact ⟨rfl, h.arrive hf hg c⟩
    | none =>
      rw [(hf.toLinked.ending_of_poll he hc).2,
        (hg.toLinked.ending_of_poll he' (hanswer.symm.trans hc)).2, hending]
      obtain ⟨log, hlog⟩ := finish_eq other.ending f.asked
      obtain ⟨log', hlog'⟩ := finish_eq other.ending g.asked
      dsimp only
      rw [hlog, hlog']
      refine ⟨rfl, congrArg (· + 1) h.polls, h.read, h.nodes, rfl, h.marks, rfl, ?_⟩
      exact congrArg (Option.or _) h.fault

theorem Same.pullMany (h : f.Same g) (hyield : origin.yield = other.yield)
    (hf : f.Sound origin alive) (hg : g.Sound other alive) (n : Nat) :
    (f.pullMany alive n).Same (g.pullMany alive n) := by
  induction n generalizing f g with
  | zero => exact h
  | succ n ih =>
    obtain ⟨hanswer, hsame⟩ := h.pull hyield hf hg
    have hf' := (hf.pull fun _ hid => hid).2.sound
    have hg' := (hg.pull fun _ hid => hid).2.sound
    rw [Feed.pullMany, Feed.pullMany]
    generalize f.pull alive = r at hanswer hsame hf'
    generalize g.pull alive = r' at hanswer hsame hg'
    obtain ⟨a, f'⟩ := r
    obtain ⟨a', g'⟩ := r'
    obtain rfl := hanswer
    cases a with
    | some c => exact ih hsame hf' hg'
    | none => exact hsame

theorem Same.current (h : f.Same g) (hyield : origin.yield = other.yield)
    (hf : f.Sound origin alive) (hg : g.Sound other alive) (id : MarkId) :
    (f.current alive id).1 = (g.current alive id).1 ∧
    (f.current alive id).2.Same (g.current alive id).2 := by
  have hreach : (f.reach alive (g.mark id).position).Same (g.reach alive (g.mark id).position) := by
    rw [reach, reach, h.read]
    exact h.pullMany hyield hf hg _
  simp only [Feed.current, h.mark, h.known]
  split
  · exact ⟨rfl, h⟩
  · exact ⟨by rw [hreach.mark, hreach.known], hreach⟩

/-! ### What is shown -/

/-- As many live entries are on both rosters: those whose marks wait. -/
theorem Same.status (h : f.Same g) (hf : f.Awaits alive) (hg : g.Awaits alive) :
    (f.status alive).Tuned (g.status alive) := by
  have hlive : (f.status alive).live = (g.status alive).live := by
    rw [hf.live, hg.live, h.waiting]
  refine ⟨h.read, h.exhausted, hlive, ?_⟩
  exact congrArg Option.isSome h.fault

end Feed

/-! ### Cursors and works -/

/-- The same text, or supplies of the same kind that yield the same. -/
inductive Backing.Alike : Backing → Backing → Prop
  | text (buffer : Array Char) : Alike (.text buffer) (.text buffer)
  | supply {origin other : Supply} (yields : origin.yield = other.yield)
      (reads : origin.rooms?.isSome = other.rooms?.isSome) : Alike (.supply origin) (.supply other)

theorem Backing.Alike.refl (b : Backing) : b.Alike b := by
  cases b with
  | text buffer => exact .text buffer
  | supply origin => exact .supply rfl rfl

variable {b b' : Backing} {f g : Feed} {alive held : MarkId → Bool} {hand : List Cursor}

namespace Cursor

theorem current_same (hb : b.Alike b') (h : f.Same g) (hf : f.Serves b alive)
    (hg : g.Serves b' alive) (c : Cursor) :
    (c.current alive f).1 = (c.current alive g).1 ∧
    (c.current alive f).2.Same (c.current alive g).2 := by
  cases c with
  | finish | text _ => exact ⟨rfl, h⟩
  | mark id =>
    cases hb with
    | text buffer =>
      obtain rfl : f = g := Eq.trans hf (Eq.symm hg)
      exact ⟨rfl, Feed.Same.refl _⟩
    | supply hyield _ => exact h.current hyield hf hg id

theorem next_same (h : f.Same g) (alive : MarkId → Bool) (c : Cursor) :
    (c.next alive f).1 = (c.next alive g).1 ∧ (c.next alive f).2.Same (c.next alive g).2 := by
  cases c with
  | finish | text _ => exact ⟨rfl, h⟩
  | mark id =>
    obtain ⟨hmade, hsame⟩ := h.next alive id
    exact ⟨congrArg ofAdvance hmade, hsame⟩

theorem view_same (h : f.Same g) (c : Cursor) : c.view f = c.view g := by
  cases c <;> simp [view, h.mark]

theorem position?_same (h : f.Same g) (c : Cursor) : c.position? f = c.position? g := by
  cases c <;> simp [position?, h.mark]

theorem buffered?_same (h : f.Same g) (c : Cursor) : c.buffered? f = c.buffered? g := by
  cases c <;> simp [buffered?, Feed.buffered, h.mark, h.read]

theorem describe_same (h : f.Same g) (c : Cursor) : c.describe f = c.describe g := by
  cases c <;> simp [describe, h.mark, h.known]

end Cursor

/-- A work comes to the same over both feeds, and leaves them the same. -/
theorem Program.Ensures.same {α : Type} {Q Q' : α → Feed → List Cursor → Prop} {p : Program α}
    (hp : p.Ensures b Q f hand) (hp' : p.Ensures b' Q' g hand) (hb : b.Alike b')
    (h : f.Same g) (hf : f.Serves b (holding held hand)) (hg : g.Serves b' (holding held hand)) :
    (p.run held f).1 = (p.run held g).1 ∧ (p.run held f).2.Same (p.run held g).2 := by
  induction p generalizing f g hand with
  | done a => exact ⟨rfl, h⟩
  | current c kept k ih =>
    obtain ⟨hk, hf', -⟩ := hp.of_current hf
    obtain ⟨hk', hg', -⟩ := hp'.of_current hg
    have hw : ∀ id, holding held (c :: kept) id → holding held hand id :=
      Cursor.holding_mono hp.1
    obtain ⟨hanswer, hsame⟩ := c.current_same hb h (hf.mono hw) (hg.mono hw)
    rw [Program.run, Program.run, alive_current]
    rw [← hanswer] at hk' ⊢
    exact ih _ hk hk' hsame hf' hg'
  | next c kept k ih =>
    obtain ⟨hk, hf', -⟩ := hp.of_next hf
    obtain ⟨hk', hg', -⟩ := hp'.of_next hg
    obtain ⟨hmade, hsame⟩ := c.next_same h (holding held (c :: kept))
    rw [Program.run, Program.run, alive_next]
    rw [← hmade] at hk' hg' ⊢
    exact ih _ hk hk' hsame hf' hg'

/-- Works that run like one that comes to the same do so too, and what is made of it is the same. -/
theorem Program.same_map {α β : Type} (t : α → β) {p p' q : Program α}
    (hp : p.run held f = q.run held f) (hp' : p'.run held g = q.run held g)
    (hq : (q.run held f).1 = (q.run held g).1 ∧ (q.run held f).2.Same (q.run held g).2) :
    ((p.map t).run held f).1 = ((p'.map t).run held g).1 ∧
    ((p.map t).run held f).2.Same ((p'.map t).run held g).2 := by
  simp only [map, run_bind, hp, hp', run]
  exact ⟨congrArg t hq.1, hq.2⟩

end BranchCursor
