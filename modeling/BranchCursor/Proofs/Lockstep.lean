import BranchCursor.Proofs.Answers

/-! Reading on demand refines holding a text in memory.
Two sessions do the same with cursors of the same names, one over a text and one over a feed of
the same content; whatever else is done to the feed, they show the same. -/
namespace BranchCursor

/-- Where a cursor in a text and one in a feed stand for each other: at the same index, or past
the end, where the one in the feed may have gone on. -/
def CursorView.Agrees (length : Nat) : CursorView → CursorView → Prop
  | .text i, .mark position => position = i
  | .finish, .mark position => length ≤ position
  | .finish, .finish => True
  | .text _, .finish | .text _, .text _ | .finish, .text _ | .mark _, _ => False

namespace Session

/-- Answers are the same but for the kind of cursor shown. -/
def Answer.Agrees (length : Nat) : Answer → Answer → Prop
  | .cursor v, .cursor w => v.Agrees length w
  | a, b => a = b

/-- The steps that a cursor in a text and one in a feed both do alike. -/
def Step.isCommon : Step → Bool
  | cursor _ step =>
    match step with
    | .current | .next _ | .skip .. | .clone _ | .peek _ | .collect | .compare .. | .scan ..
    | .iterate _ | .drop => true
    | .position | .isFinish | .buffered | .remaining | .describe | .handle _ => false
  | iterator .. => true
  | openSource .. | probe _ | handle .. => false

/-- The name of the cursor or iterator that a step is about. -/
def Step.subject : Step → String
  | openSource name _ | probe name | cursor name _ | handle name _ | iterator name _ => name

/-- A step of both sessions, or one of the session over the feed alone. -/
inductive Move where
  | both (step : Step)
  | aside (step : Step)

/-- Common steps are about shared names; what is done aside gives away no shared name and uses no
shared iterator, but may ask shared cursors for anything. -/
def Move.allowed (shared : String → Bool) : Move → Bool
  | both step => step.isCommon && shared step.subject
  | aside step => !step.binds.any shared && !step.turns.any shared

/-- What both sessions answer, pair by pair, and how they end. -/
def lockstep : List Move → Session → Session → List (Answer × Answer) × Session × Session
  | [], s, t => ([], s, t)
  | .both step :: later, s, t =>
    let a := s.run step
    let b := t.run step
    let rest := lockstep later a.2 b.2
    ((a.1.answer, b.1.answer) :: rest.1, rest.2)
  | .aside step :: later, s, t => lockstep later s (t.run step).2

/-- A cursor in a text and one in a feed, over the same content and at the same offset. -/
structure Paired (content : List Char) (s t : Session) (p q : Place) : Prop where
  text : (s.backing p.family).isText = true ∧ (s.backing p.family).content = content
  supply : (t.backing q.family).isText = false ∧ (t.backing q.family).content = content
  stands : ∃ o, s.Stands p o ∧ t.Stands q o

/-- All cursors and iterators of shared names are paired. -/
structure Alike (shared : String → Bool) (content : List Char) (s t : Session) : Prop where
  left : s.Sound
  right : t.Sound
  cursors : ∀ name, shared name = true →
    Option.Rel (Paired content s t) (s.cursors.get? name) (t.cursors.get? name)
  iterators : ∀ name, shared name = true →
    Option.Rel (Paired content s t) (s.iterators.get? name) (t.iterators.get? name)

variable {shared : String → Bool} {content : List Char} {s s' t t' : Session} {p q : Place}
  {o : Nat} {name target : String}

/-- Cursors that take the place of paired ones, at one offset, are paired. -/
theorem Paired.moved (h : Paired content s t p q) (hs : s.Leads s') (ht : t.Leads t')
    {c d : Cursor} (hc : s'.Stands ⟨c, p.family⟩ o) (hd : t'.Stands ⟨d, q.family⟩ o) :
    Paired content s' t' ⟨c, p.family⟩ ⟨d, q.family⟩ := by
  obtain ⟨_, hp, hq⟩ := h.stands
  refine ⟨?_, ?_, o, hc, hd⟩
  · dsimp only
    rw [hs.backing p.family hp.1]
    exact h.text
  · dsimp only
    rw [ht.backing q.family hq.1]
    exact h.supply

theorem Paired.leads (h : Paired content s t p q) (hs : s.Leads s') (ht : t.Leads t') :
    Paired content s' t' p q := by
  obtain ⟨o, hp, hq⟩ := h.stands
  exact h.moved hs ht (hp.leads hs) (hq.leads ht)

/-- Paired cursors show the same place. -/
theorem Paired.agrees (h : Paired content s t p q) :
    (p.cursor.view (s.feed p.family)).Agrees content.length
      (q.cursor.view (t.feed q.family)) := by
  obtain ⟨⟨htext, hleft⟩, ⟨hsupply, hright⟩, o, ⟨-, hp⟩, ⟨-, hq⟩⟩ := h
  generalize s.backing p.family = b at *
  generalize t.backing q.family = b' at *
  have hq' : q.cursor = .finish ∧ content.length ≤ o ∨
      q.cursor.view (t.feed q.family) = .mark o := by
    cases hc : q.cursor with
    | finish =>
      rw [hc, Cursor.Stands, hright] at hq
      exact Or.inl ⟨rfl, hq⟩
    | text u =>
      rw [hc] at hq
      rw [hq.1] at hsupply
      cases hsupply
    | mark id =>
      rw [hc] at hq
      exact Or.inr (congrArg CursorView.mark hq.2.2)
  cases hc : p.cursor with
  | finish =>
    rw [hc, Cursor.Stands, hleft] at hp
    rcases hq' with ⟨hq', -⟩ | hq'
    · rw [hq']
      trivial
    · rw [hq']
      exact hp
  | text u =>
    rw [hc] at hp
    obtain ⟨rfl, rfl⟩ := hp
    have hlt : u.index < content.length := by
      rw [← hleft]
      simpa [Backing.content] using u.inside
    rcases hq' with ⟨-, hle⟩ | hq'
    · exact absurd hlt (Nat.not_lt.mpr hle)
    · rw [hq']
      rfl
  | mark id =>
    rw [hc] at hp
    have hmark := hp.1
    rw [htext] at hmark
    cases hmark

theorem rel_leads {x y : Option Place} (h : Option.Rel (Paired content s t) x y)
    (hs : s.Leads s') (ht : t.Leads t') : Option.Rel (Paired content s' t') x y := by
  cases h with
  | none => exact Option.Rel.none
  | some h => exact Option.Rel.some (h.leads hs ht)

/-- What is done aside leaves everything shared as it is. -/
theorem Alike.aside (h : Alike shared content s t) {step : Step}
    (hstep : (Move.aside step).allowed shared = true) : Alike shared content s (t.run step).2 := by
  obtain ⟨hsound, hleads⟩ := h.right.run step
  have hleaves := h.right.leaves_run step
  rw [Move.allowed, Bool.and_eq_true, Bool.not_eq_true', Bool.not_eq_true'] at hstep
  have hfree : ∀ name, shared name = true →
      step.binds ≠ some name ∧ step.turns ≠ some name := by
    intro name hname
    constructor
    · intro hb
      rw [hb, Option.any_some, hname] at hstep
      cases hstep.1
    · intro hb
      rw [hb, Option.any_some, hname] at hstep
      cases hstep.2
  refine ⟨h.left, hsound, ?_, ?_⟩
  · intro name hname
    rw [hleaves.cursors name (hfree name hname).1]
    exact rel_leads (h.cursors name hname) (Leads.refl s) hleads
  · intro name hname
    rw [hleaves.iterators name (hfree name hname).2]
    exact rel_leads (h.iterators name hname) (Leads.refl s) hleads

/-- After a common step only what it changes itself is to be looked at. -/
theorem Alike.after (h : Alike shared content s t) (step : Step)
    (hbinds : ∀ name, step.binds = some name → Option.Rel
      (Paired content (s.run step).2 (t.run step).2)
      ((s.run step).2.cursors.get? name) ((t.run step).2.cursors.get? name))
    (hturns : ∀ name, step.turns = some name → Option.Rel
      (Paired content (s.run step).2 (t.run step).2)
      ((s.run step).2.iterators.get? name) ((t.run step).2.iterators.get? name)) :
    Alike shared content (s.run step).2 (t.run step).2 := by
  obtain ⟨hsound, hleads⟩ := h.left.run step
  obtain ⟨hsound', hleads'⟩ := h.right.run step
  have hleaves := h.left.leaves_run step
  have hleaves' := h.right.leaves_run step
  refine ⟨hsound, hsound', ?_, ?_⟩
  · intro name hname
    by_cases hb : step.binds = some name
    · exact hbinds name hb
    · rw [hleaves.cursors name hb, hleaves'.cursors name hb]
      exact rel_leads (h.cursors name hname) hleads hleads'
  · intro name hname
    by_cases hb : step.turns = some name
    · exact hturns name hb
    · rw [hleaves.iterators name hb, hleaves'.iterators name hb]
      exact rel_leads (h.iterators name hname) hleads hleads'

theorem Answer.agrees_refl {length : Nat} {a : Answer} (h : ∀ v, a ≠ .cursor v) :
    a.Agrees length a := by
  cases a with
  | cursor v => exact absurd rfl (h v)
  | _ => rfl

/-- Steps that the content answers are answered alike, and change neither names nor iterators. -/
theorem Alike.answered (h : Alike shared content s t) {step : CursorStep}
    (hget : s.cursors.get? name = some p) (hget' : t.cursors.get? name = some q)
    (hpq : Paired content s t p q) {a : List Char → Answer}
    (ha : ∀ rest, step.answer? rest = some (a rest)) (hview : ∀ rest v, a rest ≠ .cursor v)
    (hbinds : (Step.cursor name step).binds = none)
    (hturns : (Step.cursor name step).turns = none) :
    (s.run (.cursor name step)).1.answer.Agrees content.length
      (t.run (.cursor name step)).1.answer ∧
    Alike shared content (s.run (.cursor name step)).2 (t.run (.cursor name step)).2 := by
  obtain ⟨o, hp, hq⟩ := hpq.stands
  refine ⟨?_, h.after _ ?_ ?_⟩
  · rw [h.left.answer_run hget hp step (ha _), h.right.answer_run hget' hq step (ha _),
      hpq.text.2, hpq.supply.2]
    exact Answer.agrees_refl (hview _)
  · intro name hb
    rw [hbinds] at hb
    cases hb
  · intro name hb
    rw [hturns] at hb
    cases hb

/-- Steps that name a cursor further on show and name paired ones. -/
theorem Alike.named (h : Alike shared content s t) {step : CursorStep} {n : Nat}
    (hget : s.cursors.get? name = some p) (hget' : t.cursors.get? name = some q)
    (hpq : Paired content s t p q) (ht : step.target? = some (target, n))
    (hbinds : (Step.cursor name step).binds = some target)
    (hturns : (Step.cursor name step).turns = none) :
    (s.run (.cursor name step)).1.answer.Agrees content.length
      (t.run (.cursor name step)).1.answer ∧
    Alike shared content (s.run (.cursor name step)).2 (t.run (.cursor name step)).2 := by
  obtain ⟨o, hp, hq⟩ := hpq.stands
  obtain ⟨-, hleads⟩ := h.left.run (.cursor name step)
  obtain ⟨-, hleads'⟩ := h.right.run (.cursor name step)
  obtain ⟨d, g, hrun, hd⟩ := h.left.onCursor_of_target hget hp step ht
  obtain ⟨d', g', hrun', hd'⟩ := h.right.onCursor_of_target hget' hq step ht
  obtain ⟨hanswer, hstate⟩ := run_cursor hget step
  obtain ⟨hanswer', hstate'⟩ := run_cursor hget' step
  rw [← hstate] at hd
  rw [← hstate'] at hd'
  have hpair := hpq.moved hleads hleads' hd hd'
  refine ⟨?_, h.after _ ?_ ?_⟩
  · have hview := hpair.agrees
    rw [hstate, hstate', hrun, hrun'] at hview
    rw [hanswer, hanswer', hrun, hrun']
    exact hview
  · intro name' hb
    rw [hbinds] at hb
    cases hb
    rw [hstate, hstate'] at hpair ⊢
    rw [hrun, hrun'] at hpair ⊢
    simp only [introduce, nameCursor, Named.get?_put_self] at hpair ⊢
    exact Option.Rel.some hpair
  · intro name' hb
    rw [hturns] at hb
    cases hb

/-- A common step on cursors is answered alike and keeps the sessions alike. -/
theorem Alike.cursor (h : Alike shared content s t) {step : CursorStep}
    (hcommon : (Step.cursor name step).isCommon = true) (hname : shared name = true) :
    (s.run (.cursor name step)).1.answer.Agrees content.length
      (t.run (.cursor name step)).1.answer ∧
    Alike shared content (s.run (.cursor name step)).2 (t.run (.cursor name step)).2 := by
  have hrel := h.cursors name hname
  generalize hget : s.cursors.get? name = x at hrel
  generalize hget' : t.cursors.get? name = y at hrel
  cases hrel with
  | none =>
    simp only [run, hget, hget']
    exact ⟨rfl, h⟩
  | some hpq =>
    obtain ⟨-, hleads⟩ := h.left.run (.cursor name step)
    obtain ⟨-, hleads'⟩ := h.right.run (.cursor name step)
    have hlater := hpq.leads hleads hleads'
    have hrun := run_cursor hget step
    have hrun' := run_cursor hget' step
    cases step with
    | current | peek _ | collect =>
      exact h.answered hget hget' hpq (fun _ => rfl) (fun _ _ hv => by cases hv) rfl rfl
    | compare pattern likeness traced =>
      refine h.answered hget hget' hpq (fun _ => rfl) ?_ rfl rfl
      intro rest v
      unfold verdict
      split
      · simp
      · split <;> simp
    | scan patterns likeness =>
      refine h.answered hget hget' hpq (fun _ => rfl) ?_ rfl rfl
      intro rest v
      unfold findings
      split <;> simp
    | next _ | skip _ _ | clone _ => exact h.named hget hget' hpq rfl rfl rfl
    | iterate target =>
      refine ⟨?_, h.after _ ?_ ?_⟩
      · rw [hrun.1, hrun'.1]
        rfl
      · intro name' hb
        cases hb
      · intro name' hb
        cases hb
        rw [hrun.2, hrun'.2] at hlater ⊢
        simp only [onCursor, Named.get?_put_self] at hlater ⊢
        exact Option.Rel.some hlater
    | drop =>
      refine ⟨?_, h.after _ ?_ ?_⟩
      · rw [hrun.1, hrun'.1]
        rfl
      · intro name' hb
        cases hb
        rw [hrun.2, hrun'.2]
        simp only [onCursor, Named.get?_erase_self]
        exact Option.Rel.none
      · intro name' hb
        cases hb
    | position | isFinish | buffered | remaining | describe | handle _ => cases hcommon

/-- So is a step on iterators. -/
theorem Alike.iterator (h : Alike shared content s t) (step : IteratorStep)
    (hname : shared name = true) :
    (s.run (.iterator name step)).1.answer.Agrees content.length
      (t.run (.iterator name step)).1.answer ∧
    Alike shared content (s.run (.iterator name step)).2 (t.run (.iterator name step)).2 := by
  have hrel := h.iterators name hname
  generalize hget : s.iterators.get? name = x at hrel
  generalize hget' : t.iterators.get? name = y at hrel
  cases hrel with
  | none =>
    simp only [run, hget, hget']
    exact ⟨rfl, h⟩
  | some hpq =>
    obtain ⟨-, hleads⟩ := h.left.run (.iterator name step)
    obtain ⟨-, hleads'⟩ := h.right.run (.iterator name step)
    obtain ⟨o, hp, hq⟩ := hpq.stands
    cases step with
    | take n =>
      obtain ⟨hanswer, -, d, hiterators, hd⟩ := h.left.run_take hget hp n
      obtain ⟨hanswer', -, d', hiterators', hd'⟩ := h.right.run_take hget' hq n
      rw [hpq.text.2] at hanswer hd
      rw [hpq.supply.2] at hanswer' hd'
      refine ⟨?_, h.after _ ?_ ?_⟩
      · rw [hanswer, hanswer']
        rfl
      · intro name' hb
        cases hb
      · intro name' hb
        cases hb
        rw [hiterators, hiterators', Named.get?_put_self, Named.get?_put_self]
        exact Option.Rel.some (hpq.moved hleads hleads' hd hd')
    | drop =>
      have hrun := run_iterator hget .drop
      have hrun' := run_iterator hget' .drop
      refine ⟨?_, h.after _ ?_ ?_⟩
      · rw [hrun.1, hrun'.1]
        rfl
      · intro name' hb
        cases hb
      · intro name' hb
        cases hb
        rw [hrun.2, hrun'.2]
        simp only [onIterator, release, Named.get?_erase_self]
        exact Option.Rel.none

/-- Sessions that are alike stay so, and answer alike all along. -/
theorem Alike.lockstep (h : Alike shared content s t) (moves : List Move)
    (hmoves : ∀ m ∈ moves, m.allowed shared = true) :
    let r := lockstep moves s t
    (∀ pair ∈ r.1, pair.1.Agrees content.length pair.2) ∧
    Alike shared content r.2.1 r.2.2 := by
  induction moves generalizing s t with
  | nil =>
    refine ⟨?_, h⟩
    intro pair hpair
    cases hpair
  | cons move later ih =>
    have hlater : ∀ m ∈ later, m.allowed shared = true := fun m hm =>
      hmoves m (List.mem_cons_of_mem _ hm)
    have hmove := hmoves move List.mem_cons_self
    cases move with
    | aside step => exact ih (h.aside hmove) hlater
    | both step =>
      rw [Move.allowed, Bool.and_eq_true] at hmove
      obtain ⟨hcommon, hname⟩ := hmove
      have hstep : (s.run step).1.answer.Agrees content.length (t.run step).1.answer ∧
          Alike shared content (s.run step).2 (t.run step).2 := by
        cases step with
        | cursor name step => exact h.cursor hcommon hname
        | iterator name step => exact h.iterator step hname
        | openSource _ _ | probe _ | handle _ _ => cases hcommon
      obtain ⟨hagrees, halike⟩ := ih hstep.2 hlater
      exact ⟨List.forall_mem_cons.mpr ⟨hstep.1, hagrees⟩, halike⟩

/-- A session in which one root was opened and nothing else done. -/
theorem opened (source : Source) {c : Cursor} {f : Feed} (ho : source.open? = .ok (c, f))
    (root : String) :
    let s := (({} : Session).run (.openSource root source)).2
    s.Sound ∧ s.cursors = [(root, ⟨c, 0⟩)] ∧ s.iterators = [] ∧
    s.backing 0 = source.backing ∧ s.Stands ⟨c, 0⟩ source.start := by
  obtain ⟨-, -, hback, hstands, -⟩ := sound_empty.pushFamily ho root
  have hsound := (sound_empty.run (.openSource root source)).1
  simp only [run, openSource, ho] at hsound ⊢
  exact ⟨hsound, rfl, rfl, hback, hstands.leads (leads_of_families rfl)⟩

theorem backing_of_isLazy {source : Source} (h : source.isLazy = true) :
    source.backing.isText = false ∧ source.start = 0 := by
  cases source with
  | text _ | textAt _ _ | nothing => cases h
  | iterated _ _ | scripted _ _ => exact ⟨rfl, rfl⟩
  | bytes input options =>
    refine ⟨?_, rfl⟩
    simp only [Source.backing]
    split <;> rfl

/-- A root over a text and a root over any source of the same content start out alike. -/
theorem alike_roots {text : Array Char} {source : Source} {c : Cursor} {f : Feed}
    (ho : source.open? = .ok (c, f)) (hlazy : source.isLazy = true)
    (hcontent : source.backing.content = text.toList) (root : String) (shared : String → Bool) :
    Alike shared text.toList (({} : Session).run (.openSource root (.text text))).2
      (({} : Session).run (.openSource root source)).2 := by
  obtain ⟨hsound, hcursors, hiterators, hback, hstands⟩ := opened (.text text) rfl root
  obtain ⟨hsound', hcursors', hiterators', hback', hstands'⟩ := opened source ho root
  obtain ⟨hkind, hstart⟩ := backing_of_isLazy hlazy
  rw [hstart] at hstands'
  refine ⟨hsound, hsound', ?_, ?_⟩
  · intro name _
    rw [hcursors, hcursors']
    by_cases hn : root = name
    · subst hn
      simp only [Named.get?, List.find?_cons, beq_self_eq_true, Option.map_some]
      refine Option.Rel.some ⟨?_, ?_, 0, hstands, hstands'⟩
      · dsimp only
        rw [hback]
        exact ⟨rfl, rfl⟩
      · dsimp only
        rw [hback']
        exact ⟨hkind, hcontent⟩
    · have hne : (root == name) = false := beq_false_of_ne hn
      simp only [Named.get?, List.find?_cons, hne, List.find?_nil, Option.map_none]
      exact Option.Rel.none
  · intro name _
    rw [hiterators, hiterators']
    exact Option.Rel.none

/-- Over any text and any source of the same content, whatever is done to the feed aside, common
steps are answered alike and lead to cursors that show the same places. -/
theorem feed_refines_text (text : Array Char) {source : Source}
    (hopen : ∃ r, source.open? = .ok r) (hlazy : source.isLazy = true)
    (hcontent : source.backing.content = text.toList) (root : String) {shared : String → Bool}
    {moves : List Move} (hmoves : ∀ m ∈ moves, m.allowed shared = true) :
    let r := lockstep moves (({} : Session).run (.openSource root (.text text))).2
      (({} : Session).run (.openSource root source)).2
    (∀ pair ∈ r.1, pair.1.Agrees text.size pair.2) ∧
    ∀ name, shared name = true → Option.Rel
      (fun p q => (p.cursor.view (r.2.1.feed p.family)).Agrees text.size
        (q.cursor.view (r.2.2.feed q.family)))
      (r.2.1.cursors.get? name) (r.2.2.cursors.get? name) := by
  intro r
  obtain ⟨⟨c, f⟩, ho⟩ := hopen
  have hroots := alike_roots ho hlazy hcontent root shared
  obtain ⟨hanswers, halike⟩ := hroots.lockstep moves hmoves
  rw [Array.length_toList] at hanswers
  refine ⟨hanswers, ?_⟩
  intro name hname
  have hrel := halike.cursors name hname
  change Option.Rel _ (r.2.1.cursors.get? name) (r.2.2.cursors.get? name) at hrel
  generalize r.2.1.cursors.get? name = x at hrel ⊢
  generalize r.2.2.cursors.get? name = y at hrel ⊢
  cases hrel with
  | none => exact Option.Rel.none
  | some h =>
    have hview := h.agrees
    rw [Array.length_toList] at hview
    exact Option.Rel.some hview

/-- A cursor past the end of two characters: meanwhile the end is found by another one, which was
asked for by its position, and the root reads ahead. -/
theorem feed_refines_text_past_end :
    let text := #['a', 'b']
    let source := Source.scripted [.char 'a', .char 'b', .finished, .char 'c'] {}
    let shared := fun name => name == "r" || name == "x"
    let moves := [Move.both (.cursor "r" (.skip 2 "x")), .aside (.cursor "r" (.handle "h")),
      .aside (.handle "h" (.cursorAt 1 "y")), .aside (.cursor "y" .collect),
      .both (.cursor "x" .current), .both (.cursor "x" (.next "x")),
      .both (.cursor "r" (.compare ['a', 'b', 'c'] .exact true)),
      .both (.cursor "r" (.scan [['b']] .exact))]
    let r := lockstep moves (({} : Session).run (.openSource "r" (.text text))).2
      (({} : Session).run (.openSource "r" source)).2
    (∃ root, source.open? = .ok root) ∧ source.isLazy = true ∧
    source.backing.content = text.toList ∧ (∀ m ∈ moves, m.allowed shared = true) ∧
    r.1.length = 5 ∧ ∀ pair ∈ r.1, pair.1.Agrees 2 pair.2 := by
  intro text source shared moves r
  have hopen : ∃ root, source.open? = .ok root := ⟨_, rfl⟩
  have hcontent : source.backing.content = text.toList := by decide +kernel
  have hmoves : ∀ m ∈ moves, m.allowed shared = true := by decide +kernel
  have hlength : r.1.length = 5 := by decide +kernel
  refine ⟨hopen, rfl, hcontent, hmoves, hlength, ?_⟩
  exact (feed_refines_text text hopen rfl hcontent "r" hmoves).1

end Session

end BranchCursor
