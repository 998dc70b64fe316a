import BranchCursor.Proofs.Tasks

/-! How far a feed has been read, whatever was done: up to the largest position inspected and not
further. A position is inspected when a cursor there is asked for its character. -/
namespace BranchCursor

/-- What is linked in a feed is what was read, in order. -/
theorem Feed.Linked.chars {origin : Supply} {f : Feed} (h : f.Linked origin) :
    f.nodes.toList.map Node.char = origin.content.take f.readPosition := by
  apply List.ext_getElem?
  intro k
  rw [List.getElem?_map, Array.getElem?_toList, List.getElem?_take]
  by_cases hk : k < f.readPosition
  · rw [h.node k hk, if_pos hk, nodeAt?, Option.map_map]
    cases origin.content[k]? <;> rfl
  · have hout : f.nodes[k]? = none := by
      rw [Array.getElem?_eq_none_iff, h.size]
      exact Nat.le_of_not_lt hk
    rw [hout, if_neg hk]
    rfl

theorem covers_zero_iff {l : List Nat} {o : Nat} : Covers l o 0 ↔ l = [] := by
  constructor
  · intro h
    apply List.eq_nil_iff_forall_not_mem.mpr
    intro q hq
    have := (h q).mp hq
    omega
  · rintro rfl
    exact covers_nil o

namespace Session

/-- The positions of a family that a step inspects. -/
def inspectedBy (i : Nat) (step : Step) (s : Session) : List Nat :=
  match s.task? step with
  | some task => if task.family = i then task.work.inspected task.held task.feed else []
  | none => []

/-- The positions of a family that steps inspect, one after the other. -/
def inspected (i : Nat) : List Step → Session → List Nat
  | [], _ => []
  | step :: later, s => s.inspectedBy i step ++ inspected i later (s.run step).2

/-- A feed over `n` characters that was read on demand, everything before `m` being wanted. -/
structure ReadFor (n m : Nat) (f : Feed) : Prop where
  read : f.readPosition = min n m
  exhausted : f.exhausted = true ↔ n < m

variable {s : Session} {i n m : Nat} {origin : Supply} {p : Place} {o : Nat} {name : String}

/-- A step reads for the positions that it inspects. -/
theorem Sound.readFor_run (hs : s.Sound) (hi : i < s.families.size)
    (hb : s.backing i = .supply origin) (h : ReadFor origin.content.length m (s.feed i))
    (step : Step) :
    ReadFor origin.content.length (max m (demand (s.inspectedBy i step)))
      ((s.run step).2.feed i) := by
  unfold inspectedBy
  cases ht : s.task? step with
  | none =>
    obtain ⟨hread, hexh⟩ := quiet_run hs ht hi
    have hzero : max m (demand []) = m := Nat.max_zero m
    rw [hzero]
    exact ⟨hread.trans h.read, by rw [hexh, h.exhausted]⟩
  | some task =>
    have hfeed := feed_run_of_task hs ht i
    dsimp only
    by_cases hfam : task.family = i
    · subst hfam
      obtain ⟨-, htf, c, o, Q, -, hserves, hensures⟩ := hs.task ht
      rw [hb] at hserves hensures
      obtain ⟨hand, -, hr⟩ := hensures.reaches hserves
      rw [if_pos rfl] at hfeed ⊢
      have hread := hr.read
      have hexh := hr.exhausted
      rw [htf, h.read] at hread
      rw [htf, h.exhausted] at hexh
      rw [hfeed, htf]
      refine ⟨?_, ?_⟩
      · rw [hread]
        omega
      · rw [hexh]
        omega
    · rw [if_neg (Ne.symm hfam)] at hfeed
      have hzero : max m (demand []) = m := Nat.max_zero m
      rw [if_neg hfam, hfeed, hzero]
      exact h

/-- Nothing is read of a source that is being opened, and no failure met. -/
theorem unread_of_open? {source : Source} {c : Cursor} {f : Feed}
    (ho : source.open? = .ok (c, f)) (hb : source.backing = .supply origin) :
    f.readPosition = 0 ∧ f.exhausted = false ∧ f.fault = none := by
  obtain ⟨options, hoptions⟩ := Source.options?_of_supply hb
  obtain ⟨supply, -, hr⟩ := Source.open?_of_options? hoptions ho
  obtain ⟨roster, log, he, -⟩ :=
    Feed.attach_cases (fun _ => false) 0 none (Feed.make supply options)
  simp only [Source.attachRoot, he] at hr
  obtain ⟨-, rfl⟩ := Prod.mk.inj hr
  exact ⟨rfl, rfl, rfl⟩

/-- Only opening a source adds a family, and it adds one at the end. -/
theorem size_run (step : Step) (s : Session) :
    (s.run step).2.families.size = s.families.size ∨
    ∃ name source c f, step = .openSource name source ∧ source.open? = .ok (c, f) ∧
      (s.run step).2.families = s.families.push { name, source, feed := f } := by
  have hcarry : ∀ (t : Session) i w, (t.carryOut i w).2.families.size = t.families.size := by
    intro t i w
    rw [carryOut, families_conclude]
    exact size_setFeed i _ t
  have hgoes := goes_run step s
  generalize (s.run step).2 = t at hgoes ⊢
  cases hgoes with
  | still step => exact Or.inl rfl
  | opened name ho => exact Or.inr ⟨name, _, _, _, rfl, ho, rfl⟩
  | cursor hget step =>
    refine Or.inl ?_
    cases hworks : step.works with
    | true =>
      rw [onCursor_of_works hworks]
      exact hcarry _ _ _
    | false => rw [(families_of_not_works hworks _ _ s).1]
  | handle hget step =>
    refine Or.inl ?_
    cases step with
    | cursorAt position target =>
      simp only [onHandle]
      split <;> exact size_setFeed _ _ s
    | takeFault | takeLog => exact size_setFeed _ _ s
    | status | describe | drop => rfl
  | iterator hget step =>
    refine Or.inl ?_
    cases step with
    | take n => exact hcarry _ _ _
    | drop => rfl

/-- A family that a step adds was just opened. -/
theorem opened_run (hi : s.families.size ≤ i) {step : Step}
    (hi' : i < (s.run step).2.families.size) :
    ∃ (source : Source) (c : Cursor), source.open? = .ok (c, (s.run step).2.feed i) ∧
      (s.run step).2.source? i = some source := by
  rcases size_run step s with hsize | ⟨name, source, c, f, -, ho, hf⟩
  · omega
  · rw [hf, Array.size_push] at hi'
    have hlast : i = s.families.size := by omega
    have hnew : (s.run step).2.families[i]? = some { name, source, feed := f } := by
      rw [hf, hlast]
      exact Array.getElem?_push_size
    refine ⟨source, c, ?_, ?_⟩
    · simp only [feed, hnew]
      exact ho
    · simp only [source?, hnew, Option.map_some]

/-- A family that a step adds was not read, and had no positions to inspect before. -/
theorem Sound.readFor_run_new (hs : s.Sound) (hi : s.families.size ≤ i) (step : Step) :
    s.inspectedBy i step = [] ∧
    ∀ origin, i < (s.run step).2.families.size → (s.run step).2.backing i = .supply origin →
      ReadFor origin.content.length 0 ((s.run step).2.feed i) := by
  constructor
  · unfold inspectedBy
    cases ht : s.task? step with
    | none => rfl
    | some task =>
      obtain ⟨hlt, -⟩ := hs.task ht
      exact if_neg (by omega)
  · intro origin hi' hb
    obtain ⟨source, c, ho, hsource⟩ := opened_run hi hi'
    obtain ⟨hread, hexh, -⟩ := unread_of_open? ho ((backing_of_source? hsource).symm.trans hb)
    exact ⟨hread.trans (Nat.min_zero _).symm, by simp [hexh]⟩

/-- Steps read for the positions that they inspect, and a new family starts unread. -/
theorem Sound.readFor_runAll (hs : s.Sound) (steps : List Step)
    (hi : i < (Session.runAll steps s).2.families.size)
    (hb : (Session.runAll steps s).2.backing i = .supply origin)
    (h : i < s.families.size → ReadFor origin.content.length m (s.feed i))
    (hnew : s.families.size ≤ i → m = 0) :
    ReadFor origin.content.length (max m (demand (inspected i steps s)))
      ((Session.runAll steps s).2.feed i) := by
  induction steps generalizing s m with
  | nil =>
    have hzero : max m (demand (inspected i [] s)) = m := Nat.max_zero m
    rw [hzero]
    exact h hi
  | cons step later ih =>
    obtain ⟨hs', hleads⟩ := hs.run step
    have hleads' := (hs'.runAll later).2
    rw [inspected, demand_append, ← Nat.max_assoc]
    by_cases hlt : i < s.families.size
    · have hb' : s.backing i = .supply origin := by
        rw [← hleads.backing i hlt,
          ← hleads'.backing i (Nat.lt_of_lt_of_le hlt hleads.size)]
        exact hb
      refine ih hs' hi hb (fun _ => hs.readFor_run hlt hb' (h hlt) step) fun hge => ?_
      exact absurd (Nat.lt_of_lt_of_le hlt hleads.size) (Nat.not_lt.mpr hge)
    · have hge := Nat.le_of_not_lt hlt
      obtain ⟨hnone, hfresh⟩ := hs.readFor_run_new hge step
      have hzero : max m (demand (s.inspectedBy i step)) = 0 := by
        rw [hnone, hnew hge]
        rfl
      rw [hzero]
      refine ih hs' hi hb (fun hlt' => ?_) fun _ => rfl
      refine hfresh origin hlt' ?_
      rw [← hleads'.backing i hlt']
      exact hb

/-! ### What each step inspects -/

theorem Sound.covers_cursor (hs : s.Sound) (hget : s.cursors.get? name = some p)
    (hp : s.Stands p o) (hb : s.backing p.family = .supply origin) (step : CursorStep)
    (hok : ∀ patterns likeness, step = .scan patterns likeness → ∃ found,
      Findings.ofLane likeness.like patterns 0 1 0 (origin.content.drop o) #[] = .ok found) :
    Covers (s.inspectedBy p.family (.cursor name step)) o
      (min (step.wants (origin.content.drop o))
        (p.cursor.ahead origin.content (s.feed p.family))) := by
  have hserves := (hs.serves p.family).mono (holding_of_mem (mem_places_of_cursor hget))
  have hc := hp.2
  rw [hb] at hserves hc
  simp only [inspectedBy, task?, hget, Option.map_some, if_true]
  exact step.covers_work hserves hc hok

theorem Sound.covers_iterator (hs : s.Sound) (hget : s.iterators.get? name = some p)
    (hp : s.Stands p o) (hb : s.backing p.family = .supply origin) (n : Nat) :
    Covers (s.inspectedBy p.family (.iterator name (.take n))) o
      (min n (p.cursor.ahead origin.content (s.feed p.family))) := by
  have hserves := hs.serves_release hget
  have hc := hp.2
  rw [hb] at hserves hc
  simp only [inspectedBy, task?, hget, Option.map_some, if_true, iteration,
    Program.inspected_map]
  exact Program.covers_iterate n #[] hserves hc (Cursor.Within.refl _)

theorem Sound.answer_scan (hs : s.Sound) (hget : s.cursors.get? name = some p)
    (hp : s.Stands p o) {patterns : List (List Char)} {likeness : Likeness} {hits : Array Hit}
    (ha : (s.run (.cursor name (.scan patterns likeness))).1.answer = .hits hits) :
    Findings.ofLane likeness.like patterns 0 1 0 ((s.backing p.family).content.drop o) #[] =
      .ok hits := by
  have h := hs.answer_run hget hp (.scan patterns likeness) rfl
  rw [ha] at h
  revert h
  cases Findings.ofLane likeness.like patterns 0 1 0 ((s.backing p.family).content.drop o) #[] with
  | error cause =>
    intro h
    cases h
  | ok found =>
    intro h
    rw [Answer.hits.inj h]

/-- A step on a named cursor in a feed inspects what it wants from the cursor's position on. -/
theorem Sound.covers_mark {id : MarkId} (hs : s.Sound) (hb : s.backing i = .supply origin)
    (hget : s.cursors.get? name = some ⟨.mark id, i⟩) (step : CursorStep)
    (hscan : ∀ patterns likeness, step = .scan patterns likeness →
      ∃ hits, (s.run (.cursor name step)).1.answer = .hits hits) :
    Covers (s.inspectedBy i (.cursor name step)) ((s.feed i).mark id).position
      (min (step.wants (origin.content.drop ((s.feed i).mark id).position))
        ((Cursor.mark id).ahead origin.content (s.feed i))) := by
  obtain ⟨o, hp⟩ := hs.placed _ (mem_places_of_cursor hget)
  have ho : ((s.feed i).mark id).position = o := hp.2.2.2
  rw [ho]
  refine hs.covers_cursor hget hp hb step ?_
  rintro patterns likeness rfl
  obtain ⟨hits, hanswer⟩ := hscan patterns likeness rfl
  have h := hs.answer_scan hget hp hanswer
  dsimp only at h
  rw [hb] at h
  exact ⟨hits, h⟩

/-- Past the end nothing is inspected. -/
theorem Sound.inspects_nothing_past_end (hs : s.Sound) (hb : s.backing i = .supply origin)
    (hget : s.cursors.get? name = some ⟨.finish, i⟩) (step : CursorStep) :
    s.inspectedBy i (.cursor name step) = [] := by
  obtain ⟨o, hp⟩ := hs.placed _ (mem_places_of_cursor hget)
  have hend : origin.content.length ≤ o := by
    have h := hp.2
    dsimp only at h
    rw [hb] at h
    exact h
  have h := hs.covers_cursor hget hp hb step (by
    rintro patterns likeness -
    exact ⟨#[], by rw [List.drop_eq_nil_of_le hend]; rfl⟩)
  rw [Cursor.ahead, Nat.min_zero] at h
  exact covers_zero_iff.mp h

/-- Whatever is done, a source is read exactly as far as positions were inspected, or to its end,
which is found once if a position beyond it was; and each step inspects what it wants. -/
theorem read_exactly_inspected (steps : List Step) {i : Nat} {origin : Supply}
    (hb : (runAll steps {}).2.backing i = .supply origin) :
    let s := (runAll steps {}).2
    let f := s.feed i
    let content := origin.content
    let wanted := demand (inspected i steps {})
    f.readPosition = min content.length wanted ∧
    (f.exhausted = true ↔ content.length < wanted) ∧
    f.polls = f.readPosition + (if f.exhausted then 1 else 0) ∧
    f.supply = origin.after f.polls ∧
    f.nodes.toList.map Node.char = content.take f.readPosition ∧
    (∀ name id step, s.cursors.get? name = some ⟨.mark id, i⟩ →
      (∀ patterns likeness, step = .scan patterns likeness →
        ∃ hits, (s.run (.cursor name step)).1.answer = .hits hits) →
      Covers (s.inspectedBy i (.cursor name step)) (f.mark id).position
        (min (step.wants (content.drop (f.mark id).position))
          ((Cursor.mark id).ahead content f))) ∧
    (∀ name id n, s.iterators.get? name = some ⟨.mark id, i⟩ →
      Covers (s.inspectedBy i (.iterator name (.take n))) (f.mark id).position
        (min n ((Cursor.mark id).ahead content f))) ∧
    (∀ name step, s.cursors.get? name = some ⟨.finish, i⟩ →
      s.inspectedBy i (.cursor name step) = []) ∧
    (∀ name n, s.iterators.get? name = some ⟨.finish, i⟩ →
      s.inspectedBy i (.iterator name (.take n)) = []) ∧
    ∀ step, s.task? step = none → s.inspectedBy i step = [] := by
  intro s f content wanted
  have hs : s.Sound := sound_runAll steps
  have hi : i < s.families.size := by
    by_contra hout
    have hnone : s.families[i]? = none := Array.getElem?_eq_none_iff.mpr (Nat.le_of_not_lt hout)
    have hb' : s.backing i = .supply origin := hb
    simp only [backing, hnone] at hb'
    cases hb'
  have hread := sound_empty.readFor_runAll (m := 0) steps hi hb
    (fun h => absurd h (Nat.not_lt_zero i)) fun _ => rfl
  rw [Nat.zero_max] at hread
  have hlinked : f.Linked origin := by
    have hserves := hs.serves i
    rw [hb] at hserves
    exact hserves.toLinked
  have hpolls : f.polls = f.readPosition + (if f.exhausted then 1 else 0) := by
    rw [hlinked.polls]
    cases f.exhausted <;> rfl
  refine ⟨hread.read, hread.exhausted, hpolls, hlinked.supply, hlinked.chars, ?_, ?_, ?_, ?_, ?_⟩
  · intro name id step hget hscan
    exact hs.covers_mark hb hget step hscan
  · intro name id n hget
    obtain ⟨o, hp⟩ := hs.placed _ (mem_places_of_iterator hget)
    have ho : (f.mark id).position = o := hp.2.2.2
    rw [ho]
    exact hs.covers_iterator hget hp hb n
  · intro name step hget
    exact hs.inspects_nothing_past_end hb hget step
  · intro name n hget
    obtain ⟨o, hp⟩ := hs.placed _ (mem_places_of_iterator hget)
    have h := hs.covers_iterator hget hp hb n
    rw [Cursor.ahead, Nat.min_zero] at h
    exact covers_zero_iff.mp h
  · intro step hnone
    simp only [inspectedBy, hnone]

/-- The root reads one character ahead and the cursor after it is compared with a pattern that
differs at once: two characters were asked for. To collect the rest asks there and at the end. -/
theorem read_exactly_inspected_lookahead :
    let origin := Supply.scripted [.char 'a', .char 'b', .finished, .char 'c']
    let steps := [.openSource "r" (.scripted [.char 'a', .char 'b', .finished, .char 'c'] {}),
      .cursor "r" (.peek 1), .cursor "r" (.next "t"),
      .cursor "t" (.compare ['x', 'y'] .exact false)]
    let s := (runAll steps {}).2
    s.backing 0 = .supply origin ∧
    (s.feed 0).readPosition = 2 ∧ (s.feed 0).exhausted = false ∧ (s.feed 0).polls = 2 ∧
    s.cursors.get? "t" = some ⟨.mark 2, 0⟩ ∧
    Covers (s.inspectedBy 0 (.cursor "t" .collect)) 1 2 := by
  intro origin steps s
  have hb : s.backing 0 = .supply origin := by decide +kernel
  have hname : s.cursors.get? "t" = some ⟨.mark 2, 0⟩ := by decide +kernel
  have hlength : origin.content.length = 2 := by decide +kernel
  have hwanted : demand (inspected 0 steps {}) = 2 := by decide +kernel
  have hposition : ((s.feed 0).mark 2).position = 1 := by decide +kernel
  have hahead : (Cursor.mark 2).ahead origin.content (s.feed 0) = 2 := by decide +kernel
  have hwants : CursorStep.collect.wants (origin.content.drop 1) = 2 := by decide +kernel
  clear_value steps
  obtain ⟨hread, hexh, hpolls, -, -, hcovers, -⟩ := read_exactly_inspected steps hb
  rw [hlength, hwanted] at hread hexh
  have hopen : (s.feed 0).exhausted = false := by
    rw [Bool.eq_false_iff]
    exact fun he => absurd (hexh.mp he) (Nat.lt_irrefl 2)
  have h := hcovers "t" 2 .collect hname (by
    intro patterns likeness he
    cases he)
  rw [hposition, hwants, hahead] at h
  rw [hread, hopen] at hpolls
  exact ⟨hb, hread, hopen, hpolls, hname, h⟩

end Session

end BranchCursor
