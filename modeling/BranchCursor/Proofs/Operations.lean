import BranchCursor.Proofs.Sound

/-! What each operation on a sound feed does: how far it reads, what it answers, and that the feed
stays sound. How far a feed has read is determined by the positions asked for alone. -/
namespace BranchCursor.Feed
variable {origin : Supply} {held alive : MarkId → Bool} {f : Feed} {id : MarkId}

/-! ### Reading on -/

theorem finish_eq (cause : Option CursorError) (f : Feed) :
    ∃ log, f.finish cause =
      { f with exhausted := true, tail := none, fault := cause.or f.fault, log } :=
  record_eq _ _ _ _

theorem extends_asked (f : Feed) : f.Extends f.asked := ⟨Nat.le_refl _, fun _ _ => rfl⟩

/-- A pull asks once, and then either a character arrives or nothing more will come. -/
theorem pull_of_not_exhausted (held : MarkId → Bool) (he : f.exhausted = false) :
    f.pull held =
      match f.supply.poll.1.char? with
      | some c => (some c, f.asked.arrive held c)
      | none => (none, f.asked.finish f.supply.poll.1.error?) := by
  cases ha : f.supply.poll.1 <;> simp [Feed.pull, he, ha, Delivery.char?, Delivery.error?, asked]

/-- The next answer of the source is the character that is to be read next. -/
theorem Linked.char?_poll (h : f.Linked origin) (he : f.exhausted = false) :
    f.supply.poll.1.char? = origin.content[f.readPosition]? := by
  have hpolls : f.polls = f.readPosition := by simpa [he] using h.polls
  rw [h.supply, hpolls, Supply.char?_poll_after h.within]

/-- An answer that is no character comes after the content, with the failure that ends it. -/
theorem Linked.ending_of_poll (h : f.Linked origin) (he : f.exhausted = false)
    (hc : f.supply.poll.1.char? = none) :
    f.readPosition = origin.content.length ∧ f.supply.poll.1.error? = origin.ending := by
  have hpolls : f.polls = f.readPosition := by simpa [he] using h.polls
  have hend : f.readPosition = origin.content.length := by
    rw [h.char?_poll he, List.getElem?_eq_none_iff] at hc
    exact Nat.le_antisymm h.within hc
  refine ⟨hend, ?_⟩
  rw [h.supply, hpolls, hend]
  rfl

/-- The end of the source keeps a feed sound if all of the content was pulled before. -/
theorem Sound.finish (h : f.Sound origin alive) (he : f.exhausted = false)
    (hr : f.readPosition = origin.content.length) (cause : Option CursorError) :
    (f.asked.finish cause).Sound origin alive := by
  obtain ⟨log, hlog⟩ := finish_eq cause f.asked
  have hpolls : f.polls + 1 = f.readPosition + 1 := by
    rw [h.polls, he]
    rfl
  rw [hlog]
  refine ⟨⟨?_, hpolls, h.within, fun _ => hr, h.size, h.node, ?_⟩, h.inside, h.head, h.waiting⟩
  · rw [asked, h.supply]
    rfl
  · intro hx
    cases hx

/-- `g` is a sound later state of `f`, in which everything before `position` was asked for. -/
structure Reaches (origin : Supply) (alive : MarkId → Bool) (position : Nat) (f g : Feed) :
    Prop where
  sound : g.Sound origin alive
  extend : f.Extends g
  read : g.readPosition = max f.readPosition (min origin.content.length position)
  exhausted : g.exhausted = true ↔ f.exhausted = true ∨ origin.content.length < position

/-- Nothing has to be read for what was pulled. -/
theorem Sound.reaches_self (h : f.Sound origin alive) {position : Nat}
    (hp : position ≤ f.readPosition) : f.Reaches origin alive position f := by
  have hw := h.within
  refine ⟨h, Extends.refl f, by omega, ?_⟩
  exact (or_iff_left (by omega)).symm

/-- A pull gives the next character of the content, or finds that there is none. -/
theorem Sound.pull (h : f.Sound origin alive) (hle : ∀ id, alive id → held id) :
    (f.pull held).1 = origin.content[f.readPosition]? ∧
    f.Reaches origin alive (f.readPosition + 1) (f.pull held).2 := by
  have hw := h.within
  cases he : f.exhausted with
  | true =>
    have hr := h.ended he
    rw [pull_of_exhausted held he]
    refine ⟨by simp [hr], h, Extends.refl f, ?_, ?_⟩
    · dsimp only
      omega
    · simp [he]
  | false =>
    rw [pull_of_not_exhausted held he, h.toLinked.char?_poll he]
    cases hc : origin.content[f.readPosition]? with
    | some c =>
      have hlt : f.readPosition < origin.content.length := (List.getElem?_eq_some_iff.mp hc).1
      obtain ⟨log, hlog⟩ := arrive_eq held c f.asked
      dsimp only
      refine ⟨rfl, h.arrive hle he hc, (extends_asked f).trans (extends_arrive held c _), ?_, ?_⟩
      · rw [hlog]
        dsimp only [asked]
        omega
      · rw [hlog]
        simp only [asked, he, Bool.false_eq_true, false_or, false_iff]
        omega
    | none =>
      have hge : origin.content.length ≤ f.readPosition := List.getElem?_eq_none_iff.mp hc
      obtain ⟨log, hlog⟩ := finish_eq f.supply.poll.1.error? f.asked
      dsimp only
      refine ⟨rfl, h.finish he (by omega) _, ?_, ?_, ?_⟩
      · rw [hlog]
        exact ⟨Nat.le_refl _, fun _ _ => rfl⟩
      · rw [hlog]
        dsimp only [asked]
        omega
      · rw [hlog]
        simpa using Or.inr (Nat.lt_succ_of_le hge)

theorem Sound.pullMany (h : f.Sound origin alive) (hle : ∀ id, alive id → held id) (n : Nat) :
    f.Reaches origin alive (f.readPosition + n) (f.pullMany held n) := by
  induction n generalizing f with
  | zero => exact h.reaches_self (Nat.le_refl _)
  | succ n ih =>
    obtain ⟨ha, hs, hext, hread, hex⟩ := h.pull hle
    have hw := h.within
    rw [Feed.pullMany]
    generalize f.pull held = r at ha hs hext hread hex
    obtain ⟨a, g⟩ := r
    dsimp only at ha hs hext hread hex
    cases a with
    | some c =>
      have hlt : f.readPosition < origin.content.length :=
        (List.getElem?_eq_some_iff.mp ha.symm).1
      obtain ⟨hs', hext', hread', hex'⟩ := ih hs
      refine ⟨hs', hext.trans hext', ?_, ?_⟩
      · dsimp only
        omega
      · dsimp only
        rw [hex', hex, or_assoc]
        apply or_congr_right
        omega
    | none =>
      have hge : origin.content.length ≤ f.readPosition := List.getElem?_eq_none_iff.mp ha.symm
      refine ⟨hs, hext, ?_, ?_⟩
      · dsimp only
        omega
      · dsimp only
        rw [hex]
        apply or_congr_right
        omega

/-- Reaching a position reads up to it and not further. -/
theorem Sound.reach (h : f.Sound origin alive) (hle : ∀ id, alive id → held id)
    (position : Nat) : f.Reaches origin alive (position + 1) (f.reach held position) := by
  obtain ⟨hs, hext, hread, hex⟩ := h.pullMany hle (position + 1 - f.readPosition)
  have hw := h.within
  refine ⟨hs, hext, ?_, ?_⟩
  · rw [Feed.reach, hread]
    omega
  · rw [Feed.reach, hex]
    apply or_congr_right
    omega

/-! ### The character of a mark -/

/-- A mark knows its character exactly if that was pulled. -/
theorem Sound.known (h : f.Sound origin alive) (hid : alive id) :
    f.known (f.mark id) =
      if (f.mark id).position < f.readPosition then origin.content[(f.mark id).position]?
      else none := by
  rw [Feed.known, h.head id hid]
  split
  · rename_i hp
    rw [Option.bind_some, h.node _ hp, nodeAt?, Option.map_map]
    cases origin.content[(f.mark id).position]? <;> rfl
  · rfl

/-- Whoever asks, a mark answers with the character of the content at its position. -/
theorem Sound.current (h : f.Sound origin alive) (hle : ∀ id, alive id → held id)
    (hid : alive id) :
    (f.current held id).1 = origin.content[(f.mark id).position]? ∧
    f.Reaches origin alive ((f.mark id).position + 1) (f.current held id).2 := by
  have hknown := h.known hid
  have hw := h.within
  unfold Feed.current
  by_cases hp : (f.mark id).position < f.readPosition
  · have hlt : (f.mark id).position < origin.content.length := by omega
    rw [if_pos hp, List.getElem?_eq_getElem hlt] at hknown
    rw [hknown, List.getElem?_eq_getElem hlt]
    exact ⟨rfl, h.reaches_self hp⟩
  · rw [if_neg hp] at hknown
    rw [hknown]
    have hr := h.reach hle (f.mark id).position
    have hread := hr.read
    refine ⟨?_, hr⟩
    dsimp only
    rw [hr.sound.known hid, hr.extend.position id (h.inside id hid)]
    by_cases hlt : (f.mark id).position < origin.content.length
    · rw [if_pos (by omega)]
    · rw [if_neg (by omega), List.getElem?_eq_none (by omega)]

/-! ### The next mark -/

theorem Sound.successor (h : f.Sound origin alive) (hid : alive id) :
    f.successor (f.mark id) =
      if (f.mark id).position + 1 < f.readPosition then some ((f.mark id).position + 1)
      else none := by
  have hw := h.within
  rw [Feed.successor, h.head id hid]
  by_cases hp : (f.mark id).position < f.readPosition
  · rw [if_pos hp, Option.bind_some, h.node _ hp, nodeAt?,
      List.getElem?_eq_getElem (by omega)]
    rfl
  · rw [if_neg hp, if_neg (by omega)]
    rfl

/-- A held mark has a next one, unless it stands at the end of an exhausted feed or beyond it. -/
theorem Sound.next (h : f.Sound origin alive) (held : MarkId → Bool) (hid : alive id) :
    f.next held id =
      if f.exhausted = true ∧ f.readPosition ≤ (f.mark id).position + 1 then (.ok none, f)
      else (.ok (some f.marks.size), (f.attach held ((f.mark id).position + 1)
        (if (f.mark id).position + 1 < f.readPosition then some ((f.mark id).position + 1)
          else none)).2) := by
  have hsucc := h.successor hid
  have hfst := fun head => (attach_spec held ((f.mark id).position + 1) head f).1
  unfold Feed.next
  dsimp only
  by_cases hp : (f.mark id).position + 1 < f.readPosition
  · rw [if_pos hp] at hsucc
    have hnot : ¬(f.exhausted = true ∧ f.readPosition ≤ (f.mark id).position + 1) := by
      rintro ⟨-, hx⟩
      omega
    rw [hsucc, if_pos hp, if_neg hnot]
    simp only [hfst]
  · rw [if_neg hp] at hsucc
    rw [hsucc, if_neg hp]
    have hpassed : f.hasPassed ((f.mark id).position + 1) = false := by
      simpa [hasPassed] using hp
    cases he : f.exhausted with
    | true => simp [hpassed, Nat.le_of_not_lt hp]
    | false => simp [hpassed, hfst]

end BranchCursor.Feed
