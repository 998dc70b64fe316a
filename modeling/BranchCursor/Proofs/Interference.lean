import BranchCursor.Proofs.Occurrences

/-! What a work comes to while others work on its feed between its operations.
`Meets` tells a work more than `Ensures` does: the end of a source, once found, is not forgotten,
and who has come past the end, or is told that nothing is there, knows that it was found. -/
namespace BranchCursor
open Cursor (Within within_of_subset)

/-- A later state of the same feed, in which the end is known if it was before. -/
structure Feed.Onward (f g : Feed) : Prop extends f.Extends g where
  ended : f.exhausted = true → g.exhausted = true

theorem Feed.Onward.refl (f : Feed) : f.Onward f := ⟨Feed.Extends.refl f, fun h => h⟩

theorem Feed.Onward.trans {f g h : Feed} (hfg : f.Onward g) (hgh : g.Onward h) : f.Onward h :=
  ⟨hfg.toExtends.trans hgh.toExtends, fun he => hgh.ended (hfg.ended he)⟩

namespace Cursor

/-- A cursor that has come past the end of its feed has found the end. -/
def Found (f : Feed) (c : Cursor) : Prop := c.isFinish = true → f.exhausted = true

variable {b : Backing} {f g : Feed} {o : Nat} {held alive : MarkId → Bool} {c : Cursor}

theorem Found.onward (hc : c.Found f) (hfg : f.Onward g) : c.Found g :=
  fun hfinish => hfg.ended (hc hfinish)

/-- Where no character is left, asking for one finds the end. -/
theorem Stands.current_onward (hc : c.Stands b f o) (held : MarkId → Bool)
    (hs : f.Serves b alive) (hle : ∀ id, alive id → held id)
    (halive : ∀ id, c.holds id → alive id) :
    f.Onward (c.current held f).2 ∧
    (b.content[o]? = none → c.Found f → (c.current held f).2.exhausted = true) := by
  cases c with
  | finish => exact ⟨Feed.Onward.refl f, fun _ hfound => hfound rfl⟩
  | text t =>
    obtain ⟨rfl, -⟩ := hc
    have hidle : f = .idle := hs
    exact ⟨Feed.Onward.refl f, fun _ _ => hidle ▸ rfl⟩
  | mark id =>
    obtain ⟨hb, -, rfl⟩ := hc
    cases b with
    | text _ => cases hb
    | supply origin =>
      obtain ⟨-, hr⟩ := Feed.Sound.current hs hle (halive id (by simp [holds]))
      refine ⟨⟨hr.extend, fun he => hr.exhausted.mpr (Or.inl he)⟩, fun hnone _ => ?_⟩
      have hend : origin.content.length ≤ (f.mark id).position := List.getElem?_eq_none_iff.mp hnone
      exact hr.exhausted.mpr (Or.inr (Nat.lt_succ_of_le hend))

/-- Going on leads past the end only if the end was found. -/
theorem Stands.next_onward (hc : c.Stands b f o) (held : MarkId → Bool)
    (hs : f.Serves b alive) (hle : ∀ id, alive id → held id)
    (halive : ∀ id, c.holds id → alive id) :
    f.Onward (c.next held f).2 ∧
    (c.Found f → (c.next held f).1.Found (c.next held f).2) := by
  cases c with
  | finish => exact ⟨Feed.Onward.refl f, fun hfound => hfound⟩
  | text t =>
    obtain ⟨rfl, -⟩ := hc
    have hidle : f = .idle := hs
    exact ⟨Feed.Onward.refl f, fun _ _ => hidle ▸ rfl⟩
  | mark id =>
    obtain ⟨hb, -, rfl⟩ := hc
    cases b with
    | text _ => cases hb
    | supply origin =>
      rcases next_mark hs hle (halive id (by simp [holds])) with
        ⟨he, -, hn⟩ | ⟨-, g, hn, -, hext, -, -, -, hexh, -⟩
      · rw [hn]
        exact ⟨Feed.Onward.refl f, fun _ _ => he⟩
      · rw [hn]
        exact ⟨⟨hext, fun he => hexh.trans he⟩, fun _ hfinish => by cases hfinish⟩

end Cursor

namespace Program

variable {α β : Type}

/-- The cursors that a work keeps during its next operation. -/
def hand : Program α → List Cursor
  | done _ => []
  | current c kept _ | next c kept _ => c :: kept

/-- Starting with some cursors in hand, the work comes to what `Q` says, whatever others do on its
feed meanwhile. -/
def Meets (b : Backing) (Q : α → Feed → List Cursor → Prop) :
    Program α → Feed → List Cursor → Prop
  | done a, f, hand => Q a f hand
  | current c kept k, f, hand =>
    Within (c :: kept) hand ∧ ∃ o, c.Stands b f o ∧
      ∀ g, f.Onward g → (b.content[o]? = none → c.Found f → g.exhausted = true) →
        (k b.content[o]?).Meets b Q g (c :: kept)
  | next c kept k, f, hand =>
    Within (c :: kept) hand ∧ ∃ o, c.Stands b f o ∧
      ∀ g d, f.Onward g → d.Stands b g (o + 1) → (c.Found f → d.Found g) →
        (k d).Meets b Q g (d :: c :: kept)

variable {b : Backing} {Q R : α → Feed → List Cursor → Prop} {p : Program α} {f g : Feed}
  {cursors : List Cursor} {held alive : MarkId → Bool}

theorem holds_eq (id : MarkId) (p : Program α) : p.holds id = p.hand.any (·.holds id) := by
  cases p <;> rfl

/-- What is ensured with less to go by is met. -/
theorem Ensures.meets (h : p.Ensures b Q f cursors) : p.Meets b Q f cursors := by
  induction p generalizing f cursors with
  | done a => exact h
  | current c kept k ih =>
    obtain ⟨hw, o, hc, hk⟩ := h
    exact ⟨hw, o, hc, fun g hg _ => ih _ (hk g hg.toExtends)⟩
  | next c kept k ih =>
    obtain ⟨hw, o, hc, hk⟩ := h
    exact ⟨hw, o, hc, fun g d hg hd _ => ih d (hk g d hg.toExtends hd)⟩

theorem Meets.imp (h : p.Meets b Q f cursors)
    (hQ : ∀ a g hand', f.Onward g → Q a g hand' → R a g hand') : p.Meets b R f cursors := by
  induction p generalizing f cursors with
  | done a => exact hQ a f cursors (Feed.Onward.refl f) h
  | current c kept k ih =>
    obtain ⟨hw, o, hc, hk⟩ := h
    refine ⟨hw, o, hc, fun g hg hfound => ih _ (hk g hg hfound) ?_⟩
    intro a g' hand' hg'
    exact hQ a g' hand' (hg.trans hg')
  | next c kept k ih =>
    obtain ⟨hw, o, hc, hk⟩ := h
    refine ⟨hw, o, hc, fun g d hg hd hfound => ih d (hk g d hg hd hfound) ?_⟩
    intro a g' hand' hg'
    exact hQ a g' hand' (hg.trans hg')

theorem Meets.bind {Q : β → Feed → List Cursor → Prop} {k : α → Program β}
    (h : p.Meets b (fun a g hand' => (k a).Meets b Q g hand') f cursors) :
    (p.bind k).Meets b Q f cursors := by
  induction p generalizing f cursors with
  | done a => exact h
  | current c kept k' ih =>
    obtain ⟨hw, o, hc, hk⟩ := h
    exact ⟨hw, o, hc, fun g hg hfound => ih _ (hk g hg hfound)⟩
  | next c kept k' ih =>
    obtain ⟨hw, o, hc, hk⟩ := h
    exact ⟨hw, o, hc, fun g d hg hd hfound => ih d (hk g d hg hd hfound)⟩

/-- A work needs none but its own cursors, unless its result is about others. -/
theorem Meets.own {Q : α → Feed → Prop} (h : p.Meets b (fun a g _ => Q a g) f cursors) :
    p.Meets b (fun a g _ => Q a g) f p.hand ∧ Within p.hand cursors := by
  cases p with
  | done a => exact ⟨h, within_of_subset (by simp [hand])⟩
  | current c kept k => exact ⟨⟨Within.refl _, h.2⟩, h.1⟩
  | next c kept k => exact ⟨⟨Within.refl _, h.2⟩, h.1⟩

/-- Others may go on with the feed as long as what the work comes to stays true of it. -/
theorem Meets.onward (h : p.Meets b Q f cursors)
    (hQ : ∀ a f g hand', f.Onward g → Q a f hand' → Q a g hand') (hfg : f.Onward g) :
    p.Meets b Q g cursors := by
  cases p with
  | done a => exact hQ a f g cursors hfg h
  | current c kept k =>
    obtain ⟨hw, o, hc, hk⟩ := h
    refine ⟨hw, o, hc.extend hfg.toExtends, fun g' hg' hfound => ?_⟩
    exact hk g' (hfg.trans hg') fun hnone hc => hfound hnone (hc.onward hfg)
  | next c kept k =>
    obtain ⟨hw, o, hc, hk⟩ := h
    refine ⟨hw, o, hc.extend hfg.toExtends, fun g' d hg' hd hfound => ?_⟩
    exact hk g' d (hfg.trans hg') hd fun hc => hfound (hc.onward hfg)

/-- One operation of a work on a feed that is sound for all marks held: it stays so for them and
for the cursors that the work has in hand then, and the rest of the work meets the same. -/
theorem Meets.step {Q : α → Feed → Prop} (h : p.Meets b (fun a g _ => Q a g) f p.hand)
    (hs : f.Serves b alive) (hown : ∀ id, p.holds id → alive id)
    (hle : ∀ id, alive id → held id) :
    let r := p.step held f
    r.1.Meets b (fun a g _ => Q a g) r.2 r.1.hand ∧
    r.2.Serves b (fun id => alive id || r.1.holds id) ∧ f.Onward r.2 := by
  have hpart : ∀ id, alive id → p.alive held id := fun id hid => by
    simp [Program.alive, hle id hid]
  cases p with
  | done a =>
    refine ⟨h, hs.mono ?_, Feed.Onward.refl f⟩
    simp [Program.step, holds]
  | current c kept k =>
    obtain ⟨-, o, hc, hk⟩ := h
    have hmine : ∀ id, c.holds id → alive id := fun id hid => hown id (by simp [holds, hid])
    have hkept : ∀ id, (c :: kept).any (·.holds id) → alive id := hown
    obtain ⟨ha, hserves, -⟩ := hc.current _ hs hpart hmine
    obtain ⟨honward, hfound⟩ := hc.current_onward _ hs hpart hmine
    obtain ⟨hmeets, hwithin⟩ := (hk _ honward hfound).own
    dsimp only [Program.step]
    rw [ha]
    refine ⟨hmeets, hserves.mono ?_, honward⟩
    intro id hid
    rw [Bool.or_eq_true, holds_eq] at hid
    exact hid.elim (fun hid => hid) fun hid => hkept id (hwithin id hid)
  | next c kept k =>
    obtain ⟨-, o, hc, hk⟩ := h
    have hmine : ∀ id, c.holds id → alive id := fun id hid => hown id (by simp [holds, hid])
    have hkept : ∀ id, (c :: kept).any (·.holds id) → alive id := hown
    obtain ⟨hd, hserves, -⟩ := hc.next _ hs hpart hmine
    obtain ⟨honward, hfound⟩ := hc.next_onward _ hs hpart hmine
    obtain ⟨hmeets, hwithin⟩ := (hk _ _ honward hd hfound).own
    refine ⟨hmeets, hserves.mono ?_, honward⟩
    intro id hid
    rw [Bool.or_eq_true, holds_eq] at hid
    rw [Bool.or_eq_true]
    refine hid.elim Or.inl fun hid => ?_
    have hid' := hwithin id hid
    rw [List.any_cons, Bool.or_eq_true] at hid'
    exact hid'.symm.imp_left (hkept id)

/-! ### Lanes -/

/-- A lane that is not refused has found the end when it is done. -/
theorem meets_lane {like : Char → Char → Bool} {patterns : List (List Char)} {k lanes o : Nat}
    {c : Cursor} (hne : [] ∉ patterns) (more offset : Nat) (hits : Array Hit)
    (hmore : b.content.length - o < more) (hc : c.Stands b f o) (hfound : c.Found f)
    (hw : Within [c] cursors) :
    (lane like patterns k lanes more offset c hits).Meets b (fun _ g _ => g.exhausted = true)
      f cursors := by
  induction more generalizing c f o cursors offset hits with
  | zero => exact absurd hmore (Nat.not_lt_zero _)
  | succ more ih =>
    refine ⟨hw, o, hc, fun g hg hend => ?_⟩
    cases ha : b.content[o]? with
    | none => exact hend ha hfound
    | some a =>
      have hlt := (List.getElem?_eq_some_iff.mp ha).1
      have hcg := hc.extend hg.toExtends
      -- what is tried here is never refused, and the cursor is still in hand afterwards
      have htried : (if offset % lanes = k then tryPatterns like offset c patterns 0 hits
          else done (.ok hits)).Ensures b
            (fun r _ hand' => (∃ hits', r = .ok hits') ∧ Within [c] hand') g [c] := by
        split
        · refine (ensures_tryPatterns offset patterns 0 hits hcg (Within.refl _)).imp ?_
          rintro r _ hand' - ⟨rfl, hin⟩
          exact ⟨⟨_, Findings.tried_of_not_mem hne 0 hits⟩, hin⟩
        · exact ⟨⟨hits, rfl⟩, Within.refl _⟩
      apply Meets.bind
      refine htried.meets.imp ?_
      rintro r g' hand' hg' ⟨⟨hits', rfl⟩, hin⟩
      have hfound' := (hfound.onward hg).onward hg'
      refine ⟨hin, o, hcg.extend hg'.toExtends, fun g'' d _ hd hnext => ?_⟩
      exact ih (offset + 1) hits' (by omega) hd (hnext hfound') (within_of_subset (by simp))

end Program

end BranchCursor
