import BranchCursor.Program
import BranchCursor.Proofs.Standing

/-! What a work comes to, whatever others do to its feed between its operations.
`Ensures` is read off the tree of operations: it asks that the work uses only cursors in hand, and
tells it no more about an answer than where the cursor asked stands. It is sound for runs. -/
namespace BranchCursor.Program
open Cursor (Within holding)

variable {α β : Type}

/-- Starting with some cursors in hand, the work uses no others, and its result, the feed at its
end and the cursors in hand then are as `Q` says. -/
def Ensures (b : Backing) (Q : α → Feed → List Cursor → Prop) :
    Program α → Feed → List Cursor → Prop
  | done a, f, hand => Q a f hand
  | current c kept k, f, hand =>
    Within (c :: kept) hand ∧ ∃ o, c.Stands b f o ∧
      ∀ g, f.Extends g → (k b.content[o]?).Ensures b Q g (c :: kept)
  | next c kept k, f, hand =>
    Within (c :: kept) hand ∧ ∃ o, c.Stands b f o ∧
      ∀ g d, f.Extends g → d.Stands b g (o + 1) → (k d).Ensures b Q g (d :: c :: kept)

/-- The marks held and the feed, after each operation while all that it used is still in hand. -/
def moments (held : MarkId → Bool) : Program α → Feed → List ((MarkId → Bool) × Feed)
  | done _, _ => []
  | current c kept k, f =>
    let r := c.current ((current c kept k).alive held) f
    (holding held (c :: kept), r.2) :: (k r.1).moments held r.2
  | next c kept k, f =>
    let r := c.next ((next c kept k).alive held) f
    (holding held (r.1 :: c :: kept), r.2) :: (k r.1).moments held r.2

variable {b : Backing} {Q R : α → Feed → List Cursor → Prop} {p : Program α} {f g : Feed}
  {hand : List Cursor} {held : MarkId → Bool}

theorem alive_current (held : MarkId → Bool) (c : Cursor) (kept : List Cursor)
    (k : Option Char → Program α) : (current c kept k).alive held = holding held (c :: kept) := by
  funext id
  simp [alive, holds, holding]

theorem alive_next (held : MarkId → Bool) (c : Cursor) (kept : List Cursor)
    (k : Cursor → Program α) : (next c kept k).alive held = holding held (c :: kept) := by
  funext id
  simp [alive, holds, holding]

/-- A weaker claim about the end is ensured too. -/
theorem Ensures.imp (h : p.Ensures b Q f hand)
    (hQ : ∀ a g hand', f.Extends g → Q a g hand' → R a g hand') : p.Ensures b R f hand := by
  induction p generalizing f hand with
  | done a => exact hQ a f hand (Feed.Extends.refl f) h
  | current c kept k ih =>
    obtain ⟨hw, o, hc, hk⟩ := h
    refine ⟨hw, o, hc, fun g hg => ih _ (hk g hg) ?_⟩
    intro a g' hand' hg'
    exact hQ a g' hand' (hg.trans hg')
  | next c kept k ih =>
    obtain ⟨hw, o, hc, hk⟩ := h
    refine ⟨hw, o, hc, fun g d hg hd => ih _ (hk g d hg hd) ?_⟩
    intro a g' hand' hg'
    exact hQ a g' hand' (hg.trans hg')

/-- A work that goes on with the result of another. -/
theorem Ensures.bind {Q : β → Feed → List Cursor → Prop} {k : α → Program β}
    (h : p.Ensures b (fun a g hand' => (k a).Ensures b Q g hand') f hand) :
    (p.bind k).Ensures b Q f hand := by
  induction p generalizing f hand with
  | done a => exact h
  | current c kept k' ih =>
    obtain ⟨hw, o, hc, hk⟩ := h
    exact ⟨hw, o, hc, fun g hg => ih _ (hk g hg)⟩
  | next c kept k' ih =>
    obtain ⟨hw, o, hc, hk⟩ := h
    exact ⟨hw, o, hc, fun g d hg hd => ih _ (hk g d hg hd)⟩

theorem Ensures.map {Q : β → Feed → List Cursor → Prop} {t : α → β}
    (h : p.Ensures b (fun a g hand' => Q (t a) g hand') f hand) :
    (p.map t).Ensures b Q f hand :=
  Ensures.bind h

/-- More in hand does no harm, if it does none at the end. -/
theorem Ensures.more (h : p.Ensures b Q f hand) {hand' : List Cursor} (hw : Within hand hand')
    (hQ : ∀ a g, Q a g hand → Q a g hand') : p.Ensures b Q f hand' := by
  cases p with
  | done a => exact hQ a f h
  | current c kept k => exact ⟨h.1.trans hw, h.2⟩
  | next c kept k => exact ⟨h.1.trans hw, h.2⟩

/-- A cursor kept throughout is still in hand at the end. -/
theorem Ensures.keeping {own : Cursor} {Q : α → Prop}
    (h : p.Ensures b (fun a _ _ => Q a) f hand) (hown : Within [own] hand) :
    (p.keeping own).Ensures b (fun a _ hand' => Q a ∧ Within [own] hand') f hand := by
  induction p generalizing f hand with
  | done a => exact ⟨h, hown⟩
  | current c kept k ih =>
    obtain ⟨hw, o, hc, hk⟩ := h
    refine ⟨hw.head.cons (hown.cons hw.tail), o, hc, fun g hg => ih _ ?_ ?_⟩
    · exact (hk g hg).more (Cursor.within_of_subset (by simp +contextual)) fun _ _ h => h
    · exact Cursor.within_of_subset (by simp)
  | next c kept k ih =>
    obtain ⟨hw, o, hc, hk⟩ := h
    refine ⟨hw.head.cons (hown.cons hw.tail), o, hc, fun g d hg hd => ih _ ?_ ?_⟩
    · refine (hk g d hg hd).more (Cursor.within_of_subset ?_) fun _ _ h => h
      simp +contextual
    · exact Cursor.within_of_subset (by simp)

/-- Asking for a character leaves a sound feed, and the rest ensures the same. -/
theorem Ensures.of_current {c : Cursor} {kept : List Cursor} {k : Option Char → Program α}
    (h : (current c kept k).Ensures b Q f hand) (hs : f.Serves b (holding held hand)) :
    let r := c.current (holding held (c :: kept)) f
    (k r.1).Ensures b Q r.2 (c :: kept) ∧ r.2.Serves b (holding held (c :: kept)) ∧
      f.Extends r.2 := by
  obtain ⟨hw, o, hc, hk⟩ := h
  have hs' : f.Serves b (holding held (c :: kept)) := hs.mono (Cursor.holding_mono hw)
  obtain ⟨ha, hserves, hext⟩ := hc.current (holding held (c :: kept)) hs'
    (fun _ h => h) (fun id hid => by simp [holding, hid])
  dsimp only
  rw [ha]
  exact ⟨hk _ hext, hserves, hext⟩

/-- The same for a cursor one further on, which is then in hand. -/
theorem Ensures.of_next {c : Cursor} {kept : List Cursor} {k : Cursor → Program α}
    (h : (next c kept k).Ensures b Q f hand) (hs : f.Serves b (holding held hand)) :
    let r := c.next (holding held (c :: kept)) f
    (k r.1).Ensures b Q r.2 (r.1 :: c :: kept) ∧
      r.2.Serves b (holding held (r.1 :: c :: kept)) ∧ f.Extends r.2 := by
  obtain ⟨hw, o, hc, hk⟩ := h
  have hs' : f.Serves b (holding held (c :: kept)) := hs.mono (Cursor.holding_mono hw)
  obtain ⟨hd, hserves, hext⟩ := hc.next (holding held (c :: kept)) hs'
    (fun _ h => h) (fun id hid => by simp [holding, hid])
  refine ⟨hk _ _ hext hd, hserves.mono ?_, hext⟩
  intro id hid
  simp only [holding, List.any_cons, Bool.or_eq_true] at hid ⊢
  tauto

/-- A run ends as the work ensures, and every moment of it finds the feed sound. -/
theorem Ensures.run (h : p.Ensures b Q f hand) (hs : f.Serves b (holding held hand)) :
    ∃ hand', Q (p.run held f).1 (p.run held f).2 hand' ∧
      (p.run held f).2.Serves b (holding held hand') ∧ f.Extends (p.run held f).2 ∧
      ∀ m ∈ p.moments held f, m.2.Serves b m.1 := by
  induction p generalizing f hand with
  | done a => exact ⟨hand, h, hs, Feed.Extends.refl f, by simp [moments]⟩
  | current c kept k ih =>
    obtain ⟨hk, hserves, hext⟩ := h.of_current hs
    simp only [Program.run, moments, alive_current]
    obtain ⟨hand', hQ, hs', hext', hm⟩ := ih _ hk hserves
    exact ⟨hand', hQ, hs', hext.trans hext', List.forall_mem_cons.mpr ⟨hserves, hm⟩⟩
  | next c kept k ih =>
    obtain ⟨hk, hserves, hext⟩ := h.of_next hs
    simp only [Program.run, moments, alive_next]
    obtain ⟨hand', hQ, hs', hext', hm⟩ := ih _ hk hserves
    exact ⟨hand', hQ, hs', hext.trans hext', List.forall_mem_cons.mpr ⟨hserves, hm⟩⟩

end BranchCursor.Program
