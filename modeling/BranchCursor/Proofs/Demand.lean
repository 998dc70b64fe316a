import BranchCursor.Proofs.Searches

/-! Which positions a work inspects, and that they alone decide how far its feed is read.
A walk inspects position after position, until it has what it wants or finds one missing. -/
namespace BranchCursor
open Cursor (Within holding within_of_subset)

/-- One more than the largest of some positions, or 0 if there are none. -/
def demand (positions : List Nat) : Nat := positions.foldr (fun q m => max (q + 1) m) 0

theorem demand_append (l r : List Nat) : demand (l ++ r) = max (demand l) (demand r) := by
  induction l with
  | nil => simp [demand]
  | cons q l ih =>
    simp only [demand, List.cons_append, List.foldr_cons] at ih ⊢
    rw [ih, Nat.max_assoc]

theorem lt_demand_iff {n : Nat} {l : List Nat} : n < demand l ↔ ∃ q ∈ l, n ≤ q := by
  induction l with
  | nil => simp [demand]
  | cons q l ih =>
    have hcons : demand (q :: l) = max (q + 1) (demand l) := rfl
    rw [hcons, List.exists_mem_cons_iff, ← ih]
    omega

/-- Exactly the positions from `o` on, `n` of them. -/
def Covers (l : List Nat) (o n : Nat) : Prop := ∀ q, q ∈ l ↔ o ≤ q ∧ q < o + n

theorem covers_nil (o : Nat) : Covers [] o 0 := by
  intro q
  simp only [List.not_mem_nil, false_iff]
  omega

theorem Covers.cons {l : List Nat} {o n : Nat} (h : Covers l (o + 1) n) :
    Covers (o :: l) o (n + 1) := by
  intro q
  rw [List.mem_cons, h q]
  omega

/-- The positions at which a cursor itself is asked for its character. -/
def Cursor.asks (f : Feed) : Cursor → List Nat
  | mark id => [(f.mark id).position]
  | finish | text _ => []

/-- How many positions from a cursor on may be inspected by walking: all up to the first one that
is missing, and that one unless it is known already that nothing comes there. -/
def Cursor.ahead (content : List Char) (f : Feed) : Cursor → Nat
  | mark id =>
    let position := (f.mark id).position
    if position < content.length then content.length - position + (!f.exhausted).toNat else 1
  | finish | text _ => 0

/-- The positions inspected in the course of a work. -/
def Program.inspected {α : Type} (held : MarkId → Bool) : Program α → Feed → List Nat
  | done _, _ => []
  | current c kept k, f =>
    let r := c.current ((current c kept k).alive held) f
    c.asks f ++ (k r.1).inspected held r.2
  | next c kept k, f =>
    let r := c.next ((next c kept k).alive held) f
    (k r.1).inspected held r.2

/-- Reading on for one position and then for another is reading on for the larger one. -/
theorem Feed.Reaches.trans {origin : Supply} {alive alive' : MarkId → Bool} {m n : Nat}
    {f g h : Feed} (hfg : f.Reaches origin alive m g) (hgh : g.Reaches origin alive' n h) :
    f.Reaches origin alive' (max m n) h where
  sound := hgh.sound
  extend := hfg.extend.trans hgh.extend
  read := by
    have h₁ := hfg.read
    have h₂ := hgh.read
    omega
  exhausted := by
    rw [hgh.exhausted, hfg.exhausted, or_assoc]
    apply or_congr_right
    omega

namespace Cursor

variable {origin : Supply} {f g : Feed} {o : Nat} {held : MarkId → Bool} {c : Cursor}
  {hand kept : List Cursor}

theorem Stands.mark_of_lt (hc : c.Stands (.supply origin) f o) (h : o < origin.content.length) :
    ∃ id, c = mark id ∧ (f.mark id).position = o := by
  cases c with
  | finish => exact absurd hc (Nat.not_le.mpr h)
  | text t => cases hc.1
  | mark id => exact ⟨id, rfl, hc.2.2⟩

theorem Stands.asks_of_lt (hc : c.Stands (.supply origin) f o) (h : o < origin.content.length) :
    c.asks f = [o] := by
  obtain ⟨id, rfl, rfl⟩ := hc.mark_of_lt h
  rfl

/-- Where nothing is left, at most the cursor's own position is inspected. -/
theorem Stands.covers_of_le (hc : c.Stands (.supply origin) f o)
    (h : origin.content.length ≤ o) :
    Covers (c.asks f) o (c.ahead origin.content f) ∧ c.ahead origin.content f ≤ 1 := by
  cases c with
  | finish => exact ⟨covers_nil o, Nat.zero_le _⟩
  | text t => cases hc.1
  | mark id =>
    obtain ⟨-, -, rfl⟩ := hc
    simp only [ahead, asks, if_neg (Nat.not_lt.mpr h)]
    exact ⟨(covers_nil _).cons, Nat.le_refl 1⟩

theorem Stands.ahead_le (hc : c.Stands (.supply origin) f o) :
    c.ahead origin.content f ≤ origin.content.length - o + 1 := by
  cases c with
  | finish => exact Nat.zero_le _
  | text t => cases hc.1
  | mark id =>
    obtain ⟨-, -, rfl⟩ := hc
    unfold ahead
    dsimp only
    split
    · have := Bool.toNat_le (!f.exhausted)
      omega
    · omega

theorem Stands.ahead_of_lt (hc : c.Stands (.supply origin) f o)
    (h : o < origin.content.length) :
    c.ahead origin.content f = origin.content.length - o + (!f.exhausted).toNat := by
  obtain ⟨id, rfl, rfl⟩ := hc.mark_of_lt h
  exact if_pos h

/-- What lies ahead of a cursor depends on its feed only while something is left. -/
theorem Stands.ahead_eq (hc : c.Stands (.supply origin) f o) (hc' : c.Stands (.supply origin) g o)
    (he : o < origin.content.length → g.exhausted = f.exhausted) :
    c.ahead origin.content g = c.ahead origin.content f := by
  by_cases hlt : o < origin.content.length
  · rw [hc'.ahead_of_lt hlt, hc.ahead_of_lt hlt, he hlt]
  · cases c with
    | finish => rfl
    | text t => rfl
    | mark id =>
      obtain ⟨-, -, hp⟩ := hc
      obtain ⟨-, -, hp'⟩ := hc'
      simp only [ahead, hp, hp', if_neg hlt]

theorem Stands.ahead_le_of_reaches {alive : MarkId → Bool} {n : Nat}
    (hc : c.Stands (.supply origin) f o) (hr : f.Reaches origin alive n g) :
    c.ahead origin.content g ≤ c.ahead origin.content f := by
  have hc' := hc.extend hr.extend
  by_cases hlt : o < origin.content.length
  · rw [hc'.ahead_of_lt hlt, hc.ahead_of_lt hlt]
    cases he : f.exhausted with
    | true => simp [hr.exhausted.mpr (Or.inl he)]
    | false =>
      have := Bool.toNat_le (!g.exhausted)
      simp only [Bool.not_false, Bool.toNat_true]
      omega
  · exact Nat.le_of_eq (hc.ahead_eq hc' fun h => absurd h hlt)

/-- If on the way anything is inspected near a cursor, the rest of the walk inspects what is left
ahead of the cursor: should the end have been found meanwhile, it was inspected then. -/
theorem Stands.covers_through {alive : MarkId → Bool} {l r : List Nat} {n : Nat}
    (hc : c.Stands (.supply origin) f o) (hlt : o < origin.content.length)
    (hr : f.Reaches origin alive (demand l) g)
    (hl : ∀ q ∈ l, o ≤ q ∧ q < o + c.ahead origin.content f)
    (hrest : Covers r (o + 1) n) (hn : n + 1 = c.ahead origin.content g) :
    Covers (o :: (l ++ r)) o (c.ahead origin.content f) := by
  have hle := hc.ahead_le_of_reaches hr
  have hf := hc.ahead_of_lt hlt
  have hg := (hc.extend hr.extend).ahead_of_lt hlt
  intro q
  rw [List.mem_cons, List.mem_append, hrest q]
  constructor
  · rintro (rfl | hq | hq)
    · omega
    · exact hl q hq
    · omega
  · rintro ⟨hge, hup⟩
    by_cases hq : q < o + c.ahead origin.content g
    · omega
    · -- only the end itself can be missing here, and it was inspected on the way
      have hfewer : (!g.exhausted).toNat < (!f.exhausted).toNat := by omega
      have hexh : f.exhausted = false ∧ g.exhausted = true := by
        revert hfewer
        cases f.exhausted <;> cases g.exhausted <;> decide
      have hend := (hr.exhausted.mp hexh.2).resolve_left (by simp [hexh.1])
      obtain ⟨e, he, hle⟩ := lt_demand_iff.mp hend
      have hin := hl e he
      rw [hexh.1] at hf
      rw [hexh.2] at hg
      simp only [Bool.not_true, Bool.not_false, Bool.toNat_true, Bool.toNat_false] at hf hg
      have heq : q = e := by omega
      exact Or.inr (Or.inl (heq ▸ he))

/-- A cursor answers by the content, and what it is asked decides how far the feed is read. -/
theorem Stands.visit (hc : c.Stands (.supply origin) f o)
    (hs : f.Sound origin (holding held hand)) (hw : Within (c :: kept) hand) :
    let r := c.current (holding held (c :: kept)) f
    r.1 = origin.content[o]? ∧
    f.Reaches origin (holding held (c :: kept)) (demand (c.asks f)) r.2 ∧
    c.ahead origin.content r.2 = c.ahead origin.content f := by
  have hs' : f.Sound origin (holding held (c :: kept)) := hs.mono (holding_mono hw)
  have hread : (c.current (holding held (c :: kept)) f).1 = origin.content[o]? ∧
      f.Reaches origin (holding held (c :: kept)) (demand (c.asks f))
        (c.current (holding held (c :: kept)) f).2 := by
    cases c with
    | finish =>
      exact ⟨(List.getElem?_eq_none hc).symm, hs'.reaches_self (Nat.zero_le _)⟩
    | text t => cases hc.1
    | mark id =>
      obtain ⟨-, -, rfl⟩ := hc
      exact hs'.current (fun _ h => h) (by simp [holding, holds])
  obtain ⟨ha, hr⟩ := hread
  refine ⟨ha, hr, hc.ahead_eq (hc.extend hr.extend) fun hlt => ?_⟩
  have hexh := hr.exhausted
  have hone : demand [o] = o + 1 := rfl
  rw [hc.asks_of_lt hlt, hone, or_iff_left (by omega)] at hexh
  exact Bool.eq_iff_iff.mpr hexh

/-- The cursor after a cursor is found without reading, and has one position less ahead. -/
theorem Stands.advance (hc : c.Stands (.supply origin) f o)
    (hs : f.Sound origin (holding held hand)) (hw : Within (c :: kept) hand) :
    let r := c.next (holding held (c :: kept)) f
    r.1.Stands (.supply origin) r.2 (o + 1) ∧
    f.Reaches origin (holding held (r.1 :: c :: kept)) 0 r.2 ∧
    (o < origin.content.length →
      r.1.ahead origin.content r.2 + 1 = c.ahead origin.content f) := by
  have hs' : f.Sound origin (holding held (c :: kept)) := hs.mono (holding_mono hw)
  have hheld : ∀ id, c.holds id → holding held (c :: kept) id := by
    intro id hid
    simp [holding, hid]
  obtain ⟨hd, hserves, hext⟩ := Stands.next (b := .supply origin) hc
    (holding held (c :: kept)) hs' (fun _ h => h) hheld
  have hsound : (c.next (holding held (c :: kept)) f).2.Sound origin
      (holding held ((c.next (holding held (c :: kept)) f).1 :: c :: kept)) := by
    refine Feed.Sound.mono hserves ?_
    intro id hid
    simp only [holding, List.any_cons, Bool.or_eq_true] at hid ⊢
    tauto
  have hnone : ∀ p : Prop, p ↔ p ∨ origin.content.length < 0 := fun p =>
    (or_iff_left (Nat.not_lt_zero _)).symm
  cases c with
  | finish =>
    refine ⟨hd, ⟨hsound, hext, by simp [Cursor.next], hnone _⟩, fun h => ?_⟩
    exact absurd hc (Nat.not_le.mpr h)
  | text t => cases hc.1
  | mark id =>
    obtain ⟨-, -, rfl⟩ := hc
    rcases next_mark hs' (fun _ h => h) (hheld id (by simp [holds])) with
      ⟨he, hl, hn⟩ | ⟨hnot, g, hn, -, -, -, hpos, hread, hexh, -⟩
    · rw [hn] at hd hsound hext ⊢
      refine ⟨hd, ⟨hsound, hext, by simp, hnone _⟩, fun h => ?_⟩
      simp only [ahead, if_pos h, he]
      simp only [Bool.not_true, Bool.toNat_false]
      omega
    · rw [hn] at hd hsound hext ⊢
      refine ⟨hd, ⟨hsound, hext, by simp [hread], ?_⟩, fun h => ?_⟩
      · rw [hexh]
        exact hnone _
      · simp only [ahead, if_pos h, hpos, hexh]
        split
        · omega
        · have hlast : origin.content.length ≤ (f.mark id).position + 1 := by omega
          have he : f.exhausted = false := by
            rw [Bool.eq_false_iff]
            exact fun he => hnot ⟨he, hlast⟩
          simp only [he, Bool.not_false, Bool.toNat_true]
          omega

end Cursor

namespace Program

variable {α β : Type} {origin : Supply} {Q : α → Feed → List Cursor → Prop} {p : Program α}
  {f : Feed} {hand kept : List Cursor} {held : MarkId → Bool} {c : Cursor}

theorem inspected_current (k : Option Char → Program α) :
    (current c kept k).inspected held f =
      c.asks f ++ (k (c.current (holding held (c :: kept)) f).1).inspected held
        (c.current (holding held (c :: kept)) f).2 := by
  rw [inspected, alive_current]

theorem inspected_next (k : Cursor → Program α) :
    (next c kept k).inspected held f =
      (k (c.next (holding held (c :: kept)) f).1).inspected held
        (c.next (holding held (c :: kept)) f).2 := by
  rw [inspected, alive_next]

theorem inspected_bind (k : α → Program β) :
    (p.bind k).inspected held f =
      p.inspected held f ++ (k (p.run held f).1).inspected held (p.run held f).2 := by
  induction p generalizing f with
  | done a => rfl
  | current c kept k' ih =>
    rw [Program.bind, inspected, inspected, ih, List.append_assoc]
    rfl
  | next c kept k' ih =>
    rw [Program.bind, inspected, inspected, ih]
    rfl

theorem inspected_map (t : α → β) : (p.map t).inspected held f = p.inspected held f := by
  rw [map, inspected_bind]
  exact List.append_nil _

/-- Whether the work itself keeps a cursor, or somebody else does, is all the same. -/
theorem alive_keeping (held : MarkId → Bool) (own : Cursor) (p : Program α)
    (hp : ∀ a, p ≠ done a) :
    (p.keeping own).alive held = p.alive (holding held [own]) := by
  funext id
  cases p with
  | done a => exact absurd rfl (hp a)
  | current c kept k | next c kept k =>
    simp only [keeping, alive, holds, holding, List.any_cons, List.any_nil, Bool.or_false]
    cases held id <;> cases c.holds id <;> cases own.holds id <;> rfl

theorem inspected_keeping (own : Cursor) :
    (p.keeping own).inspected held f = p.inspected (holding held [own]) f := by
  induction p generalizing f with
  | done a => rfl
  | current c kept k ih =>
    have halive := alive_keeping held own (current c kept k) (by simp)
    simp only [keeping] at halive
    simp only [keeping, inspected, halive, ih]
  | next c kept k ih =>
    have halive := alive_keeping held own (next c kept k) (by simp)
    simp only [keeping] at halive
    simp only [keeping, inspected, halive, ih]

/-- How far a work reads its feed is decided by the positions it inspects and nothing else. -/
theorem Ensures.reaches (h : p.Ensures (.supply origin) Q f hand)
    (hs : f.Sound origin (holding held hand)) :
    ∃ hand', Q (p.run held f).1 (p.run held f).2 hand' ∧
      f.Reaches origin (holding held hand') (demand (p.inspected held f)) (p.run held f).2 := by
  induction p generalizing f hand with
  | done a => exact ⟨hand, h, hs.reaches_self (Nat.zero_le _)⟩
  | current c kept k ih =>
    obtain ⟨hrest, -⟩ := Ensures.of_current h hs
    obtain ⟨hw, o, hc, -⟩ := h
    obtain ⟨-, hr, -⟩ := hc.visit hs hw
    rw [Program.run, alive_current, inspected_current, demand_append]
    obtain ⟨hand', hQ, hr'⟩ := ih _ hrest hr.sound
    exact ⟨hand', hQ, hr.trans hr'⟩
  | next c kept k ih =>
    obtain ⟨hw, o, hc, hk⟩ := h
    obtain ⟨hd, hr, -⟩ := hc.advance hs hw
    rw [Program.run, alive_next, inspected_next]
    obtain ⟨hand', hQ, hr'⟩ := ih _ (hk _ _ hr.extend hd) hr.sound
    refine ⟨hand', hQ, ?_⟩
    have h := hr.trans hr'
    rwa [Nat.zero_max] at h

end Program

end BranchCursor
