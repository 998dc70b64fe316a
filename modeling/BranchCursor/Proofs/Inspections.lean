import BranchCursor.Proofs.Demand
import BranchCursor.Proofs.Steps

/-! The positions that each walk inspects: those from its cursor on, one after the other, as many
as it wants and as there are, and none beyond. -/
namespace BranchCursor
open Cursor (Within holding within_of_subset)

/-- How many positions a comparison wants: one for each pattern character up to the first that
differs or has no counterpart. -/
def Comparison.wants (like : Char → Char → Bool) : List Char → List Char → Nat
  | [], _ => 0
  | _ :: _, [] => 1
  | e :: later, a :: rest => if like e a then wants like later rest + 1 else 1

namespace Program

variable {α : Type} {origin : Supply} {f : Feed} {o : Nat} {c : Cursor} {hand : List Cursor}
  {held : MarkId → Bool} {like : Char → Char → Bool}

/-- Skipping inspects nothing. -/
theorem inspected_skip (n : Nat) (held : MarkId → Bool) (c : Cursor) (f : Feed) :
    (skip n c).inspected held f = [] := by
  induction n generalizing c f with
  | zero => rfl
  | succ n ih =>
    unfold skip
    split
    · rfl
    · exact ih _ _

/-- A walk that finds no character inspects nothing more. -/
theorem covers_missing {n : Nat} (hc : c.Stands (.supply origin) f o)
    (ha : origin.content[o]? = none) :
    Covers (c.asks f) o (min (n + 1) (c.ahead origin.content f)) := by
  obtain ⟨hcovers, hle⟩ := hc.covers_of_le (List.getElem?_eq_none_iff.mp ha)
  rwa [Nat.min_eq_right (by omega)]

/-- A walk that finds a character and goes on inspects one position more than from the next on. -/
theorem covers_onward {rest : Cursor → Program α} {n : Nat}
    (hs : f.Sound origin (holding held hand)) (hc : c.Stands (.supply origin) f o)
    (hw : Within [c] hand) (hlt : o < origin.content.length)
    (hrest : ∀ d g, g.Sound origin (holding held [d, c]) → d.Stands (.supply origin) g (o + 1) →
      Covers ((rest d).inspected held g) (o + 1) (min n (d.ahead origin.content g))) :
    Covers (c.asks f ++ (next c [] rest).inspected held (c.current (holding held [c]) f).2) o
      (min (n + 1) (c.ahead origin.content f)) := by
  obtain ⟨-, hr, hsame⟩ := hc.visit hs hw
  obtain ⟨hd, hr', hahead⟩ := (hc.extend hr.extend).advance hr.sound (Within.refl [c])
  rw [inspected_next, hc.asks_of_lt hlt, ← hsame, ← hahead hlt, Nat.succ_min_succ]
  exact (hrest _ _ hr'.sound hd).cons

theorem covers_asks (hc : c.Stands (.supply origin) f o) :
    Covers (c.asks f) o (min 1 (c.ahead origin.content f)) := by
  cases hat : origin.content[o]? with
  | none => exact covers_missing hc hat
  | some a =>
    have hlt := (List.getElem?_eq_some_iff.mp hat).1
    have hahead := hc.ahead_of_lt hlt
    rw [hc.asks_of_lt hlt, Nat.min_eq_left (by omega)]
    exact (covers_nil _).cons

theorem covers_readOn (n : Nat) (text : Array Char) (hs : f.Sound origin (holding held hand))
    (hc : c.Stands (.supply origin) f o) (hw : Within [c] hand) :
    Covers ((readOn n c text).inspected held f) o (min n (c.ahead origin.content f)) := by
  induction n generalizing c f o hand text with
  | zero =>
    rw [Nat.zero_min]
    exact covers_nil o
  | succ n ih =>
    rw [readOn, inspected_current, (hc.visit hs hw).1]
    cases hat : origin.content[o]? with
    | none =>
      rw [inspected, List.append_nil]
      exact covers_missing hc hat
    | some a =>
      refine covers_onward hs hc hw (List.getElem?_eq_some_iff.mp hat).1 ?_
      intro d g hs' hd
      exact ih (text.push a) hs' hd (within_of_subset (by simp))

theorem covers_collect {bound : Nat} (hb : origin.content.length ≤ o + bound)
    (hs : f.Sound origin (holding held hand)) (hc : c.Stands (.supply origin) f o)
    (hw : Within [c] hand) :
    Covers ((collect bound c).inspected held f) o (c.ahead origin.content f) := by
  have h := covers_readOn (bound + 1) #[] hs hc hw
  have hle := hc.ahead_le
  rwa [Nat.min_eq_right (by omega)] at h

/-- An iterator at the end goes on asking there, if anything is to be asked. -/
theorem covers_iterate (n : Nat) (given : Array (Option Char))
    (hs : f.Sound origin (holding held hand)) (hc : c.Stands (.supply origin) f o)
    (hw : Within [c] hand) :
    Covers ((iterate n c given).inspected held f) o (min n (c.ahead origin.content f)) := by
  induction n generalizing c f o hand given with
  | zero =>
    rw [Nat.zero_min]
    exact covers_nil o
  | succ n ih =>
    obtain ⟨ha, hr, hsame⟩ := hc.visit hs hw
    rw [iterate, inspected_current, ha]
    cases hat : origin.content[o]? with
    | none =>
      have hrest := ih (given.push none) hr.sound (hc.extend hr.extend) (Within.refl [c])
      have hfirst := covers_missing (n := n) hc hat
      intro q
      rw [List.mem_append, hfirst q, hrest q, hsame]
      omega
    | some a =>
      refine covers_onward hs hc hw (List.getElem?_eq_some_iff.mp hat).1 ?_
      intro d g hs' hd
      exact ih (given.push (some a)) hs' hd (within_of_subset (by simp))

theorem covers_compareWalking (like : Char → Char → Bool) (pattern : List Char)
    (asked : Array (Char × Char)) (hs : f.Sound origin (holding held hand))
    (hc : c.Stands (.supply origin) f o) (hw : Within [c] hand) :
    Covers ((compareWalking like pattern c asked).inspected held f) o
      (min (Comparison.wants like pattern (origin.content.drop o))
        (c.ahead origin.content f)) := by
  induction pattern generalizing c f o hand asked with
  | nil =>
    rw [Comparison.wants, Nat.zero_min]
    exact covers_nil o
  | cons e later ih =>
    rw [compareWalking, inspected_current, (hc.visit hs hw).1]
    cases hat : origin.content[o]? with
    | none =>
      have hnil := List.drop_eq_nil_of_le (List.getElem?_eq_none_iff.mp hat)
      rw [inspected, List.append_nil, hnil, Comparison.wants]
      exact covers_missing hc hat
    | some a =>
      have hlt := (List.getElem?_eq_some_iff.mp hat).1
      dsimp only
      rw [drop_eq_cons hat, Comparison.wants]
      by_cases hlike : like e a
      · rw [if_pos hlike, if_pos hlike]
        refine covers_onward hs hc hw hlt ?_
        intro d g hs' hd
        exact ih (asked.push (e, a)) hs' hd (within_of_subset (by simp))
      · rw [if_neg hlike, if_neg hlike, inspected, List.append_nil]
        exact covers_asks hc

/-- A comparison of a cursor in a feed; a cursor past the end is not asked at all. -/
theorem covers_compare (like : Char → Char → Bool) (pattern : List Char)
    (hs : f.Sound origin (holding held hand)) (hc : c.Stands (.supply origin) f o)
    (hw : Within [c] hand) :
    Covers ((compare like pattern c).inspected held f) o
      (min (Comparison.wants like pattern (origin.content.drop o))
        (c.ahead origin.content f)) := by
  cases pattern with
  | nil =>
    rw [Comparison.wants, Nat.zero_min]
    exact covers_nil o
  | cons e later =>
    cases c with
    | finish =>
      rw [Cursor.ahead, Nat.min_zero]
      exact covers_nil o
    | text t => cases hc.1
    | mark id =>
      have hs' : f.Sound origin (holding (holding held [.mark id]) [.mark id]) := by
        refine hs.mono ?_
        intro i hi
        refine Cursor.holding_mono hw i ?_
        simpa [holding, or_assoc] using hi
      have hwalk := covers_compareWalking like (e :: later) #[] hs' hc (Within.refl _)
      rw [compare, inspected_bind, inspected_keeping, inspected, List.append_nil]
      exact hwalk

/-- Trying patterns inspects nothing before its cursor, and nothing beyond what lies ahead. -/
theorem inside_tryPatterns (offset : Nat) (patterns : List (List Char)) (index : Nat)
    (hits : Array Hit) (hs : f.Sound origin (holding held hand))
    (hc : c.Stands (.supply origin) f o) (hw : Within [c] hand) :
    ∀ q ∈ (tryPatterns like offset c patterns index hits).inspected held f,
      o ≤ q ∧ q < o + c.ahead origin.content f := by
  induction patterns generalizing f hand index hits with
  | nil =>
    intro q hq
    cases hq
  | cons pattern later ih =>
    obtain ⟨hand', ⟨-, hw'⟩, hr⟩ := Ensures.reaches (ensures_compare like pattern hc hw) hs
    have hcovers := covers_compare like pattern hs hc hw
    have hle := hc.ahead_le_of_reaches hr
    intro q hq
    rw [tryPatterns, inspected_bind, List.mem_append] at hq
    rcases hq with hq | hq
    · have h := (hcovers q).mp hq
      omega
    · split at hq
      · cases hq
      · have h := ih _ _ hr.sound (hc.extend hr.extend) hw' q hq
        omega

/-- A lane that is not refused inspects every position up to the first one that is missing. -/
theorem covers_lane {patterns : List (List Char)} {k lanes : Nat} {found : Array Hit}
    (more offset : Nat) (hits : Array Hit) (hmore : origin.content.length - o < more)
    (hok : Findings.ofLane like patterns k lanes offset (origin.content.drop o) hits = .ok found)
    (hs : f.Sound origin (holding held hand)) (hc : c.Stands (.supply origin) f o)
    (hw : Within [c] hand) :
    Covers ((lane like patterns k lanes more offset c hits).inspected held f) o
      (c.ahead origin.content f) := by
  induction more generalizing c f o hand offset hits with
  | zero => exact absurd hmore (Nat.not_lt_zero _)
  | succ more ih =>
    obtain ⟨ha, hr, hsame⟩ := hc.visit hs hw
    have hc₁ := hc.extend hr.extend
    rw [lane, inspected_current, ha]
    cases hat : origin.content[o]? with
    | none =>
      rw [inspected, List.append_nil]
      exact (hc.covers_of_le (List.getElem?_eq_none_iff.mp hat)).1
    | some a =>
      have hlt := (List.getElem?_eq_some_iff.mp hat).1
      obtain ⟨hits', htried, hok'⟩ : ∃ hits', (if offset % lanes = k then
            Findings.tried like offset (origin.content.drop o) patterns 0 hits
          else .ok hits) = .ok hits' ∧
          Findings.ofLane like patterns k lanes (offset + 1) (origin.content.drop (o + 1)) hits' =
            .ok found := by
        rw [drop_eq_cons hat, Findings.ofLane] at hok
        rw [drop_eq_cons hat]
        split at hok
        · cases hok
        · rename_i hits' heq
          exact ⟨hits', heq, hok⟩
      dsimp only
      rw [inspected_bind, hc.asks_of_lt hlt, ← hsame]
      generalize (c.current (holding held [c]) f).2 = f₁ at hr hc₁
      generalize hp : (if offset % lanes = k then tryPatterns like offset c patterns 0 hits
        else done (.ok hits)) = p
      have hinside : ∀ q ∈ p.inspected held f₁,
          o ≤ q ∧ q < o + c.ahead origin.content f₁ := by
        rw [← hp]
        split
        · exact inside_tryPatterns offset patterns 0 hits hr.sound hc₁ (Within.refl [c])
        · intro q hq
          cases hq
      have hensures : p.Ensures (.supply origin)
          (fun r _ hand' => r = .ok hits' ∧ Within [c] hand') f₁ [c] := by
        rw [← hp, ← htried]
        split
        · exact ensures_tryPatterns offset patterns 0 hits hc₁ (Within.refl [c])
        · exact ⟨rfl, Within.refl [c]⟩
      obtain ⟨hand', ⟨hfound, hw'⟩, hr'⟩ := hensures.reaches hr.sound
      obtain ⟨hd, hr'', hahead⟩ := (hc₁.extend hr'.extend).advance hr'.sound hw'
      rw [hfound]
      dsimp only
      rw [inspected_next, List.singleton_append]
      have hrest := ih (offset + 1) hits' (by omega) hok' hr''.sound hd
        (within_of_subset (by simp))
      exact hc₁.covers_through hlt hr' hinside hrest (hahead hlt)

theorem covers_scan {bound : Nat} {patterns : List (List Char)} {found : Array Hit}
    (hb : origin.content.length ≤ o + bound)
    (hok : Findings.ofLane like patterns 0 1 0 (origin.content.drop o) #[] = .ok found)
    (hs : f.Sound origin (holding held hand)) (hc : c.Stands (.supply origin) f o)
    (hw : Within [c] hand) :
    Covers ((scan like patterns bound c).inspected held f) o (c.ahead origin.content f) :=
  covers_lane (bound + 1) 0 #[] (by omega) hok hs hc hw

end Program

namespace Session

/-- How many positions a step wants, given the characters from its cursor on; asking for one more
than there are is what finds the end. -/
def CursorStep.wants (rest : List Char) : CursorStep → Nat
  | current => 1
  | peek n => n
  | collect | scan .. => rest.length + 1
  | compare pattern likeness _ => Comparison.wants likeness.like pattern rest
  | next _ | skip .. | clone _ | position | isFinish | buffered | remaining | describe
  | iterate _ | handle _ | drop => 0

variable {origin : Supply} {f : Feed} {o : Nat} {c : Cursor} {hand : List Cursor}
  {held : MarkId → Bool}

/-- A step inspects the positions from its cursor on, as many as it wants and as there are. A
search is presumed not to be refused. -/
theorem CursorStep.covers_work (step : CursorStep) (hs : f.Sound origin (holding held [c]))
    (hc : c.Stands (.supply origin) f o)
    (hok : ∀ patterns likeness, step = .scan patterns likeness → ∃ found,
      Findings.ofLane likeness.like patterns 0 1 0 (origin.content.drop o) #[] = .ok found) :
    Covers ((step.work f c).inspected held f) o
      (min (step.wants (origin.content.drop o)) (c.ahead origin.content f)) := by
  have hw : Within [c] [c] := Within.refl _
  have hbound : origin.content.length ≤ o + c.bound f :=
    Cursor.Stands.length_le_bound (b := .supply origin) hc hs
  have hall : min ((origin.content.drop o).length + 1) (c.ahead origin.content f) =
      c.ahead origin.content f := by
    apply Nat.min_eq_right
    rw [List.length_drop]
    exact hc.ahead_le
  cases step with
  | current =>
    rw [work, Program.inspected_map, Program.inspected_current, Program.inspected,
      List.append_nil]
    exact Program.covers_asks hc
  | skip n name =>
    rw [work, Program.inspected_map, Program.inspected_skip, wants, Nat.zero_min]
    exact covers_nil o
  | peek n =>
    rw [work, Program.inspected_map]
    exact Program.covers_readOn n #[] hs hc hw
  | collect =>
    rw [work, Program.inspected_map, wants, hall]
    exact Program.covers_collect hbound hs hc hw
  | compare pattern likeness traced =>
    rw [work, Program.inspected_map]
    exact Program.covers_compare likeness.like pattern hs hc hw
  | scan patterns likeness =>
    obtain ⟨found, hfound⟩ := hok patterns likeness rfl
    rw [work, Program.inspected_map, wants, hall]
    exact Program.covers_scan hbound hfound hs hc hw
  | next _ | clone _ | position | isFinish | buffered | remaining | describe | iterate _
  | handle _ | drop =>
    rw [wants, Nat.zero_min]
    exact covers_nil o

end Session

end BranchCursor
