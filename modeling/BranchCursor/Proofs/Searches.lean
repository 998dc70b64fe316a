import BranchCursor.Search
import BranchCursor.Proofs.Walks

/-! What matching and searching come to, as functions of the characters from the cursor on.
The texts compared directly, the cursors compared by walking and the lanes of a search all agree
with the same functions of a list, whatever else is done to the feed meanwhile. -/
namespace BranchCursor

/-- Compares a pattern with the beginning of some characters. -/
def Comparison.along (like : Char → Char → Bool) :
    List Char → List Char → Array (Char × Char) → Comparison
  | [], _, asked => ⟨true, asked⟩
  | _ :: _, [], asked => ⟨false, asked⟩
  | e :: later, a :: rest, asked =>
    if like e a then along like later rest (asked.push (e, a)) else ⟨false, asked.push (e, a)⟩

/-- Whether a pattern occurs where some characters begin; the empty pattern is refused. -/
def Comparison.of (like : Char → Char → Bool) (pattern rest : List Char) :
    Except CursorError Comparison :=
  if pattern = [] then .error (.misuse .emptyPattern) else .ok (along like pattern rest #[])

namespace Findings

/-- Tries patterns at one offset, where `rest` begins. -/
def tried (like : Char → Char → Bool) (offset : Nat) (rest : List Char) :
    List (List Char) → Nat → Array Hit → Findings
  | [], _, hits => .ok hits
  | pattern :: later, index, hits =>
    match Comparison.of like pattern rest with
    | .error cause => .error cause
    | .ok r =>
      tried like offset rest later (index + 1)
        (if r.verdict then hits.push ⟨offset, index⟩ else hits)

/-- Tries the offsets that are congruent to `k`, from `offset` on, where the characters begin. -/
def ofLane (like : Char → Char → Bool) (patterns : List (List Char)) (k lanes : Nat) :
    Nat → List Char → Array Hit → Findings
  | _, [], hits => .ok hits
  | offset, a :: rest, hits =>
    match if offset % lanes = k then tried like offset (a :: rest) patterns 0 hits
      else .ok hits with
    | .error cause => .error cause
    | .ok hits => ofLane like patterns k lanes (offset + 1) rest hits

end Findings

theorem TextCursor.compareWith_eq (like : Char → Char → Bool) (buffer : Array Char)
    (pattern : List Char) (i : Nat) (asked : Array (Char × Char)) :
    compareWith like buffer pattern i asked =
      Comparison.along like pattern (buffer.toList.drop i) asked := by
  induction pattern generalizing i asked with
  | nil => rfl
  | cons e later ih =>
    cases ha : buffer[i]? with
    | none =>
      have hnil : buffer.toList.drop i = [] := by
        apply List.drop_eq_nil_of_le
        simpa using ha
      simp [compareWith, ha, hnil, Comparison.along]
    | some a =>
      have hat : buffer.toList[i]? = some a := by simpa using ha
      have hcons := Program.drop_eq_cons hat
      simp only [compareWith, ha, hcons, Comparison.along, ih]

namespace Program
open Cursor (Within within_of_subset)

variable {b : Backing} {f : Feed} {o : Nat} {c : Cursor} {hand : List Cursor}
  {like : Char → Char → Bool}

theorem ensures_compareWalking (pattern : List Char) (asked : Array (Char × Char))
    (hc : c.Stands b f o) (hw : Within [c] hand) :
    (compareWalking like pattern c asked).Ensures b
      (fun r _ _ => r = Comparison.along like pattern (b.content.drop o) asked) f hand := by
  induction pattern generalizing c f o hand asked with
  | nil => rfl
  | cons e later ih =>
    refine ⟨hw, o, hc, fun g hg => ?_⟩
    cases ha : b.content[o]? with
    | none =>
      have hnil := List.drop_eq_nil_of_le (List.getElem?_eq_none_iff.mp ha)
      simp [Ensures, hnil, Comparison.along]
    | some a =>
      rw [drop_eq_cons ha]
      by_cases hlike : like e a
      · simp only [hlike, if_true, Comparison.along]
        refine ⟨Within.refl _, o, hc.extend hg, fun g' d _ hd => ?_⟩
        exact ih (asked.push (e, a)) hd (within_of_subset (by simp))
      · simp [Ensures, hlike, Comparison.along]

/-- A comparison depends on the pattern and on the characters that follow, not on the cursor. -/
theorem ensures_compare (like : Char → Char → Bool) (pattern : List Char)
    (hc : c.Stands b f o) (hw : Within [c] hand) :
    (compare like pattern c).Ensures b
      (fun r _ hand' => r = Comparison.of like pattern (b.content.drop o) ∧ Within [c] hand')
      f hand := by
  cases pattern with
  | nil => exact ⟨rfl, hw⟩
  | cons e later =>
    rw [Comparison.of, if_neg (List.cons_ne_nil e later)]
    cases c with
    | finish =>
      have hnil := List.drop_eq_nil_of_le hc
      refine ⟨?_, hw⟩
      rw [hnil]
      rfl
    | text t =>
      obtain ⟨rfl, rfl⟩ := hc
      refine ⟨?_, hw⟩
      rw [TextCursor.compare, TextCursor.compareWith_eq]
      rfl
    | mark id =>
      apply Ensures.bind
      refine ((ensures_compareWalking (e :: later) #[] hc hw).keeping hw).imp ?_
      rintro r g hand' - ⟨rfl, hin⟩
      exact ⟨rfl, hin⟩

theorem ensures_tryPatterns (offset : Nat) (patterns : List (List Char)) (index : Nat)
    (hits : Array Hit) (hc : c.Stands b f o) (hw : Within [c] hand) :
    (tryPatterns like offset c patterns index hits).Ensures b
      (fun r _ hand' => r = Findings.tried like offset (b.content.drop o) patterns index hits ∧
        Within [c] hand') f hand := by
  induction patterns generalizing f hand index hits with
  | nil => exact ⟨rfl, hw⟩
  | cons pattern later ih =>
    apply Ensures.bind
    refine (ensures_compare like pattern hc hw).imp ?_
    rintro r g hand' hg ⟨rfl, hin⟩
    rw [Findings.tried]
    cases Comparison.of like pattern (b.content.drop o) with
    | error cause => exact ⟨rfl, hin⟩
    | ok r => exact ih (index + 1) _ (hc.extend hg) hin

/-- A lane that may go on for long enough finds what there is to find from its cursor on. -/
theorem ensures_lane {patterns : List (List Char)} {k lanes : Nat} (more offset : Nat)
    (hits : Array Hit) (hmore : b.content.length < more + o) (hc : c.Stands b f o)
    (hw : Within [c] hand) :
    (lane like patterns k lanes more offset c hits).Ensures b
      (fun r _ _ => r = Findings.ofLane like patterns k lanes offset (b.content.drop o) hits)
      f hand := by
  induction more generalizing c f o hand offset hits with
  | zero =>
    have hnil : b.content.drop o = [] := List.drop_eq_nil_of_le (by omega)
    rw [hnil]
    rfl
  | succ more ih =>
    refine ⟨hw, o, hc, fun g hg => ?_⟩
    cases ha : b.content[o]? with
    | none =>
      have hnil := List.drop_eq_nil_of_le (List.getElem?_eq_none_iff.mp ha)
      rw [hnil]
      rfl
    | some a =>
      have hcons := drop_eq_cons ha
      rw [hcons, Findings.ofLane, ← hcons]
      apply Ensures.bind
      -- whatever was tried here, the cursor is still in hand and the walk goes on from it
      have hrest : ∀ (found : Findings) (g' : Feed) (hand' : List Cursor), g.Extends g' →
          Within [c] hand' →
          Ensures b (fun r _ _ => r = match found with
              | .error cause => .error cause
              | .ok hits => Findings.ofLane like patterns k lanes (offset + 1)
                  (b.content.drop (o + 1)) hits)
            (match found with
              | .error cause => done (.error cause)
              | .ok hits => next c [] fun d =>
                  lane like patterns k lanes more (offset + 1) d hits) g' hand' := by
        intro found g' hand' hg' hin
        cases found with
        | error cause => rfl
        | ok hits =>
          refine ⟨hin, o, (hc.extend hg).extend hg', fun g'' d _ hd => ?_⟩
          exact ih (offset + 1) hits (by omega) hd (within_of_subset (by simp))
      by_cases hlane : offset % lanes = k
      · simp only [if_pos hlane]
        refine (ensures_tryPatterns offset patterns 0 hits (hc.extend hg) (Within.refl _)).imp ?_
        rintro r g' hand' hg' ⟨rfl, hin⟩
        exact hrest _ g' hand' hg' hin
      · simp only [if_neg hlane]
        exact hrest (.ok hits) g [c] (Feed.Extends.refl g) (Within.refl _)

theorem ensures_scan {bound : Nat} (patterns : List (List Char))
    (hb : b.content.length ≤ o + bound) (hc : c.Stands b f o) (hw : Within [c] hand) :
    (scan like patterns bound c).Ensures b
      (fun r _ _ => r = Findings.ofLane like patterns 0 1 0 (b.content.drop o) #[]) f hand :=
  ensures_lane (bound + 1) 0 #[] (by omega) hc hw

end Program

end BranchCursor
