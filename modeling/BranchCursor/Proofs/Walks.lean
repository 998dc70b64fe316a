import BranchCursor.Walk
import BranchCursor.Proofs.ProgramLogic

/-! What walks come to: each is determined by the content and the offset at which it starts. -/
namespace BranchCursor.Program
open Cursor (Within within_of_subset)

variable {b : Backing} {f : Feed} {o : Nat} {c : Cursor} {hand : List Cursor}

/-- A skip leads `n` further on. -/
theorem ensures_skip (n : Nat) (hc : c.Stands b f o) (hw : Within [c] hand) :
    (skip n c).Ensures b (fun d g hand' => d.Stands b g (o + n) ∧ Within [d] hand') f hand := by
  induction n generalizing c f o hand with
  | zero => exact ⟨hc, hw⟩
  | succ n ih =>
    unfold skip
    split
    · rename_i hfinish
      refine ⟨?_, hw⟩
      cases c with
      | finish => exact Nat.le_trans hc (Nat.le_add_right o (n + 1))
      | text t => cases hfinish
      | mark id => cases hfinish
    · refine ⟨hw, o, hc, fun g d _ hd => ?_⟩
      have hin : Within [d] [d, c] := within_of_subset (by simp)
      have h := ih hd hin
      rwa [Nat.add_right_comm] at h

theorem drop_eq_cons {content : List Char} {a : Char} (ha : content[o]? = some a) :
    content.drop o = a :: content.drop (o + 1) := by
  obtain ⟨hlt, rfl⟩ := List.getElem?_eq_some_iff.mp ha
  exact List.drop_eq_getElem_cons hlt

/-- Reading on delivers the characters from the cursor on, at most `n`. -/
theorem ensures_readOn (n : Nat) (text : Array Char) (hc : c.Stands b f o)
    (hw : Within [c] hand) :
    (readOn n c text).Ensures b
      (fun r _ _ => r.toList = text.toList ++ (b.content.drop o).take n) f hand := by
  induction n generalizing c f o hand text with
  | zero => simp [readOn, Ensures]
  | succ n ih =>
    refine ⟨hw, o, hc, fun g hg => ?_⟩
    cases ha : b.content[o]? with
    | none =>
      have hnil := List.drop_eq_nil_of_le (List.getElem?_eq_none_iff.mp ha)
      simp [Ensures, hnil]
    | some a =>
      refine ⟨Within.refl _, o, hc.extend hg, fun g' d _ hd => ?_⟩
      refine (ih (text.push a) hd (within_of_subset (by simp))).imp ?_
      intro r _ _ _ hr
      rw [hr, drop_eq_cons ha]
      simp

theorem ensures_peek (n : Nat) (hc : c.Stands b f o) (hw : Within [c] hand) :
    (peek n c).Ensures b (fun r _ _ => r.toList = (b.content.drop o).take n) f hand := by
  refine (ensures_readOn n #[] hc hw).imp ?_
  intro r _ _ _ hr
  simpa using hr

/-- With a bound on what can follow, all that follows is collected. -/
theorem ensures_collect {bound : Nat} (hb : b.content.length ≤ o + bound) (hc : c.Stands b f o)
    (hw : Within [c] hand) :
    (collect bound c).Ensures b (fun r _ _ => r.toList = b.content.drop o) f hand := by
  refine (ensures_peek (bound + 1) hc hw).imp ?_
  intro r _ _ _ hr
  rw [hr, List.take_of_length_le]
  rw [List.length_drop]
  omega

/-- Each call of an iterator gives the character one further on, and none past the end, where the
iterator stays. -/
theorem ensures_iterate (n : Nat) (given : Array (Option Char)) (hc : c.Stands b f o)
    (hw : Within [c] hand) :
    (iterate n c given).Ensures b
      (fun r g hand' =>
        r.1.toList = given.toList ++ (List.range n).map (fun k => b.content[o + k]?) ∧
        r.2.Stands b g (o + min n (b.content.length - o)) ∧ Within [r.2] hand') f hand := by
  induction n generalizing c f o hand given with
  | zero =>
    refine ⟨by simp, ?_, hw⟩
    simpa using hc
  | succ n ih =>
    refine ⟨hw, o, hc, fun g hg => ?_⟩
    cases ha : b.content[o]? with
    | none =>
      have hge := List.getElem?_eq_none_iff.mp ha
      refine (ih (given.push none) (hc.extend hg) (Within.refl _)).imp ?_
      rintro r g' hand' - ⟨hr, hst, hin⟩
      refine ⟨?_, ?_, hin⟩
      · have hnone : ∀ k, b.content[o + k]? = none := fun k =>
          List.getElem?_eq_none (by omega)
        rw [hr]
        simp [hnone, List.replicate_succ]
      · have hz : b.content.length - o = 0 := by omega
        rw [hz] at hst ⊢
        simpa using hst
    | some a =>
      have hlt := (List.getElem?_eq_some_iff.mp ha).1
      refine ⟨Within.refl _, o, hc.extend hg, fun g' d _ hd => ?_⟩
      refine (ih (given.push (some a)) hd (within_of_subset (by simp))).imp ?_
      rintro r g'' hand' - ⟨hr, hst, hin⟩
      refine ⟨?_, ?_, hin⟩
      · rw [hr, List.range_succ_eq_map]
        simp [ha, Nat.add_assoc, Nat.add_comm 1, Function.comp_def]
      · have he : o + 1 + min n (b.content.length - (o + 1)) =
            o + min (n + 1) (b.content.length - o) := by omega
        rwa [he] at hst

end BranchCursor.Program
