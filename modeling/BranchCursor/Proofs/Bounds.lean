import BranchCursor.Proofs.Steps

/-! Walks to the end of a content do the same under any bound that is large enough: they stop where
the content does, and never come to where the bound would stop them. -/
namespace BranchCursor
open Cursor (Within holding)

namespace Cursor

variable {b : Backing} {f : Feed} {o : Nat} {held : MarkId → Bool} {c : Cursor}

/-- Asking a cursor that alone is in hand. -/
theorem Stands.ask (hc : c.Stands b f o) (hs : f.Serves b (holding held [c])) :
    let r := c.current (holding held [c]) f
    r.1 = b.content[o]? ∧ c.Stands b r.2 o ∧ r.2.Serves b (holding held [c]) := by
  obtain ⟨ha, hserves, hext⟩ := hc.current (holding held [c]) hs (fun _ h => h)
    fun id hid => by simp [holding, hid]
  exact ⟨ha, hc.extend hext, hserves⟩

/-- Moving on from it to the next, which then is. -/
theorem Stands.move (hc : c.Stands b f o) (hs : f.Serves b (holding held [c])) :
    let r := c.next (holding held [c]) f
    r.1.Stands b r.2 (o + 1) ∧ r.2.Serves b (holding held [r.1]) := by
  obtain ⟨hd, hserves, -⟩ := hc.next (holding held [c]) hs (fun _ h => h)
    fun id hid => by simp [holding, hid]
  refine ⟨hd, hserves.mono fun id hid => ?_⟩
  simp only [holding, List.any_cons, List.any_nil, Bool.or_false, Bool.or_eq_true] at hid ⊢
  tauto

end Cursor

namespace Program

variable {b : Backing} {f : Feed} {o : Nat} {held : MarkId → Bool} {c : Cursor}

/-- All that follows is read, whatever more might be. -/
theorem run_readOn_eq {n m : Nat} (hn : b.content.length ≤ o + n) (hm : b.content.length ≤ o + m)
    (hc : c.Stands b f o) (hs : f.Serves b (holding held [c])) (text : Array Char) :
    (readOn (n + 1) c text).run held f = (readOn (m + 1) c text).run held f := by
  induction n generalizing m c f o text with
  | zero =>
    have hnone : b.content[o]? = none := List.getElem?_eq_none hn
    obtain ⟨ha, -⟩ := hc.ask hs
    simp only [readOn, run, alive_current, ha, hnone]
  | succ n ih =>
    obtain ⟨ha, hc', hs'⟩ := hc.ask hs
    simp only [readOn, run, alive_current, ha]
    cases hcase : b.content[o]? with
    | none => rfl
    | some a =>
      have hlt := (List.getElem?_eq_some_iff.mp hcase).1
      obtain ⟨k, rfl⟩ : ∃ k, m = k + 1 := ⟨m - 1, by omega⟩
      obtain ⟨hd, hs''⟩ := hc'.move hs'
      simp only [run, alive_next]
      exact ih (by omega) (by omega) hd hs'' _

theorem run_collect_eq {n m : Nat} (hn : b.content.length ≤ o + n)
    (hm : b.content.length ≤ o + m) (hc : c.Stands b f o)
    (hs : f.Serves b (holding held [c])) :
    (collect n c).run held f = (collect m c).run held f :=
  run_readOn_eq hn hm hc hs #[]

variable {like : Char → Char → Bool} {patterns : List (List Char)} {k lanes : Nat}

/-- What a lane does at one offset before it goes on. -/
def tryHere (like : Char → Char → Bool) (patterns : List (List Char)) (k lanes offset : Nat)
    (c : Cursor) (hits : Array Hit) : Program Findings :=
  if offset % lanes = k then tryPatterns like offset c patterns 0 hits else done (.ok hits)

variable (like patterns k lanes) in
theorem ensures_tryHere (offset : Nat) (hits : Array Hit) (hc : c.Stands b f o) :
    (tryHere like patterns k lanes offset c hits).Ensures b
      (fun _ g hand => c.Stands b g o ∧ Within [c] hand) f [c] := by
  unfold tryHere
  split
  · refine (ensures_tryPatterns offset patterns 0 hits hc (Within.refl _)).imp ?_
    rintro r g hand hg ⟨-, hin⟩
    exact ⟨hc.extend hg, hin⟩
  · exact ⟨hc, Within.refl _⟩

/-- A lane tries all offsets there are, whatever more might come. -/
theorem run_lane_eq {n m : Nat} (hn : b.content.length ≤ o + n) (hm : b.content.length ≤ o + m)
    (hc : c.Stands b f o) (hs : f.Serves b (holding held [c])) (offset : Nat)
    (hits : Array Hit) :
    (lane like patterns k lanes (n + 1) offset c hits).run held f =
      (lane like patterns k lanes (m + 1) offset c hits).run held f := by
  induction n generalizing m c f o offset hits with
  | zero =>
    have hnone : b.content[o]? = none := List.getElem?_eq_none hn
    obtain ⟨ha, -⟩ := hc.ask hs
    simp only [lane, run, alive_current, ha, hnone]
  | succ n ih =>
    obtain ⟨ha, hc', hs'⟩ := hc.ask hs
    simp only [lane, run, alive_current, ha]
    cases hcase : b.content[o]? with
    | none => rfl
    | some a =>
      have hlt := (List.getElem?_eq_some_iff.mp hcase).1
      obtain ⟨k', rfl⟩ : ∃ k', m = k' + 1 := ⟨m - 1, by omega⟩
      obtain ⟨hand, ⟨hc'', hin⟩, hs'', -⟩ :=
        (ensures_tryHere like patterns k lanes offset hits hc').run hs'
      have htried : (if offset % lanes = k then tryPatterns like offset c patterns 0 hits
          else done (.ok hits)) = tryHere like patterns k lanes offset c hits := rfl
      simp only [htried, run_bind]
      generalize (tryHere like patterns k lanes offset c hits).run held
        (c.current (holding held [c]) f).2 = r at hc'' hs''
      obtain ⟨found, g⟩ := r
      cases found with
      | error cause => rfl
      | ok hits' =>
        obtain ⟨hd, hs'''⟩ := hc''.move (hs''.mono (Cursor.holding_mono hin))
        simp only [run, alive_next]
        exact ih (by omega) (by omega) hd hs''' _ _

theorem run_scan_eq {n m : Nat} (hn : b.content.length ≤ o + n)
    (hm : b.content.length ≤ o + m) (hc : c.Stands b f o)
    (hs : f.Serves b (holding held [c])) :
    (scan like patterns n c).run held f = (scan like patterns m c).run held f :=
  run_lane_eq hn hm hc hs 0 #[]

end Program

end BranchCursor
