import BranchCursor.Proofs.ProgramLogic
import Mathlib.Data.List.Chain

/-! A feed from instant to instant, also in the course of single operations: between any two pulls,
and before and after each new mark. Whatever a work does, only three things happen to its feed:
marks are let go, a pull, or a new mark; its failure and its log are taken between works. -/
namespace BranchCursor
open Cursor (Within holding)

/-- A feed at an instant, and the marks held then. -/
structure Instant where
  alive : MarkId → Bool
  feed : Feed

namespace Instant

/-- What can happen from one instant to the next. Who lets go of marks may take the notes of the
feed, and a new mark may be let go of at once; one without a node is made only before the end. -/
inductive Next : Instant → Instant → Prop
  | release {alive later : MarkId → Bool} {f : Feed} (fault : Option CursorError)
      (log : Array LogEntry) (h : ∀ id, later id → alive id) :
      Next ⟨alive, f⟩ ⟨later, { f with fault, log }⟩
  | pull (alive : MarkId → Bool) (f : Feed) : Next ⟨alive, f⟩ ⟨alive, (f.pull alive).2⟩
  | attach {alive later : MarkId → Bool} {f : Feed} {position : Nat} {head : Option NodeId}
      (hhead : head = if position < f.readPosition then some position else none)
      (hopen : head = none → f.exhausted = false)
      (h : ∀ id, later id → alive id ∨ id = f.marks.size) :
      Next ⟨alive, f⟩ ⟨later, (f.attach alive position head).2⟩

variable {origin : Supply} {alive later : MarkId → Bool} {f : Feed} {m n : Instant}

theorem Next.letGo (f : Feed) (h : ∀ id, later id → alive id) : Next ⟨alive, f⟩ ⟨later, f⟩ :=
  Next.release f.fault f.log h

/-- What can happen while nobody takes the log. -/
inductive Change : Instant → Instant → Prop
  | letGo {alive later : MarkId → Bool} (f : Feed) (h : ∀ id, later id → alive id) :
      Change ⟨alive, f⟩ ⟨later, f⟩
  | pull (alive : MarkId → Bool) (f : Feed) : Change ⟨alive, f⟩ ⟨alive, (f.pull alive).2⟩
  | attach {alive later : MarkId → Bool} {f : Feed} {position : Nat} {head : Option NodeId}
      (hhead : head = if position < f.readPosition then some position else none)
      (hopen : head = none → f.exhausted = false)
      (h : ∀ id, later id → alive id ∨ id = f.marks.size) :
      Change ⟨alive, f⟩ ⟨later, (f.attach alive position head).2⟩
  | takeFault (alive : MarkId → Bool) (f : Feed) : Change ⟨alive, f⟩ ⟨alive, f.takeFault.2⟩

theorem Change.next (h : Change m n) : Next m n := by
  cases h with
  | letGo f h => exact Next.letGo f h
  | pull alive f => exact Next.pull alive f
  | attach hhead hopen h => exact Next.attach hhead hopen h
  | takeFault alive f => exact Next.release _ _ fun _ hid => hid

/-- A feed that is sound for the marks held stays so. -/
theorem Next.sound (h : Next m n) (hs : m.feed.Sound origin m.alive) :
    n.feed.Sound origin n.alive := by
  cases h with
  | release fault log h => exact (hs.mono h).withNotes fault log
  | pull alive f => exact (hs.pull fun _ hid => hid).2.sound
  | attach hhead _ h =>
    refine (hs.attach (fun _ hid => hid) hhead).mono ?_
    intro id hid
    simpa using h id hid

/-- What holds at the first instant and stays true from each to the next holds at all of them. -/
theorem forall_of_isChain {R : Instant → Instant → Prop} {P : Instant → Prop}
    (hP : ∀ m n, R m n → P m → P n) {l : List Instant} (h : (m :: l).IsChain R) (hm : P m) :
    ∀ n ∈ m :: l, P n := by
  induction l generalizing m with
  | nil => simpa using hm
  | cons n l ih =>
    obtain ⟨hnext, hrest⟩ := List.isChain_cons_cons.mp h
    exact List.forall_mem_cons.mpr ⟨hm, ih hrest (hP m n hnext hm)⟩

end Instant

open Instant (Change)

/-! ### The instants of a work -/

/-- The feed after each of up to `n` pulls. -/
def Feed.pulls (alive : MarkId → Bool) : Nat → Feed → List Feed
  | 0, _ => []
  | n + 1, f =>
    match f.pull alive with
    | (some _, g) => g :: pulls alive n g
    | (none, g) => [g]

/-- The feed after each pull that is made to bring a cursor its character. -/
def Cursor.reads (alive : MarkId → Bool) (f : Feed) : Cursor → List Feed
  | finish | text _ => []
  | mark id =>
    match f.known (f.mark id) with
    | some _ => []
    | none => f.pulls alive ((f.mark id).position + 1 - f.readPosition)

/-- The instants of a work: before each operation, after each pull, and after each new mark, while
all that the operation uses is still in hand. -/
def Program.instants {α : Type} (held : MarkId → Bool) : Program α → Feed → List Instant
  | done _, _ => []
  | current c kept k, f =>
    let alive := holding held (c :: kept)
    let r := c.current alive f
    ⟨alive, f⟩ :: ((c.reads alive f).map (⟨alive, ·⟩) ++ (k r.1).instants held r.2)
  | next c kept k, f =>
    let alive := holding held (c :: kept)
    let r := c.next alive f
    ⟨alive, f⟩ :: ⟨holding held (r.1 :: c :: kept), r.2⟩ :: (k r.1).instants held r.2

variable {origin : Supply} {held alive later : MarkId → Bool} {f : Feed} {l : List Instant}
  {c : Cursor} {o : Nat}

theorem Feed.isChain_pulls (n : Nat)
    (h : (⟨alive, f.pullMany alive n⟩ :: l : List Instant).IsChain Change) :
    (⟨alive, f⟩ :: ((f.pulls alive n).map (⟨alive, ·⟩) ++ l) : List Instant).IsChain Change := by
  induction n generalizing f with
  | zero => exact h
  | succ n ih =>
    have hpull := Change.pull alive f
    rw [Feed.pullMany] at h
    rw [Feed.pulls]
    generalize f.pull alive = r at h hpull
    obtain ⟨answer, g⟩ := r
    cases answer with
    | some c => exact List.isChain_cons_cons.mpr ⟨hpull, ih h⟩
    | none => exact List.isChain_cons_cons.mpr ⟨hpull, h⟩

/-- Asking a cursor for its character is a sequence of pulls. -/
theorem Cursor.isChain_reads (c : Cursor)
    (h : (⟨alive, (c.current alive f).2⟩ :: l : List Instant).IsChain Change) :
    (⟨alive, f⟩ :: ((c.reads alive f).map (⟨alive, ·⟩) ++ l) : List Instant).IsChain Change := by
  cases c with
  | finish => exact h
  | text t => exact h
  | mark id =>
    rw [Cursor.current, Feed.current] at h
    rw [Cursor.reads]
    cases hknown : f.known (f.mark id) with
    | some a =>
      rw [hknown] at h
      exact h
    | none =>
      rw [hknown] at h
      exact Feed.isChain_pulls _ h

/-- The next cursor is found without a pull: nothing happens, or there is one mark more. -/
theorem Cursor.Stands.next_instant (hc : c.Stands (.supply origin) f o)
    (hs : f.Sound origin alive) (halive : ∀ id, c.holds id → alive id) :
    Change ⟨alive, f⟩ ⟨fun id => alive id || (c.next alive f).1.holds id, (c.next alive f).2⟩ := by
  cases c with
  | finish => exact Change.letGo f (by simp [Cursor.next, holds])
  | text t => cases hc.1
  | mark id =>
    have hnext := hs.next alive (halive id (by simp [holds]))
    split at hnext
    · rw [Cursor.next, hnext]
      exact Change.letGo f (by simp [ofAdvance, ofMark?, holds])
    · rename_i hmore
      rw [Cursor.next, hnext]
      refine Change.attach rfl ?_ ?_
      · intro hnone
        have hle : f.readPosition ≤ (f.mark id).position + 1 := by
          by_contra hlt
          rw [if_pos (by omega)] at hnone
          cases hnone
        rw [Bool.eq_false_iff]
        exact fun he => hmore ⟨he, hle⟩
      · intro id hid
        simp only [ofAdvance, ofMark?, holds, Bool.or_eq_true, beq_iff_eq] at hid
        exact hid.imp_right Eq.symm

/-- A work leads from instant to instant, and so do those who let go of its cursors then. -/
theorem Program.Ensures.isChain {α : Type} {Q : α → Feed → List Cursor → Prop} {p : Program α}
    {hand : List Cursor} (h : p.Ensures (.supply origin) Q f hand)
    (hs : f.Sound origin (holding held hand)) (hle : ∀ id, holding held hand id → alive id) :
    ∃ hand', Q (p.run held f).1 (p.run held f).2 hand' ∧
      ∀ later l, (∀ id, later id → holding held hand' id) →
        (⟨later, (p.run held f).2⟩ :: l : List Instant).IsChain Change →
        (⟨alive, f⟩ :: (p.instants held f ++ ⟨later, (p.run held f).2⟩ :: l) :
          List Instant).IsChain Change := by
  induction p generalizing f hand alive with
  | done a =>
    refine ⟨hand, h, fun later l hlater hl => ?_⟩
    exact List.isChain_cons_cons.mpr ⟨Change.letGo f fun id hid => hle id (hlater id hid), hl⟩
  | current c kept k ih =>
    obtain ⟨hk, hserves, -⟩ := h.of_current hs
    obtain ⟨hand', hQ, hchain⟩ := ih _ hk hserves fun _ hid => hid
    have hin : ∀ id, holding held (c :: kept) id → holding held hand id :=
      Cursor.holding_mono h.1
    rw [Program.run, alive_current]
    refine ⟨hand', hQ, fun later l hlater hl => ?_⟩
    rw [instants, List.cons_append, List.append_assoc, List.isChain_cons_cons]
    refine ⟨Change.letGo f fun id hid => hle id (hin id hid), ?_⟩
    exact c.isChain_reads (hchain later l hlater hl)
  | next c kept k ih =>
    obtain ⟨hk, hserves, -⟩ := h.of_next hs
    obtain ⟨hw, o, hc, -⟩ := h
    obtain ⟨hand', hQ, hchain⟩ := ih _ hk hserves fun _ hid => hid
    have hin : ∀ id, holding held (c :: kept) id → holding held hand id :=
      Cursor.holding_mono hw
    have hnext := hc.next_instant (hs.mono hin) fun id hid => by simp [holding, hid]
    have hmade : (fun id => holding held (c :: kept) id ||
        (c.next (holding held (c :: kept)) f).1.holds id) =
        holding held ((c.next (holding held (c :: kept)) f).1 :: c :: kept) := by
      funext id
      simp only [holding, List.any_cons]
      cases held id <;> simp [Bool.or_comm, Bool.or_assoc]
    rw [Program.run, alive_next]
    refine ⟨hand', hQ, fun later l hlater hl => ?_⟩
    rw [instants, List.cons_append, List.cons_append, List.isChain_cons_cons,
      List.isChain_cons_cons]
    exact ⟨Change.letGo f fun id hid => hle id (hin id hid), hmade ▸ hnext,
      hchain later l hlater hl⟩

end BranchCursor
