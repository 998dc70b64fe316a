import BranchCursor.Proofs.Broadcast

/-! How long a roster gets. A subscription sweeps once as many entries are there as are due, and
what is due is at least the floor and twice what a sweep left; so a roster is never longer than the
floor or than twice as many as were alive at some sweep. -/
namespace BranchCursor

/-- The largest of some numbers, or 0 if there are none. -/
def largest (counts : List Nat) : Nat := counts.foldr max 0

theorem le_largest {n : Nat} {counts : List Nat} (h : n ∈ counts) : n ≤ largest counts := by
  induction counts with
  | nil => cases h
  | cons m counts ih =>
    rcases List.mem_cons.mp h with rfl | h
    · exact Nat.le_max_left _ _
    · exact Nat.le_trans (ih h) (Nat.le_max_right _ _)

namespace Roster

variable {α σ : Type} {alive : α → Bool} {x : α} {r : Roster α} {floor peak : Nat}

@[simp] theorem floor_settle (alive : α → Bool) (r : Roster α) :
    (r.settle alive).floor = r.floor := by
  unfold settle
  split <;> rfl

theorem size_prune (alive : α → Bool) (r : Roster α) : (r.prune alive).size = r.liveCount alive :=
  Array.countP_eq_size_filter.symm

theorem entries_settle_sublist (alive : α → Bool) (r : Roster α) :
    (r.settle alive).entries.toList.Sublist r.entries.toList := by
  unfold settle
  split
  · rw [sweep, entries_prune, Array.toList_filter]
    exact List.filter_sublist
  · exact List.Sublist.refl _

/-- Nobody joins in a broadcast. -/
theorem size_broadcast_le (alive : σ → α → Bool) (deliver : α → σ → Bool × σ) (r : Roster α)
    (s : σ) : (r.broadcast alive deliver s).1.size ≤ r.size := by
  have hwalk : ∀ (xs : List α) (kept : Array α) (s : σ),
      (xs.foldl (visit alive deliver) (kept, s)).1.size ≤ kept.size + xs.length := by
    intro xs
    induction xs with
    | nil => exact fun kept s => Nat.le_refl _
    | cons x xs ih =>
      intro kept s
      rw [List.foldl_cons, visit_eq, List.length_cons]
      split
      · refine Nat.le_trans (ih _ _) ?_
        split
        · rw [Array.size_push]
          omega
        · omega
      · exact Nat.le_trans (ih kept s) (by omega)
  have h := hwalk r.entries.toList #[] s
  rw [broadcast_eq]
  simpa [size] using h

/-! ### Any uses -/

/-- One use of a roster, with who is alive meanwhile; subscribers may be dropped between uses,
and in a broadcast from one visit to the next. -/
inductive Use (α σ : Type) where
  | subscribe (alive : α → Bool) (x : α)
  | broadcast (alive : σ → α → Bool) (deliver : α → σ → Bool × σ) (s : σ)
  | prune (alive : α → Bool)

namespace Use

def apply (r : Roster α) : Use α σ → Roster α
  | subscribe alive x => r.subscribe alive x
  | broadcast alive deliver s => (r.broadcast alive deliver s).1
  | prune alive => r.prune alive

/-- How many entries the sweep before a subscription keeps, if there is one. -/
def sweep? (r : Roster α) : Use α σ → Option Nat
  | subscribe alive _ => if r.isDue then some (r.liveCount alive) else none
  | broadcast .. | prune _ => none

end Use

def useAll (uses : List (Use α σ)) (r : Roster α) : Roster α := uses.foldl Use.apply r

/-- How many entries each sweep before a subscription keeps. -/
def sweeps : List (Use α σ) → Roster α → List Nat
  | [], _ => []
  | use :: later, r => (use.sweep? r).toList ++ sweeps later (use.apply r)

/-- What is due after a subscription: as before, or by what the sweep left. -/
theorem due_subscribe (alive : α → Bool) (x : α) (r : Roster α) :
    (r.subscribe alive x).due = if r.isDue then max (2 * r.liveCount alive) r.floor else r.due := by
  simp only [subscribe, settle]
  split
  · rw [← size_prune]
    rfl
  · rfl

/-- There is always room for those that are there. -/
theorem size_subscribe_le_due (hfloor : 0 < r.floor) (alive : α → Bool) (x : α) :
    (r.subscribe alive x).size ≤ (r.subscribe alive x).due := by
  rw [size_subscribe, due_subscribe, settle]
  by_cases hdue : r.isDue = true
  · have hsize : (r.sweep alive).size = r.liveCount alive := size_prune alive r
    rw [if_pos hdue, if_pos hdue, hsize]
    omega
  · have hlt : r.size < r.due := by simpa [isDue] using hdue
    rw [if_neg hdue, if_neg hdue]
    exact hlt

theorem Use.apply_spec (use : Use α σ) (hroom : r.size ≤ r.due) (hfloor : 0 < r.floor) :
    (use.apply r).size ≤ (use.apply r).due ∧ (use.apply r).floor = r.floor ∧
    (use.apply r).due = ((use.sweep? r).map fun n => max r.floor (2 * n)).getD r.due := by
  cases use with
  | subscribe alive x =>
    refine ⟨size_subscribe_le_due hfloor alive x, floor_settle alive r, ?_⟩
    rw [apply, sweep?, due_subscribe]
    split
    · exact Nat.max_comm _ _
    · rfl
  | broadcast alive deliver s =>
    exact ⟨Nat.le_trans (size_broadcast_le alive deliver r s) hroom, rfl, rfl⟩
  | prune alive =>
    refine ⟨Nat.le_trans ?_ hroom, rfl, rfl⟩
    rw [apply, size_prune]
    exact Array.countP_le_size

/-- What is due is decided by the last sweep. -/
theorem useAll_spec (uses : List (Use α σ)) (hroom : r.size ≤ r.due) (hfloor : 0 < r.floor) :
    (useAll uses r).size ≤ (useAll uses r).due ∧
    (useAll uses r).due =
      ((sweeps uses r).getLast?.map fun n => max r.floor (2 * n)).getD r.due := by
  induction uses generalizing r with
  | nil => exact ⟨hroom, rfl⟩
  | cons use later ih =>
    obtain ⟨hroom', hfloor', hdue⟩ := use.apply_spec hroom hfloor
    obtain ⟨hsize, hlast⟩ := ih hroom' (hfloor' ▸ hfloor)
    refine ⟨hsize, ?_⟩
    rw [hfloor', hdue] at hlast
    refine hlast.trans ?_
    rw [sweeps, List.getLast?_append]
    cases (sweeps later (use.apply r)).getLast? with
    | some n => rfl
    | none => cases use.sweep? r <;> rfl

/-! ### Bounds -/

/-- A roster with room for its entries, and with no more room than the floor, or than twice the
number of those that were ever alive together. -/
structure Fits (floor peak : Nat) (r : Roster α) : Prop where
  room : r.size ≤ r.due
  least : r.floor = floor
  due : r.due ≤ max floor (2 * peak)

theorem Fits.size_le (h : r.Fits floor peak) : r.size ≤ max floor (2 * peak) :=
  Nat.le_trans h.room h.due

theorem Fits.mono (h : r.Fits floor peak) {more : Nat} (hle : peak ≤ more) :
    r.Fits floor more where
  room := h.room
  least := h.least
  due := by
    have := h.due
    omega

theorem Fits.subscribe (h : r.Fits floor peak) (hfloor : 0 < floor)
    (hlive : r.liveCount alive ≤ peak) : (r.subscribe alive x).Fits floor peak where
  room := size_subscribe_le_due (h.least ▸ hfloor) alive x
  least := (floor_settle alive r).trans h.least
  due := by
    have := h.due
    have := h.least
    rw [due_subscribe]
    split <;> omega

theorem Fits.broadcast (h : r.Fits floor peak) (alive : σ → α → Bool)
    (deliver : α → σ → Bool × σ) (s : σ) : (r.broadcast alive deliver s).1.Fits floor peak where
  room := Nat.le_trans (size_broadcast_le alive deliver r s) h.room
  least := h.least
  due := h.due

end Roster

end BranchCursor
