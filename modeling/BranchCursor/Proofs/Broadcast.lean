import BranchCursor.Feed.Attach
import BranchCursor.Feed.Pull
import Mathlib.Data.List.Basic

/-! Who hears of a pull and who stays on the roster.
A live mark on the roster hears of every pull, and leaves only once its own position was read. -/
namespace BranchCursor

namespace Roster
variable {α σ : Type} {alive : α → Bool} {x y : α} {r : Roster α}

/-- A sweep spares the living. -/
theorem mem_settle (h : x ∈ r.entries) (hx : alive x = true) : x ∈ (r.settle alive).entries := by
  unfold settle
  split
  · simpa [sweep, prune] using ⟨h, hx⟩
  · exact h

/-- A live subscriber stays when another one joins. -/
theorem mem_subscribe (h : y ∈ r.entries) (hy : alive y = true) :
    y ∈ (r.subscribe alive x).entries := by
  simp only [subscribe, Array.mem_push]
  exact Or.inl (mem_settle h hy)

theorem mem_subscribe_self (alive : α → Bool) (x : α) (r : Roster α) :
    x ∈ (r.subscribe alive x).entries := by
  simp [subscribe]

/-- A broadcast is a walk along the list of the entries. -/
theorem broadcast_eq (alive : σ → α → Bool) (deliver : α → σ → Bool × σ) (r : Roster α) (s : σ) :
    r.broadcast alive deliver s =
      ({ r with entries := (r.entries.toList.foldl (visit alive deliver) (#[], s)).1 },
        (r.entries.toList.foldl (visit alive deliver) (#[], s)).2) := by
  simp only [broadcast, ← Array.foldl_toList]

/-- What one visit does: nothing to a dead entry, and a live one stays if it answers so. -/
theorem visit_eq (alive : σ → α → Bool) (deliver : α → σ → Bool × σ) (kept : Array α) (s : σ)
    (x : α) :
    visit alive deliver (kept, s) x =
      if alive s x then (if (deliver x s).1 then kept.push x else kept, (deliver x s).2)
      else (kept, s) := rfl

end Roster

namespace Mark

@[simp] theorem position_told (node : NodeId) (offset : Nat) (m : Mark) :
    (m.told node offset).position = m.position := by
  unfold told
  split <;> rfl

theorem told_of_ne {node : NodeId} {offset : Nat} {m : Mark} (h : m.position ≠ offset) :
    m.told node offset = m := if_neg h

/-- Hearing of the same node again changes nothing, since a head is set once. -/
@[simp] theorem told_told (node : NodeId) (offset : Nat) (m : Mark) :
    (m.told node offset).told node offset = m.told node offset := by
  unfold told
  by_cases h : m.position = offset
  · cases hm : m.head <;> simp [h]
  · simp [h]

theorem head_told_self {node : NodeId} {m : Mark} (h : m.head = none) :
    (m.told node m.position).head = some node := by
  simp [told, h]

end Mark

namespace Feed
variable {alive : MarkId → Bool} {node : NodeId} {offset : Nat} {id : MarkId}

theorem getElem?_notify (node : NodeId) (offset : Nat) (visited : MarkId) (marks : Array Mark)
    (id : MarkId) :
    (notify node offset visited marks).2[id]? =
      if visited = id then marks[id]?.map (Mark.told node offset) else marks[id]? := by
  simp only [notify, Array.getElem?_modify]

/-- A visited mark answers from what it has heard by then. -/
theorem notify_of_getElem? {visited : MarkId} {marks : Array Mark} {m : Mark}
    (h : marks[visited]? = some m) :
    (notify node offset visited marks).1 = (m.told node offset).waits offset := by
  have h' := getElem?_notify node offset visited marks visited
  rw [if_pos rfl, h] at h'
  change ((notify node offset visited marks).2[visited]?.map (Mark.waits offset)).getD false = _
  rw [h']
  rfl

/-- Exactly the live entries hear of a pull, whatever others are visited before. -/
theorem getElem?_foldl_visit (xs : List MarkId) (kept : Array MarkId) (marks : Array Mark) :
    (xs.foldl (Roster.visit (fun _ => alive) (notify node offset)) (kept, marks)).2[id]? =
      if id ∈ xs ∧ alive id then marks[id]?.map (Mark.told node offset) else marks[id]? := by
  induction xs generalizing kept marks with
  | nil => simp
  | cons x xs ih =>
    rw [List.foldl_cons, Roster.visit_eq]
    by_cases hx : alive x = true
    · rw [if_pos hx, ih, getElem?_notify]
      by_cases he : x = id
      · subst he
        cases marks[x]? <;> simp [hx]
      · simp [he, Ne.symm he]
    · rw [if_neg hx, ih]
      by_cases he : id = x
      · subst he
        simp [hx]
      · simp [he]

/-- Who is kept already is kept in the end. -/
theorem mem_foldl_visit_of_mem (xs : List MarkId) {kept : Array MarkId} (marks : Array Mark)
    (h : id ∈ kept) :
    id ∈ (xs.foldl (Roster.visit (fun _ => alive) (notify node offset)) (kept, marks)).1 := by
  induction xs generalizing kept marks with
  | nil => exact h
  | cons x xs ih =>
    rw [List.foldl_cons, Roster.visit_eq]
    split
    · apply ih
      split
      · exact Array.mem_push_of_mem _ h
      · exact h
    · exact ih marks h

/-- A live entry ahead of a pull that has no head yet goes on waiting. -/
theorem mem_foldl_visit {xs : List MarkId} {kept : Array MarkId} {marks : Array Mark} {m : Mark}
    (h : id ∈ xs) (ha : alive id = true) (hm : marks[id]? = some m) (hh : m.head = none)
    (hp : offset < m.position) :
    id ∈ (xs.foldl (Roster.visit (fun _ => alive) (notify node offset)) (kept, marks)).1 := by
  have htold : m.told node offset = m := Mark.told_of_ne (by omega)
  induction xs generalizing kept marks with
  | nil => simp at h
  | cons x xs ih =>
    rw [List.foldl_cons, Roster.visit_eq]
    by_cases he : x = id
    · subst he
      have hstay : (notify node offset x marks).1 = true := by
        rw [notify_of_getElem? hm, htold]
        simp [Mark.waits, hh, hp]
      rw [if_pos ha, if_pos hstay]
      exact mem_foldl_visit_of_mem xs _ Array.mem_push_self
    · have hxs : id ∈ xs := (List.mem_cons.mp h).resolve_left (Ne.symm he)
      split
      · apply ih hxs
        rw [getElem?_notify, if_neg he, hm]
      · exact ih hxs hm

end Feed

end BranchCursor
