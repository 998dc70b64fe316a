import BranchCursor.Audience
import BranchCursor.Proofs.Broadcast
import Mathlib.Data.List.Induction

/-! Who is visited in a broadcast when visits let go of subscribers.
The visits are given by the places of the entries, so that a value which subscribed several times
is told apart at each of them. Whoever is held at first is visited unless an earlier visit let go
of it; its own visit, and later ones, decide only whether it is dead afterwards. -/
namespace BranchCursor

namespace Roster

variable {α σ : Type}

/-- How subscribers respond to visits, given who is held by then and what earlier visits left: who
answers that it stays, whom a visit lets go, and what it leaves to later ones. -/
structure Conduct (α σ : Type) where
  stays : α → List α × σ → Bool
  letsGo : α → List α × σ → α → Bool
  leaves : α → List α × σ → σ

namespace Conduct

/-- A subscriber is alive as long as it is held. -/
def isAlive [DecidableEq α] (seen : List α × σ) (x : α) : Bool := seen.1.contains x

/-- What there is after a visit. -/
def visited (c : Conduct α σ) (seen : List α × σ) (x : α) : List α × σ :=
  (seen.1.filter fun y => !c.letsGo x seen y, c.leaves x seen)

def deliver (c : Conduct α σ) (x : α) (seen : List α × σ) : Bool × List α × σ :=
  (c.stays x seen, c.visited seen x)

/-- What there is after some visits, each to an entry at its place. -/
def visitAll (c : Conduct α σ) (visits : List (α × Nat)) (start : List α × σ) : List α × σ :=
  visits.foldl (fun seen v => c.visited seen v.1) start

/-- What the visits to earlier places leave to a place. -/
def found (c : Conduct α σ) (start : List α × σ) (visits : List (α × Nat)) (place : Nat) :
    List α × σ :=
  c.visitAll (visits.filter (·.2 < place)) start

/-- Whether one of the visits is answered by staying. -/
def isKept (c : Conduct α σ) (start : List α × σ) (visits : List (α × Nat)) (v : α × Nat) : Bool :=
  c.stays v.1 (c.found start visits v.2)

/-- Whether one of the visits lets go of a subscriber. -/
def drops (c : Conduct α σ) (start : List α × σ) (visits : List (α × Nat)) (v : α × Nat) (y : α) :
    Bool :=
  c.letsGo v.1 (c.found start visits v.2) y

/-- Whether no visit before a place lets go of a subscriber. -/
def Spares (c : Conduct α σ) (start : List α × σ) (visits : List (α × Nat)) (place : Nat)
    (y : α) : Prop :=
  ∀ u ∈ visits, u.2 < place → c.drops start visits u y = false

/-- The entries that are left by the visits. -/
def left (c : Conduct α σ) (start : List α × σ) (visits : List (α × Nat)) : List α :=
  (visits.filter (c.isKept start visits)).map Prod.fst

/-- The visits of a broadcast to some entries. -/
structure Visits (c : Conduct α σ) (start : List α × σ) (entries : List α)
    (visits : List (α × Nat)) : Prop where
  /-- Every place is visited at most once, in order. -/
  order : visits.Sublist entries.zipIdx
  /-- The places visited are those whose subscriber is held at first and still is at their turn. -/
  living : ∀ v ∈ entries.zipIdx, v ∈ visits ↔ v.1 ∈ start.1 ∧ c.Spares start visits v.2 v.1
  /-- Nobody dies but those whom a visit lets go. -/
  held : (c.visitAll visits start).1 =
    start.1.filter fun y => visits.all fun u => !c.drops start visits u y

variable {c : Conduct α σ} {start : List α × σ} {entries : List α} {visits : List (α × Nat)}
  {u v : α × Nat} {x y : α} {place : Nat}

theorem visitAll_concat (visits : List (α × Nat)) (v : α × Nat) :
    c.visitAll (visits ++ [v]) start = c.visited (c.visitAll visits start) v.1 := by
  rw [visitAll, List.foldl_concat]
  rfl

/-- What a place finds does not depend on visits to later ones. -/
theorem found_concat (h : place ≤ v.2) :
    c.found start (visits ++ [v]) place = c.found start visits place := by
  have hlate : ¬v.2 < place := by omega
  rw [found, List.filter_append]
  simp [hlate, found]

theorem isKept_concat (h : u.2 ≤ v.2) :
    c.isKept start (visits ++ [v]) u = c.isKept start visits u := by
  rw [isKept, found_concat h]
  rfl

theorem drops_concat (h : u.2 ≤ v.2) (y : α) :
    c.drops start (visits ++ [v]) u y = c.drops start visits u y := by
  rw [drops, found_concat h]
  rfl

/-- Nor do later visits count for who is spared until a place. -/
theorem spares_concat (h : place ≤ v.2) :
    c.Spares start (visits ++ [v]) place y ↔ c.Spares start visits place y := by
  constructor
  · intro hspares u hu hlt
    rw [← drops_concat (Nat.le_trans (Nat.le_of_lt hlt) h) y]
    exact hspares u (List.mem_append_left _ hu) hlt
  · intro hspares u hu hlt
    have hne : u ≠ v := by
      rintro rfl
      omega
    rw [drops_concat (Nat.le_trans (Nat.le_of_lt hlt) h) y]
    exact hspares u (by simpa [hne] using hu) hlt

theorem all_not_drops_concat (h : ∀ u ∈ visits, u.2 ≤ v.2) :
    ((visits ++ [v]).all fun u => !c.drops start (visits ++ [v]) u y) =
      ((visits.all fun u => !c.drops start visits u y) && !c.drops start visits v y) := by
  have hearlier : (visits.all fun u => !c.drops start (visits ++ [v]) u y) =
      visits.all fun u => !c.drops start visits u y := by
    rw [Bool.eq_iff_iff, List.all_eq_true, List.all_eq_true]
    exact forall₂_congr fun u hu => by rw [drops_concat (h u hu)]
  rw [List.all_append, hearlier, List.all_cons, List.all_nil, Bool.and_true,
    drops_concat (Nat.le_refl _)]

namespace Visits

theorem nil (c : Conduct α σ) (start : List α × σ) : c.Visits start [] [] where
  order := List.Sublist.refl _
  living := by simp
  held := by simp [visitAll]

theorem place_lt (h : c.Visits start entries visits) (hv : v ∈ visits) :
    v.2 < entries.length := by
  simpa using List.snd_lt_add_of_mem_zipIdx (h.order.subset hv)

/-- The next place finds what all the visits leave. -/
theorem found_next (h : c.Visits start entries visits) :
    c.found start visits entries.length = c.visitAll visits start := by
  rw [found, List.filter_eq_self.mpr]
  exact fun v hv => decide_eq_true (h.place_lt hv)

/-- Who is held after all the visits. -/
theorem mem_held_iff (h : c.Visits start entries visits) :
    y ∈ (c.visitAll visits start).1 ↔
      y ∈ start.1 ∧ c.Spares start visits entries.length y := by
  rw [h.held, List.mem_filter, List.all_eq_true]
  refine and_congr_right fun _ => forall₂_congr fun u hu => ?_
  simp [h.place_lt hu]

theorem next_not_mem (h : c.Visits start entries visits) :
    (x, entries.length) ∉ visits :=
  fun hx => absurd (h.place_lt hx) (Nat.lt_irrefl _)

/-- The next place is passed by if its subscriber is not held any more. -/
theorem pass (h : c.Visits start entries visits) (hx : x ∉ (c.visitAll visits start).1) :
    c.Visits start (entries ++ [x]) visits where
  order := by
    rw [List.zipIdx_append]
    exact h.order.trans (List.sublist_append_left _ _)
  living v hv := by
    rw [List.zipIdx_append, List.mem_append] at hv
    obtain hv | hv := hv
    · exact h.living v hv
    · obtain rfl : v = (x, entries.length) := by simpa using hv
      exact iff_of_false h.next_not_mem (h.mem_held_iff.not.mp hx)
  held := h.held

/-- The next place is visited if its subscriber is still held. -/
theorem concat (h : c.Visits start entries visits) (hx : x ∈ (c.visitAll visits start).1) :
    c.Visits start (entries ++ [x]) (visits ++ [(x, entries.length)]) where
  order := by
    rw [List.zipIdx_append]
    simpa using h.order
  living v hv := by
    rw [List.zipIdx_append, List.mem_append] at hv
    obtain hv | hv := hv
    · have hlt : v.2 < entries.length := by simpa using List.snd_lt_add_of_mem_zipIdx hv
      have hne : v ≠ (x, entries.length) := fun he => absurd hlt (by simp [he])
      rw [spares_concat (Nat.le_of_lt hlt), ← h.living v hv]
      simp [hne]
    · obtain rfl : v = (x, entries.length) := by simpa using hv
      rw [spares_concat (Nat.le_refl _)]
      exact iff_of_true (by simp) (h.mem_held_iff.mp hx)
  held := by
    have hvisited : (c.visited (c.visitAll visits start) x).1 =
        (c.visitAll visits start).1.filter fun y => !c.drops start visits (x, entries.length) y := by
      simp only [visited, drops, h.found_next]
    rw [visitAll_concat, hvisited, h.held, List.filter_filter]
    refine List.filter_congr fun y _ => ?_
    rw [all_not_drops_concat fun u hu => Nat.le_of_lt (h.place_lt hu), Bool.and_comm]

/-- A subscriber that was visited is dead afterwards if its own visit or a later one let go of
it. -/
theorem mem_held_of_mem_iff (h : c.Visits start entries visits) (hv : v ∈ visits) :
    v.1 ∈ (c.visitAll visits start).1 ↔
      ∀ u ∈ visits, v.2 ≤ u.2 → c.drops start visits u v.1 = false := by
  obtain ⟨hheld, hspared⟩ := (h.living v (h.order.subset hv)).mp hv
  rw [h.mem_held_iff]
  constructor
  · exact fun hlives u hu _ => hlives.2 u hu (h.place_lt hu)
  · intro hlater
    refine ⟨hheld, fun u hu _ => ?_⟩
    by_cases hlt : u.2 < v.2
    · exact hspared u hu hlt
    · exact hlater u hu (Nat.le_of_not_lt hlt)

end Visits

theorem left_concat (h : ∀ u ∈ visits, u.2 ≤ v.2) :
    c.left start (visits ++ [v]) =
      c.left start visits ++ if c.isKept start visits v then [v.1] else [] := by
  have hearlier : visits.filter (c.isKept start (visits ++ [v])) =
      visits.filter (c.isKept start visits) :=
    List.filter_congr fun u hu => isKept_concat (h u hu)
  rw [left, List.filter_append, hearlier, List.map_append, List.filter_cons,
    isKept_concat (Nat.le_refl _)]
  split <;> rfl

/-- The visits of a broadcast, and what it leaves. -/
theorem exists_visits [DecidableEq α] (c : Conduct α σ) (start : List α × σ) (entries : List α) :
    ∃ visits, c.Visits start entries visits ∧
      entries.foldl (visit isAlive c.deliver) (#[], start) =
        ((c.left start visits).toArray, c.visitAll visits start) := by
  -- from the end, since what an entry finds is what all the visits before it left
  induction entries using List.reverseRecOn with
  | nil => exact ⟨[], .nil c start, rfl⟩
  | append_singleton earlier x ih =>
    obtain ⟨visits, hvisits, hrun⟩ := ih
    rw [List.foldl_concat, hrun, visit_eq]
    by_cases hx : x ∈ (c.visitAll visits start).1
    · refine ⟨visits ++ [(x, earlier.length)], hvisits.concat hx, ?_⟩
      rw [if_pos (by simpa [isAlive] using hx), visitAll_concat,
        left_concat fun u hu => Nat.le_of_lt (hvisits.place_lt hu), isKept,
        hvisits.found_next, deliver]
      split <;> simp
    · exact ⟨visits, hvisits.pass hx, if_neg (by simpa [isAlive] using hx)⟩

end Conduct

end Roster

namespace Audience

open Roster

namespace Response

/-- What a response makes of a visit, which notes whom it visits. -/
def conduct (response : Response) : Conduct Subscriber (List Nat) where
  stays x _ := response.stays x.id
  letsGo x _ y := (response.kills x.id).contains y.id
  leaves x seen := x.id :: seen.2

/-- The visits are noted, the last one first. -/
theorem notes_visitAll (response : Response) (visits : List (Subscriber × Nat))
    (start : List Subscriber × List Nat) :
    (response.conduct.visitAll visits start).2 = (visits.map (·.1.id)).reverse ++ start.2 := by
  induction visits generalizing start with
  | nil => rfl
  | cons v later ih =>
    rw [Conduct.visitAll, List.foldl_cons]
    refine (ih _).trans ?_
    simp [Conduct.visited, conduct]

end Response

theorem drops_conduct_eq_false {response : Response} {start : List Subscriber × List Nat}
    {visits : List (Subscriber × Nat)} {u : Subscriber × Nat} {y : Subscriber} :
    response.conduct.drops start visits u y = false ↔ y.id ∉ response.kills u.1.id := by
  simp [Conduct.drops, Response.conduct]

/-- Every audience broadcasts in the way of its response. -/
theorem exists_visits_run (a : Audience) (response : Response) :
    ∃ visits, response.conduct.Visits (a.held, []) a.roster.entries.toList visits ∧
      a.run (.broadcast response) =
        (.visited (visits.map (·.1.id)),
          { a with
            roster := { a.roster with
              entries := ((visits.filter (response.stays ·.1.id)).map Prod.fst).toArray }
            held := (response.conduct.visitAll visits (a.held, [])).1 }) := by
  obtain ⟨visits, hvisits, hrun⟩ :=
    response.conduct.exists_visits (a.held, []) a.roster.entries.toList
  refine ⟨visits, hvisits, ?_⟩
  have hbroadcast : a.roster.broadcast (fun seen => isAlive seen.1) response.deliver (a.held, []) =
      ({ a.roster with
          entries := ((visits.filter (response.stays ·.1.id)).map Prod.fst).toArray },
        response.conduct.visitAll visits (a.held, [])) :=
    (broadcast_eq _ _ _ _).trans
      (congrArg (fun seen => ({ a.roster with entries := seen.1 }, seen.2)) hrun)
  simp only [run, hbroadcast, Response.notes_visitAll]
  simp

/-- A broadcast visits exactly those who are still held when their turn comes, once for each
subscription and in order: whoever is held at first and whom no visit to an earlier place let go.
Left are the visited entries that answered so, dead ones included, and nothing else changes. This
holds for whatever subscribers answer and whomever their visits let go, and for every audience. -/
theorem broadcast_visits_living :
    (∀ {α σ : Type} [DecidableEq α] (c : Conduct α σ) (r : Roster α) (start : List α × σ),
      ∃ visits : List (α × Nat),
        c.Visits start r.entries.toList visits ∧
        r.broadcast Conduct.isAlive c.deliver start =
          ({ r with entries := (c.left start visits).toArray }, c.visitAll visits start) ∧
        ∀ v ∈ visits, (v.1 ∈ (c.visitAll visits start).1 ↔
          ∀ u ∈ visits, v.2 ≤ u.2 → c.drops start visits u v.1 = false)) ∧
    ∀ (a : Audience) (response : Response),
      ∃ visits : List (Subscriber × Nat),
        visits.Sublist a.roster.entries.toList.zipIdx ∧
        (∀ v ∈ a.roster.entries.toList.zipIdx, v ∈ visits ↔ v.1 ∈ a.held ∧
          ∀ u ∈ visits, u.2 < v.2 → v.1.id ∉ response.kills u.1.id) ∧
        a.run (.broadcast response) =
          (.visited (visits.map (·.1.id)),
            { a with
              roster := { a.roster with
                entries := ((visits.filter (response.stays ·.1.id)).map Prod.fst).toArray }
              held := a.held.filter fun y =>
                visits.all fun u => !(response.kills u.1.id).contains y.id }) ∧
        ∀ v ∈ visits, (v.1 ∈ (a.run (.broadcast response)).2.held ↔
          ∀ u ∈ visits, v.2 ≤ u.2 → v.1.id ∉ response.kills u.1.id) := by
  constructor
  · intro α σ _ c r start
    obtain ⟨visits, hvisits, hrun⟩ := c.exists_visits start r.entries.toList
    exact ⟨visits, hvisits, by rw [broadcast_eq, hrun], fun v hv => hvisits.mem_held_of_mem_iff hv⟩
  · intro a response
    obtain ⟨visits, hvisits, hrun⟩ := exists_visits_run a response
    refine ⟨visits, hvisits.order, fun v hv => ?_, ?_, fun v hv => ?_⟩
    · simpa only [Conduct.Spares, drops_conduct_eq_false] using hvisits.living v hv
    · rw [hrun, hvisits.held]
      rfl
    · rw [hrun]
      simpa only [drops_conduct_eq_false] using hvisits.mem_held_of_mem_iff hv

/-- Of two values that subscribed twice one lets go of itself, and the other is let go after its
first visit: neither is visited again, and both are left as dead entries. -/
theorem broadcast_visits_living_once :
    let entries : Array Subscriber := #[⟨2, 0⟩, ⟨1, 1⟩, ⟨3, 2⟩, ⟨9, 3⟩, ⟨2, 0⟩, ⟨1, 1⟩, ⟨4, 4⟩]
    let a : Audience := ⟨⟨entries, 1, 8⟩, [⟨1, 1⟩, ⟨2, 0⟩, ⟨3, 2⟩, ⟨4, 4⟩], 5⟩
    let response : Response := ⟨some [1, 2, 4], [(1, [1, 4]), (3, [2])]⟩
    ∃ visits : List (Subscriber × Nat), visits.Sublist entries.toList.zipIdx ∧
      visits.map (·.1.id) = [2, 1, 3] ∧
      (a.run (.broadcast response)).2.roster.entries = #[⟨2, 0⟩, ⟨1, 1⟩] ∧
      (a.run (.broadcast response)).2.status = (2, false, 0) := by
  intro entries a response
  obtain ⟨visits, horder, -, hrun, -⟩ := broadcast_visits_living.2 a response
  have hvisited : (a.run (.broadcast response)).1 = .visited [2, 1, 3] := by decide
  rw [hrun] at hvisited
  exact ⟨visits, horder, Answer.visited.inj hvisited, by decide, by decide⟩

end Audience

end BranchCursor
