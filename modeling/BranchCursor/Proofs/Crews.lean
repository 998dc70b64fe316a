import BranchCursor.Proofs.Interference

/-! Several works over one feed at the same time, in any interleaving of their operations.
What each of them comes to by itself it comes to in every interleaving, and running them in turn
is one of these. -/
namespace BranchCursor

/-- Works that go on at the same time over one feed. -/
structure Crew (α : Type) where
  works : List (Program α)
  feed : Feed

/-- The result of a work that is done. -/
def Program.result? {α : Type} : Program α → Option α
  | done a => some a
  | current .. | next .. => none

/-- Whose turn it is, and which marks are held by others than the crew meanwhile. -/
structure Turn where
  worker : Nat
  others : MarkId → Bool

namespace Crew

variable {α : Type}

def holds (crew : Crew α) (id : MarkId) : Bool := crew.works.any (·.holds id)

/-- One worker does its next operation. -/
def turn (crew : Crew α) (t : Turn) : Crew α :=
  match crew.works[t.worker]? with
  | none => crew
  | some p =>
    let r := p.step (fun id => t.others id || crew.holds id) crew.feed
    ⟨crew.works.set t.worker r.1, r.2⟩

def run (crew : Crew α) (turns : List Turn) : Crew α := turns.foldl turn crew

/-- All works of the crew are done, and these are their results. -/
def Done (crew : Crew α) (results : List α) : Prop :=
  crew.works.map Program.result? = results.map some

instance [DecidableEq α] (crew : Crew α) (results : List α) : Decidable (crew.Done results) :=
  inferInstanceAs (Decidable (_ = _))

/-- The lanes of a search, all of which start at one cursor. -/
def searching (like : Char → Char → Bool) (patterns : List (List Char)) (lanes : Nat)
    (c : Cursor) (f : Feed) : Crew Findings :=
  ⟨(List.range lanes).map fun k => .search like patterns k lanes (c.bound f) c, f⟩

/-- The feed is sound for the cursors of all works, and each work meets what is said of it. -/
structure Sound (b : Backing) (Q : Nat → α → Feed → Prop) (crew : Crew α) : Prop where
  serves : crew.feed.Serves b crew.holds
  meets : ∀ (k : Nat) (p : Program α), crew.works[k]? = some p →
    p.Meets b (fun a g _ => Q k a g) crew.feed p.hand

variable {b : Backing} {Q : Nat → α → Feed → Prop} {crew : Crew α} {held : MarkId → Bool}

theorem run_append (crew : Crew α) (turns more : List Turn) :
    crew.run (turns ++ more) = (crew.run turns).run more := List.foldl_append

theorem length_works_run (crew : Crew α) (turns : List Turn) :
    (crew.run turns).works.length = crew.works.length := by
  induction turns generalizing crew with
  | nil => rfl
  | cons t turns ih =>
    refine (ih (crew.turn t)).trans ?_
    unfold turn
    split
    · rfl
    · exact List.length_set

/-- One turn of one worker breaks nothing of what the others come to. -/
theorem Sound.turn (h : crew.Sound b Q)
    (hQ : ∀ k a f g, f.Onward g → Q k a f → Q k a g) (t : Turn) : (crew.turn t).Sound b Q := by
  unfold Crew.turn
  split
  · exact h
  · rename_i p hp
    have hown : ∀ id, p.holds id → crew.holds id := fun id hid =>
      List.any_eq_true.mpr ⟨p, List.mem_of_getElem? hp, hid⟩
    have hheld : ∀ id, crew.holds id → (t.others id || crew.holds id) := fun id hid => by
      simp [hid]
    obtain ⟨hmeets, hserves, honward⟩ := (h.meets t.worker p hp).step h.serves hown hheld
    refine ⟨hserves.mono ?_, ?_⟩
    · intro id hid
      obtain ⟨q, hq, hh⟩ := List.any_eq_true.mp hid
      rw [Bool.or_eq_true]
      rcases List.mem_or_eq_of_mem_set hq with hq | rfl
      · exact Or.inl (List.any_eq_true.mpr ⟨q, hq, hh⟩)
      · exact Or.inr hh
    · intro k q hq
      rw [List.getElem?_set] at hq
      split at hq
      · rename_i hk
        split at hq
        · cases hq
          exact hk ▸ hmeets
        · cases hq
      · refine (h.meets k q hq).onward (fun a f g _ => ?_) honward
        exact hQ k a f g

theorem Sound.run (h : crew.Sound b Q)
    (hQ : ∀ k a f g, f.Onward g → Q k a f → Q k a g) (turns : List Turn) :
    (crew.run turns).Sound b Q := by
  induction turns generalizing crew with
  | nil => exact h
  | cons t turns ih => exact ih (h.turn hQ t)

/-- What a work comes to that is done. -/
theorem Sound.result (h : crew.Sound b Q) {results : List α} (hdone : crew.Done results)
    {k : Nat} {a : α} (ha : results[k]? = some a) : Q k a crew.feed := by
  have hk := congrArg (·[k]?) hdone
  simp only [List.getElem?_map, ha, Option.map_some, Option.map_eq_some_iff] at hk
  obtain ⟨p, hp, hresult⟩ := hk
  cases p with
  | done a' =>
    cases hresult
    exact h.meets k _ hp
  | current c kept next => cases hresult
  | next c kept next => cases hresult

/-- No work is added or lost. -/
theorem length_of_done {turns : List Turn} {results : List α}
    (hdone : (crew.run turns).Done results) : results.length = crew.works.length := by
  simpa [length_works_run] using (congrArg List.length hdone).symm

theorem done_map (results : List α) (f : Feed) : Done ⟨results.map .done, f⟩ results := by
  simp [Done, Program.result?, Function.comp_def]

/-! ### Works in turn -/

/-- Those who are done hold nothing, so only the marks held by the later ones matter to the turn
of the first who is not done. -/
theorem turn_of_undone (held : MarkId → Bool) (results : List α) (p : Program α)
    (later : List (Program α)) (f : Feed) :
    turn ⟨results.map .done ++ p :: later, f⟩ ⟨results.length, held⟩ =
      ⟨results.map .done ++ (p.step (fun id => held id || later.any (·.holds id)) f).1 :: later,
        (p.step (fun id => held id || later.any (·.holds id)) f).2⟩ := by
  have halive : p.alive (fun id => held id ||
      holds ⟨results.map .done ++ p :: later, f⟩ id) =
      p.alive (fun id => held id || later.any (·.holds id)) := by
    funext id
    have hdone : (results.map Program.done).any (·.holds id) = false := by
      simp [Program.holds]
    simp only [Program.alive, holds, List.any_append, hdone, List.any_cons, Bool.false_or]
    cases held id <;> cases p.holds id <;> simp
  have hstep : p.step (fun id => held id ||
      holds ⟨results.map .done ++ p :: later, f⟩ id) f =
      p.step (fun id => held id || later.any (·.holds id)) f := by
    cases p with
    | done a => rfl
    | current c kept k => simp only [Program.step, halive]
    | next c kept k => simp only [Program.step, halive]
  have hlength : (results.map .done : List (Program α)).length = results.length :=
    List.length_map _
  have hget : (results.map .done ++ p :: later)[results.length]? = some p := by
    rw [List.getElem?_append_right (Nat.le_of_eq hlength), hlength, Nat.sub_self]
    rfl
  have hset : ∀ q, (results.map Program.done ++ p :: later).set results.length q =
      results.map Program.done ++ q :: later := by
    intro q
    rw [List.set_append_right _ _ (Nat.le_of_eq hlength), hlength, Nat.sub_self]
    rfl
  simp only [turn, hget, hset, hstep]

/-- A worker whose turn it is again and again does all its work. -/
theorem exists_turns_of_one (held : MarkId → Bool) (results : List α) (p : Program α)
    (later : List (Program α)) (f : Feed) :
    let r := p.run (fun id => held id || later.any (·.holds id)) f
    ∃ turns, run ⟨results.map .done ++ p :: later, f⟩ turns =
      ⟨results.map .done ++ .done r.1 :: later, r.2⟩ := by
  induction p generalizing f with
  | done a => exact ⟨[], rfl⟩
  | current c kept k ih =>
    obtain ⟨turns, hrun⟩ := ih _ _
    refine ⟨⟨results.length, held⟩ :: turns, ?_⟩
    rw [run, List.foldl_cons, turn_of_undone]
    exact hrun
  | next c kept k ih =>
    obtain ⟨turns, hrun⟩ := ih _ _
    refine ⟨⟨results.length, held⟩ :: turns, ?_⟩
    rw [run, List.foldl_cons, turn_of_undone]
    exact hrun

/-- To run works in turn is one of their interleavings. -/
theorem exists_turns_of_runAll (held : MarkId → Bool) (results : List α)
    (works : List (Program α)) (f : Feed) :
    ∃ turns, run ⟨results.map .done ++ works, f⟩ turns =
      ⟨(results ++ (Program.runAll held works f).1).map .done,
        (Program.runAll held works f).2⟩ := by
  induction works generalizing results f with
  | nil => exact ⟨[], by simp [run, Program.runAll]⟩
  | cons p later ih =>
    obtain ⟨turns, hrun⟩ := exists_turns_of_one held results p later f
    rw [Program.runAll]
    generalize p.run (fun id => held id || later.any (·.holds id)) f = first at hrun ⊢
    obtain ⟨more, hmore⟩ := ih (results ++ [first.1]) first.2
    refine ⟨turns ++ more, ?_⟩
    rw [run_append, hrun]
    simpa using hmore

/-- Whatever was done so far, all works can be done. -/
theorem exists_finish (crew : Crew α) (turns : List Turn) :
    ∃ more results, (crew.run (turns ++ more)).Done results := by
  obtain ⟨more, hmore⟩ := exists_turns_of_runAll (fun _ => false) [] (crew.run turns).works
    (crew.run turns).feed
  refine ⟨more, [] ++ (Program.runAll (fun _ => false) (crew.run turns).works
    (crew.run turns).feed).1, ?_⟩
  rw [run_append]
  exact (show (crew.run turns).run more = _ from hmore) ▸ done_map _ _

end Crew

end BranchCursor
