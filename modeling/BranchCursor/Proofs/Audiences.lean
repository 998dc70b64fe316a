import BranchCursor.Proofs.Subscriptions

/-! Whoever uses a roster, holds its subscribers and lets go of them: what is told of subscriptions
is what becomes of them. -/
namespace BranchCursor

namespace Audience

open Roster

/-- All the steps, and what each of them told. -/
def runAll : List Step → Audience → List Answer × Audience
  | [], a => ([], a)
  | step :: later, a =>
    let first := a.run step
    let rest := runAll later first.2
    (first.1 :: rest.1, rest.2)

/-- What a step uses the roster for, if it does. -/
def use? (a : Audience) : Step → Option (Use Subscriber (List Subscriber × List Nat))
  | .subscribe id => some (.subscribe (isAlive (a.hold id).2.held) (a.hold id).1)
  | .subscribeBriefly id => some (.subscribe (isAlive a.held) ⟨id, a.made⟩)
  | .broadcast response =>
    some (.broadcast (fun seen => isAlive seen.1) response.deliver (a.held, []))
  | .prune => some (.prune (isAlive a.held))
  | .letGo _ | .rest => none

/-- Every use of the roster in the course of some steps. -/
def uses : List Step → Audience → List (Use Subscriber (List Subscriber × List Nat))
  | [], _ => []
  | step :: later, a => (a.use? step).toList ++ uses later (a.run step).2

def Step.isSubscription : Step → Bool
  | subscribe _ | subscribeBriefly _ => true
  | letGo _ | broadcast _ | prune | rest => false

namespace Answer

/-- How a reply is told: subscribers by their numbers. -/
def ofReply : Reply Subscriber → Answer
  | .swept n => .count n
  | .visited xs => .visited (xs.map Subscriber.id)

def total : Answer → Nat
  | count n => n
  | nothing | visited _ => 0

def isTold : Answer → Bool
  | nothing => false
  | count _ | visited _ => true

@[simp] theorem total_ofReply (r : Reply Subscriber) : (ofReply r).total = r.count := by
  cases r <;> rfl

@[simp] theorem isTold_ofReply (r : Reply Subscriber) : (ofReply r).isTold = true := by
  cases r <;> rfl

end Answer

variable {a : Audience} {step : Step}

@[simp] theorem roster_hold (id : Nat) (a : Audience) : (a.hold id).2.roster = a.roster := by
  unfold hold
  split <;> rfl

/-- Every visit of a broadcast is noted, the last one first. -/
theorem notes_foldl_visit (response : Response) (xs : List Subscriber) (kept : Array Subscriber)
    (seen : List Subscriber × List Nat) :
    (xs.foldl (visit (fun seen => isAlive seen.1) response.deliver) (kept, seen)).2.2 =
      (((turns (fun seen => isAlive seen.1) response.deliver xs seen).filter
        (·.isLive fun seen => isAlive seen.1)).map (·.entry.id)).reverse ++ seen.2 := by
  induction xs generalizing kept seen with
  | nil => rfl
  | cons x later ih =>
    rw [List.foldl_cons, visit_eq, turns, List.filter_cons]
    by_cases hx : isAlive seen.1 x = true
    · simp [hx, ih, Turn.isLive, Turn.after, Response.deliver]
    · simp [hx, ih, Turn.isLive, Turn.after]

/-- A step uses the roster as it does, and tells the reply. -/
theorem run_of_use {use : Use Subscriber (List Subscriber × List Nat)}
    (h : a.use? step = some use) :
    (a.run step).1 = .ofReply (use.reply a.roster) ∧
    (a.run step).2.roster = use.apply a.roster := by
  cases step with
  | letGo _ | rest => cases h
  | subscribe id =>
    cases h
    simp only [run, join, roster_hold]
    exact ⟨rfl, rfl⟩
  | subscribeBriefly id =>
    cases h
    exact ⟨rfl, rfl⟩
  | prune =>
    cases h
    exact ⟨rfl, rfl⟩
  | broadcast response =>
    cases h
    refine ⟨?_, rfl⟩
    simp only [run, broadcast_eq, notes_foldl_visit, Answer.ofReply, Use.reply, Use.visits]
    simp

theorem run_of_no_use (h : a.use? step = none) :
    (a.run step).1 = .nothing ∧ (a.run step).2.roster = a.roster := by
  cases step with
  | letGo _ | rest => exact ⟨rfl, rfl⟩
  | subscribe _ | subscribeBriefly _ | broadcast _ | prune => cases h

theorem length_joined_use? (a : Audience) (step : Step) :
    (joined (a.use? step).toList).length = if step.isSubscription then 1 else 0 := by
  cases step <;> rfl

/-- Any steps do to the roster what their uses of it do. -/
theorem roster_runAll (steps : List Step) (a : Audience) :
    (runAll steps a).2.roster = useAll (uses steps a) a.roster := by
  induction steps generalizing a with
  | nil => rfl
  | cons step later ih =>
    rw [runAll, ih, uses, useAll_append]
    cases huse : a.use? step with
    | none => rw [(run_of_no_use huse).2]; rfl
    | some use => rw [(run_of_use huse).2]; rfl

/-- What is told is what the uses reply, whatever is done between them. -/
theorem told_runAll (steps : List Step) (a : Audience) :
    (runAll steps a).1.filter Answer.isTold =
      (replies (uses steps a) a.roster).map Answer.ofReply := by
  induction steps generalizing a with
  | nil => rfl
  | cons step later ih =>
    rw [runAll, List.filter_cons, uses, ih]
    cases huse : a.use? step with
    | none =>
      rw [(run_of_no_use huse).1, (run_of_no_use huse).2]
      rfl
    | some use =>
      rw [(run_of_use huse).1, (run_of_use huse).2, Answer.isTold_ofReply]
      rfl

theorem length_joined_uses (steps : List Step) (a : Audience) :
    (joined (uses steps a)).length = steps.countP Step.isSubscription := by
  induction steps generalizing a with
  | nil => rfl
  | cons step later ih =>
    rw [uses, joined_append, List.length_append, length_joined_use?, ih, List.countP_cons,
      Nat.add_comm]

theorem sum_total_filter (answers : List Answer) :
    ((answers.filter Answer.isTold).map Answer.total).sum = (answers.map Answer.total).sum := by
  induction answers with
  | nil => rfl
  | cons answer later ih =>
    rw [List.filter_cons]
    cases answer with
    | nothing => simpa [Answer.isTold, Answer.total] using ih
    | count n => simpa [Answer.isTold] using ih
    | visited ids => simpa [Answer.isTold] using ih

theorem sum_total_runAll (steps : List Step) (a : Audience) :
    ((runAll steps a).1.map Answer.total).sum = swept (uses steps a) a.roster := by
  rw [← sum_total_filter, told_runAll, List.map_map, swept]
  congr 2
  funext r
  exact Answer.total_ofReply r

/-- No subscription is lost, doubled or moved, in whatever way a roster is used: an entry leaves
only because its subscriber is dead at a sweep or at its turn, or refuses. Every audience uses its
roster in such a way, and the counts that it is told add up. -/
theorem subscriptions_accounted (threshold : Nat) :
    (∀ {α σ : Type} (uses : List (Use α σ)), Accounted threshold uses) ∧
    ∀ (steps : List Step),
      let a := (runAll steps (make threshold)).2
      let answers := (runAll steps (make threshold)).1
      let uses := uses steps (make threshold)
      a.roster = useAll uses (.make threshold) ∧
      answers.filter Answer.isTold = (replies uses (.make threshold)).map Answer.ofReply ∧
      steps.countP Step.isSubscription =
        a.roster.size + lost uses (.make threshold) + (answers.map Answer.total).sum ∧
      (a.run .prune).2.roster.size = (a.run .prune).2.roster.liveCount (isAlive a.held) ∧
      ((a.run .prune).2.run .prune).1 = .count 0 := by
  refine ⟨fun uses => accounted threshold uses, fun steps => ?_⟩
  have hroster := roster_runAll steps (make threshold)
  have haccounted := accounted threshold (uses steps (make threshold))
  have hcounted := haccounted.counted
  have hpruned := haccounted.pruned (isAlive (runAll steps (make threshold)).2.held)
  refine ⟨hroster, told_runAll steps (make threshold), ?_, ?_, ?_⟩
  · rw [length_joined_uses] at hcounted
    rw [sum_total_runAll, hroster]
    exact hcounted
  · rw [(run_of_use rfl).2, hroster]
    exact hpruned.1
  · rw [(run_of_use rfl).1, (run_of_use rfl).2, hroster]
    exact congrArg Answer.ofReply hpruned.2

/-- A value that joined twice and stays is visited twice; one that refused is not visited again. -/
theorem subscriptions_accounted_twice :
    let joins : List (Use Nat Unit) := [0, 1, 0].map (.subscribe fun _ => true)
    let ask : Use Nat Unit := .broadcast (fun _ _ => true) (fun x s => (x == 0, s)) ()
    ((ask.numbered 3).visits (numberedAfter 2 (joins ++ [ask]))).filter (·.1 == 0) =
        [(0, 0), (0, 2)] ∧
      (1, 1) ∉ (ask.numbered 3).visits (numberedAfter 2 (joins ++ [ask])) := by
  intro joins ask
  have haccounted : Accounted 2 joins := (subscriptions_accounted 2).1 joins
  have hspares : ∀ n : Roster (Nat × Nat), (ask.numbered 3).Spares (·.1 == 0) n :=
    fun n t _ hchosen => ⟨rfl, hchosen⟩
  constructor
  · refine (haccounted.visited (·.1 == 0) [ask] ask rfl ⟨hspares _, hspares _, trivial⟩).trans ?_
    decide
  · exact haccounted.refused ask (1, 1) (by decide) [] ask

end Audience

end BranchCursor
