import BranchCursor.Proofs.ExactDemand

/-! What becomes of the failure that ends a source, and of the source after its end.
The failure is there once the end was found, until it is handed over, which happens once; and from
then on the source is left alone. -/
namespace BranchCursor
open Cursor (holding)

/-! ### What reading and new marks keep -/

namespace Feed

/-- A property of feeds over `origin` that reading, new marks and taking the log do not end. -/
structure Stable (origin : Supply) (P : Feed → Prop) : Prop where
  pull : ∀ f held, Linked origin f → P f → P (f.pull held).2
  attach : ∀ f held position head, P f → P (f.attach held position head).2
  takeLog : ∀ f, P f → P f.takeLog.2

variable {origin : Supply} {P : Feed → Prop} {held alive : MarkId → Bool} {f : Feed} {id : MarkId}

theorem Stable.pullMany (hP : Stable origin P) (h : f.Sound origin alive)
    (hle : ∀ id, alive id → held id) (hf : P f) (n : Nat) : P (f.pullMany held n) := by
  induction n generalizing f with
  | zero => exact hf
  | succ n ih =>
    have hsound := (h.pull hle).2.sound
    have hpulled := hP.pull f held h.toLinked hf
    rw [Feed.pullMany]
    generalize f.pull held = r at hsound hpulled
    obtain ⟨answer, g⟩ := r
    cases answer with
    | some c => exact ih hsound hpulled
    | none => exact hpulled

theorem Stable.current (hP : Stable origin P) (h : f.Sound origin alive)
    (hle : ∀ id, alive id → held id) (hf : P f) (id : MarkId) : P (f.current held id).2 := by
  unfold Feed.current
  split
  · exact hf
  · exact hP.pullMany h hle hf _

theorem Stable.next (hP : Stable origin P) (hf : P f) (held : MarkId → Bool) (id : MarkId) :
    P (f.next held id).2 := by
  unfold Feed.next
  dsimp only
  split
  · exact hP.attach f held _ _ hf
  · split
    · exact hf
    · split
      · exact hf
      · exact hP.attach f held _ _ hf

theorem Stable.cursorAt (hP : Stable origin P) (hf : P f) (held : MarkId → Bool)
    (position : Nat) : P (f.cursorAt held position).2 := by
  unfold Feed.cursorAt
  split
  · exact hf
  · split
    · exact hf
    · exact hP.attach f held _ _ hf

/-! ### The failure of a feed -/

/-- The failure that ended the source is in the feed, or else it was handed over before. -/
def Accounts (origin : Supply) (taken : List CursorError) (f : Feed) : Prop :=
  taken ++ f.fault.toList = if f.exhausted then origin.ending.toList else []

/-- A feed at the end of its source, which it leaves as it is. -/
def Rests (supply : Supply) (f : Feed) : Prop := f.exhausted = true ∧ f.supply = supply

variable {taken : List CursorError} {supply : Supply}

/-- The failure comes with the answer that ends the content. -/
theorem Accounts.pull (ha : f.Accounts origin taken) (hl : f.Linked origin)
    (held : MarkId → Bool) : (f.pull held).2.Accounts origin taken := by
  cases he : f.exhausted with
  | true =>
    rw [pull_of_exhausted held he]
    exact ha
  | false =>
    rw [Accounts, he] at ha
    rw [pull_of_not_exhausted held he]
    cases hc : f.supply.poll.1.char? with
    | some c =>
      obtain ⟨log, hlog⟩ := arrive_eq held c f.asked
      dsimp only
      rw [hlog, Accounts]
      simpa only [asked, he] using ha
    | none =>
      obtain ⟨log, hlog⟩ := finish_eq f.supply.poll.1.error? f.asked
      have hcause := (hl.ending_of_poll he hc).2
      -- before the end nothing was handed over, and nothing is there to be kept
      obtain ⟨rfl, hfault⟩ := List.append_eq_nil_iff.mp ha
      have hnone : f.fault = none := Option.toList_eq_nil_iff.mp hfault
      dsimp only
      rw [hlog, Accounts, hcause]
      simp [asked, hnone]

theorem stable_accounts (origin : Supply) (taken : List CursorError) :
    Stable origin (Accounts origin taken) where
  pull _ held hl ha := ha.pull hl held
  attach f held position head ha := by
    obtain ⟨roster, log, he, -⟩ := attach_cases held position head f
    rw [he]
    exact ha
  takeLog _ ha := ha

theorem stable_rests (origin supply : Supply) : Stable origin (Rests supply) where
  pull f held _ hr := by
    rw [pull_of_exhausted held hr.1]
    exact hr
  attach f held position head hr := by
    obtain ⟨roster, log, he, -⟩ := attach_cases held position head f
    rw [he]
    exact hr
  takeLog _ hr := hr

/-- Handed over, the failure is counted as taken. -/
theorem Accounts.takeFault (ha : f.Accounts origin taken) :
    f.takeFault.2.Accounts origin (taken ++ f.fault.toList) :=
  (List.append_nil _).trans ha

end Feed

/-- What reading and new marks keep, a whole work keeps. -/
theorem Program.Ensures.stable_run {α : Type} {origin : Supply} {P : Feed → Prop}
    {Q : α → Feed → List Cursor → Prop} {p : Program α} {f : Feed} {hand : List Cursor}
    {held : MarkId → Bool} (h : p.Ensures (.supply origin) Q f hand)
    (hs : f.Serves (.supply origin) (holding held hand)) (hP : Feed.Stable origin P) (hf : P f) :
    P (p.run held f).2 := by
  induction p generalizing f hand with
  | done a => exact hf
  | current c kept k ih =>
    obtain ⟨hk, hserves, -⟩ := h.of_current hs
    have hsound : f.Sound origin (holding held (c :: kept)) :=
      Feed.Sound.mono hs (Cursor.holding_mono h.1)
    rw [Program.run, alive_current]
    refine ih _ hk hserves ?_
    cases c with
    | finish | text _ => exact hf
    | mark id => exact hP.current hsound (fun _ hid => hid) hf id
  | next c kept k ih =>
    obtain ⟨hk, hserves, -⟩ := h.of_next hs
    rw [Program.run, alive_next]
    refine ih _ hk hserves ?_
    cases c with
    | finish | text _ => exact hf
    | mark id => exact hP.next hf _ id

namespace Session

variable {s : Session} {i : Nat} {origin : Supply} {P : Feed → Prop} {step : Step}

/-- Whether a step asks a handle of a family for its failure. -/
def takesFault (i : Nat) (step : Step) (s : Session) : Bool :=
  match step with
  | .handle name .takeFault => s.handles.get? name == some i
  | _ => false

/-- All other steps keep what reading, new marks and taking the log keep. -/
theorem Sound.stable_run (hs : s.Sound) (hi : i < s.families.size)
    (hb : s.backing i = .supply origin) (hP : Feed.Stable origin P) (hf : P (s.feed i))
    (hno : s.takesFault i step = false) : P ((s.run step).2.feed i) := by
  cases ht : s.task? step with
  | some task =>
    rw [feed_run_of_task hs ht]
    split
    · rename_i hfamily
      subst hfamily
      obtain ⟨-, hfeed, c, o, Q, -, hserves, hensures⟩ := hs.task ht
      rw [hb] at hserves hensures
      exact hensures.stable_run hserves hP (hfeed ▸ hf)
    · exact hf
  | none =>
    rcases feed_run_of_no_task hs ht hi with h | ⟨name, step, rfl, hget, h⟩
    · exact h ▸ hf
    · rw [h]
      cases step with
      | cursorAt position target => exact hP.cursorAt hf _ position
      | takeFault => simp [takesFault, hget] at hno
      | takeLog => exact hP.takeLog _ hf
      | status | describe | drop => exact hf

/-- A failure that is asked for is answered, and is no longer in the feed. -/
theorem run_of_takesFault (hi : i < s.families.size) (h : s.takesFault i step = true) :
    (s.run step).1.answer = .fault (s.feed i).fault ∧
    (s.run step).2.feed i = (s.feed i).takeFault.2 := by
  unfold takesFault at h
  split at h
  · rename_i name
    have hget := beq_iff_eq.mp h
    simp only [run, hget, onHandle]
    exact ⟨rfl, feed_setFeed hi _⟩
  · cases h

/-! ### Any steps -/

/-- The failure in an answer, if it is about one and there is one. -/
def Answer.fault? : Answer → Option CursorError
  | fault cause => cause
  | _ => none

/-- The failures that steps get from the handles of a family. -/
def faultsTaken (i : Nat) : List Step → Session → List CursorError
  | [], _ => []
  | step :: later, s =>
    (if s.takesFault i step then (s.run step).1.answer.fault?.toList else []) ++
      faultsTaken i later (s.run step).2

variable {taken : List CursorError}

theorem Sound.accounts_run (hs : s.Sound) (hi : i < s.families.size)
    (hb : s.backing i = .supply origin) (h : (s.feed i).Accounts origin taken) (step : Step) :
    ((s.run step).2.feed i).Accounts origin
      (taken ++ if s.takesFault i step then (s.run step).1.answer.fault?.toList else []) := by
  cases ht : s.takesFault i step with
  | true =>
    obtain ⟨hanswer, hfeed⟩ := run_of_takesFault hi ht
    rw [if_pos rfl, hanswer, hfeed]
    exact h.takeFault
  | false =>
    rw [if_neg Bool.false_ne_true, List.append_nil]
    exact hs.stable_run hi hb (Feed.stable_accounts origin taken) h ht

theorem Sound.takesFault_new (hs : s.Sound) (hi : s.families.size ≤ i) (step : Step) :
    s.takesFault i step = false := by
  unfold takesFault
  split
  · exact beq_eq_false_iff_ne.mpr (hs.get?_handles_ne hi _)
  · rfl

/-- Whatever is done, the failure of a source is met once and handed over once. -/
theorem Sound.accounts_runAll (hs : s.Sound) (steps : List Step)
    (hi : i < (Session.runAll steps s).2.families.size)
    (hb : (Session.runAll steps s).2.backing i = .supply origin)
    (h : i < s.families.size → (s.feed i).Accounts origin taken)
    (hnew : s.families.size ≤ i → taken = []) :
    ((Session.runAll steps s).2.feed i).Accounts origin (taken ++ faultsTaken i steps s) := by
  induction steps generalizing s taken with
  | nil =>
    rw [faultsTaken, List.append_nil]
    exact h hi
  | cons step later ih =>
    obtain ⟨hs', hleads⟩ := hs.run step
    have hleads' := (hs'.runAll later).2
    rw [faultsTaken, ← List.append_assoc]
    by_cases hlt : i < s.families.size
    · have hlt' := Nat.lt_of_lt_of_le hlt hleads.size
      have hb' : s.backing i = .supply origin := by
        rw [← hleads.backing i hlt, ← hleads'.backing i hlt']
        exact hb
      exact ih hs' hi hb (fun _ => hs.accounts_run hlt hb' (h hlt) step)
        fun hge => absurd hlt' (Nat.not_lt.mpr hge)
    · have hge := Nat.le_of_not_lt hlt
      rw [hs.takesFault_new hge, if_neg Bool.false_ne_true, hnew hge]
      refine ih hs' hi hb (fun hlt' => ?_) fun _ => rfl
      obtain ⟨source, c, ho, hsource⟩ := opened_run hge hlt'
      have hback := backing_of_source? hsource
      rw [← hleads'.backing i hlt'] at hback
      obtain ⟨-, hexh, hfault⟩ := unread_of_open? ho (hback.symm.trans hb)
      rw [Feed.Accounts, hexh, hfault]
      rfl

/-- A source that has ended is left as it is, whatever is done. -/
theorem Sound.rests_runAll {supply : Supply} (hs : s.Sound) (hi : i < s.families.size)
    (hb : s.backing i = .supply origin) (h : (s.feed i).Rests supply) (later : List Step) :
    ((Session.runAll later s).2.feed i).Rests supply := by
  induction later generalizing s with
  | nil => exact h
  | cons step later ih =>
    obtain ⟨hs', hleads⟩ := hs.run step
    refine ih hs' (Nat.lt_of_lt_of_le hi hleads.size) ((hleads.backing i hi).trans hb) ?_
    cases ht : s.takesFault i step with
    | true =>
      rw [(run_of_takesFault hi ht).2]
      exact h
    | false => exact hs.stable_run hi hb (Feed.stable_rests origin supply) h ht

end Session

end BranchCursor
