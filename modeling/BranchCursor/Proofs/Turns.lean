import BranchCursor.Audience
import BranchCursor.Proofs.Rosters
import Mathlib.Data.List.Nodup

/-! What one use of a roster does to each of its entries, and what it tells its caller.
In a broadcast every entry has its turn, in order; whoever is dead then is dropped without a visit,
and whoever is visited decides by its answer. -/
namespace BranchCursor

namespace Roster

variable {α β σ : Type}

/-! ### Turns -/

/-- The turn of an entry in a broadcast, with the state that it finds. -/
structure Turn (α σ : Type) where
  entry : α
  state : σ

namespace Turn

def isLive (alive : σ → α → Bool) (t : Turn α σ) : Bool := alive t.state t.entry

/-- Whether the answer to a visit is that the entry stays. -/
def isKept (deliver : α → σ → Bool × σ) (t : Turn α σ) : Bool := (deliver t.entry t.state).1

/-- What the next turn finds. -/
def after (alive : σ → α → Bool) (deliver : α → σ → Bool × σ) (t : Turn α σ) : σ :=
  if t.isLive alive then (deliver t.entry t.state).2 else t.state

def map (g : β → α) (t : Turn β σ) : Turn α σ := ⟨g t.entry, t.state⟩

end Turn

/-- The turns of some entries, one after the other. -/
def turns (alive : σ → α → Bool) (deliver : α → σ → Bool × σ) : List α → σ → List (Turn α σ)
  | [], _ => []
  | x :: later, s => ⟨x, s⟩ :: turns alive deliver later (Turn.after alive deliver ⟨x, s⟩)

variable {alive : σ → α → Bool} {deliver : α → σ → Bool × σ} {r : Roster α} {e : α}

/-- Every entry has one turn. -/
@[simp] theorem map_entry_turns (alive : σ → α → Bool) (deliver : α → σ → Bool × σ) (xs : List α)
    (s : σ) : (turns alive deliver xs s).map Turn.entry = xs := by
  induction xs generalizing s with
  | nil => rfl
  | cons x later ih => exact congrArg (x :: ·) (ih _)

/-- An entry that is there once has one turn. -/
theorem turn_eq_of_entry_eq {alive : σ → α → Bool} {deliver : α → σ → Bool × σ} {xs : List α}
    {s : σ} (hnodup : xs.Nodup) {t u : Turn α σ} (ht : t ∈ turns alive deliver xs s)
    (hu : u ∈ turns alive deliver xs s) (htu : t.entry = u.entry) : t = u := by
  rw [← map_entry_turns alive deliver xs s] at hnodup
  exact List.inj_on_of_nodup_map hnodup ht hu htu

/-- What only looks at `g` of an entry has the same turns when it is given that. -/
theorem turns_map (g : β → α) (alive : σ → α → Bool) (deliver : α → σ → Bool × σ) (xs : List β)
    (s : σ) :
    turns alive deliver (xs.map g) s =
      (turns (fun s e => alive s (g e)) (fun e s => deliver (g e) s) xs s).map (Turn.map g) := by
  induction xs generalizing s with
  | nil => rfl
  | cons x later ih => exact congrArg (⟨g x, s⟩ :: ·) (ih _)

/-- Some of the entries, chosen by their turns. -/
theorem filter_turns_sublist (good : Turn α σ → Bool) (alive : σ → α → Bool)
    (deliver : α → σ → Bool × σ) (xs : List α) (s : σ) :
    (((turns alive deliver xs s).filter good).map Turn.entry).Sublist xs := by
  have h := (List.filter_sublist (l := turns alive deliver xs s) (p := good)).map Turn.entry
  rwa [map_entry_turns] at h

/-- Of the entries that are chosen none is lost if each has a good turn. -/
theorem filter_map_entry_turns {chosen : α → Bool} {good : Turn α σ → Bool} {xs : List α} {s : σ}
    (h : ∀ t ∈ turns alive deliver xs s, chosen t.entry → good t) :
    (((turns alive deliver xs s).filter good).map Turn.entry).filter chosen =
      xs.filter chosen := by
  have hall : ((turns alive deliver xs s).map Turn.entry).filter chosen = xs.filter chosen := by
    rw [map_entry_turns]
  rw [← hall, List.filter_map, List.filter_map, List.filter_filter]
  congr 1
  refine List.filter_congr fun t ht => ?_
  cases hchosen : chosen t.entry with
  | false => simp [hchosen]
  | true => simp [hchosen, h t ht hchosen]

/-- Who is left by the turns of some entries. -/
theorem foldl_visit_eq (xs : List α) (kept : Array α) (s : σ) :
    (xs.foldl (visit alive deliver) (kept, s)).1.toList = kept.toList ++
      ((turns alive deliver xs s).filter fun t => t.isLive alive && t.isKept deliver).map
        Turn.entry := by
  induction xs generalizing kept s with
  | nil => simp [turns]
  | cons x later ih =>
    rw [List.foldl_cons, visit_eq, turns, List.filter_cons]
    by_cases hx : alive s x = true
    · by_cases hstay : (deliver x s).1 = true
      · simp [hx, hstay, ih, Turn.isLive, Turn.isKept, Turn.after]
      · simp [hx, hstay, ih, Turn.isLive, Turn.isKept, Turn.after]
    · simp [hx, ih, Turn.isLive, Turn.after]

/-! ### Uses -/

/-- What a use tells its caller: how many dead entries it swept out, or whom it visited. -/
inductive Reply (α : Type) where
  | swept (count : Nat)
  | visited (xs : List α)
  deriving DecidableEq, Repr

namespace Reply

def count : Reply α → Nat
  | swept n => n
  | visited _ => 0

def map (g : β → α) : Reply β → Reply α
  | swept n => .swept n
  | visited xs => .visited (xs.map g)

end Reply

namespace Use

def isBroadcast : Use α σ → Bool
  | broadcast .. => true
  | subscribe .. | prune _ => false

/-- The entries that are alive when their turn comes. -/
def visits (r : Roster α) : Use α σ → List α
  | broadcast alive deliver s =>
    ((turns alive deliver r.entries.toList s).filter (·.isLive alive)).map Turn.entry
  | subscribe .. | prune _ => []

def reply (r : Roster α) (use : Use α σ) : Reply α :=
  match use with
  | subscribe alive _ => .swept (r.overdue alive)
  | broadcast .. => .visited (use.visits r)
  | prune alive => .swept (r.size - (r.prune alive).size)

/-- Who is added by a use. -/
def joins : Use α σ → List α
  | subscribe _ x => [x]
  | broadcast .. | prune _ => []

/-- The entries that a use leaves where they are. -/
def stays (r : Roster α) : Use α σ → List α
  | subscribe alive _ => if r.isDue then r.entries.toList.filter alive else r.entries.toList
  | broadcast alive deliver s =>
    ((turns alive deliver r.entries.toList s).filter fun t =>
      t.isLive alive && t.isKept deliver).map Turn.entry
  | prune alive => r.entries.toList.filter alive

/-- The entries visited that do not want to stay. -/
def refusals (r : Roster α) : Use α σ → List α
  | broadcast alive deliver s =>
    ((turns alive deliver r.entries.toList s).filter fun t =>
      t.isLive alive && !t.isKept deliver).map Turn.entry
  | subscribe .. | prune _ => []

/-- How many entries a broadcast takes off the roster. -/
def lost (r : Roster α) : Use α σ → Nat
  | broadcast alive deliver s => r.size - (r.broadcast alive deliver s).1.size
  | subscribe .. | prune _ => 0

/-- Why an entry leaves in a use: it is dead at a sweep or at its turn, or it wants to. -/
inductive Drops (r : Roster α) (e : α) : Use α σ → Prop
  | swept {alive : α → Bool} {x : α} (hdue : r.isDue = true) (hdead : alive e = false) :
      Drops r e (subscribe alive x)
  | pruned {alive : α → Bool} (hdead : alive e = false) : Drops r e (prune alive)
  | foundDead {alive : σ → α → Bool} {deliver : α → σ → Bool × σ} {s : σ} {t : Turn α σ}
      (ht : t ∈ turns alive deliver r.entries.toList s) (he : t.entry = e)
      (hdead : t.isLive alive = false) : Drops r e (broadcast alive deliver s)
  | refused {alive : σ → α → Bool} {deliver : α → σ → Bool × σ} {s : σ} {t : Turn α σ}
      (ht : t ∈ turns alive deliver r.entries.toList s) (he : t.entry = e)
      (hlive : t.isLive alive = true) (hanswer : t.isKept deliver = false) :
      Drops r e (broadcast alive deliver s)

/-- All that are chosen are alive in a use, and answer that they stay. -/
def Spares (chosen : α → Bool) (r : Roster α) : Use α σ → Prop
  | subscribe alive _ | prune alive => ∀ x, chosen x → alive x
  | broadcast alive deliver s => ∀ t ∈ turns alive deliver r.entries.toList s,
      chosen t.entry → t.isLive alive ∧ t.isKept deliver

variable {chosen : α → Bool}

/-- A use leaves some entries in their order, and whoever joins comes last. -/
theorem toList_apply (use : Use α σ) (r : Roster α) :
    (use.apply r).entries.toList = use.stays r ++ use.joins := by
  cases use with
  | subscribe alive x =>
    rw [apply, Roster.subscribe, Array.toList_push, stays, joins, settle]
    split
    · exact congrArg (· ++ [x]) Array.toList_filter
    · rfl
  | broadcast alive deliver s =>
    rw [apply, broadcast_eq, joins, List.append_nil]
    exact foldl_visit_eq _ _ _
  | prune alive =>
    rw [apply, entries_prune, Array.toList_filter, joins, List.append_nil]
    rfl

theorem stays_sublist (use : Use α σ) (r : Roster α) :
    (use.stays r).Sublist r.entries.toList := by
  cases use with
  | subscribe alive x =>
    rw [stays]
    split
    · exact List.filter_sublist
    · exact List.Sublist.refl _
  | broadcast alive deliver s =>
    exact filter_turns_sublist _ alive deliver _ s
  | prune alive => exact List.filter_sublist

theorem visits_sublist (use : Use α σ) (r : Roster α) :
    (use.visits r).Sublist r.entries.toList := by
  cases use with
  | subscribe _ _ | prune _ => exact List.nil_sublist _
  | broadcast alive deliver s => exact filter_turns_sublist _ alive deliver _ s

theorem refusals_sublist (use : Use α σ) (r : Roster α) :
    (use.refusals r).Sublist r.entries.toList := by
  cases use with
  | subscribe _ _ | prune _ => exact List.nil_sublist _
  | broadcast alive deliver s => exact filter_turns_sublist _ alive deliver _ s

theorem drops_of_mem_refusals {use : Use α σ} (h : e ∈ use.refusals r) : use.Drops r e := by
  cases use with
  | subscribe _ _ | prune _ => cases h
  | broadcast alive deliver s =>
    obtain ⟨t, ht, he⟩ := List.mem_map.mp h
    obtain ⟨ht, hgood⟩ := List.mem_filter.mp ht
    obtain ⟨hlive, hanswer⟩ := (Bool.and_eq_true _ _).mp hgood
    exact Drops.refused ht he hlive (by simpa using hanswer)

theorem size_apply (use : Use α σ) (r : Roster α) :
    (use.apply r).size = (use.stays r).length + use.joins.length := by
  rw [← List.length_append, ← toList_apply]
  rfl

/-- Of entries that differ, one leaves exactly for one of the reasons there are. -/
theorem not_mem_stays_iff (use : Use α σ) (hnodup : r.entries.toList.Nodup)
    (he : e ∈ r.entries.toList) : e ∉ use.stays r ↔ use.Drops r e := by
  cases use with
  | subscribe alive x =>
    constructor
    · intro hout
      by_cases hdue : r.isDue = true
      · exact Drops.swept hdue (by simpa [stays, hdue, Array.mem_toList_iff.mp he] using hout)
      · exact absurd he (by simpa [stays, hdue] using hout)
    · rintro (⟨hdue, hdead⟩ | _)
      simp [stays, hdue, hdead]
  | prune alive =>
    constructor
    · intro hout
      exact Drops.pruned (by simpa [stays, Array.mem_toList_iff.mp he] using hout)
    · rintro (_ | hdead)
      simp [stays, hdead]
  | broadcast alive deliver s =>
    have hturns := map_entry_turns alive deliver r.entries.toList s
    simp only [stays, List.mem_map, List.mem_filter, Bool.and_eq_true, not_exists, not_and]
    constructor
    · intro hout
      rw [← hturns] at he
      obtain ⟨t, ht, hte⟩ := List.mem_map.mp he
      cases hlive : t.isLive alive with
      | false => exact Drops.foundDead ht hte hlive
      | true =>
        refine Drops.refused ht hte hlive ?_
        rw [Bool.eq_false_iff]
        exact fun hkept => hout t ⟨ht, hlive, hkept⟩ hte
    -- the one turn of the entry decides
    · rintro hdrops t ⟨ht, hlive, hkept⟩ hte
      cases hdrops with
      | foundDead hu hue hdead =>
        obtain rfl := turn_eq_of_entry_eq hnodup ht hu (hte.trans hue.symm)
        rw [hdead] at hlive
        cases hlive
      | refused hu hue _ hanswer =>
        obtain rfl := turn_eq_of_entry_eq hnodup ht hu (hte.trans hue.symm)
        rw [hanswer] at hkept
        cases hkept

/-- Those that are spared stay, and are visited in a broadcast. -/
theorem Spares.filter_stays {use : Use α σ} (h : use.Spares chosen r) :
    (use.stays r).filter chosen = r.entries.toList.filter chosen := by
  have hfilter : ∀ alive : α → Bool, (∀ x, chosen x → alive x) →
      (r.entries.toList.filter alive).filter chosen = r.entries.toList.filter chosen := by
    intro alive halive
    rw [List.filter_filter]
    refine List.filter_congr fun x _ => ?_
    cases hx : chosen x with
    | false => rfl
    | true => simp [halive x hx]
  cases use with
  | subscribe alive x =>
    rw [stays]
    split
    · exact hfilter alive h
    · rfl
  | prune alive => exact hfilter alive h
  | broadcast alive deliver s =>
    refine filter_map_entry_turns fun t ht hchosen => ?_
    rw [Bool.and_eq_true]
    exact h t ht hchosen

theorem Spares.filter_visits {use : Use α σ} (h : use.Spares chosen r)
    (hbroadcast : use.isBroadcast = true) :
    (use.visits r).filter chosen = r.entries.toList.filter chosen := by
  cases use with
  | broadcast alive deliver s =>
    exact filter_map_entry_turns fun t ht hchosen => (h t ht hchosen).1
  | subscribe _ _ | prune _ => cases hbroadcast

end Use

end Roster

end BranchCursor
