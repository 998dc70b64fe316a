import BranchCursor.Proofs.Turns
import Mathlib.Algebra.GroupWithZero.Nat

/-! What becomes of every subscription, however a roster is used.
Entries are numbered in the order in which they joined, so that a value which subscribed several
times stands under several numbers. Nobody sees the numbers, and nobody is numbered twice. -/
namespace BranchCursor

namespace Roster

variable {α β σ : Type}

/-- The same roster with its entries seen through `g`. -/
def map (g : β → α) (r : Roster β) : Roster α := ⟨r.entries.map g, r.floor, r.due⟩

/-- The same use of a roster with numbered entries, where whoever joins gets the number `k`. -/
def Use.numbered (k : Nat) : Use α σ → Use (α × Nat) σ
  | subscribe alive x => subscribe (fun e => alive e.1) (x, k)
  | broadcast alive deliver s => broadcast (fun s e => alive s e.1) (fun e s => deliver e.1 s) s
  | prune alive => prune fun e => alive e.1

/-- Uses of a roster with numbered entries, from the number `k` on. -/
def numberAll : Nat → List (Use α σ) → List (Use (α × Nat) σ)
  | _, [] => []
  | k, use :: later => use.numbered k :: numberAll (k + use.joins.length) later

/-- Who joined in the course of some uses, in order. -/
def joined (uses : List (Use α σ)) : List α := uses.flatMap Use.joins

/-- What each of some uses told its caller. -/
def replies : List (Use α σ) → Roster α → List (Reply α)
  | [], _ => []
  | use :: later, r => use.reply r :: replies later (use.apply r)

/-- How many entries the broadcasts among some uses took off the roster. -/
def lost : List (Use α σ) → Roster α → Nat
  | [], _ => 0
  | use :: later, r => use.lost r + lost later (use.apply r)

/-- How many entries some uses told that they swept out. -/
def swept (uses : List (Use α σ)) (r : Roster α) : Nat := ((replies uses r).map Reply.count).sum

/-- All that are chosen are alive throughout some uses, and answer whenever they are visited that
they stay. -/
def Spared (chosen : α → Bool) : List (Use α σ) → Roster α → Prop
  | [], _ => True
  | use :: later, r => use.Spares chosen r ∧ Spared chosen later (use.apply r)

variable {r : Roster α} {n : Roster (α × Nat)} {chosen : α → Bool} {e : α}

@[simp] theorem isDue_map (g : β → α) (r : Roster β) : (r.map g).isDue = r.isDue :=
  congrArg (fun size => decide (r.due ≤ size)) Array.size_map

@[simp] theorem toList_entries_map (g : β → α) (r : Roster β) :
    (r.map g).entries.toList = r.entries.toList.map g := Array.toList_map

@[simp] theorem map_make (g : β → α) (threshold : Nat) :
    (make threshold).map g = make threshold := by
  simp [map, make]

theorem liveCount_map (g : β → α) (alive : α → Bool) (r : Roster β) :
    (r.map g).liveCount alive = r.liveCount fun e => alive (g e) := Array.countP_map

theorem useAll_append (uses later : List (Use α σ)) (r : Roster α) :
    useAll (uses ++ later) r = useAll later (useAll uses r) := List.foldl_append

@[simp] theorem joined_cons (use : Use α σ) (later : List (Use α σ)) :
    joined (use :: later) = use.joins ++ joined later := rfl

theorem joined_append (uses later : List (Use α σ)) :
    joined (uses ++ later) = joined uses ++ joined later := List.flatMap_append

theorem numberAll_append (k : Nat) (uses later : List (Use α σ)) :
    numberAll k (uses ++ later) =
      numberAll k uses ++ numberAll (k + (joined uses).length) later := by
  induction uses generalizing k with
  | nil => rfl
  | cons use uses ih =>
    rw [List.cons_append, numberAll, ih, joined_cons, List.length_append, Nat.add_assoc]
    rfl

/-! ### Any uses -/

/-- Whoever is on a roster was there before or joined, and the order is that of joining. -/
theorem sublist_useAll (uses : List (Use α σ)) (r : Roster α) :
    (useAll uses r).entries.toList.Sublist (r.entries.toList ++ joined uses) := by
  induction uses generalizing r with
  | nil => simp [useAll, joined]
  | cons use later ih =>
    refine (ih (use.apply r)).trans ?_
    rw [Use.toList_apply, joined_cons, List.append_assoc]
    exact (use.stays_sublist r).append (List.Sublist.refl _)

/-- Those that are spared stay in their places, and more of them join. -/
theorem Spared.filter_useAll {uses : List (Use α σ)} (h : Spared chosen uses r) :
    (useAll uses r).entries.toList.filter chosen =
      r.entries.toList.filter chosen ++ (joined uses).filter chosen := by
  induction uses generalizing r with
  | nil => simp [useAll, joined]
  | cons use later ih =>
    obtain ⟨hfirst, hlater⟩ := h
    refine (ih hlater).trans ?_
    rw [Use.toList_apply, List.filter_append, hfirst.filter_stays, joined_cons,
      List.filter_append, List.append_assoc]

theorem Spared.of_append {uses later : List (Use α σ)} (h : Spared chosen (uses ++ later) r) :
    Spared chosen uses r ∧ Spared chosen later (useAll uses r) := by
  induction uses generalizing r with
  | nil => exact ⟨trivial, h⟩
  | cons use uses ih =>
    obtain ⟨huses, hlater⟩ := ih h.2
    exact ⟨⟨h.1, huses⟩, hlater⟩

/-- In one use, those that were there and those that join are those that are there then, those that
it lost, and those that it tells that it swept out. -/
theorem Use.size_add_joins (use : Use α σ) (r : Roster α) :
    r.size + use.joins.length = (use.apply r).size + use.lost r + (use.reply r).count := by
  have hle := (use.stays_sublist r).length_le
  have hsize := use.size_apply r
  rw [Array.length_toList] at hle
  cases use with
  | subscribe alive x =>
    have hsettle : (r.settle alive).size ≤ r.size := (entries_settle_sublist alive r).length_le
    simp only [apply, size_subscribe, joins, lost, reply, Reply.count, overdue,
      List.length_singleton]
    omega
  | broadcast alive deliver s =>
    have hbroadcast := size_broadcast_le alive deliver r s
    simp only [apply, joins, lost, reply, Reply.count, List.length_nil]
    omega
  | prune alive =>
    have hprune : (r.prune alive).size ≤ r.size := by
      rw [size_prune]
      exact Array.countP_le_size
    simp only [apply, joins, lost, reply, Reply.count, List.length_nil]
    omega

/-- So no subscription goes uncounted. -/
theorem size_add_joined (uses : List (Use α σ)) (r : Roster α) :
    r.size + (joined uses).length =
      (useAll uses r).size + lost uses r + swept uses r := by
  induction uses generalizing r with
  | nil => rfl
  | cons use later ih =>
    have hfirst := use.size_add_joins r
    have hlater := ih (use.apply r)
    have hall : useAll (use :: later) r = useAll later (use.apply r) := rfl
    rw [joined_cons, List.length_append, ← Nat.add_assoc, hfirst, hall]
    simp only [lost, swept, replies, List.map_cons, List.sum_cons] at hlater ⊢
    omega

/-! ### Numbers -/

namespace Use

theorem joins_numbered (use : Use α σ) (k : Nat) :
    (use.numbered k).joins = use.joins.zipIdx k := by
  cases use <;> rfl

theorem stays_numbered (use : Use α σ) (k : Nat) (n : Roster (α × Nat)) :
    ((use.numbered k).stays n).map Prod.fst = use.stays (n.map Prod.fst) := by
  cases use with
  | subscribe alive x =>
    rw [numbered, stays, stays, isDue_map, toList_entries_map]
    split
    · exact List.filter_map.symm
    · rfl
  | broadcast alive deliver s =>
    simp only [numbered, stays, toList_entries_map, turns_map, List.filter_map, List.map_map]
    rfl
  | prune alive =>
    rw [numbered, stays, stays, toList_entries_map]
    exact List.filter_map.symm

theorem visits_numbered (use : Use α σ) (k : Nat) (n : Roster (α × Nat)) :
    ((use.numbered k).visits n).map Prod.fst = use.visits (n.map Prod.fst) := by
  cases use with
  | subscribe _ _ | prune _ => rfl
  | broadcast alive deliver s =>
    simp only [numbered, visits, toList_entries_map, turns_map, List.filter_map, List.map_map]
    rfl

/-- Numbers change nothing but themselves. -/
theorem apply_numbered (use : Use α σ) (k : Nat) (n : Roster (α × Nat)) :
    ((use.numbered k).apply n).map Prod.fst = use.apply (n.map Prod.fst) := by
  have hentries : (((use.numbered k).apply n).map Prod.fst).entries =
      (use.apply (n.map Prod.fst)).entries := by
    apply Array.ext'
    rw [toList_apply, ← stays_numbered use k n, toList_entries_map, toList_apply,
      List.map_append, joins_numbered, List.zipIdx_map_fst]
  have hfloor : ((use.numbered k).apply n).floor = (use.apply (n.map Prod.fst)).floor := by
    cases use with
    | subscribe alive x =>
      exact (floor_settle _ n).trans (floor_settle alive (n.map Prod.fst)).symm
    | broadcast _ _ _ | prune _ => rfl
  have hdue : ((use.numbered k).apply n).due = (use.apply (n.map Prod.fst)).due := by
    cases use with
    | subscribe alive x =>
      rw [numbered, apply, apply, due_subscribe, due_subscribe, liveCount_map, isDue_map]
      rfl
    | broadcast _ _ _ | prune _ => rfl
  exact congr (congr (congrArg Roster.mk hentries) hfloor) hdue

theorem reply_numbered (use : Use α σ) (k : Nat) (n : Roster (α × Nat)) :
    ((use.numbered k).reply n).map Prod.fst = use.reply (n.map Prod.fst) := by
  have happly := use.apply_numbered k n
  have hsize : ∀ m : Roster (α × Nat), (m.map Prod.fst).size = m.size := fun m => by
    simp [size, map]
  cases use with
  | subscribe alive x =>
    have hsettle := congrArg size happly
    rw [hsize, apply, numbered, apply, size_subscribe, size_subscribe] at hsettle
    simp only [numbered, reply, Reply.map, overdue, hsize]
    congr 1
    omega
  | broadcast alive deliver s => exact congrArg Reply.visited (visits_numbered _ k n)
  | prune alive =>
    have hprune := congrArg size happly
    rw [hsize, apply, numbered, apply] at hprune
    simp only [numbered, reply, Reply.map, hsize, hprune]

end Use

theorem joined_numberAll (uses : List (Use α σ)) (k : Nat) :
    joined (numberAll k uses) = (joined uses).zipIdx k := by
  induction uses generalizing k with
  | nil => rfl
  | cons use later ih =>
    rw [numberAll, joined_cons, joined_cons, ih, use.joins_numbered, List.zipIdx_append]

theorem map_useAll_numberAll (uses : List (Use α σ)) (k : Nat) (n : Roster (α × Nat)) :
    (useAll (numberAll k uses) n).map Prod.fst = useAll uses (n.map Prod.fst) := by
  induction uses generalizing k n with
  | nil => rfl
  | cons use later ih =>
    rw [numberAll]
    exact (ih _ _).trans (congrArg (useAll later) (use.apply_numbered k n))

theorem replies_numberAll (uses : List (Use α σ)) (k : Nat) (n : Roster (α × Nat)) :
    (replies (numberAll k uses) n).map (Reply.map Prod.fst) =
      replies uses (n.map Prod.fst) := by
  induction uses generalizing k n with
  | nil => rfl
  | cons use later ih =>
    rw [numberAll, replies, replies, List.map_cons, ih, use.reply_numbered, use.apply_numbered]

/-! ### From the first use on -/

/-- The roster after some uses, with every entry under its number. -/
def numberedAfter (threshold : Nat) (uses : List (Use α σ)) : Roster (α × Nat) :=
  useAll (numberAll 0 uses) (make threshold)

variable {threshold : Nat} {uses : List (Use α σ)}

theorem numberedAfter_append (threshold : Nat) (uses later : List (Use α σ)) :
    numberedAfter threshold (uses ++ later) =
      useAll (numberAll (joined uses).length later) (numberedAfter threshold uses) := by
  rw [numberedAfter, numberAll_append, useAll_append, Nat.zero_add]
  rfl

/-- Entries stand in the order in which they joined. -/
theorem sublist_numberedAfter (threshold : Nat) (uses : List (Use α σ)) :
    (numberedAfter threshold uses).entries.toList.Sublist (joined uses).zipIdx := by
  have h := sublist_useAll (numberAll 0 uses) (make threshold)
  rwa [joined_numberAll] at h

theorem nodup_zipIdx (xs : List α) (k : Nat) : (xs.zipIdx k).Nodup := by
  refine List.Nodup.of_map Prod.snd ?_
  rw [List.zipIdx_map_snd]
  exact List.nodup_range'

theorem nodup_numberedAfter (threshold : Nat) (uses : List (Use α σ)) :
    (numberedAfter threshold uses).entries.toList.Nodup :=
  (nodup_zipIdx _ _).sublist (sublist_numberedAfter threshold uses)

theorem lt_of_mem_numberedAfter {e : α × Nat}
    (he : e ∈ (numberedAfter threshold uses).entries.toList) : e.2 < (joined uses).length := by
  have h := List.snd_lt_of_mem_zipIdx ((sublist_numberedAfter threshold uses).subset he)
  omega

/-- Whoever joins in a use has a number of its own, so only what stays can be there as before. -/
theorem mem_apply_numbered_iff (use : Use α σ) {e : α × Nat}
    (he : e ∈ (numberedAfter threshold uses).entries.toList) :
    e ∈ ((use.numbered (joined uses).length).apply (numberedAfter threshold uses)).entries.toList ↔
      e ∈ (use.numbered (joined uses).length).stays (numberedAfter threshold uses) := by
  rw [Use.toList_apply, List.mem_append, Use.joins_numbered]
  refine or_iff_left fun hnew => ?_
  have := List.le_snd_of_mem_zipIdx hnew
  have := lt_of_mem_numberedAfter he
  omega

/-- Whoever has left does not come back. -/
theorem not_mem_numberedAfter_append {e : α × Nat} (hold : e.2 < (joined uses).length)
    (hgone : e ∉ (numberedAfter threshold uses).entries.toList) (later : List (Use α σ)) :
    e ∉ (numberedAfter threshold (uses ++ later)).entries.toList := by
  intro he
  rw [numberedAfter_append] at he
  have h := (sublist_useAll _ _).subset he
  rw [joined_numberAll, List.mem_append] at h
  rcases h with h | h
  · exact hgone h
  · have := List.le_snd_of_mem_zipIdx h
    omega

/-- What becomes of the entries of a roster after some uses of it, whatever it is used for then. -/
structure Accounted (threshold : Nat) (uses : List (Use α σ)) : Prop where
  /-- Numbers are not seen: neither in the roster nor in what its uses tell. -/
  unseen : (numberedAfter threshold uses).map Prod.fst = useAll uses (make threshold)
  told : (replies (numberAll 0 uses) (make threshold)).map (Reply.map Prod.fst) =
    replies uses (make threshold)
  /-- The entries are some of those who joined, each at most once, in the order of joining. -/
  order : (numberedAfter threshold uses).entries.toList.Sublist (joined uses).zipIdx
  leaves : ∀ (use : Use α σ), ∀ e ∈ (numberedAfter threshold uses).entries.toList,
    (e ∉ (numberedAfter threshold (uses ++ [use])).entries.toList ↔
      (use.numbered (joined uses).length).Drops (numberedAfter threshold uses) e)
  /-- Some that are never dead and never refuse are all visited by every later broadcast. -/
  visited : ∀ (chosen : α × Nat → Bool) (later : List (Use α σ)) (use : Use α σ),
    use.isBroadcast = true →
    Spared chosen (numberAll (joined uses).length (later ++ [use])) (numberedAfter threshold uses) →
    ((use.numbered (joined (uses ++ later)).length).visits
        (numberedAfter threshold (uses ++ later))).filter chosen =
      (numberedAfter threshold uses).entries.toList.filter chosen ++
        ((joined later).zipIdx (joined uses).length).filter chosen
  refused : ∀ (use : Use α σ), ∀ e ∈ (use.numbered (joined uses).length).refusals
      (numberedAfter threshold uses), ∀ (later : List (Use α σ)) (broadcast : Use α σ),
    e ∉ (broadcast.numbered (joined (uses ++ use :: later)).length).visits
      (numberedAfter threshold (uses ++ use :: later))
  counted : (joined uses).length = (useAll uses (make threshold)).size +
    lost uses (make threshold) + swept uses (make threshold)
  pruned : ∀ alive : α → Bool,
    ((useAll uses (make threshold)).prune alive).size =
      ((useAll uses (make threshold)).prune alive).liveCount alive ∧
    (Use.prune alive : Use α σ).reply ((useAll uses (make threshold)).prune alive) = .swept 0

theorem prune_prune (alive : α → Bool) (r : Roster α) :
    (r.prune alive).prune alive = r.prune alive := by
  simp [prune, Array.filter_filter]

theorem not_mem_numberedAfter_concat_iff (use : Use α σ) {e : α × Nat}
    (he : e ∈ (numberedAfter threshold uses).entries.toList) :
    e ∉ (numberedAfter threshold (uses ++ [use])).entries.toList ↔
      (use.numbered (joined uses).length).Drops (numberedAfter threshold uses) e := by
  rw [numberedAfter_append]
  exact (not_congr (mem_apply_numbered_iff use he)).trans
    (Use.not_mem_stays_iff _ (nodup_numberedAfter threshold uses) he)

theorem accounted (threshold : Nat) (uses : List (Use α σ)) : Accounted threshold uses where
  unseen := (map_useAll_numberAll uses 0 _).trans (by rw [map_make])
  told := (replies_numberAll uses 0 _).trans (by rw [map_make])
  order := sublist_numberedAfter threshold uses
  leaves use _ he := not_mem_numberedAfter_concat_iff use he
  visited chosen later use hbroadcast hspared := by
    rw [numberAll_append] at hspared
    obtain ⟨hlater, huse, -⟩ := hspared.of_append
    rw [joined_append, List.length_append, numberedAfter_append]
    refine (huse.filter_visits ?_).trans ?_
    · cases use <;> exact hbroadcast
    · rw [hlater.filter_useAll, joined_numberAll]
  refused use e he later broadcast hvisit := by
    have hmem := (Use.refusals_sublist _ _).subset he
    have hgone := (not_mem_numberedAfter_concat_iff use hmem).mpr (Use.drops_of_mem_refusals he)
    have hold := lt_of_mem_numberedAfter hmem
    have hnever := not_mem_numberedAfter_append (by rw [joined_append, List.length_append]; omega)
      hgone later
    rw [List.append_assoc] at hnever
    exact hnever ((Use.visits_sublist _ _).subset hvisit)
  counted := (Nat.zero_add _).symm.trans (size_add_joined uses (make threshold))
  pruned alive := by
    constructor
    · rw [← size_prune, prune_prune]
    · simp only [Use.reply, prune_prune, Nat.sub_self]

end Roster

end BranchCursor
