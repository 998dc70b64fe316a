import BranchCursor.Proofs.Instants
import BranchCursor.Proofs.Rosters
import Mathlib.Data.List.Sort

/-! Who is on the roster of a feed. Of the marks held, those are whose character was not read yet,
each of them once; the others on it are dead, and the next pull drops them. -/
namespace BranchCursor

namespace Feed

variable {origin : Supply} {alive : MarkId → Bool} {f g : Feed} {node : NodeId} {offset : Nat}
  {id : MarkId} {marks : Array Mark}

/-! ### A broadcast -/

/-- Whether a mark still waits once it has heard of the node pulled at `offset`. -/
def stays (node : NodeId) (offset : Nat) (marks : Array Mark) (id : MarkId) : Bool :=
  (marks[id]?.map fun m => (m.told node offset).waits offset).getD false

theorem fst_notify (node : NodeId) (offset : Nat) (id : MarkId) (marks : Array Mark) :
    (notify node offset id marks).1 = stays node offset marks id := by
  have h := getElem?_notify node offset id marks id
  rw [if_pos rfl] at h
  change ((notify node offset id marks).2[id]?.map (Mark.waits offset)).getD false = _
  rw [h, Option.map_map]
  rfl

/-- A mark hears nothing new when it is visited again. -/
theorem stays_notify (node : NodeId) (offset : Nat) (visited : MarkId) (marks : Array Mark) :
    stays node offset (notify node offset visited marks).2 = stays node offset marks := by
  funext id
  rw [stays, getElem?_notify]
  split
  · simp [stays, Option.map_map, Function.comp_def]
  · rfl

/-- The live entries that still wait are left, in their order. -/
theorem toList_foldl_visit (xs : List MarkId) (kept : Array MarkId) (marks : Array Mark) :
    (xs.foldl (Roster.visit (fun _ => alive) (notify node offset)) (kept, marks)).1.toList =
      kept.toList ++ xs.filter fun id => alive id && stays node offset marks id := by
  induction xs generalizing kept marks with
  | nil => simp
  | cons x xs ih =>
    rw [List.foldl_cons, Roster.visit_eq]
    by_cases hx : alive x = true
    · rw [if_pos hx, ih, stays_notify, fst_notify]
      by_cases hstay : stays node offset marks x = true
      · simp [hx, hstay]
      · simp [hx, hstay]
    · rw [if_neg hx, ih]
      simp [hx]

theorem toList_entries_arrive (alive : MarkId → Bool) (c : Char) (f : Feed) :
    (f.arrive alive c).roster.entries.toList = f.roster.entries.toList.filter fun id =>
      alive id && stays f.nodes.size f.readPosition f.marks id := by
  obtain ⟨log, hlog⟩ := arrive_eq alive c f
  rw [hlog, Roster.broadcast_eq]
  exact toList_foldl_visit f.roster.entries.toList #[] f.marks

/-- A pull that brings a character leaves nobody dead on the roster. -/
theorem alive_of_mem_arrive {c : Char} (h : id ∈ (f.arrive alive c).roster.entries) :
    alive id = true := by
  rw [← Array.mem_toList_iff, toList_entries_arrive, List.mem_filter, Bool.and_eq_true] at h
  exact h.2.1

theorem lt_position_of_stays (h : stays node f.readPosition f.marks id = true) :
    f.readPosition < (f.mark id).position := by
  unfold stays at h
  cases hm : f.marks[id]? with
  | none => simp [hm] at h
  | some m =>
    simp only [hm, Option.map_some, Option.getD_some, Mark.waits, Mark.position_told,
      Bool.and_eq_true, decide_eq_true_eq] at h
    simpa [mark, hm] using h.2

/-! ### The roster between any two instants -/

/-- The entries are in the order in which their marks were made, and none was read already. -/
structure Tidy (f : Feed) : Prop where
  ordered : f.roster.entries.toList.Pairwise (· < ·)
  ahead : ∀ id ∈ f.roster.entries, id < f.marks.size ∧ f.readPosition ≤ (f.mark id).position

/-- The marks held whose character was not read yet. -/
def waiting (alive : MarkId → Bool) (f : Feed) : List MarkId :=
  (List.range f.marks.size).filter fun id => alive id && f.readPosition ≤ (f.mark id).position

/-- No entry was read already, and the live ones are the marks held that were not, each once. -/
structure Awaits (alive : MarkId → Bool) (f : Feed) : Prop where
  inside : ∀ id, alive id → id < f.marks.size
  ahead : ∀ id ∈ f.roster.entries, id < f.marks.size ∧ f.readPosition ≤ (f.mark id).position
  exact : f.roster.entries.toList.filter alive = f.waiting alive
  live : (f.status alive).live = (f.waiting alive).length

theorem Tidy.awaits (h : f.Tidy) (hs : f.Sound origin alive) : f.Awaits alive := by
  have hexact : f.roster.entries.toList.filter alive = f.waiting alive := by
    apply (h.ordered.filter alive).eq_of_mem_iff (List.pairwise_lt_range.filter _)
    intro id
    simp only [List.mem_filter, List.mem_range, Array.mem_toList_iff, Bool.and_eq_true,
      decide_eq_true_eq]
    constructor
    · rintro ⟨hmem, hid⟩
      obtain ⟨hlt, hle⟩ := h.ahead id hmem
      exact ⟨hlt, hid, hle⟩
    · rintro ⟨-, hid, hle⟩
      exact ⟨hs.waiting id hid hle, hid⟩
  refine ⟨hs.inside, h.ahead, hexact, ?_⟩
  rw [← hexact, ← List.countP_eq_length_filter, Array.countP_toList]
  rfl

/-- `g` is `f` later on, when nothing was read and nobody has joined the roster or left it. -/
structure Quiet (f g : Feed) : Prop extends f.Extends g where
  roster : g.roster = f.roster
  read : g.readPosition = f.readPosition
  ended : f.exhausted = true → g.exhausted = true

theorem Quiet.tidy (hq : f.Quiet g) (h : f.Tidy) : g.Tidy where
  ordered := by
    rw [hq.roster]
    exact h.ordered
  ahead id hid := by
    rw [hq.roster] at hid
    obtain ⟨hlt, hle⟩ := h.ahead id hid
    rw [hq.read, hq.position id hlt]
    exact ⟨Nat.lt_of_lt_of_le hlt hq.size, hle⟩

theorem Tidy.arrive (h : f.Tidy) (alive : MarkId → Bool) (c : Char) :
    (f.asked.arrive alive c).Tidy := by
  have hext : f.Extends (f.asked.arrive alive c) :=
    (extends_asked f).trans (extends_arrive alive c _)
  have hread : (f.asked.arrive alive c).readPosition = f.readPosition + 1 :=
    readPosition_arrive alive c f.asked
  have hentries := toList_entries_arrive alive c f.asked
  refine ⟨?_, fun id hid => ?_⟩
  · rw [hentries]
    exact h.ordered.filter _
  · rw [← Array.mem_toList_iff, hentries, List.mem_filter, Bool.and_eq_true] at hid
    obtain ⟨hmem, -, hstays⟩ := hid
    have hlt := (h.ahead id (Array.mem_toList_iff.mp hmem)).1
    rw [hread, hext.position id hlt]
    exact ⟨Nat.lt_of_lt_of_le hlt hext.size, lt_position_of_stays (f := f.asked) hstays⟩

theorem Tidy.subscribe {position : Nat} (h : f.Tidy) (hp : f.readPosition ≤ position)
    (alive : MarkId → Bool) (log : Array LogEntry) :
    ({ f with
      marks := f.marks.push ⟨position, none⟩
      roster := f.roster.subscribe alive f.marks.size
      log } : Feed).Tidy := by
  have hsub := Roster.entries_settle_sublist alive f.roster
  have hold : ∀ id ∈ (f.roster.settle alive).entries.toList, id ∈ f.roster.entries := fun id hid =>
    Array.mem_toList_iff.mp (hsub.subset hid)
  refine ⟨?_, fun id hid => ?_⟩
  · simp only [Roster.subscribe, Array.toList_push]
    refine List.pairwise_append.mpr ⟨h.ordered.sublist hsub, List.pairwise_singleton _ _, ?_⟩
    intro id hid new hnew
    rw [List.mem_singleton.mp hnew]
    exact (h.ahead id (hold id hid)).1
  · simp only [Roster.subscribe, Array.mem_push] at hid
    rw [Array.size_push]
    rcases hid with hid | rfl
    · obtain ⟨hlt, hle⟩ := h.ahead id (hold id (Array.mem_toList_iff.mpr hid))
      rw [mark_push_of_lt hlt]
      exact ⟨Nat.lt_succ_of_lt hlt, hle⟩
    · rw [mark_push_self]
      exact ⟨Nat.lt_succ_self _, hp⟩

end Feed

namespace Instant

variable {origin : Supply} {m n : Instant} {floor peak : Nat}

/-- What can happen to the roster from one instant to the next: nothing; a broadcast, as one
character is read; or, before the end, a subscription of a mark that is ahead. -/
theorem Next.cases (h : Next m n) :
    m.feed.Quiet n.feed ∨
    (∃ c, m.feed.exhausted = false ∧ n = ⟨m.alive, m.feed.asked.arrive m.alive c⟩) ∨
    ∃ position log, m.feed.exhausted = false ∧ m.feed.readPosition ≤ position ∧
      n.feed = { m.feed with
        marks := m.feed.marks.push ⟨position, none⟩
        roster := m.feed.roster.subscribe m.alive m.feed.marks.size
        log } := by
  cases h with
  | release fault log h =>
    exact Or.inl ⟨⟨Nat.le_refl _, fun _ _ => rfl⟩, rfl, rfl, fun he => he⟩
  | pull alive f =>
    cases he : f.exhausted with
    | true =>
      rw [Feed.pull_of_exhausted alive he]
      exact Or.inl ⟨Feed.Extends.refl f, rfl, rfl, fun he => he⟩
    | false =>
      rw [Feed.pull_of_not_exhausted alive he]
      cases f.supply.poll.1.char? with
      | some c => exact Or.inr (Or.inl ⟨c, rfl, rfl⟩)
      | none =>
        obtain ⟨log, hlog⟩ := Feed.finish_eq f.supply.poll.1.error? f.asked
        dsimp only
        rw [hlog]
        exact Or.inl ⟨⟨Nat.le_refl _, fun _ _ => rfl⟩, rfl, rfl, fun _ => rfl⟩
  | @attach alive later f position head hhead hopen h =>
    cases head with
    | some node =>
      exact Or.inl ⟨(Feed.attach_spec alive position (some node) f).2.2.2, rfl, rfl,
        fun he => he⟩
    | none =>
      have hp : f.readPosition ≤ position := by simpa [eq_comm] using hhead
      obtain ⟨log, hattach⟩ := Feed.attach_none alive position f
      exact Or.inr (Or.inr ⟨position, log, hopen rfl, hp, congrArg Prod.snd hattach⟩)

theorem Next.tidy (h : Next m n) (hm : m.feed.Tidy) : n.feed.Tidy := by
  rcases h.cases with hq | ⟨c, -, rfl⟩ | ⟨position, log, -, hp, hn⟩
  · exact hq.tidy hm
  · exact hm.arrive m.alive c
  · rw [hn]
    exact hm.subscribe hp m.alive log

/-- At most one character is read, and then nobody on the roster is dead. -/
theorem Next.swept (h : Next m n) : n.feed.readPosition = m.feed.readPosition ∨
    n.feed.readPosition = m.feed.readPosition + 1 ∧
      ∀ id ∈ n.feed.roster.entries, n.alive id = true := by
  rcases h.cases with hq | ⟨c, -, rfl⟩ | ⟨position, log, -, hp, hn⟩
  · exact Or.inl hq.read
  · exact Or.inr ⟨Feed.readPosition_arrive m.alive c m.feed.asked,
      fun _ hid => Feed.alive_of_mem_arrive hid⟩
  · rw [hn]
    exact Or.inl rfl

/-- After the end the roster stays as it is. -/
theorem Next.ended (h : Next m n) (he : m.feed.exhausted = true) :
    n.feed.exhausted = true ∧ n.feed.roster = m.feed.roster := by
  rcases h.cases with hq | ⟨c, hopen, -⟩ | ⟨position, log, hopen, -⟩
  · exact ⟨hq.ended he, hq.roster⟩
  · rw [he] at hopen
    cases hopen
  · rw [he] at hopen
    cases hopen

/-- A roster that fits goes on doing so, as a sweep leaves those who wait. -/
theorem Next.fits (h : Next m n) (hfloor : 0 < floor)
    (hlive : m.feed.roster.liveCount m.alive ≤ peak) (hm : m.feed.roster.Fits floor peak) :
    n.feed.roster.Fits floor peak := by
  rcases h.cases with hq | ⟨c, -, rfl⟩ | ⟨position, log, -, -, hn⟩
  · rw [hq.roster]
    exact hm
  · obtain ⟨log, hlog⟩ := Feed.arrive_eq m.alive c m.feed.asked
    rw [hlog]
    exact hm.broadcast _ _ _
  · rw [hn]
    exact hm.subscribe hfloor hlive

end Instant

end BranchCursor
