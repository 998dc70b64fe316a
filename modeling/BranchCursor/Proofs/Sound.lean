import BranchCursor.Proofs.Broadcast
import BranchCursor.Proofs.Content

/-! What holds of a feed between any two operations on it, whoever does them.
The pulled characters are the beginning of the content, linked in order, and every mark that is
held leads to its own node once that was pulled and is on the roster before. -/
namespace BranchCursor.Feed

/-- The node of the character at `k` of a content of which `read` characters were pulled. -/
def nodeAt? (content : List Char) (read k : Nat) : Option Node :=
  content[k]?.map fun c =>
    { char := c, offset := k, next := if k + 1 < read then some (k + 1) else none }

/-- How far a feed over `origin` has got: what was asked, what came, and how that is linked. -/
structure Linked (origin : Supply) (f : Feed) : Prop where
  supply : f.supply = origin.after f.polls
  polls : f.polls = f.readPosition + f.exhausted.toNat
  within : f.readPosition ≤ origin.content.length
  ended : f.exhausted = true → f.readPosition = origin.content.length
  size : f.nodes.size = f.readPosition
  node : ∀ k < f.readPosition, f.nodes[k]? = nodeAt? origin.content f.readPosition k
  tail : f.exhausted = false →
    f.tail = if f.readPosition = 0 then none else some (f.readPosition - 1)

/-- A linked feed on which every mark held has its node, or waits for it on the roster. -/
structure Sound (origin : Supply) (alive : MarkId → Bool) (f : Feed) : Prop
    extends Linked origin f where
  inside : ∀ id, alive id → id < f.marks.size
  head : ∀ id, alive id → (f.mark id).head =
    if (f.mark id).position < f.readPosition then some (f.mark id).position else none
  waiting : ∀ id, alive id → f.readPosition ≤ (f.mark id).position → id ∈ f.roster.entries

/-- A later state of the same feed: marks are added, and none moves. -/
structure Extends (f g : Feed) : Prop where
  size : f.marks.size ≤ g.marks.size
  position : ∀ id < f.marks.size, (g.mark id).position = (f.mark id).position

theorem Extends.refl (f : Feed) : f.Extends f := ⟨Nat.le_refl _, fun _ _ => rfl⟩

theorem Extends.trans {f g h : Feed} (hfg : f.Extends g) (hgh : g.Extends h) : f.Extends h where
  size := Nat.le_trans hfg.size hgh.size
  position id hid := by
    rw [hgh.position id (Nat.lt_of_lt_of_le hid hfg.size), hfg.position id hid]

variable {origin : Supply} {held alive : MarkId → Bool} {f : Feed} {id : MarkId}

/-- Letting go of marks breaks nothing. -/
theorem Sound.mono (h : f.Sound origin alive) (hle : ∀ id, held id → alive id) :
    f.Sound origin held where
  toLinked := h.toLinked
  inside id hid := h.inside id (hle id hid)
  head id hid := h.head id (hle id hid)
  waiting id hid := h.waiting id (hle id hid)

/-- Neither the fault nor the log matters to any cursor. -/
theorem Sound.withNotes (h : f.Sound origin alive) (fault : Option CursorError)
    (log : Array LogEntry) : ({ f with fault, log } : Feed).Sound origin alive where
  supply := h.supply
  polls := h.polls
  within := h.within
  ended := h.ended
  size := h.size
  node := h.node
  tail := h.tail
  inside := h.inside
  head := h.head
  waiting := h.waiting

/-! ### New marks -/

/-- A new mark without a node joins the roster; who is swept then is noted. -/
theorem attach_none (alive : MarkId → Bool) (position : Nat) (f : Feed) :
    ∃ log, f.attach alive position none = (f.marks.size, { f with
      marks := f.marks.push ⟨position, none⟩
      roster := f.roster.subscribe alive f.marks.size
      log }) := by
  obtain ⟨log, hlog⟩ := record_eq position none .pruned { f with
    marks := f.marks.push ⟨position, none⟩
    roster := f.roster.subscribe alive f.marks.size }
  refine ⟨if 0 < f.roster.overdue alive then log else f.log, ?_⟩
  unfold attach
  dsimp only
  rw [hlog]
  split <;> rfl

/-- All that attaching does: a mark more, and on the roster those alive who were there, with the
new mark if it has no node. -/
theorem attach_cases (alive : MarkId → Bool) (position : Nat) (head : Option NodeId) (f : Feed) :
    ∃ roster log, f.attach alive position head =
        (f.marks.size, { f with marks := f.marks.push ⟨position, head⟩, roster, log }) ∧
      (∀ id ∈ f.roster.entries, alive id → id ∈ roster.entries) ∧
      (head = none → f.marks.size ∈ roster.entries) := by
  cases head with
  | some node => exact ⟨f.roster, f.log, rfl, fun id hid _ => hid, by simp⟩
  | none =>
    obtain ⟨log, hattach⟩ := attach_none alive position f
    refine ⟨_, log, hattach, ?_, ?_⟩
    · intro id hid ha
      exact Roster.mem_subscribe hid ha
    · intro _
      exact Roster.mem_subscribe_self alive _ _

theorem mark_push_of_lt {m : Mark} (h : id < f.marks.size) (roster : Roster MarkId)
    (log : Array LogEntry) :
    ({ f with marks := f.marks.push m, roster, log } : Feed).mark id = f.mark id := by
  simp [mark, Array.getElem?_push, Nat.ne_of_lt h]

theorem mark_push_self (f : Feed) (m : Mark) (roster : Roster MarkId) (log : Array LogEntry) :
    ({ f with marks := f.marks.push m, roster, log } : Feed).mark f.marks.size = m := by
  simp [mark]

/-- A new mark is where it was asked for, and moves no other. -/
theorem attach_spec (alive : MarkId → Bool) (position : Nat) (head : Option NodeId) (f : Feed) :
    (f.attach alive position head).1 = f.marks.size ∧
    (f.attach alive position head).2.marks.size = f.marks.size + 1 ∧
    (f.attach alive position head).2.mark f.marks.size = ⟨position, head⟩ ∧
    f.Extends (f.attach alive position head).2 := by
  obtain ⟨roster, log, he, -⟩ := attach_cases alive position head f
  rw [he]
  refine ⟨rfl, Array.size_push _, mark_push_self f _ roster log, by simp, ?_⟩
  intro id hid
  exact congrArg Mark.position (mark_push_of_lt hid roster log)

/-- A new mark that is given its node exactly if that was pulled keeps a feed sound. -/
theorem Sound.attach {position : Nat} {head : Option NodeId} (h : f.Sound origin alive)
    (hle : ∀ id, alive id → held id)
    (hhead : head = if position < f.readPosition then some position else none) :
    (f.attach held position head).2.Sound origin fun id => alive id || id == f.marks.size := by
  obtain ⟨roster, log, he, hkept, hnew⟩ := attach_cases held position head f
  have hcases : ∀ {id : MarkId}, (alive id || id == f.marks.size) = true →
      alive id = true ∨ id = f.marks.size := by
    intro id hid
    simpa using hid
  rw [he]
  refine ⟨⟨h.supply, h.polls, h.within, h.ended, h.size, h.node, h.tail⟩, ?_, ?_, ?_⟩
  · intro id hid
    simp only [Array.size_push]
    rcases hcases hid with ha | rfl
    · exact Nat.lt_succ_of_lt (h.inside id ha)
    · exact Nat.lt_succ_self _
  · intro id hid
    rcases hcases hid with ha | rfl
    · rw [mark_push_of_lt (h.inside id ha) roster log]
      exact h.head id ha
    · rw [mark_push_self f _ roster log]
      exact hhead
  · intro id hid hp
    rcases hcases hid with ha | rfl
    · rw [mark_push_of_lt (h.inside id ha) roster log] at hp
      exact hkept id (h.waiting id ha hp) (hle id ha)
    · rw [mark_push_self f _ roster log] at hp
      rw [if_neg (Nat.not_lt.mpr hp)] at hhead
      exact hnew hhead

/-! ### Pulling -/

theorem size_extend (tail : Option NodeId) (c : Char) (offset : Nat) (nodes : Array Node) :
    (Feed.extend tail c offset nodes).size = nodes.size + 1 := by
  cases tail <;> simp [Feed.extend]

/-- A new node stands last, the tail is linked to it, and all others stay as they are. -/
theorem getElem?_extend (tail : Option NodeId) (c : Char) (offset : Nat) (nodes : Array Node)
    (k : Nat) :
    (Feed.extend tail c offset nodes)[k]? =
      if k = nodes.size then some { char := c, offset }
      else if tail = some k then nodes[k]?.map (Node.link nodes.size)
      else nodes[k]? := by
  cases tail with
  | none => simp [Feed.extend, Array.getElem?_push]
  | some last => simp [Feed.extend, Array.getElem?_push, Array.getElem?_modify]

/-- The chain after a character joined it. -/
theorem Linked.extend {c : Char} (h : f.Linked origin) (he : f.exhausted = false)
    (hc : origin.content[f.readPosition]? = some c) :
    ∀ k < f.readPosition + 1, (Feed.extend f.tail c f.readPosition f.nodes)[k]? =
      nodeAt? origin.content (f.readPosition + 1) k := by
  intro k hk
  rw [getElem?_extend, h.size, h.tail he]
  by_cases hkr : k = f.readPosition
  · rw [if_pos hkr, nodeAt?, hkr, hc]
    simp
  · have hlt : k < f.readPosition := by omega
    obtain ⟨a, ha⟩ : ∃ a, origin.content[k]? = some a := by
      have := h.within
      exact ⟨_, List.getElem?_eq_getElem (by omega)⟩
    have hz : f.readPosition ≠ 0 := by omega
    rw [if_neg hkr, if_neg hz, h.node k hlt, nodeAt?, nodeAt?, ha]
    -- the last node is the only one that had no link
    by_cases hl : f.readPosition - 1 = k
    · have hk1 : f.readPosition = k + 1 := by omega
      simp [hk1, Node.link]
    · have hk1 : k + 1 < f.readPosition := by omega
      simp [hl, hk1, Nat.lt_succ_of_lt hk1]

theorem arrive_eq (alive : MarkId → Bool) (c : Char) (f : Feed) :
    ∃ log, f.arrive alive c = { f with
      nodes := Feed.extend f.tail c f.readPosition f.nodes
      tail := some f.nodes.size
      roster := (f.roster.broadcast (fun _ => alive) (notify f.nodes.size f.readPosition)
        f.marks).1
      marks := (f.roster.broadcast (fun _ => alive) (notify f.nodes.size f.readPosition)
        f.marks).2
      readPosition := f.readPosition + 1
      log } := by
  unfold arrive
  dsimp only
  exact record_eq _ _ _ _

theorem readPosition_arrive (alive : MarkId → Bool) (c : Char) (f : Feed) :
    (f.arrive alive c).readPosition = f.readPosition + 1 := by
  obtain ⟨log, hlog⟩ := arrive_eq alive c f
  rw [hlog]

theorem exhausted_arrive (alive : MarkId → Bool) (c : Char) (f : Feed) :
    (f.arrive alive c).exhausted = f.exhausted := by
  obtain ⟨log, hlog⟩ := arrive_eq alive c f
  rw [hlog]

theorem getElem?_marks_arrive (alive : MarkId → Bool) (c : Char) (f : Feed) (id : MarkId) :
    (f.arrive alive c).marks[id]? =
      if id ∈ f.roster.entries ∧ alive id then
        f.marks[id]?.map (Mark.told f.nodes.size f.readPosition)
      else f.marks[id]? := by
  obtain ⟨log, hlog⟩ := arrive_eq alive c f
  rw [hlog]
  simp only [Roster.broadcast_eq, getElem?_foldl_visit, Array.mem_toList_iff]

theorem size_marks_arrive (alive : MarkId → Bool) (c : Char) (f : Feed) :
    (f.arrive alive c).marks.size = f.marks.size := by
  apply Nat.le_antisymm
  · have h := getElem?_marks_arrive alive c f f.marks.size
    rw [← Array.getElem?_eq_none_iff]
    simpa using h
  · have h := getElem?_marks_arrive alive c f (f.arrive alive c).marks.size
    rw [← Array.getElem?_eq_none_iff]
    split at h <;> simpa using h.symm

/-- A pull moves no mark, and tells those alive on the roster. -/
theorem mark_arrive (alive : MarkId → Bool) (c : Char) {f : Feed} {id : MarkId}
    (h : id < f.marks.size) :
    (f.arrive alive c).mark id =
      if id ∈ f.roster.entries ∧ alive id then
        (f.mark id).told f.nodes.size f.readPosition
      else f.mark id := by
  simp only [mark, getElem?_marks_arrive]
  split <;> simp [h]

theorem extends_arrive (alive : MarkId → Bool) (c : Char) (f : Feed) :
    f.Extends (f.arrive alive c) where
  size := Nat.le_of_eq (size_marks_arrive alive c f).symm
  position id hid := by
    rw [mark_arrive alive c hid]
    split <;> simp

/-- The feed while the answer of its source is being dealt with. -/
def asked (f : Feed) : Feed := { f with supply := f.supply.poll.2, polls := f.polls + 1 }

/-- The next character keeps a feed sound: it is the one that the source was asked for. -/
theorem Sound.arrive {c : Char} (h : f.Sound origin alive) (hle : ∀ id, alive id → held id)
    (he : f.exhausted = false) (hc : origin.content[f.readPosition]? = some c) :
    (f.asked.arrive held c).Sound origin alive := by
  generalize hg : f.asked = g
  rw [asked] at hg
  have hmarks : g.marks = f.marks := by rw [← hg]
  have hroster : g.roster = f.roster := by rw [← hg]
  have hread : g.readPosition = f.readPosition := by rw [← hg]
  have hsize : g.nodes.size = f.readPosition := by rw [← hg]; exact h.size
  have hinside : ∀ id, alive id → id < g.marks.size := by
    intro id hid
    rw [hmarks]
    exact h.inside id hid
  have hmark : ∀ id, g.mark id = f.mark id := by
    intro id
    rw [mark, hmarks]
    rfl
  obtain ⟨log, hlog⟩ := arrive_eq held c g
  have hlt : f.readPosition < origin.content.length := (List.getElem?_eq_some_iff.mp hc).1
  have hread' : (g.arrive held c).readPosition = f.readPosition + 1 := by rw [hlog, ← hread]
  refine ⟨?_, ?_, ?_, ?_⟩
  · rw [hlog, ← hg]
    refine {
      supply := ?_, polls := ?_, within := hlt, ended := ?_, size := ?_, node := ?_, tail := ?_ }
    · rw [h.supply]
      rfl
    · have := h.polls
      simp only [he, Bool.toNat_false] at this ⊢
      omega
    · intro hx
      exact absurd hx (by simp [he])
    · simp only [size_extend, h.size]
    · exact h.extend he hc
    · intro _
      simp [h.size]
  · intro id hid
    rw [size_marks_arrive]
    exact hinside id hid
  · intro id hid
    rw [mark_arrive held c (hinside id hid), hread', hmark, hroster, hread, hsize]
    have hh := h.head id hid
    rcases Nat.lt_trichotomy (f.mark id).position f.readPosition with hp | hp | hp
    · rw [Mark.told_of_ne (Nat.ne_of_lt hp), ite_self, hh, if_pos hp,
        if_pos (Nat.lt_succ_of_lt hp)]
    · rw [if_neg (by omega)] at hh
      have hw := h.waiting id hid (Nat.le_of_eq hp.symm)
      rw [if_pos ⟨hw, hle id hid⟩, Mark.position_told, if_pos (by omega), ← hp]
      exact Mark.head_told_self hh
    · rw [Mark.told_of_ne (Nat.ne_of_gt hp), ite_self, hh, if_neg (by omega), if_neg (by omega)]
  · intro id hid hp
    rw [mark_arrive held c (hinside id hid), hread'] at hp
    have hpos : f.readPosition < (f.mark id).position := by
      rw [hmark] at hp
      split at hp
      · rwa [Mark.position_told] at hp
      · exact hp
    rw [hlog]
    simp only [Roster.broadcast_eq]
    apply mem_foldl_visit (m := f.mark id)
    · rw [hroster]
      exact Array.mem_toList_iff.mpr (h.waiting id hid (Nat.le_of_lt hpos))
    · exact hle id hid
    · rw [hmarks]
      simp [mark, h.inside id hid]
    · rw [h.head id hid, if_neg (by omega)]
    · rw [hread]
      exact hpos

end BranchCursor.Feed
