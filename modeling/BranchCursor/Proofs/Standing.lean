import BranchCursor.Cursor
import BranchCursor.Proofs.Operations

/-! Cursors of either kind over one content. A cursor stands at an offset: it answers with the
character there, and the cursor after it stands one further on. Past the end many offsets are the
same place, since a cursor in a feed may go on where a cursor in a text has finished. -/
namespace BranchCursor

/-- What is behind a family of cursors: a text in memory, or a supply that is read on demand. -/
inductive Backing where
  | text (buffer : Array Char)
  | supply (origin : Supply)
  deriving DecidableEq

namespace Backing

def content : Backing → List Char
  | text buffer => buffer.toList
  | supply origin => origin.content

def isText : Backing → Bool
  | text _ => true
  | supply _ => false

end Backing

/-- The feed of a family is sound; the one of a text family is idle. -/
def Feed.Serves (b : Backing) (alive : MarkId → Bool) (f : Feed) : Prop :=
  match b with
  | .text _ => f = .idle
  | .supply origin => f.Sound origin alive

theorem Feed.Serves.mono {b : Backing} {held alive : MarkId → Bool} {f : Feed}
    (h : f.Serves b alive) (hle : ∀ id, held id → alive id) : f.Serves b held := by
  cases b with
  | text _ => exact h
  | supply _ => exact Feed.Sound.mono h hle

namespace Cursor

/-- A cursor stands at offset `o` of the content behind its family. -/
def Stands (b : Backing) (f : Feed) (o : Nat) : Cursor → Prop
  | finish => b.content.length ≤ o
  | text t => b = .text t.buffer ∧ t.index = o
  | mark id => b.isText = false ∧ id < f.marks.size ∧ (f.mark id).position = o

/-- The marks held by others or by some cursors in hand. -/
def holding (held : MarkId → Bool) (hand : List Cursor) (id : MarkId) : Bool :=
  held id || hand.any (·.holds id)

/-- Every mark that the first cursors hold is held by the others too. -/
def Within (kept hand : List Cursor) : Prop :=
  ∀ id, kept.any (·.holds id) → hand.any (·.holds id)

theorem Within.refl (hand : List Cursor) : Within hand hand := fun _ h => h

theorem Within.trans {a b c : List Cursor} (hab : Within a b) (hbc : Within b c) : Within a c :=
  fun id h => hbc id (hab id h)

theorem within_of_subset {kept hand : List Cursor} (h : ∀ c ∈ kept, c ∈ hand) :
    Within kept hand := by
  intro id hid
  obtain ⟨c, hc, hh⟩ := List.any_eq_true.mp hid
  exact List.any_eq_true.mpr ⟨c, h c hc, hh⟩

theorem Within.cons {c : Cursor} {kept hand : List Cursor} (hc : Within [c] hand)
    (hk : Within kept hand) : Within (c :: kept) hand := by
  intro id hid
  rw [List.any_cons, Bool.or_eq_true] at hid
  rcases hid with hid | hid
  · exact hc id (by simpa using hid)
  · exact hk id hid

theorem Within.head {c : Cursor} {kept hand : List Cursor} (h : Within (c :: kept) hand) :
    Within [c] hand :=
  (within_of_subset (by simp)).trans h

theorem Within.tail {c : Cursor} {kept hand : List Cursor} (h : Within (c :: kept) hand) :
    Within kept hand :=
  (within_of_subset fun _ hd => List.mem_cons_of_mem c hd).trans h

theorem holding_mono {held : MarkId → Bool} {kept hand : List Cursor} (h : Within kept hand)
    (id : MarkId) (hid : holding held kept id) : holding held hand id := by
  rw [holding, Bool.or_eq_true] at hid ⊢
  exact hid.imp_right (h id)

variable {b : Backing} {f g : Feed} {o : Nat} {held alive : MarkId → Bool} {c : Cursor}

/-- A cursor stays where it is, whatever happens to its feed. -/
theorem Stands.extend (h : c.Stands b f o) (hext : f.Extends g) : c.Stands b g o := by
  cases c with
  | finish => exact h
  | text t => exact h
  | mark id =>
    obtain ⟨hb, hid, hp⟩ := h
    exact ⟨hb, Nat.lt_of_lt_of_le hid hext.size, by rw [hext.position id hid, hp]⟩

/-- The character at a cursor is the one of the content at its offset. -/
theorem Stands.current (hc : c.Stands b f o) (held : MarkId → Bool) (hs : f.Serves b alive)
    (hle : ∀ id, alive id → held id) (halive : ∀ id, c.holds id → alive id) :
    (c.current held f).1 = b.content[o]? ∧ (c.current held f).2.Serves b alive ∧
    f.Extends (c.current held f).2 := by
  cases c with
  | finish => exact ⟨(List.getElem?_eq_none hc).symm, hs, Feed.Extends.refl f⟩
  | text t =>
    obtain ⟨rfl, rfl⟩ := hc
    refine ⟨?_, hs, Feed.Extends.refl f⟩
    simp [Cursor.current, TextCursor.current, Backing.content, t.inside]
  | mark id =>
    obtain ⟨hb, -, rfl⟩ := hc
    cases b with
    | text _ => cases hb
    | supply origin =>
      obtain ⟨ha, hr⟩ := Feed.Sound.current hs hle (halive id (by simp [holds]))
      exact ⟨ha, hr.sound, hr.extend⟩

/-- What follows a held mark: the end, if the feed is exhausted and the mark is the last or
beyond, or else a new mark one position further on. -/
theorem next_mark {origin : Supply} {id : MarkId} (hs : f.Sound origin alive)
    (hle : ∀ id, alive id → held id) (hid : alive id) :
    (f.exhausted = true ∧ origin.content.length ≤ (f.mark id).position + 1 ∧
        (mark id).next held f = (finish, f)) ∨
    (¬(f.exhausted = true ∧ origin.content.length ≤ (f.mark id).position + 1) ∧
      ∃ g, (mark id).next held f = (mark f.marks.size, g) ∧
        g.Sound origin (fun i => alive i || i == f.marks.size) ∧ f.Extends g ∧
        f.marks.size < g.marks.size ∧
        (g.mark f.marks.size).position = (f.mark id).position + 1 ∧
        g.readPosition = f.readPosition ∧ g.exhausted = f.exhausted ∧
        g.supply = f.supply ∧ g.polls = f.polls) := by
  have hiff : f.exhausted = true ∧ f.readPosition ≤ (f.mark id).position + 1 ↔
      f.exhausted = true ∧ origin.content.length ≤ (f.mark id).position + 1 := by
    apply and_congr_right
    intro he
    rw [hs.ended he]
  have hnext := hs.next held hid
  by_cases hend : f.exhausted = true ∧ f.readPosition ≤ (f.mark id).position + 1
  · rw [if_pos hend] at hnext
    obtain ⟨he, hl⟩ := hiff.mp hend
    exact Or.inl ⟨he, hl, by rw [Cursor.next, hnext]; rfl⟩
  · rw [if_neg hend] at hnext
    refine Or.inr ⟨fun h => hend (hiff.mpr h), ?_⟩
    generalize hh : (if (f.mark id).position + 1 < f.readPosition
      then some ((f.mark id).position + 1) else none) = head at hnext
    obtain ⟨-, hsize, hmark, hext⟩ := Feed.attach_spec held ((f.mark id).position + 1) head f
    obtain ⟨roster, log, he, -⟩ := Feed.attach_cases held ((f.mark id).position + 1) head f
    refine ⟨_, by rw [Cursor.next, hnext]; rfl, hs.attach hle hh.symm, hext, by omega, ?_, ?_⟩
    · rw [hmark]
    · rw [he]
      exact ⟨rfl, rfl, rfl, rfl⟩

/-- The cursor after a cursor stands one further on; nothing is let go, and it is new in hand. -/
theorem Stands.next (hc : c.Stands b f o) (held : MarkId → Bool) (hs : f.Serves b alive)
    (hle : ∀ id, alive id → held id) (halive : ∀ id, c.holds id → alive id) :
    (c.next held f).1.Stands b (c.next held f).2 (o + 1) ∧
    (c.next held f).2.Serves b (fun id => alive id || (c.next held f).1.holds id) ∧
    f.Extends (c.next held f).2 := by
  cases c with
  | finish =>
    refine ⟨Nat.le_succ_of_le hc, hs.mono ?_, Feed.Extends.refl f⟩
    simp [Cursor.next, holds]
  | text t =>
    obtain ⟨rfl, rfl⟩ := hc
    refine ⟨?_, hs, Feed.Extends.refl f⟩
    simp only [Cursor.next, TextCursor.next?]
    split
    · rename_i t' ht
      split at ht
      · cases ht
        exact ⟨rfl, rfl⟩
      · cases ht
    · rename_i ht
      split at ht
      · cases ht
      · rename_i hlast
        simpa [Stands, Backing.content] using Nat.le_of_not_lt hlast
  | mark id =>
    obtain ⟨hb, hid, rfl⟩ := hc
    cases b with
    | text _ => cases hb
    | supply origin =>
      have hid' := halive id (by simp [holds])
      rcases next_mark hs hle hid' with ⟨he, hl, hn⟩ | ⟨-, g, hn, hg, hext, hsize, hpos, -⟩
      · rw [hn]
        refine ⟨hl, Feed.Sound.mono hs ?_, Feed.Extends.refl f⟩
        simp [holds]
      · rw [hn]
        refine ⟨⟨rfl, hsize, hpos⟩, Feed.Sound.mono hg ?_, hext⟩
        intro i hi
        simp only [holds, Bool.or_eq_true, beq_iff_eq] at hi ⊢
        exact hi.imp_right Eq.symm

end Cursor

end BranchCursor
