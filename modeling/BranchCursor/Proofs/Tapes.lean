import BranchCursor.Bytes.Stream
import BranchCursor.Proofs.Segments
import Mathlib.Algebra.GroupWithZero.Nat

/-! What a byte stream has to give, however it is cut into reads: bytes, and failures between them.
A tape is taken apart into pieces, segments and failures, by what its bytes settle alone; a failure
comes before the first segment that the bytes in front of it do not settle. -/
namespace BranchCursor

/-- The bytes before the first failure, and each failure with the bytes after it. -/
structure Tape where
  bytes : List UInt8
  breaks : List (ReadFailure × List UInt8)
  deriving DecidableEq, Repr

/-- A segment, or a failed read. -/
inductive Piece where
  | segment (s : Segment)
  | failure (cause : ReadFailure)
  deriving DecidableEq, Repr

namespace Piece

def size : Piece → Nat
  | segment s => s.size
  | failure _ => 0

def segment? : Piece → Option Segment
  | segment s => some s
  | failure _ => none

def failure? : Piece → Option ReadFailure
  | segment _ => none
  | failure cause => some cause

end Piece

namespace Tape

/-- The tape with more bytes in front. -/
def prepend (front : List UInt8) (t : Tape) : Tape := ⟨front ++ t.bytes, t.breaks⟩

/-- The tape with a failure in front. -/
def failing (cause : ReadFailure) (t : Tape) : Tape := ⟨[], (cause, t.bytes) :: t.breaks⟩

/-- All the bytes. -/
def all (t : Tape) : List UInt8 := t.bytes ++ t.breaks.flatMap (·.2)

def failures (t : Tape) : List ReadFailure := t.breaks.map (·.1)

def weight (t : Tape) : Nat := t.all.length + t.breaks.length

/-- The tape once its first segment was taken. -/
def past (t : Tape) : Tape := ⟨t.bytes.drop (Utf8.leading t.bytes).size, t.breaks⟩

/-- The first piece, and the tape that is left. A failure uses up none of the bytes. -/
def next? (t : Tape) : Option (Piece × Tape) :=
  if Utf8.Settles t.bytes then some (.segment (Utf8.leading t.bytes), t.past)
  else
    match t.breaks with
    | (cause, more) :: later => some (.failure cause, ⟨t.bytes ++ more, later⟩)
    | [] => if t.bytes = [] then none else some (.segment (Utf8.leading t.bytes), t.past)

variable {t later : Tape} {p : Piece}

theorem bytes_ne_nil_of_settles (h : Utf8.Settles t.bytes) : t.bytes ≠ [] := by
  intro hnil
  rw [hnil] at h
  exact Utf8.not_settles_nil h

theorem next?_of_ne_nil (hne : t.bytes ≠ []) (h : Utf8.Settles t.bytes ∨ t.breaks = []) :
    t.next? = some (.segment (Utf8.leading t.bytes), t.past) := by
  unfold next?
  split
  · rfl
  · rename_i hs
    rw [h.resolve_left hs]

/-- Bytes that settle nothing are kept while the failure after them is met. -/
theorem next?_of_failing {front : List UInt8} (h : ¬Utf8.Settles front) (cause : ReadFailure)
    (t : Tape) :
    ((t.failing cause).prepend front).next? = some (.failure cause, t.prepend front) := by
  have hfront : ((t.failing cause).prepend front).bytes = front := List.append_nil front
  rw [next?, hfront, if_neg h]
  rfl

/-- All that the first piece can be. -/
theorem next?_cases (h : t.next? = some (p, later)) :
    (p = .segment (Utf8.leading t.bytes) ∧ later = t.past ∧ t.bytes ≠ [] ∧
      (Utf8.Settles t.bytes ∨ t.breaks = [])) ∨
    ∃ cause more rest, ¬Utf8.Settles t.bytes ∧ t.breaks = (cause, more) :: rest ∧
      p = .failure cause ∧ later = ⟨t.bytes ++ more, rest⟩ := by
  unfold next? at h
  split at h
  · rename_i hs
    cases h
    exact Or.inl ⟨rfl, rfl, bytes_ne_nil_of_settles hs, Or.inl hs⟩
  · rename_i hs
    split at h
    · rename_i cause more rest hb
      cases h
      exact Or.inr ⟨cause, more, rest, hs, hb, rfl, rfl⟩
    · rename_i hb
      split at h
      · cases h
      · rename_i hne
        cases h
        exact Or.inl ⟨rfl, rfl, hne, Or.inr hb⟩

theorem next?_eq_none_iff : t.next? = none ↔ t = ⟨[], []⟩ := by
  constructor
  · intro h
    unfold next? at h
    split at h
    · cases h
    · split at h
      · cases h
      · rename_i hb
        split at h
        · rename_i hnil
          obtain ⟨bytes, breaks⟩ := t
          simp_all
        · cases h
  · rintro rfl
    rfl

theorem weight_lt_of_next? (h : t.next? = some (p, later)) : later.weight < t.weight := by
  rcases next?_cases h with ⟨-, rfl, hne, -⟩ | ⟨cause, more, rest, -, hb, -, rfl⟩
  · have := Utf8.length_drop_leading_lt_of_ne_nil hne
    simp only [weight, all, past, List.length_append] at this ⊢
    omega
  · simp only [weight, all, hb, List.flatMap_cons, List.length_append, List.length_cons]
    omega

/-- The tape taken apart from left to right. -/
def pieces (t : Tape) : List Piece :=
  match _h : t.next? with
  | some (p, later) => p :: later.pieces
  | none => []
termination_by t.weight
decreasing_by exact weight_lt_of_next? _h

theorem pieces_of_some (h : t.next? = some (p, later)) : t.pieces = p :: later.pieces := by
  rw [pieces]
  split
  · rename_i hp
    rw [h] at hp
    cases hp
    rfl
  · rename_i hn
    rw [h] at hn
    cases hn

theorem pieces_of_none (h : t.next? = none) : t.pieces = [] := by
  rw [pieces]
  split
  · rename_i hp
    rw [h] at hp
    cases hp
  · rfl

/-- Tapes are taken apart piece by piece. -/
@[elab_as_elim]
theorem induction_on_pieces {motive : Tape → Prop} (t : Tape) (done : motive ⟨[], []⟩)
    (segment : ∀ t : Tape, t.bytes ≠ [] → (Utf8.Settles t.bytes ∨ t.breaks = []) →
      t.pieces = .segment (Utf8.leading t.bytes) :: t.past.pieces → motive t.past → motive t)
    (failure : ∀ bytes cause more rest, ¬Utf8.Settles bytes →
      pieces ⟨bytes, (cause, more) :: rest⟩ = .failure cause :: pieces ⟨bytes ++ more, rest⟩ →
      motive ⟨bytes ++ more, rest⟩ → motive ⟨bytes, (cause, more) :: rest⟩) : motive t := by
  induction hw : t.weight using Nat.strongRecOn generalizing t with
  | ind n ih =>
    cases h : t.next? with
    | none =>
      rw [next?_eq_none_iff.mp h]
      exact done
    | some r =>
      obtain ⟨p, later⟩ := r
      have hlater := ih later.weight (hw ▸ weight_lt_of_next? h) later rfl
      have hpieces := pieces_of_some h
      rcases next?_cases h with ⟨rfl, rfl, hne, hs⟩ | ⟨cause, more, rest, hs, hb, rfl, rfl⟩
      · exact segment t hne hs hpieces hlater
      · obtain ⟨bytes, breaks⟩ := t
        obtain rfl : breaks = (cause, more) :: rest := hb
        exact failure bytes cause more rest hs hpieces hlater

@[simp] theorem pieces_blank : pieces ⟨[], []⟩ = [] := pieces_of_none rfl

/-! ### The pieces of a tape -/

theorem all_past (h : Utf8.Settles t.bytes ∨ t.breaks = []) :
    t.past.all = t.all.drop (Utf8.leading t.all).size ∧
      Utf8.leading t.all = Utf8.leading t.bytes := by
  rcases h with h | h
  · exact ⟨(Utf8.drop_leading_append h _).symm, Utf8.leading_append _ h⟩
  · simp [past, all, h]

/-- The segments of a tape are those of all its bytes, wherever it fails. -/
theorem segments_of_pieces (t : Tape) :
    t.pieces.filterMap Piece.segment? = Utf8.segments t.all := by
  induction t using induction_on_pieces with
  | done => simp [all]
  | segment t hne hs hpieces ih =>
    obtain ⟨hpast, hleading⟩ := all_past hs
    have hall : t.all ≠ [] := List.append_ne_nil_of_left_ne_nil hne _
    rw [hpieces, Utf8.segments_of_ne_nil hall, ← hpast, hleading, ← ih]
    rfl
  | failure bytes cause more rest hs hpieces ih =>
    rw [hpieces]
    refine ih.trans ?_
    simp [all]

/-- Every failure is a piece, in the order of the tape. -/
theorem failures_of_pieces (t : Tape) : t.pieces.filterMap Piece.failure? = t.failures := by
  induction t using induction_on_pieces with
  | done => simp [failures]
  | segment t hne hs hpieces ih =>
    rw [hpieces]
    exact ih
  | failure bytes cause more rest hs hpieces ih =>
    rw [hpieces]
    exact congrArg (cause :: ·) ih

/-- A tape without failures is cut into its segments. -/
theorem pieces_of_bytes (bytes : List UInt8) :
    pieces ⟨bytes, []⟩ = (Utf8.segments bytes).map .segment := by
  induction bytes using Utf8.induction_on_leading with
  | nil => simp
  | cut bytes hne ih =>
    rw [pieces_of_some (next?_of_ne_nil hne (Or.inr rfl)), Utf8.segments_of_ne_nil hne,
      List.map_cons]
    exact congrArg _ ih

/-- Together the pieces take up all the bytes. -/
theorem sum_size_pieces (t : Tape) : (t.pieces.map Piece.size).sum = t.all.length := by
  induction t using induction_on_pieces with
  | done => simp [all]
  | segment t hne hs hpieces ih =>
    have hle := Utf8.size_leading_le t.bytes
    rw [hpieces, List.map_cons, List.sum_cons, ih]
    simp only [Piece.size, past, all, List.length_append, List.length_drop]
    omega
  | failure bytes cause more rest hs hpieces ih =>
    rw [hpieces, List.map_cons, List.sum_cons, ih]
    simp [Piece.size, all]

theorem length_pieces_le (t : Tape) : t.pieces.length ≤ t.weight := by
  induction t using induction_on_pieces with
  | done => simp
  | segment t hne hs hpieces ih =>
    have hlt := Utf8.length_drop_leading_lt_of_ne_nil hne
    rw [hpieces, List.length_cons]
    simp only [weight, past, all, List.length_append] at ih hlt ⊢
    omega
  | failure bytes cause more rest hs hpieces ih =>
    rw [hpieces, List.length_cons]
    simp only [weight, all, List.flatMap_cons, List.length_append, List.length_cons] at ih ⊢
    omega

end Tape

/-! ### The tape of a byte stream -/

namespace ByteStream

/-- Interrupted reads leave no trace, and nothing comes after a read of no bytes. -/
def tapeOf : List ByteEvent → Tape
  | [] | .stop :: _ | .data [] :: _ => ⟨[], []⟩
  | .failure .interrupted :: later => tapeOf later
  | .failure cause :: later => (tapeOf later).failing cause
  | .data (b :: more) :: later => (tapeOf later).prepend (b :: more)

/-- What the stream gives before its first read of no bytes. -/
def tape (s : ByteStream) : Tape := tapeOf s.events

/-- Reads into a free buffer always make progress. -/
def Flows (s : ByteStream) : Prop := s.step ≠ some 0

variable {s later : ByteStream} {room : Nat} {cause : ReadFailure}
  {r : Except ReadFailure (List UInt8) × ByteStream}

theorem limit_pos (hs : s.Flows) (hroom : 0 < room) : 0 < s.limit room := by
  unfold limit
  split
  · exact hroom
  · rename_i n hn
    have : n ≠ 0 := fun h => hs (by rw [hn, h])
    omega

theorem tapeOf_failure (h : cause ≠ .interrupted) (events : List ByteEvent) :
    tapeOf (.failure cause :: events) = (tapeOf events).failing cause := by
  cases cause <;> first | rfl | exact absurd rfl h

theorem tapeOf_data {bytes : List UInt8} (h : bytes ≠ []) (events : List ByteEvent) :
    tapeOf (.data bytes :: events) = (tapeOf events).prepend bytes := by
  obtain ⟨b, more, rfl⟩ := List.exists_cons_of_ne_nil h
  rfl

theorem weight_tape_le (s : ByteStream) : s.tape.weight ≤ s.weight := by
  unfold tape weight
  fun_induction tapeOf s.events with
  | case1 => exact Nat.le_refl _
  | case2 later => exact Nat.zero_le _
  | case3 later => exact Nat.zero_le _
  | case4 later ih =>
    rw [List.foldr_cons]
    omega
  | case5 cause later hc ih =>
    simp only [Tape.weight, Tape.failing, Tape.all, List.flatMap_cons, List.foldr_cons,
      ByteEvent.weight, List.length_append, List.length_cons, List.length_nil] at ih ⊢
    omega
  | case6 b more later ih =>
    simp only [Tape.weight, Tape.prepend, Tape.all, List.foldr_cons, ByteEvent.weight,
      List.length_append] at ih ⊢
    omega

theorem Flows.read (hs : s.Flows) (h : s.read room = r) : r.2.Flows := by
  rw [← h, Flows, step_read]
  exact hs

/-- A read of no bytes finds the end of the tape. -/
theorem tape_of_read_nil (hs : s.Flows) (hroom : 0 < room)
    (h : s.read room = (.ok [], later)) : s.tape = ⟨[], []⟩ := by
  have hlimit := limit_pos hs hroom
  unfold ByteStream.read at h
  rw [tape]
  split at h
  · rename_i he
    rw [he]
    rfl
  · rename_i he
    rw [he]
    rfl
  · cases h
  · rename_i bytes events he
    rw [he]
    have hbytes : bytes = [] := by
      split at h
      · exact Except.ok.inj (congrArg Prod.fst h)
      · have htake : bytes.take (s.limit room) = [] := Except.ok.inj (congrArg Prod.fst h)
        rw [List.take_eq_nil_iff] at htake
        exact htake.resolve_left (by omega)
    rw [hbytes]
    rfl

/-- A read takes the bytes it gives off the front of the tape. -/
theorem tape_of_read_ok {bytes : List UInt8} (h : s.read room = (.ok bytes, later))
    (hne : bytes ≠ []) : s.tape = later.tape.prepend bytes := by
  unfold ByteStream.read at h
  rw [tape]
  split at h
  · cases h
    exact absurd rfl hne
  · cases h
    exact absurd rfl hne
  · cases h
  · rename_i data events he
    rw [he]
    split at h
    · cases h
      exact tapeOf_data hne events
    · rename_i hrest
      cases h
      have hdata : data ≠ [] := by
        rintro rfl
        exact hne List.take_nil
      rw [tapeOf_data hdata, tape, tapeOf_data hrest]
      simp [Tape.prepend, ← List.append_assoc]

/-- A failed read takes its failure off, and an interrupted one nothing. -/
theorem tape_of_read_error (h : s.read room = (.error cause, later)) :
    s.tape = if cause = .interrupted then later.tape else later.tape.failing cause := by
  unfold ByteStream.read at h
  rw [tape]
  split at h
  · cases h
  · cases h
  · rename_i failed events he
    cases h
    rw [he]
    split
    · rename_i hc
      rw [hc]
      rfl
    · rename_i hc
      exact tapeOf_failure hc events
  · split at h <;> cases h

end ByteStream

end BranchCursor
