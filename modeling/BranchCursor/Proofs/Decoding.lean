import BranchCursor.Proofs.Content
import BranchCursor.Proofs.Tapes

/-! A decoder goes through its tape piece by piece, however the stream cuts it into reads.
What it keeps of the buffer, what it read in advance and where reads were interrupted shows in none
of its answers. -/
namespace BranchCursor

namespace Piece

/-- What a decoder that has come to `offset` answers with a piece. -/
def delivery (lossy : Bool) (offset : Nat) : Piece → Delivery
  | segment (.letter c _) => .char c
  | segment (.broken _) =>
    if lossy then .char Utf8.replacement else .fault (.illFormed offset)
  | failure cause => .fault (.source cause)

/-- The answers with some pieces, each with the offset after it. -/
def told (lossy : Bool) : Nat → List Piece → List (Delivery × Nat)
  | _, [] => []
  | offset, p :: later =>
    (p.delivery lossy offset, offset + p.size) :: told lossy (offset + p.size) later

theorem delivery_ne_finished (p : Piece) (lossy : Bool) (offset : Nat) :
    p.delivery lossy offset ≠ .finished := by
  rcases p with (_ | _) | _
  · exact nofun
  · cases lossy <;> exact nofun
  · exact nofun

end Piece

namespace Decoder

/-- What a decoder still has to go through: the bytes it keeps, and all that its input gives. -/
def tape (d : Decoder) : Tape :=
  if d.ended then ⟨d.pending, []⟩ else d.input.tape.prepend d.pending

variable {d g : Decoder} {p : Piece} {later : Tape} {r : Option ReadFailure × Decoder}

theorem settled_iff : d.settled = true ↔ d.ended = true ∨ Utf8.Settles d.pending := by
  rw [settled, Bool.or_eq_true, Utf8.Settles]
  cases Utf8.leading d.pending <;> simp [Segment.isLetter, Segment.size]

theorem not_settles_of_not_settled (h : ¬d.settled = true) : ¬Utf8.Settles d.pending :=
  fun hs => h (settled_iff.mpr (Or.inr hs))

theorem ended_of_not_settled (h : ¬d.settled = true) : d.ended = false :=
  Bool.eq_false_iff.mpr fun he => h (settled_of_ended he)

theorem tape_of_not_ended (h : d.ended = false) : d.tape = d.input.tape.prepend d.pending :=
  if_neg (Bool.not_eq_true _ ▸ h)

/-- What is not settled leaves room for more. -/
theorem room_pos (h : ¬d.settled = true) : 0 < d.room := by
  have hle := Utf8.broken_le_three
    (Utf8.leading_of_not_settles (not_settles_of_not_settled h))
  have := d.fits
  unfold room
  omega

/-! ### Reading -/

/-- A decoder that only read: it stands where it stood, and can go on reading. -/
structure Reads (d g : Decoder) : Prop where
  lossy : g.lossy = d.lossy
  offset : g.offset = d.offset
  flows : g.input.Flows

/-- The outcome of reading: the tape is unchanged and its first piece is settled, or a failure was
next and has been taken off. -/
inductive Gathers (d : Decoder) : Option ReadFailure × Decoder → Prop where
  | settled {g : Decoder} (hreads : d.Reads g) (htape : g.tape = d.tape)
    (hsettled : g.settled = true) : Gathers d (none, g)
  | failed {g : Decoder} {cause : ReadFailure} (t : Tape) (hreads : d.Reads g)
    (hkept : ¬Utf8.Settles g.pending) (hbefore : d.tape = (t.failing cause).prepend g.pending)
    (hafter : g.tape = t.prepend g.pending) : Gathers d (some cause, g)

theorem Gathers.of_same (hg : g.Gathers r) (hlossy : g.lossy = d.lossy)
    (hoffset : g.offset = d.offset) (htape : g.tape = d.tape) : d.Gathers r := by
  cases hg with
  | settled hreads ht hsettled =>
    exact Gathers.settled ⟨hreads.lossy.trans hlossy, hreads.offset.trans hoffset, hreads.flows⟩
      (ht.trans htape) hsettled
  | failed t hreads hkept hbefore hafter =>
    exact Gathers.failed t ⟨hreads.lossy.trans hlossy, hreads.offset.trans hoffset, hreads.flows⟩
      hkept (htape.symm.trans hbefore) hafter

theorem gathers_gather (hf : d.input.Flows) : d.Gathers d.gather := by
  fun_induction gather d with
  | case1 d hs => exact Gathers.settled ⟨rfl, rfl, hf⟩ rfl hs
  | case2 d hs input hr =>
    refine Gathers.settled ⟨rfl, rfl, hf.read hr⟩ ?_ (settled_of_ended rfl)
    rw [tape_of_not_ended (ended_of_not_settled hs),
      ByteStream.tape_of_read_nil hf (room_pos hs) hr]
    exact congrArg (Tape.mk · []) (List.append_nil _).symm
  | case3 d hs b more input hr ih =>
    have he := ended_of_not_settled hs
    refine (ih (hf.read hr)).of_same rfl rfl ?_
    rw [tape_of_not_ended he, ByteStream.tape_of_read_ok hr (List.cons_ne_nil b more)]
    refine (tape_of_not_ended ?_).trans ?_
    · exact he
    · exact congrArg (Tape.mk · _) (List.append_assoc _ _ _)
  | case4 d hs input hr ih =>
    refine (ih (hf.read hr)).of_same rfl rfl ?_
    rw [tape, tape, ByteStream.tape_of_read_error hr, if_pos rfl]
  | case5 d hs cause input hne hr =>
    have he := ended_of_not_settled hs
    refine Gathers.failed input.tape ⟨rfl, rfl, hf.read hr⟩ (not_settles_of_not_settled hs) ?_ ?_
    · rw [tape_of_not_ended he, ByteStream.tape_of_read_error hr, if_neg hne]
    · exact tape_of_not_ended he

/-! ### Answers -/

/-- The first piece of a tape, seen from kept bytes that settle it or are all there is. -/
theorem next?_of_settled (hs : d.settled = true) (hne : d.pending ≠ []) :
    d.tape.next? = some (.segment (Utf8.leading d.pending),
      (d.consume (Utf8.leading d.pending).size).tape) := by
  cases he : d.ended with
  | true =>
    have htape : d.tape = ⟨d.pending, []⟩ := if_pos he
    rw [htape, Tape.next?_of_ne_nil hne (Or.inr rfl)]
    refine congrArg some (congrArg _ ?_)
    exact (if_pos he).symm
  | false =>
    have hset : Utf8.Settles d.pending :=
      (settled_iff.mp hs).resolve_left (by rw [he]; exact Bool.false_ne_true)
    have htape := tape_of_not_ended he
    have hbytes : d.tape.bytes = d.pending ++ d.input.tape.bytes := congrArg Tape.bytes htape
    have hnext : d.tape.next? = some (.segment (Utf8.leading d.tape.bytes), d.tape.past) := by
      refine Tape.next?_of_ne_nil ?_ (Or.inl ?_)
      · rw [hbytes]
        exact List.append_ne_nil_of_left_ne_nil hne _
      · rw [hbytes]
        exact hset.append _
    rw [hnext, hbytes, Utf8.leading_append _ hset]
    refine congrArg some (congrArg _ ?_)
    refine Eq.trans ?_ (tape_of_not_ended ?_).symm
    · rw [Tape.past, hbytes, Utf8.drop_leading_append hset, htape]
      rfl
    · exact he

/-- A decoder that answers from what it keeps takes the first piece off its tape. -/
theorem emit_of_ne_nil (hne : d.pending ≠ []) :
    d.emit = ((Piece.segment (Utf8.leading d.pending)).delivery d.lossy d.offset,
      d.consume (Utf8.leading d.pending).size) := by
  obtain ⟨b, rest, hp⟩ := List.exists_cons_of_ne_nil hne
  unfold emit
  rw [hp]
  dsimp only
  cases Utf8.leading (b :: rest) <;> rfl

/-- Where a decoder stands: what it still has to go through, and that it can go on reading. -/
structure At (lossy : Bool) (offset : Nat) (t : Tape) (d : Decoder) : Prop where
  lossy : d.lossy = lossy
  offset : d.offset = offset
  tape : d.tape = t
  flows : d.input.Flows

variable {lossy : Bool} {offset : Nat} {t : Tape}

/-- At the end of its tape a decoder stays there. -/
theorem At.next_of_none (h : d.At lossy offset t) (hn : t.next? = none) :
    d.next.1 = .finished ∧ d.next.2.At lossy offset t := by
  have hg := gathers_gather h.flows
  unfold next
  generalize d.gather = r at hg
  cases hg with
  | @settled g hreads htape hsettled =>
    have hgt := htape.trans h.tape
    have hnil : g.pending = [] := by
      by_contra hne
      rw [← hgt, next?_of_settled hsettled hne] at hn
      cases hn
    have hemit : g.emit = (.finished, g) := by
      unfold emit
      rw [hnil]
    dsimp only
    rw [hemit]
    exact ⟨rfl, hreads.lossy.trans h.lossy, hreads.offset.trans h.offset, hgt, hreads.flows⟩
  | failed t' hreads hkept hbefore hafter =>
    rw [← h.tape, hbefore, Tape.next?_of_failing hkept] at hn
    cases hn

/-- A decoder answers with the first piece of its tape, and goes on with what that leaves. -/
theorem At.next_of_some (h : d.At lossy offset t) (hn : t.next? = some (p, later)) :
    d.next.1 = p.delivery lossy offset ∧ d.next.2.At lossy (offset + p.size) later := by
  have hg := gathers_gather h.flows
  unfold next
  generalize d.gather = r at hg
  cases hg with
  | @settled g hreads htape hsettled =>
    have hgt := htape.trans h.tape
    have hne : g.pending ≠ [] := by
      intro hnil
      have hend : g.ended = true :=
        (settled_iff.mp hsettled).resolve_right (hnil ▸ Utf8.not_settles_nil)
      have hblank : t = ⟨[], []⟩ := by rw [← hgt, Decoder.tape, if_pos hend, hnil]
      rw [hblank] at hn
      cases hn
    rw [← hgt, next?_of_settled hsettled hne] at hn
    cases hn
    dsimp only
    rw [emit_of_ne_nil hne, hreads.lossy, hreads.offset, h.lossy, h.offset]
    exact ⟨rfl, hreads.lossy.trans h.lossy,
      congrArg (· + _) (hreads.offset.trans h.offset), rfl, hreads.flows⟩
  | failed t' hreads hkept hbefore hafter =>
    rw [← h.tape, hbefore, Tape.next?_of_failing hkept] at hn
    cases hn
    exact ⟨rfl, hreads.lossy.trans h.lossy, hreads.offset.trans h.offset, hafter, hreads.flows⟩

theorem next?_all_length (hn : t.next? = some (p, later)) :
    p.size + later.all.length = t.all.length := by
  rw [← t.sum_size_pieces, ← later.sum_size_pieces, Tape.pieces_of_some hn]
  rfl

/-- Call by call the answers are those with the pieces of the tape, and then the end. -/
theorem At.toList_calls (h : d.At lossy offset t) (n : Nat) (made : Array (Delivery × Nat)) :
    (d.callsWhile (fun _ => true) n made).1.toList = made.toList ++ (List.range n).map fun k =>
      (Piece.told lossy offset t.pieces)[k]?.getD (.finished, offset + t.all.length) := by
  induction n generalizing d offset t made with
  | zero => simp [callsWhile]
  | succ n ih =>
    rw [callsWhile, if_pos rfl, List.range_succ_eq_map, List.map_cons, List.map_map]
    cases hn : t.next? with
    | none =>
      obtain ⟨hanswer, hat⟩ := h.next_of_none hn
      rw [ih hat, Tape.pieces_of_none hn, Tape.next?_eq_none_iff.mp hn, hanswer, hat.offset]
      simp [Piece.told, Tape.all, Function.comp_def]
    | some first =>
      obtain ⟨p, later⟩ := first
      obtain ⟨hanswer, hat⟩ := h.next_of_some hn
      rw [ih hat, Tape.pieces_of_some hn, hanswer, hat.offset, ← next?_all_length hn]
      simp [Piece.told, Nat.add_assoc]

/-- A decoder has no more pieces to go through than its bound allows. -/
theorem At.length_pieces_le (h : d.At lossy offset t) : t.pieces.length ≤ d.bound := by
  have hinput := d.input.weight_tape_le
  rw [← h.tape]
  refine Nat.le_trans d.tape.length_pieces_le ?_
  unfold Decoder.tape bound
  split
  · simp [Tape.weight, Tape.all]
  · simp only [Tape.weight, Tape.prepend, Tape.all, List.length_append] at hinput ⊢
    omega

/-- A new decoder stands at the beginning of the tape of its input. -/
theorem exists_make {input : ByteStream} {capacity : Nat} (hc : 4 ≤ capacity)
    (hf : input.Flows) (lossy : Bool) :
    ∃ d, make input capacity lossy = .ok d ∧ d.At lossy 0 input.tape :=
  ⟨_, dif_pos hc, rfl, rfl, rfl, hf⟩

/-- The answers up to the first that does not go `on`, that one included. -/
def upTo (on : Delivery → Bool) : List (Delivery × Nat) → List (Delivery × Nat)
  | [] => []
  | a :: later => if on a.1 then a :: upTo on later else [a]

/-- Calls as long as answers go `on` stop at the first that does not, at the latest at the end. -/
theorem At.toList_callsWhile {on : Delivery → Bool} (h : d.At lossy offset t)
    (hon : on .finished = false) {n : Nat} (hn : t.pieces.length < n)
    (made : Array (Delivery × Nat)) :
    (d.callsWhile on n made).1.toList = made.toList ++
      upTo on (Piece.told lossy offset t.pieces ++ [(.finished, offset + t.all.length)]) := by
  induction n generalizing d offset t made with
  | zero => exact absurd hn (Nat.not_lt_zero _)
  | succ n ih =>
    rw [callsWhile]
    cases hnext : t.next? with
    | none =>
      obtain ⟨hanswer, hat⟩ := h.next_of_none hnext
      rw [Tape.pieces_of_none hnext, Tape.next?_eq_none_iff.mp hnext, hanswer, hat.offset, hon]
      simp [Piece.told, Tape.all, upTo]
    | some first =>
      obtain ⟨p, later⟩ := first
      obtain ⟨hanswer, hat⟩ := h.next_of_some hnext
      rw [Tape.pieces_of_some hnext] at hn ⊢
      rw [hanswer, hat.offset, ← next?_all_length hnext]
      simp only [Piece.told, List.cons_append, upTo]
      split
      · rw [ih hat (Nat.lt_of_succ_lt_succ hn)]
        simp [Nat.add_assoc]
      · simp

end Decoder

end BranchCursor
