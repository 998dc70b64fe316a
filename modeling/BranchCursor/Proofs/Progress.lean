import BranchCursor.Proofs.Readings

/-! How soon a decoder answers. Every read but an interrupted one ends the call or adds a byte to
those kept, of which four settle any answer; and every answer but the end takes up a byte or a
failure, so that there are no more answers than there are of these. -/
namespace BranchCursor

namespace Tape

@[simp] theorem weight_prepend (front : List UInt8) (t : Tape) :
    (t.prepend front).weight = front.length + t.weight := by
  simp [weight, all, prepend, Nat.add_assoc]

@[simp] theorem weight_failing (cause : ReadFailure) (t : Tape) :
    (t.failing cause).weight = t.weight + 1 := by
  simp [weight, all, failing, Nat.add_assoc]

end Tape

/-- Whether a read was interrupted. -/
def ByteStream.isInterrupted : Except ReadFailure (List UInt8) → Bool
  | .error .interrupted => true
  | .ok _ | .error _ => false

/-- Every interrupted read uses up an interruption of the stream, and no other read does. -/
theorem ByteStream.count_read (room : Nat) (s : ByteStream) :
    s.events.count (.failure .interrupted) =
      (s.read room).2.events.count (.failure .interrupted) +
        if isInterrupted (s.read room).1 then 1 else 0 := by
  unfold read
  split
  · rename_i he
    simp [he, isInterrupted]
  · rename_i he
    simp [he, isInterrupted]
  · rename_i cause later he
    cases cause <;> simp [he, isInterrupted]
  · rename_i he
    split <;> simp [he, isInterrupted]

theorem ByteStream.countP_readAll_le (rooms : List Nat) (s : ByteStream) :
    (s.readAll rooms).1.countP isInterrupted ≤ s.events.count (.failure .interrupted) := by
  induction rooms generalizing s with
  | nil => exact Nat.zero_le _
  | cons room rooms ih =>
    have hlater := ih (s.read room).2
    rw [s.count_read room, readAll, List.countP_cons]
    omega

namespace Decoder

variable {d : Decoder}

/-! ### The reads of one call -/

/-- Whether another read may follow a read in the same call. -/
def goesOn (d : Decoder) : Bool :=
  match d.reading with
  | .ok (_ :: _) | .error .interrupted => true
  | .ok [] | .error _ => false

/-- The failure that a read hands over. -/
def failure? (d : Decoder) : Option ReadFailure :=
  match d.reading with
  | .ok _ => none
  | .error cause => some cause

/-- What is not settled takes a read, and then it is as if the call began there, or ended. -/
theorem gather_of_not_settled (hs : ¬d.settled = true) :
    d.gather = if d.goesOn then d.fill.gather else (d.failure?, d.fill) := by
  rw [gather, if_neg hs]
  split <;> simp_all [fill, received, reading, goesOn, failure?]

theorem readsAt_of_settled (hs : d.settled = true) : d.readsAt = [] := by
  rw [readsAt, if_pos hs]

theorem readsAt_eq_cons (hs : ¬d.settled = true) :
    d.readsAt = d :: if d.goesOn then d.fill.readsAt else [] := by
  rw [readsAt_of_not_settled hs, goesOn]
  split <;> simp_all

theorem read_eq (d : Decoder) : d.input.read d.room = (d.reading, d.fill.input) := rfl

theorem goesOn_cases (h : d.goesOn = true) :
    (∃ b more, d.reading = .ok (b :: more)) ∨ d.reading = .error .interrupted := by
  unfold goesOn at h
  split at h
  · exact Or.inl ⟨_, _, ‹_›⟩
  · exact Or.inr ‹_›
  · cases h
  · cases h

theorem weight_fill_lt (h : d.goesOn = true) : d.fill.input.weight < d.input.weight := by
  rcases goesOn_cases h with ⟨b, more, hr⟩ | hr
  · exact ByteStream.weight_lt_of_read_cons (hr ▸ d.read_eq)
  · exact ByteStream.weight_lt_of_read_error (hr ▸ d.read_eq)

/-- A call is gone through read by read. -/
@[elab_as_elim]
theorem induction_on_reads {motive : Decoder → Prop} (d : Decoder)
    (settled : ∀ d : Decoder, d.settled = true → motive d)
    (last : ∀ d : Decoder, ¬d.settled = true → d.goesOn = false → motive d)
    (more : ∀ d : Decoder, ¬d.settled = true → d.goesOn = true → motive d.fill → motive d) :
    motive d := by
  induction hn : d.input.weight using Nat.strongRecOn generalizing d with
  | ind n ih =>
    by_cases hs : d.settled = true
    · exact settled d hs
    · cases hg : d.goesOn with
      | false => exact last d hs hg
      | true => exact more d hs hg (ih _ (hn ▸ weight_fill_lt hg) _ rfl)

/-- The reads of a call are made one after the other. -/
theorem readAll_readsAt (d : Decoder) :
    d.input.readAll (d.readsAt.map room) = (d.readsAt.map reading, d.next.2.input) := by
  have hgather : d.input.readAll (d.readsAt.map room) =
      (d.readsAt.map reading, d.gather.2.input) := by
    induction d using induction_on_reads with
    | settled d hs =>
      rw [readsAt_of_settled hs, gather_of_settled hs]
      rfl
    | last d hs hg =>
      rw [readsAt_eq_cons hs, gather_of_not_settled hs, hg]
      rfl
    | more d hs hg ih =>
      rw [readsAt_eq_cons hs, gather_of_not_settled hs, hg, if_pos rfl, if_pos rfl, List.map_cons,
        ByteStream.readAll, read_eq, ih]
      rfl
  rw [hgather, next]
  split <;> simp_all [emit_spec]

/-- Four bytes settle any answer, and every read that goes on without an interruption adds one. -/
theorem countP_readsAt_le (d : Decoder) :
    (d.readsAt.map reading).countP (!ByteStream.isInterrupted ·) ≤ 4 - d.pending.length := by
  induction d using induction_on_reads with
  | settled d hs =>
    rw [readsAt_of_settled hs]
    exact Nat.zero_le _
  | last d hs hg =>
    have hshort := Utf8.broken_le_three
      (Utf8.leading_of_not_settles (not_settles_of_not_settled hs))
    rw [readsAt_eq_cons hs, hg, if_neg Bool.false_ne_true]
    refine Nat.le_trans List.countP_le_length ?_
    simp only [List.map_cons, List.map_nil, List.length_singleton]
    omega
  | more d hs hg ih =>
    have hshort := Utf8.broken_le_three
      (Utf8.leading_of_not_settles (not_settles_of_not_settled hs))
    have hkept : d.fill.pending = d.pending ++ d.received := rfl
    rw [readsAt_eq_cons hs, hg, if_pos rfl, List.map_cons, List.countP_cons]
    rcases goesOn_cases hg with ⟨b, more, hr⟩ | hr
    · rw [hkept, received, hr, List.length_append, List.length_cons] at ih
      have hbytes : ByteStream.isInterrupted (.ok (b :: more)) = false := rfl
      rw [hr, hbytes, Bool.not_false, if_pos rfl]
      omega
    · rw [hkept, received, hr, List.append_nil] at ih
      rw [hr]
      exact ih

/-! ### What is left to answer -/

/-- The bytes and the failures that are left. -/
def outstanding (d : Decoder) : Nat := d.tape.weight

theorem outstanding_eq (d : Decoder) :
    d.outstanding = d.pending.length + if d.ended then 0 else d.input.tape.weight := by
  unfold outstanding Decoder.tape
  split
  · simp [Tape.weight, Tape.all]
  · exact Tape.weight_prepend _ _

/-- A read of some bytes, or of none, makes nothing more. -/
theorem outstanding_fill_le (hs : ¬d.settled = true) {bytes : List UInt8}
    (hr : d.reading = .ok bytes) : d.fill.outstanding ≤ d.outstanding := by
  have he := ended_of_not_settled hs
  have hkept : d.fill.pending = d.pending ++ bytes := by simp [fill, received, hr]
  rw [outstanding_eq, outstanding_eq, hkept, he, List.length_append]
  cases bytes with
  | nil =>
    have hended : d.fill.ended = true := d.ended_fill.mpr (Or.inr hr)
    rw [hended]
    exact Nat.le_add_right _ _
  | cons b more =>
    have hended : d.fill.ended = false := by simp [fill, hr, he]
    have htape := ByteStream.tape_of_read_ok (hr ▸ d.read_eq) (List.cons_ne_nil b more)
    rw [hended, htape, Tape.weight_prepend]
    exact Nat.le_of_eq (Nat.add_assoc _ _ _)

/-- A failed read takes its failure away, unless it was an interruption. -/
theorem outstanding_fill_of_error (hs : ¬d.settled = true) {cause : ReadFailure}
    (hr : d.reading = .error cause) :
    d.outstanding = d.fill.outstanding + if cause = .interrupted then 0 else 1 := by
  have he := ended_of_not_settled hs
  have hkept : d.fill.pending = d.pending := by simp [fill, received, hr]
  have hended : d.fill.ended = false := by simp [fill, hr, he]
  have htape := ByteStream.tape_of_read_error (hr ▸ d.read_eq)
  rw [outstanding_eq, outstanding_eq, hkept, hended, he, htape]
  by_cases hcause : cause = .interrupted
  · simp only [if_pos hcause, Nat.add_zero]
  · simp only [Bool.false_eq_true, if_false, if_neg hcause, Tape.weight_failing, Nat.add_assoc]

theorem outstanding_gather (d : Decoder) :
    d.gather.2.outstanding + d.gather.1.toList.length ≤ d.outstanding := by
  induction d using induction_on_reads with
  | settled d hs =>
    rw [gather_of_settled hs]
    exact Nat.le_refl _
  | last d hs hg =>
    rw [gather_of_not_settled hs, hg, if_neg Bool.false_ne_true, failure?]
    split
    · rename_i hr
      exact outstanding_fill_le hs hr
    · rename_i cause hr
      have hcause : cause ≠ .interrupted := by
        rintro rfl
        simp [goesOn, hr] at hg
      have hfill := outstanding_fill_of_error hs hr
      rw [if_neg hcause] at hfill
      exact Nat.le_of_eq hfill.symm
  | more d hs hg ih =>
    rw [gather_of_not_settled hs, hg, if_pos rfl]
    refine Nat.le_trans ih ?_
    rcases goesOn_cases hg with ⟨b, more, hr⟩ | hr
    · exact outstanding_fill_le hs hr
    · exact Nat.le_of_eq (outstanding_fill_of_error hs hr).symm

/-- The answer with a segment takes up its bytes. -/
theorem outstanding_emit (hne : d.pending ≠ []) :
    d.emit.2.outstanding + (Utf8.leading d.pending).size = d.outstanding := by
  have hle := Utf8.size_leading_le d.pending
  rw [emit_of_ne_nil hne, outstanding_eq, outstanding_eq, consume, List.length_drop]
  dsimp only
  omega

/-! ### Calls -/

/-- All that a call can do: it goes past a segment of one to four bytes, it hands over a failure,
or it finds the end. -/
inductive Spends (d : Decoder) : Prop where
  | segment (s : Segment) (answer : d.next.1 = (Piece.segment s).delivery d.lossy d.offset)
    (past : d.next.2.offset = d.offset + s.size) (pos : 0 < s.size) (short : s.size ≤ 4)
    (left : d.next.2.outstanding < d.outstanding)
  | failure (cause : ReadFailure) (answer : d.next.1 = .fault (.source cause))
    (stays : d.next.2.offset = d.offset) (left : d.next.2.outstanding < d.outstanding)
  | finished (answer : d.next.1 = .finished) (stays : d.next.2.offset = d.offset)
    (ended : d.next.2.ended = true) (nothing : d.next.2.pending = [])

theorem settled_gather (h : d.gather.1 = none) : d.gather.2.settled = true := by
  induction d using induction_on_reads with
  | settled d hs =>
    rw [gather_of_settled hs]
    exact hs
  | last d hs hg =>
    rw [gather_of_not_settled hs, hg, if_neg Bool.false_ne_true, failure?] at h ⊢
    cases hr : d.reading with
    | ok bytes =>
      have hnil : bytes = [] := by
        cases bytes with
        | nil => rfl
        | cons b more => simp [goesOn, hr] at hg
      exact settled_of_ended (d.ended_fill.mpr (Or.inr (hnil ▸ hr)))
    | error cause =>
      rw [hr] at h
      cases h
  | more d hs hg ih =>
    rw [gather_of_not_settled hs, hg, if_pos rfl] at h ⊢
    exact ih h

theorem lossy_gather (d : Decoder) : d.gather.2.lossy = d.lossy := by
  induction d using induction_on_reads with
  | settled d hs => rw [gather_of_settled hs]
  | last d hs hg => rw [gather_of_not_settled hs, hg, if_neg Bool.false_ne_true, fill]
  | more d hs hg ih =>
    rw [gather_of_not_settled hs, hg, if_pos rfl, ih, fill]

theorem spends (d : Decoder) : d.Spends := by
  have hsettled := d.settled_gather
  have hleft := d.outstanding_gather
  have hoffset := d.offset_gather
  have hlossy := d.lossy_gather
  cases hg : d.gather with
  | mk stopped g =>
    rw [hg] at hsettled hleft hoffset hlossy
    cases stopped with
    | some cause =>
      have hnext : d.next = (.fault (.source cause), g) := by rw [next, hg]
      refine Spends.failure cause (congrArg Prod.fst hnext) ?_ ?_
      · rw [hnext]
        exact hoffset
      · rw [hnext]
        exact hleft
    | none =>
      have hnext : d.next = g.emit := by rw [next, hg]
      by_cases hne : g.pending = []
      · have he := (settled_iff.mp (hsettled rfl)).resolve_right (hne ▸ Utf8.not_settles_nil)
        have hemit : d.next = (.finished, g) := by
          rw [hnext, ← next_of_ended he hne, next, gather_of_settled (hsettled rfl)]
        refine Spends.finished (congrArg Prod.fst hemit) ?_ ?_ ?_
        · rw [hemit]
          exact hoffset
        · rw [hemit]
          exact he
        · rw [hemit]
          exact hne
      · have hpos := Utf8.size_leading_pos_of_ne_nil hne
        have hemit := outstanding_emit hne
        refine Spends.segment (Utf8.leading g.pending) ?_ ?_ hpos (Utf8.size_leading_le_four _) ?_
        · rw [hnext, emit_of_ne_nil hne, hlossy, hoffset]
        · rw [hnext, emit_of_ne_nil hne]
          exact congrArg (· + _) hoffset
        · have hless : g.emit.2.outstanding < g.outstanding := by omega
          rw [hnext]
          exact Nat.lt_of_lt_of_le hless hleft

/-- The end is found by the call after as many as there are bytes and failures left, and from the
first time on by every call. -/
theorem exists_finished (d : Decoder) :
    ∃ k ≤ d.outstanding, ∀ m, (d.calls m).2.next.1 = .finished ↔ k ≤ m := by
  induction hn : d.outstanding using Nat.strongRecOn generalizing d with
  | ind n ih =>
    have hlater : d.next.1 ≠ .finished → d.next.2.outstanding < d.outstanding →
        ∃ k ≤ n, ∀ m, (d.calls m).2.next.1 = .finished ↔ k ≤ m := by
      intro hanswer hleft
      obtain ⟨k, hk, hcalls⟩ := ih _ (hn ▸ hleft) d.next.2 rfl
      refine ⟨k + 1, by omega, fun m => ?_⟩
      cases m with
      | zero => exact iff_of_false hanswer (Nat.not_succ_le_zero k)
      | succ m => rw [calls_succ, hcalls, Nat.add_le_add_iff_right]
    cases d.spends with
    | segment s answer past pos short left =>
      exact hlater (answer ▸ Piece.delivery_ne_finished _ _ _) left
    | failure cause answer stays left => exact hlater (answer ▸ nofun) left
    | finished answer stays ended nothing =>
      refine ⟨0, Nat.zero_le n, fun m => iff_of_true ?_ (Nat.zero_le m)⟩
      cases m with
      | zero => exact answer
      | succ m => rw [calls_succ, calls_of_ended ended nothing, next_of_ended ended nothing]

/-! ### Main result -/

/-- Whatever state a decoder is in, one call makes at most four reads that are not interrupted,
and no more interrupted ones than the stream still has. An answer with a character, or with an
ill-formed run, goes past one to four bytes. So the end is answered at the latest by the call after
as many as there are bytes and failures before the first read of no bytes, and by every later one. -/
theorem answers_soon :
    (∀ d : Decoder, ∃ rooms outcomes,
      d.input.readAll rooms = (outcomes, d.next.2.input) ∧
      d.next.2.input.rooms = d.input.rooms ++ rooms ∧
      outcomes.countP (!ByteStream.isInterrupted ·) ≤ 4 ∧
      outcomes.countP ByteStream.isInterrupted ≤ d.input.events.count (.failure .interrupted) ∧
      ((∃ c, d.next.1 = .char c) ∨ (∃ start, d.next.1 = .fault (.illFormed start)) →
        d.offset + 1 ≤ d.next.2.offset ∧ d.next.2.offset ≤ d.offset + 4)) ∧
    ∀ (input : ByteStream) (capacity : Nat) (lossy : Bool), 4 ≤ capacity →
      ∃ d, make input capacity lossy = .ok d ∧
        ∃ k ≤ input.delivered.length + input.failures.length,
          ∀ m, (d.calls m).2.next.1 = .finished ↔ k ≤ m := by
  constructor
  · intro d
    have hreads := d.readAll_readsAt
    have hrooms := ByteStream.rooms_readAll (d.readsAt.map room) d.input
    have hsound := d.countP_readsAt_le
    have hinterrupted := ByteStream.countP_readAll_le (d.readsAt.map room) d.input
    rw [hreads] at hrooms hinterrupted
    refine ⟨_, _, hreads, hrooms, by omega, hinterrupted, ?_⟩
    intro hsegment
    cases d.spends with
    | segment s answer past pos short left => omega
    | failure cause answer stays left =>
      rw [answer] at hsegment
      rcases hsegment with ⟨c, h⟩ | ⟨start, h⟩ <;> cases h
    | finished answer stays ended nothing =>
      rw [answer] at hsegment
      rcases hsegment with ⟨c, h⟩ | ⟨start, h⟩ <;> cases h
  · intro input capacity lossy hc
    refine ⟨_, dif_pos hc, ?_⟩
    have hweight : input.tape.weight = input.delivered.length + input.failures.length := by
      rw [← input.all_tape, ← input.failures_tape, Tape.weight, Tape.failures, List.length_map]
    have hfinished := exists_finished ⟨input, capacity, hc, [], 0, false, lossy⟩
    rwa [outstanding_eq, if_neg Bool.false_ne_true, List.length_nil, Nat.zero_add,
      hweight] at hfinished

/-- A character takes four reads of one byte, beside two that are interrupted. Of three bytes, none
of which begins a character, and two failures, each takes a call, and the sixth call finds the
end. -/
theorem answers_soon_slowly :
    let slow : ByteStream :=
      { events := [.data [0xF0, 0x9F], .failure .interrupted, .failure .interrupted,
          .data [0x99, 0x82, 0x41]], step := some 1 }
    let broken : ByteStream :=
      { events := [.data [0xFF], .failure .timedOut, .data [0x80], .failure .brokenPipe,
          .data [0xC0], .stop, .data [0x41]] }
    (∃ d outcomes, make slow 4 true = .ok d ∧ d.next.1 = .char '🙂' ∧
      slow.readAll [4, 3, 2, 2, 2, 1] = (outcomes, d.next.2.input) ∧
      outcomes.countP (!ByteStream.isInterrupted ·) = 4 ∧
      outcomes.countP ByteStream.isInterrupted ≤ 2 ∧ d.next.2.offset ≤ 4) ∧
    4 ≤ 5 ∧ ∃ d, make broken 5 false = .ok d ∧
      (d.calls 4).2.next.1 = .fault (.illFormed 2) ∧
      ∀ m, 5 ≤ m → (d.calls m).2.next.1 = .finished := by
  intro slow broken
  have hwide : 4 ≤ 5 := by decide
  let d : Decoder := ⟨slow, 4, Nat.le_refl 4, [], 0, false, true⟩
  have hchar : d.next.1 = .char '🙂' := by decide +kernel
  have hmade : d.next.2.input.rooms = [4, 3, 2, 2, 2, 1] := by decide +kernel
  have hcount : (slow.readAll [4, 3, 2, 2, 2, 1]).1.countP (!ByteStream.isInterrupted ·) = 4 := by
    decide +kernel
  obtain ⟨rooms, outcomes, hreads, hrooms, -, hinterrupted, hpast⟩ := answers_soon.1 d
  obtain rfl : rooms = [4, 3, 2, 2, 2, 1] := (hrooms.symm.trans hmade)
  obtain ⟨e, he, k, hk, hfinished⟩ := answers_soon.2 broken 5 false hwide
  refine ⟨⟨d, outcomes, rfl, hchar, hreads, ?_, hinterrupted, (hpast (Or.inl ⟨_, hchar⟩)).2⟩,
    hwide, e, he, ?_, fun m hm => (hfinished m).mpr (Nat.le_trans hk hm)⟩
  · rw [show slow.readAll [4, 3, 2, 2, 2, 1] = (outcomes, d.next.2.input) from hreads] at hcount
    exact hcount
  · obtain rfl : (⟨broken, 5, Nat.le_succ 4, [], 0, false, false⟩ : Decoder) = e := Except.ok.inj he
    decide +kernel

end Decoder
end BranchCursor
