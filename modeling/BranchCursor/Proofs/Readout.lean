import BranchCursor.Proofs.Transcripts

/-! What comes out of a byte stream when it is read until its first failure or its end: the
characters of its segments, up to the first ill-formed one if that is not replaced, and what ended
them. A run at the end that a failed read leaves unsettled is not among the segments. -/
namespace BranchCursor

/-! ### The part of a stream that is read -/

namespace ByteStream

variable (s : ByteStream)

/-- The bytes before the first failure or read of no bytes. -/
def front : List UInt8 :=
  (s.events.takeWhile fun e => !e.isEnd && e.failure?.isNone).flatMap ByteEvent.bytes

/-- The failure that comes before any read of no bytes. -/
def barrier? : Option ReadFailure :=
  (s.events.find? fun e => e.isEnd || e.failure?.isSome).bind ByteEvent.failure?

theorem bytes_tape : s.tape.bytes = s.front := by
  unfold tape front
  fun_induction tapeOf s.events with
  | case1 => rfl
  | case2 later => rfl
  | case3 later => rfl
  | case4 later ih => exact ih
  | case5 cause later hc ih =>
    have hfailure := ByteEvent.failure?_failure hc
    rw [List.takeWhile_cons_of_neg (by rw [hfailure]; exact Bool.false_ne_true)]
    rfl
  | case6 b more later ih => exact congrArg (b :: more ++ ·) ih

theorem head?_breaks_tape : s.tape.breaks.head?.map (·.1) = s.barrier? := by
  unfold tape barrier?
  fun_induction tapeOf s.events with
  | case1 => rfl
  | case2 later => rfl
  | case3 later => rfl
  | case4 later ih => exact ih
  | case5 cause later hc ih =>
    have hfailure := ByteEvent.failure?_failure hc
    rw [List.find?_cons_of_pos (by rw [hfailure]; rfl), Option.bind_some, hfailure]
    rfl
  | case6 b more later ih => exact ih

end ByteStream

namespace Segment

/-- The segments of bytes that reading stops after. An ill-formed run at the end could still go on
if a failure stopped it. -/
def settled (barrier : Option ReadFailure) (cut : List Segment) : List Segment :=
  if barrier.isSome && cut.getLast?.any (!·.isLetter) then cut.dropLast else cut

/-- Whether decoding goes on after a segment. -/
def passes (lossy : Bool) (s : Segment) : Bool := lossy || s.isLetter

/-- The characters of segments that are decoded one after the other from `offset` on, and the
failure that ends them: the first ill-formed run that is not replaced, or else that of the stream. -/
def readout (lossy : Bool) (offset : Nat) (barrier : Option ReadFailure) (cut : List Segment) :
    List Char × Option CursorError :=
  let through := cut.takeWhile (passes lossy)
  (through.map shown,
    if cut.all (passes lossy) then barrier.map .source
    else some (.illFormed (offset + (through.map size).sum)))

variable {s : Segment} {cut : List Segment} {barrier : Option ReadFailure}

theorem settled_cons (h : s.isLetter = true ∨ cut ≠ []) :
    settled barrier (s :: cut) = s :: settled barrier cut := by
  cases cut with
  | nil =>
    have hs := h.resolve_right (fun hne => hne rfl)
    simp [settled, hs]
  | cons t cut =>
    unfold settled
    rw [List.getLast?_cons_cons, List.dropLast_cons_cons]
    split <;> rfl

theorem readout_of_passes {lossy : Bool} (h : s.passes lossy = true) (offset : Nat)
    (barrier : Option ReadFailure) (cut : List Segment) :
    readout lossy offset barrier (s :: cut) =
      (s.shown :: (readout lossy (offset + s.size) barrier cut).1,
        (readout lossy (offset + s.size) barrier cut).2) := by
  simp [readout, h, Nat.add_assoc]

theorem readout_of_not_passes {lossy : Bool} (h : s.passes lossy = false) (offset : Nat)
    (barrier : Option ReadFailure) (cut : List Segment) :
    readout lossy offset barrier (s :: cut) = ([], some (.illFormed offset)) := by
  simp [readout, h]

end Segment

namespace Tape

variable {t : Tape} {p : Piece} {rest : List Piece}

theorem next?_of_pieces_eq_cons (h : t.pieces = p :: rest) :
    ∃ later, t.next? = some (p, later) ∧ later.pieces = rest := by
  cases hn : t.next? with
  | none =>
    rw [pieces_of_none hn] at h
    cases h
  | some first =>
    rw [pieces_of_some hn] at h
    cases h
    exact ⟨_, rfl, rfl⟩

theorem next?_of_pieces_eq_nil (h : t.pieces = []) : t.next? = none := by
  cases hn : t.next? with
  | none => rfl
  | some first =>
    rw [pieces_of_some hn] at h
    cases h

/-- The pieces before the first failure are the settled segments of the bytes before it. -/
theorem exists_pieces_eq (bytes : List UInt8) (breaks : List (ReadFailure × List UInt8)) :
    ∃ rest, pieces ⟨bytes, breaks⟩ =
        (Segment.settled (breaks.head?.map (·.1)) (Utf8.segments bytes)).map .segment ++ rest ∧
      rest.head? = (breaks.head?.map (·.1)).map .failure := by
  cases breaks with
  | nil => exact ⟨[], by rw [pieces_of_bytes]; exact (List.append_nil _).symm, rfl⟩
  | cons first later =>
    obtain ⟨cause, more⟩ := first
    induction bytes using Utf8.induction_on_leading with
    | nil =>
      have hnext : next? ⟨[], (cause, more) :: later⟩ = some (.failure cause, ⟨more, later⟩) := rfl
      rw [Utf8.segments_nil, pieces_of_some hnext]
      exact ⟨_, rfl, rfl⟩
    | cut bytes hne ih =>
      rw [Utf8.segments_of_ne_nil hne]
      by_cases hs : Utf8.Settles bytes
      · obtain ⟨rest, hpieces, hhead⟩ := ih
        refine ⟨rest, ?_, hhead⟩
        -- a settled run is followed by another byte, so it is not the last segment
        have hlast : (Utf8.leading bytes).isLetter = true ∨
            Utf8.segments (bytes.drop (Utf8.leading bytes).size) ≠ [] := by
          refine hs.imp_right fun hlt => ?_
          have hdrop : bytes.drop (Utf8.leading bytes).size ≠ [] := by
            rw [← List.length_pos_iff, List.length_drop]
            omega
          rw [Utf8.segments_of_ne_nil hdrop]
          exact List.cons_ne_nil _ _
        rw [pieces_of_some (next?_of_ne_nil hne (Or.inl hs)), Segment.settled_cons hlast,
          List.map_cons, List.cons_append]
        exact congrArg _ hpieces
      · -- bytes that settle nothing are a single run, and the failure comes before it
        have hnext : next? ⟨bytes, (cause, more) :: later⟩ =
            some (.failure cause, ⟨bytes ++ more, later⟩) := if_neg hs
        rw [pieces_of_some hnext, Utf8.leading_of_not_settles hs, Segment.size, List.drop_length,
          Utf8.segments_nil]
        exact ⟨_, rfl, rfl⟩

end Tape

/-! ### The content of a decoder -/

namespace Piece

theorem delivery_of_passes {s : Segment} {lossy : Bool} (h : s.passes lossy = true)
    (offset : Nat) : (segment s).delivery lossy offset = .char s.shown := by
  cases s with
  | letter c n => rfl
  | broken n =>
    cases lossy with
    | true => rfl
    | false => cases h

theorem delivery_of_not_passes {s : Segment} {lossy : Bool} (h : s.passes lossy = false)
    (offset : Nat) : (segment s).delivery lossy offset = .fault (.illFormed offset) := by
  cases lossy with
  | true => cases h
  | false =>
    cases s with
    | letter c n => cases h
    | broken n => rfl

end Piece

namespace Decoder

variable {d : Decoder} {lossy : Bool} {offset : Nat} {t : Tape} {barrier : Option ReadFailure}

/-- Polled until it stops, a decoder gives what is read out of the segments of its tape. -/
theorem At.yield_eq {cut : List Segment} {rest : List Piece} (h : d.At lossy offset t)
    (hpieces : t.pieces = cut.map .segment ++ rest) (hrest : rest.head? = barrier.map .failure) :
    (Supply.decoded d).yield = Segment.readout lossy offset barrier cut := by
  induction cut generalizing d offset t with
  | nil =>
    cases barrier with
    | none =>
      obtain rfl := List.head?_eq_none_iff.mp hrest
      obtain ⟨hanswer, -⟩ := h.next_of_none (Tape.next?_of_pieces_eq_nil hpieces)
      exact Supply.yield_of_char?_eq_none (s := .decoded d) hanswer rfl
    | some cause =>
      obtain ⟨more, rfl⟩ := List.head?_eq_some_iff.mp hrest
      obtain ⟨later, hnext, -⟩ := Tape.next?_of_pieces_eq_cons hpieces
      obtain ⟨hanswer, -⟩ := h.next_of_some hnext
      exact Supply.yield_of_char?_eq_none (s := .decoded d) hanswer rfl
  | cons s cut ih =>
    obtain ⟨later, hnext, hlater⟩ := Tape.next?_of_pieces_eq_cons hpieces
    obtain ⟨hanswer, hat⟩ := h.next_of_some hnext
    cases hpass : s.passes lossy with
    | true =>
      rw [Piece.delivery_of_passes hpass] at hanswer
      rw [Segment.readout_of_passes hpass, Supply.yield_of_char (s := .decoded d) hanswer]
      exact congrArg (fun r => (s.shown :: r.1, r.2)) (ih hat hlater)
    | false =>
      rw [Piece.delivery_of_not_passes hpass] at hanswer
      rw [Segment.readout_of_not_passes hpass]
      exact Supply.yield_of_char?_eq_none (s := .decoded d) hanswer rfl

/-- What comes out of a new decoder. -/
theorem yield_make {input : ByteStream} {capacity : Nat} (hc : 4 ≤ capacity)
    (hf : input.Flows) (lossy : Bool) :
    ∃ d, make input capacity lossy = .ok d ∧ (Supply.decoded d).yield =
      Segment.readout lossy 0 input.barrier?
        (Segment.settled input.barrier? (Utf8.segments input.front)) := by
  obtain ⟨d, hd, hat⟩ := exists_make hc hf lossy
  obtain ⟨rest, hpieces, hrest⟩ := Tape.exists_pieces_eq input.tape.bytes input.tape.breaks
  rw [input.head?_breaks_tape] at hpieces hrest
  rw [← input.bytes_tape]
  exact ⟨d, hd, hat.yield_eq hpieces hrest⟩

/-! ### Other capacities -/

/-- What is found by reads that never give a byte: the first failure that is no interruption, if
only interruptions come before it. -/
def stuck : List ByteEvent → Option ReadFailure
  | .failure .interrupted :: later => stuck later
  | .failure cause :: _ => some cause
  | .data _ :: _ | .stop :: _ | [] => none

theorem stuck_of_failure {cause : ReadFailure} (h : cause ≠ .interrupted)
    (later : List ByteEvent) : stuck (.failure cause :: later) = some cause := by
  cases cause with
  | interrupted => exact absurd rfl h
  | _ => rfl

/-- A read that may give no byte fails, or looks like the end. -/
theorem read_of_step_zero {input later : ByteStream} {room : Nat}
    {r : Except ReadFailure (List UInt8)} (hstep : input.step = some 0)
    (h : input.read room = (r, later)) :
    (r = .ok [] ∧ stuck input.events = none) ∨
    ∃ cause, r = .error cause ∧ input.events = .failure cause :: later.events := by
  unfold ByteStream.read at h
  split at h
  · rename_i hevents
    obtain ⟨rfl, rfl⟩ := Prod.mk.inj h
    exact Or.inl ⟨rfl, by rw [hevents]; rfl⟩
  · rename_i hevents
    obtain ⟨rfl, rfl⟩ := Prod.mk.inj h
    exact Or.inl ⟨rfl, by rw [hevents]; rfl⟩
  · rename_i cause events hevents
    obtain ⟨rfl, rfl⟩ := Prod.mk.inj h
    exact Or.inr ⟨cause, rfl, hevents⟩
  · rename_i bytes events hevents
    have hlimit : input.limit room = 0 := by simp [ByteStream.limit, hstep]
    rw [hlimit] at h
    split at h
    · rename_i hnil
      obtain ⟨rfl, rfl⟩ := Prod.mk.inj h
      exact Or.inl ⟨congrArg _ hnil, by rw [hevents]; rfl⟩
    · obtain ⟨rfl, rfl⟩ := Prod.mk.inj h
      exact Or.inl ⟨rfl, by rw [hevents]; rfl⟩

theorem gather_of_step_zero {d : Decoder} (hstep : d.input.step = some 0) (hp : d.pending = [])
    (hended : d.ended = false) :
    d.gather.1 = stuck d.input.events ∧ d.gather.2.pending = [] := by
  fun_induction gather d with
  | case1 d hsettled => simp [settled, hended, hp, Utf8.leading] at hsettled
  | case2 d _ input hr =>
    rcases read_of_step_zero hstep hr with ⟨-, hstuck⟩ | ⟨cause, hcause, -⟩
    · exact ⟨hstuck.symm, hp⟩
    · cases hcause
  | case3 d _ b more input hr ih =>
    rcases read_of_step_zero hstep hr with ⟨hnil, -⟩ | ⟨cause, hcause, -⟩
    · cases hnil
    · cases hcause
  | case4 d _ input hr ih =>
    rcases read_of_step_zero hstep hr with ⟨hnil, -⟩ | ⟨cause, hcause, hevents⟩
    · cases hnil
    · cases hcause
      have hread := congrArg (fun r => r.2.step) hr
      rw [ByteStream.step_read] at hread
      rw [hevents]
      exact ih (hread.symm.trans hstep) hp hended
  | case5 d _ cause input hne hr =>
    rcases read_of_step_zero hstep hr with ⟨hnil, -⟩ | ⟨cause', hcause, hevents⟩
    · cases hnil
    · cases hcause
      rw [hevents, stuck_of_failure (by simpa using hne)]
      exact ⟨rfl, hp⟩

/-- Then nothing comes out but that failure. -/
theorem yield_of_step_zero {d : Decoder} (hstep : d.input.step = some 0) (hp : d.pending = [])
    (hended : d.ended = false) :
    (Supply.decoded d).yield = ([], (stuck d.input.events).map .source) := by
  obtain ⟨hgather, hpending⟩ := gather_of_step_zero hstep hp hended
  have hanswer : (Supply.decoded d).poll.1 =
      ((stuck d.input.events).map fun cause => .fault (.source cause)).getD .finished := by
    rw [Supply.poll, next]
    generalize d.gather = r at hgather hpending
    obtain ⟨failure, g⟩ := r
    obtain rfl := hgather
    replace hpending : g.pending = [] := hpending
    cases stuck d.input.events with
    | some cause => rfl
    | none => simp [emit, hpending]
  refine (Supply.yield_of_char?_eq_none hanswer ?_).trans ?_
  · cases stuck d.input.events <;> rfl
  · cases stuck d.input.events <;> rfl

/-- The room for bytes does not matter to what comes out, not even of a stream whose reads never
give any. -/
theorem yield_make_eq (input : ByteStream) {capacity other : Nat} (hc : 4 ≤ capacity)
    (ho : 4 ≤ other) (lossy : Bool) :
    ∃ d e, make input capacity lossy = .ok d ∧ make input other lossy = .ok e ∧
      (Supply.decoded d).yield = (Supply.decoded e).yield := by
  by_cases hf : input.Flows
  · obtain ⟨d, hd, hyield⟩ := yield_make hc hf lossy
    obtain ⟨e, he, hyield'⟩ := yield_make ho hf lossy
    exact ⟨d, e, hd, he, hyield.trans hyield'.symm⟩
  · have hstep : input.step = some 0 := by simpa [ByteStream.Flows] using hf
    have hstuck : ∀ {room : Nat} (fits : 4 ≤ room),
        (Supply.decoded { input, capacity := room, fits, lossy }).yield =
          ([], (stuck input.events).map .source) := fun fits =>
      yield_of_step_zero (d := { input, capacity := _, fits, lossy }) hstep rfl rfl
    exact ⟨_, _, dif_pos hc, dif_pos ho, (hstuck hc).trans (hstuck ho).symm⟩

end Decoder

end BranchCursor
