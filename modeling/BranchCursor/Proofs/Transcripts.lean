import BranchCursor.Proofs.Decoding

/-! The whole of what a decoder answers. How its input is cut into reads shows nowhere, and a
failed read is answered once, in its place, and changes nothing else. -/
namespace BranchCursor

namespace ByteEvent

/-- The failure of an event that is handed over; an interrupted read is repeated. -/
def failure? : ByteEvent → Option ReadFailure
  | failure .interrupted => none
  | failure cause => some cause
  | data _ | stop => none

def bytes : ByteEvent → List UInt8
  | data bytes => bytes
  | stop | failure _ => []

/-- Whether the read of an event gives no bytes and does not fail. -/
def isEnd : ByteEvent → Bool
  | stop | data [] => true
  | data (_ :: _) | failure _ => false

theorem failure?_failure {cause : ReadFailure} (h : cause ≠ .interrupted) :
    (failure cause).failure? = some cause := by
  cases cause <;> first | rfl | exact absurd rfl h

end ByteEvent

/-! ### Streams with and without failures -/

namespace ByteStream

/-- The failures met before the first read of no bytes. -/
def failures (s : ByteStream) : List ReadFailure :=
  (s.events.takeWhile (!·.isEnd)).filterMap ByteEvent.failure?

/-- All the bytes that come before the first read of no bytes. -/
def delivered (s : ByteStream) : List UInt8 :=
  (s.events.takeWhile (!·.isEnd)).flatMap ByteEvent.bytes

/-- The same stream when none of its reads fails. -/
def calmed (s : ByteStream) : ByteStream :=
  { s with events := s.events.filter (·.failure?.isNone) }

instance (s : ByteStream) : Decidable s.Flows := inferInstanceAs (Decidable (_ ≠ _))

theorem failures_tape (s : ByteStream) : s.tape.failures = s.failures := by
  unfold tape failures
  fun_induction tapeOf s.events with
  | case1 => rfl
  | case2 later => rfl
  | case3 later => rfl
  | case4 later ih => exact ih
  | case5 cause later hc ih =>
    rw [List.takeWhile_cons_of_pos rfl, List.filterMap_cons_some (ByteEvent.failure?_failure hc),
      ← ih]
    rfl
  | case6 b more later ih => exact ih

theorem all_tape (s : ByteStream) : s.tape.all = s.delivered := by
  unfold tape delivered
  fun_induction tapeOf s.events with
  | case1 => rfl
  | case2 later => rfl
  | case3 later => rfl
  | case4 later ih => exact ih
  | case5 cause later hc ih => exact ih
  | case6 b more later ih => exact (List.append_assoc _ _ _).trans (congrArg (b :: more ++ ·) ih)

theorem tape_calmed (s : ByteStream) : s.calmed.tape = ⟨s.delivered, []⟩ := by
  rw [← all_tape]
  unfold tape calmed
  fun_induction tapeOf s.events with
  | case1 => rfl
  | case2 later => rfl
  | case3 later => rfl
  | case4 later ih => exact ih
  | case5 cause later hc ih =>
    rw [List.filter_cons_of_neg (by rw [ByteEvent.failure?_failure hc]; exact Bool.false_ne_true)]
    exact ih
  | case6 b more later ih =>
    rw [List.filter_cons_of_pos rfl]
    refine (congrArg (Tape.prepend (b :: more)) ih).trans ?_
    exact congrArg (Tape.mk · []) (List.append_assoc _ _ _).symm

theorem tape_of_no_failures {s : ByteStream} (h : s.failures = []) :
    s.tape = ⟨s.delivered, []⟩ := by
  have hbreaks : s.tape.breaks = [] := by
    rw [← failures_tape] at h
    exact List.map_eq_nil_iff.mp h
  have hall : s.tape.all = s.tape.bytes := by
    rw [Tape.all, hbreaks, List.flatMap_nil, List.append_nil]
  rw [← all_tape, hall, ← hbreaks]

end ByteStream

/-! ### Answers with the pieces, sorted -/

namespace Delivery

/-- The failure of a read that is handed over. -/
def readFailure? : Delivery → Option ReadFailure
  | fault (.source cause) => some cause
  | fault _ | char _ | finished => none

end Delivery

namespace Piece

theorem readFailure?_delivery (p : Piece) (lossy : Bool) (offset : Nat) :
    (p.delivery lossy offset).readFailure? = p.failure? := by
  rcases p with (_ | _) | _
  · rfl
  · cases lossy <;> rfl
  · rfl

variable (lossy : Bool) (offset : Nat) (pieces : List Piece)

/-- The failures are answered in their order. -/
theorem failures_told :
    (told lossy offset pieces).filterMap (·.1.readFailure?) = pieces.filterMap failure? := by
  induction pieces generalizing offset with
  | nil => rfl
  | cons p later ih =>
    rw [told, List.filterMap_cons, List.filterMap_cons, readFailure?_delivery, ih]

/-- Without the answers with failures, those with the segments are left, at the same offsets. -/
theorem told_segments :
    (told lossy offset pieces).filter (·.1.readFailure?.isNone) =
      told lossy offset ((pieces.filterMap segment?).map segment) := by
  induction pieces generalizing offset with
  | nil => rfl
  | cons p later ih =>
    rw [told, List.filter_cons, readFailure?_delivery, ih]
    cases p with
    | segment s => rfl
    | failure cause => rfl

theorem mem_told {a : Delivery × Nat} (h : a ∈ told lossy offset pieces) : a.1 ≠ .finished := by
  induction pieces generalizing offset with
  | nil => cases h
  | cons p later ih =>
    rcases List.mem_cons.mp h with rfl | h
    · exact p.delivery_ne_finished lossy offset
    · exact ih _ h

end Piece

namespace Decoder

variable {d : Decoder} {lossy : Bool} {offset : Nat} {t : Tape}

/-- Calls until the end of the content is answered. -/
def untilEnd (d : Decoder) : Array (Delivery × Nat) × Decoder :=
  d.callsWhile (· != .finished) (d.bound + 1) #[]

theorem upTo_append {on : Delivery → Bool} {made : List (Delivery × Nat)}
    (h : ∀ a ∈ made, on a.1 = true) (later : List (Delivery × Nat)) :
    upTo on (made ++ later) = made ++ upTo on later := by
  induction made with
  | nil => rfl
  | cons a made ih =>
    rw [List.cons_append, upTo, if_pos (h a List.mem_cons_self),
      ih fun b hb => h b (List.mem_cons_of_mem _ hb), List.cons_append]

/-- The end is reached, after the answers with all the pieces. -/
theorem At.toList_untilEnd (h : d.At lossy offset t) :
    d.untilEnd.1.toList =
      Piece.told lossy offset t.pieces ++ [(.finished, offset + t.all.length)] := by
  have hon : ∀ a ∈ Piece.told lossy offset t.pieces, (a.1 != .finished) = true :=
    fun a ha => bne_iff_ne.mpr (Piece.mem_told lossy offset t.pieces ha)
  rw [untilEnd, h.toList_callsWhile rfl (Nat.lt_succ_of_le h.length_pieces_le), upTo_append hon]
  rfl

/-- Reading alone moves nothing. -/
theorem offset_gather (d : Decoder) : d.gather.2.offset = d.offset := by
  fun_induction gather d with
  | case1 d hs => rfl
  | case2 d hs input hr => rfl
  | case3 d hs b more input hr ih => exact ih
  | case4 d hs input hr ih => exact ih
  | case5 d hs cause input hne hr => rfl

theorem readFailure?_emit (d : Decoder) : d.emit.1.readFailure? = none := by
  unfold emit
  split
  · rfl
  · split
    · rfl
    · split <;> rfl

/-- A call that answers with a failed read stays where it is. -/
theorem offset_of_readFailure {cause : ReadFailure} (h : d.next.1 = .fault (.source cause)) :
    d.next.2.offset = d.offset := by
  have hoffset := d.offset_gather
  unfold next at h ⊢
  split at h
  · rename_i g hg
    have := g.readFailure?_emit
    rw [h] at this
    cases this
  · rename_i failed g hg
    rw [hg] at hoffset
    exact hoffset

/-! ### Main results -/

/-- Two streams that give the same bytes, with the same failures between them, are answered alike,
however they are cut into reads and whichever buffers they are read into. Without failures the
answers are those with the segments of all the bytes, and then the end. -/
theorem decoding_ignores_chunks {input recut : ByteStream} {capacity other : Nat}
    (hc : 4 ≤ capacity) (ho : 4 ≤ other) (hf : input.Flows) (hr : recut.Flows)
    (htape : recut.tape = input.tape) (lossy : Bool) :
    ∃ d e, make input capacity lossy = .ok d ∧ make recut other lossy = .ok e ∧
      (∀ n, (d.calls n).1 = (e.calls n).1) ∧
      (input.failures = [] → ∃ cut, Utf8.Decomposes input.delivered cut ∧
        (∀ cut', Utf8.Decomposes input.delivered cut' → cut' = cut) ∧
        ∀ n, (d.calls n).1.toList = (List.range n).map fun k =>
          (Piece.told lossy 0 (cut.map .segment))[k]?.getD
            (.finished, input.delivered.length)) := by
  obtain ⟨d, hd, hat⟩ := exists_make hc hf lossy
  obtain ⟨e, he, hate⟩ := exists_make ho hr lossy
  rw [htape] at hate
  refine ⟨d, e, hd, he, ?_, ?_⟩
  · intro n
    apply Array.toList_inj.mp
    exact (hat.toList_calls n #[]).trans (hate.toList_calls n #[]).symm
  · intro hcalm
    have hcut := Utf8.decomposes_segments input.delivered
    refine ⟨_, hcut, fun cut' h => h.unique hcut, ?_⟩
    intro n
    have hcalls := hat.toList_calls n #[]
    rw [ByteStream.tape_of_no_failures hcalm, Tape.pieces_of_bytes] at hcalls
    simpa [calls, Tape.all] using hcalls

/-- A euro sign cut after its first byte, an interrupted read inside it, one byte a read: as if it
all came at once. Two ill-formed runs are found where they are, the second at the end. -/
theorem decoding_ignores_chunks_cut_sequence :
    let input : ByteStream :=
      { events := [.data [0x41, 0xE2], .failure .interrupted, .data [0x82, 0xAC, 0xF0, 0x9F],
          .data [0xFF, 0xE2, 0x82]], step := some 1 }
    let recut : ByteStream :=
      { events := [.data [0x41, 0xE2, 0x82, 0xAC, 0xF0, 0x9F, 0xFF, 0xE2, 0x82], .stop,
          .data [0xAC]] }
    input.Flows ∧ recut.Flows ∧ recut.tape = input.tape ∧ input.failures = [] ∧
    ∃ d e, make input 4 false = .ok d ∧ make recut 8192 false = .ok e ∧
      (∀ n, (d.calls n).1 = (e.calls n).1) ∧
      (d.calls 7).1.toList =
        [(.char 'A', 1), (.char '€', 4), (.fault (.illFormed 4), 6), (.fault (.illFormed 6), 7),
          (.fault (.illFormed 7), 9), (.finished, 9), (.finished, 9)] := by
  intro input recut
  have hwide : 4 ≤ 8192 := by decide
  have hf : input.Flows := by decide
  have hr : recut.Flows := by decide
  have htape : recut.tape = input.tape := by decide
  have hcalm : input.failures = [] := by decide
  have hcut : Utf8.segments input.delivered =
      [.letter 'A' 1, .letter '€' 3, .broken 2, .broken 1, .broken 2] := by decide +kernel
  obtain ⟨d, e, hd, he, hsame, hwhole⟩ :=
    decoding_ignores_chunks (Nat.le_refl 4) hwide hf hr htape false
  obtain ⟨cut, -, hunique, hcalls⟩ := hwhole hcalm
  obtain rfl := hunique _ (Utf8.decomposes_segments _)
  refine ⟨hf, hr, htape, hcalm, d, e, hd, he, hsame, ?_⟩
  rw [hcalls 7, hcut]
  decide

/-- Every failure before the first read of no bytes is answered once, by a call that moves
nothing; the other answers are those of the stream without its failures. -/
theorem failed_reads_lose_nothing {input : ByteStream} {capacity : Nat} (hc : 4 ≤ capacity)
    (hf : input.Flows) (lossy : Bool) :
    ∃ d calm, make input capacity lossy = .ok d ∧ make input.calmed capacity lossy = .ok calm ∧
      d.untilEnd.1.toList.filterMap (·.1.readFailure?) = input.failures ∧
      d.untilEnd.1.toList.filter (·.1.readFailure?.isNone) = calm.untilEnd.1.toList ∧
      d.untilEnd.1.back? = some (.finished, input.delivered.length) ∧
      ∀ n cause, (d.calls n).2.next.1 = .fault (.source cause) →
        (d.calls n).2.next.2.offset = (d.calls n).2.offset := by
  obtain ⟨d, hd, hat⟩ := exists_make hc hf lossy
  have hfc : input.calmed.Flows := hf
  obtain ⟨calm, hcalm, hatc⟩ := exists_make hc hfc lossy
  have hrun := hat.toList_untilEnd
  have hcrun := hatc.toList_untilEnd
  refine ⟨d, calm, hd, hcalm, ?_, ?_, ?_, fun n cause => offset_of_readFailure⟩
  · rw [hrun, List.filterMap_append, Piece.failures_told, Tape.failures_of_pieces,
      ByteStream.failures_tape]
    exact List.append_nil _
  · rw [hrun, hcrun, List.filter_append, Piece.told_segments, Tape.segments_of_pieces,
      ByteStream.tape_calmed, Tape.pieces_of_bytes, ByteStream.all_tape]
    simp [Tape.all, Delivery.readFailure?]
  · rw [← Array.getLast?_toList, hrun, List.getLast?_concat, ByteStream.all_tape, Nat.zero_add]

/-- A read fails inside a euro sign and another one right after a byte that starts nothing. -/
theorem failed_reads_lose_nothing_inside_sequence :
    let input : ByteStream :=
      { events := [.data [0x41, 0xE2], .failure .timedOut, .data [0x82, 0xAC, 0xFF],
          .failure .brokenPipe, .failure .interrupted, .data [0x42], .stop, .failure .wouldBlock] }
    input.Flows ∧ ∃ d calm, make input 4 false = .ok d ∧ make input.calmed 4 false = .ok calm ∧
      d.untilEnd.1.toList.filterMap (·.1.readFailure?) = [.timedOut, .brokenPipe] ∧
      d.untilEnd.1.toList.filter (·.1.readFailure?.isNone) = calm.untilEnd.1.toList ∧
      d.untilEnd.1.back? = some (.finished, 6) := by
  intro input
  have hf : input.Flows := by decide
  obtain ⟨d, calm, hd, hcalm, hfailures, hsame, hend, -⟩ :=
    failed_reads_lose_nothing (Nat.le_refl 4) hf false
  exact ⟨hf, d, calm, hd, hcalm, hfailures, hsame, hend⟩

end Decoder

end BranchCursor
