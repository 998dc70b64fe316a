import BranchCursor.Proofs.Transcripts

/-! The reads of a decoder in their order. At each of them the bytes kept are the delivered ones
from the offset on, and too few to hold a character, so there is always room for more; a read of no
bytes is the end of the input, and the last read. -/
namespace BranchCursor
open String (utf8EncodeChar)

namespace Utf8

variable {bytes : List UInt8}

/-- Bytes that settle nothing hold no character, neither at their beginning nor further on. -/
theorem not_infix_of_not_settles (h : ¬Settles bytes) (c : Char) :
    ¬utf8EncodeChar c <:+: bytes := by
  rintro ⟨before, after, hbytes⟩
  have hleading := leading_of_not_settles h
  have hnil : before = [] := by
    by_contra hne
    have hlength := congrArg List.length hbytes
    have hbefore := List.length_pos_iff.mpr hne
    have hc : 0 < (utf8EncodeChar c).length :=
      List.length_pos_iff.mpr String.utf8EncodeChar_ne_nil
    simp only [List.length_append] at hlength
    obtain ⟨d, ⟨more, hd⟩, -⟩ := (begins_of_leading hleading).resolve_left (by omega)
    obtain ⟨b, tail, hb⟩ := List.exists_cons_of_ne_nil (String.utf8EncodeChar_ne_nil (c := c))
    rw [List.take_length, ← hbytes, hb, List.append_assoc, List.append_assoc,
      List.cons_append] at hd
    exact hne (eq_nil_of_encode_eq hb hd.symm)
  rw [hnil, List.nil_append] at hbytes
  rw [← hbytes, leading_encode_append] at hleading
  cases hleading

end Utf8

namespace ByteStream

variable {s : ByteStream} {room : Nat}

/-- Reads one after the other, each into its room: what they give, and the stream then. -/
def readAll : List Nat → ByteStream → List (Except ReadFailure (List UInt8)) × ByteStream
  | [], s => ([], s)
  | room :: later, s =>
    let first := s.read room
    let rest := readAll later first.2
    (first.1 :: rest.1, rest.2)

/-- Whether nothing is left, or the stream is about to report its end. -/
def atEnd (s : ByteStream) : Bool := s.events.head?.all ByteEvent.isEnd

theorem readAll_append (rooms later : List Nat) (s : ByteStream) :
    s.readAll (rooms ++ later) = ((s.readAll rooms).1 ++ ((s.readAll rooms).2.readAll later).1,
      ((s.readAll rooms).2.readAll later).2) := by
  induction rooms generalizing s with
  | nil => rfl
  | cons room rooms ih =>
    rw [List.cons_append, readAll, ih]
    rfl

/-- A stream remembers the rooms. -/
theorem rooms_readAll (rooms : List Nat) (s : ByteStream) :
    (s.readAll rooms).2.rooms = s.rooms ++ rooms := by
  induction rooms generalizing s with
  | nil => exact (List.append_nil _).symm
  | cons room rooms ih =>
    rw [readAll, ih, ByteStream.rooms, reads_read, List.reverse_cons, List.append_assoc]
    rfl

/-- If there is room, no bytes come only at the end. -/
theorem read_eq_nil_iff (hs : s.Flows) (hroom : 0 < room) :
    (s.read room).1 = .ok [] ↔ s.atEnd = true := by
  have hlimit := limit_pos hs hroom
  unfold ByteStream.read atEnd
  split
  · rename_i he
    simp [he]
  · rename_i he
    simp [he, ByteEvent.isEnd]
  · rename_i he
    simp [he, ByteEvent.isEnd]
  · rename_i bytes later he
    rw [he]
    cases bytes with
    | nil => simp [ByteEvent.isEnd]
    | cons b more =>
      obtain ⟨k, hk⟩ := Nat.exists_eq_add_one.mpr hlimit
      split <;> simp [ByteEvent.isEnd, hk]

end ByteStream

namespace Decoder

variable {d e g : Decoder} {front : List UInt8} {reads later : List Decoder}

/-- What a decoder is given when it reads. -/
def reading (d : Decoder) : Except ReadFailure (List UInt8) := (d.input.read d.room).1

/-- The bytes that it is given. -/
def received (d : Decoder) : List UInt8 :=
  match d.reading with
  | .ok bytes => bytes
  | .error _ => []

/-- The decoder at each of the reads that it takes to settle the next answer. -/
def readsAt (d : Decoder) : List Decoder :=
  if d.settled then []
  else
    match _h : d.input.read d.room with
    | (.ok (b :: more), input) =>
      d :: readsAt { d with input, pending := d.pending ++ b :: more }
    | (.error .interrupted, input) => d :: readsAt { d with input }
    | (.ok [], _) | (.error _, _) => [d]
termination_by d.input.weight
decreasing_by
  · exact ByteStream.weight_lt_of_read_cons ‹_›
  · exact ByteStream.weight_lt_of_read_error ‹_›

/-- The bytes kept are the delivered ones from the offset on. -/
structure Keeps (delivered : List UInt8) (d : Decoder) : Prop where
  inside : d.offset ≤ delivered.length
  kept : d.pending = delivered.drop d.offset

/-- What holds at a read when `delivered` has been given before and `input` is left. What is kept
is nothing, or one ill-formed run that no byte follows yet, and it holds no character; there is
room for all but that, and no bytes come only at the end. -/
structure Frugal (capacity : Nat) (delivered : List UInt8) (input : ByteStream) (d : Decoder) : Prop
    extends Keeps delivered d where
  stream : d.input = input
  run : d.pending = [] ∨ Utf8.Starts d.pending (.broken d.pending.length)
  short : d.pending.length ≤ 3
  without : ∀ c, ¬utf8EncodeChar c <:+: d.pending
  room : d.room = capacity - (delivered.length - d.offset)
  least : capacity - 3 ≤ d.room
  most : d.room ≤ capacity
  pos : 0 < d.room
  ends : d.reading = .ok [] ↔ d.input.atEnd = true

/-- What holds at each of some reads, given all that was delivered before it and what is left. -/
def Each (P : List UInt8 → ByteStream → Decoder → Prop) :
    List UInt8 → ByteStream → List Decoder → Prop
  | _, _, [] => True
  | front, s, d :: later => P front s d ∧ Each P (front ++ d.received) (s.read d.room).2 later

/-- From `d` to `g` by some reads when `front` was delivered before them. -/
structure Course (front : List UInt8) (d : Decoder) (reads : List Decoder) (g : Decoder) :
    Prop where
  capacity : g.capacity = d.capacity
  lossy : g.lossy = d.lossy
  flows : g.input.Flows
  keeps : g.Keeps (front ++ reads.flatMap received)
  frugal : Each (Frugal d.capacity) front d.input reads
  input : d.input.readAll (reads.map room) = (reads.map reading, g.input)
  last : reads.Pairwise fun e _ => e.reading ≠ .ok []
  ended : g.ended = true ↔ d.ended = true ∨ ∃ e ∈ reads, e.reading = .ok []
  rests : d.ended = true → reads = []

variable {P : List UInt8 → ByteStream → Decoder → Prop} {s : ByteStream}

theorem each_append : Each P front s (reads ++ later) ↔ Each P front s reads ∧
    Each P (front ++ reads.flatMap received) (s.readAll (reads.map room)).2 later := by
  induction reads generalizing front s with
  | nil => simp [Each, ByteStream.readAll]
  | cons d reads ih => simp [Each, ByteStream.readAll, ih, and_assoc]

theorem Each.at {before after : List Decoder} (h : Each P front s (before ++ d :: after)) :
    P (front ++ before.flatMap received) (s.readAll (before.map room)).2 d :=
  (each_append.mp h).2.1

/-! ### Single reads -/

/-- A decoder reads only with few bytes, none of which settles anything. -/
theorem Keeps.frugal (hk : d.Keeps front) (hf : d.input.Flows) (hs : ¬d.settled = true) :
    d.Frugal d.capacity front d.input := by
  have hsettles := not_settles_of_not_settled hs
  have hleading := Utf8.leading_of_not_settles hsettles
  have hshort := Utf8.broken_le_three hleading
  have hlength : d.pending.length = front.length - d.offset := by
    rw [hk.kept, List.length_drop]
  have hroom : d.room = d.capacity - d.pending.length := rfl
  refine { hk with
    stream := rfl
    run := ?_
    short := hshort
    without := Utf8.not_infix_of_not_settles hsettles
    room := hlength ▸ hroom
    least := by omega
    most := by omega
    pos := room_pos hs
    ends := ByteStream.read_eq_nil_iff hf (room_pos hs) }
  by_cases hne : d.pending = []
  · exact Or.inl hne
  · exact Or.inr (hleading ▸ Utf8.starts_leading hne)

/-- A decoder after a read keeps what it was given; a read of no bytes is its last. -/
def fill (d : Decoder) : Decoder :=
  { d with
    input := (d.input.read d.room).2
    pending := d.pending ++ d.received
    ended := match d.reading with
      | .ok [] => true
      | .ok (_ :: _) | .error _ => d.ended }

theorem ended_fill (d : Decoder) :
    d.fill.ended = true ↔ d.ended = true ∨ d.reading = .ok [] := by
  unfold fill
  split <;> rename_i h <;> simp [h]

theorem Course.trans (h : Course front d reads e)
    (h' : Course (front ++ reads.flatMap received) e later g) :
    Course front d (reads ++ later) g where
  capacity := h'.capacity.trans h.capacity
  lossy := h'.lossy.trans h.lossy
  flows := h'.flows
  keeps := by simpa [List.append_assoc] using h'.keeps
  frugal := by
    have hleft : e.input = (d.input.readAll (reads.map room)).2 := (congrArg Prod.snd h.input).symm
    exact each_append.mpr ⟨h.frugal, h.capacity ▸ hleft ▸ h'.frugal⟩
  input := by
    rw [List.map_append, ByteStream.readAll_append, h.input, List.map_append]
    simp only [h'.input]
  last := by
    refine List.pairwise_append.mpr ⟨h.last, h'.last, fun a ha b hb hend => ?_⟩
    rw [h'.rests (h.ended.mpr (Or.inr ⟨a, ha, hend⟩))] at hb
    cases hb
  ended := by
    rw [h'.ended, h.ended]
    simp only [List.mem_append, or_and_right, exists_or, or_assoc]
  rests he := by
    have hreads := h.rests he
    have hlater := h'.rests (h.ended.mpr (Or.inl he))
    rw [hreads, hlater]
    rfl

/-- What is not settled takes a read, and more of them if that gave bytes or was interrupted. -/
theorem readsAt_of_not_settled (hs : ¬d.settled = true) :
    d.readsAt = d :: match d.reading with
      | .ok (_ :: _) | .error .interrupted => d.fill.readsAt
      | .ok [] | .error _ => [] := by
  rw [readsAt, if_neg hs]
  split <;> simp_all [fill, received, reading]

/-- To answer moves on within what was delivered. -/
theorem Keeps.emit (hk : d.Keeps front) : d.emit.2.Keeps front := by
  by_cases hne : d.pending = []
  · have hsame : d.emit = (.finished, d) := by
      unfold Decoder.emit
      rw [hne]
    rw [hsame]
    exact hk
  · have hsize := Utf8.size_leading_le d.pending
    have hinside := hk.inside
    rw [emit_of_ne_nil hne]
    refine ⟨?_, ?_⟩
    · have hlength := congrArg List.length hk.kept
      rw [List.length_drop] at hlength
      simp only [consume]
      omega
    · exact (congrArg (List.drop _) hk.kept).trans List.drop_drop

theorem emit_spec (d : Decoder) : d.emit.2.input = d.input ∧ d.emit.2.capacity = d.capacity ∧
    d.emit.2.lossy = d.lossy ∧ d.emit.2.ended = d.ended := by
  unfold Decoder.emit
  split
  · exact ⟨rfl, rfl, rfl, rfl⟩
  · split <;> exact ⟨rfl, rfl, rfl, rfl⟩

theorem callsWhile_snd (on : Delivery → Bool) (n : Nat) (made : Array (Delivery × Nat))
    (d : Decoder) : (d.callsWhile on n made).2 = (d.callsWhile on n #[]).2 := by
  induction n generalizing d made with
  | zero => rfl
  | succ n ih =>
    simp only [callsWhile]
    split
    · rw [ih, ih (#[].push _)]
    · rfl

theorem calls_succ (n : Nat) (d : Decoder) : (d.calls (n + 1)).2 = (d.next.2.calls n).2 := by
  simp only [calls, callsWhile, if_true]
  rw [callsWhile_snd]

/-- Where nothing is kept and nothing comes, a call answers with the end and changes nothing. -/
theorem next_of_ended (he : d.ended = true) (hp : d.pending = []) : d.next = (.finished, d) := by
  unfold Decoder.next Decoder.emit
  rw [gather_of_settled (settled_of_ended he)]
  simp only [hp]

theorem calls_of_ended (he : d.ended = true) (hp : d.pending = []) (n : Nat) :
    d.calls n = (Array.replicate n (.finished, d.offset), d) := by
  have hcalls : ∀ made, d.callsWhile (fun _ => true) n made =
      (made ++ Array.replicate n (.finished, d.offset), d) := by
    induction n with
    | zero => simp [callsWhile]
    | succ n ih =>
      intro made
      rw [callsWhile, next_of_ended he hp]
      refine (ih _).trans (congrArg (·, d) (Array.toList_inj.mp ?_))
      simp [List.replicate_succ]
  exact (hcalls #[]).trans (by simp)

end Decoder
end BranchCursor
