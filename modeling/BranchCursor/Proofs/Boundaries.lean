import BranchCursor.Proofs.RoundTrip

/-! A character begins a segment wherever it stands. So what is ill formed before it ends there at
the latest, and whatever comes before and after a text is decoded as if it stood alone. -/
namespace BranchCursor
open String (utf8EncodeChar)

namespace Utf8

variable {bytes : List UInt8}

/-- A segment of more than one byte stands at the beginning of an encoding. -/
theorem exists_take_leading_prefix (h : 1 < (leading bytes).size) :
    ∃ c, bytes.take (leading bytes).size <+: utf8EncodeChar c := by
  cases hl : leading bytes with
  | letter c n =>
    obtain ⟨⟨rest, rfl⟩, rfl⟩ := leading_eq_letter_iff.mp hl
    exact ⟨c, by simp [Segment.size]⟩
  | broken n =>
    rw [hl, Segment.size] at h
    obtain ⟨c, hp, -⟩ := (begins_of_leading hl).resolve_left (by omega)
    exact ⟨c, hp⟩

/-- No segment goes on into a character that stands after its beginning. -/
theorem size_leading_append_encode_le (hne : bytes ≠ []) (c : Char) (rest : List UInt8) :
    (leading (bytes ++ (utf8EncodeChar c ++ rest))).size ≤ bytes.length := by
  by_contra hlt
  have hpos := List.length_pos_iff.mpr hne
  have hmore : 1 < (leading (bytes ++ (utf8EncodeChar c ++ rest))).size := by omega
  obtain ⟨d, more, hd⟩ := exists_take_leading_prefix hmore
  obtain ⟨b, tail, hc⟩ := List.exists_cons_of_ne_nil (String.utf8EncodeChar_ne_nil (c := c))
  obtain ⟨k, hk⟩ := Nat.exists_eq_add_of_lt (Nat.not_le.mp hlt)
  rw [hk, Nat.add_assoc, List.take_length_add_append, hc, List.cons_append, List.take_succ_cons,
    List.append_assoc, List.cons_append] at hd
  exact hne (eq_nil_of_encode_eq hc hd.symm)

theorem leading_append_encode (hne : bytes ≠ []) (h : ¬Settles bytes) (c : Char)
    (rest : List UInt8) :
    leading (bytes ++ (utf8EncodeChar c ++ rest)) = .broken bytes.length := by
  have hleading := leading_of_not_settles h
  have hle := size_leading_append_encode_le hne c rest
  have hge := size_leading_le_append bytes (utf8EncodeChar c ++ rest)
  rw [hleading, Segment.size] at hge
  cases hl : leading (bytes ++ (utf8EncodeChar c ++ rest)) with
  | letter d n =>
    -- the letter would have all of these bytes, and so stand there without the character
    obtain ⟨hp, hn⟩ := leading_eq_letter_iff.mp hl
    rw [hl, Segment.size] at hle hge
    have hsame : utf8EncodeChar d = bytes :=
      (List.prefix_of_prefix_length_le hp (List.prefix_append _ _) (by omega)).eq_of_length
        (by omega)
    have hletter := leading_encode_append d []
    rw [List.append_nil, hsame, hleading] at hletter
    cases hletter
  | broken n =>
    rw [hl, Segment.size] at hle hge
    exact congrArg Segment.broken (Nat.le_antisymm hle hge)

/-- What stands before a character is cut as if nothing came after it. -/
theorem segments_append_encode (bytes : List UInt8) (c : Char) (rest : List UInt8) :
    segments (bytes ++ (utf8EncodeChar c ++ rest)) =
      segments bytes ++ segments (utf8EncodeChar c ++ rest) := by
  induction bytes using induction_on_leading with
  | nil => rw [segments_nil, List.nil_append, List.nil_append]
  | cut bytes hne ih =>
    have hwhole : bytes ++ (utf8EncodeChar c ++ rest) ≠ [] := List.append_ne_nil_of_left_ne_nil hne _
    rw [segments_of_ne_nil hwhole, segments_of_ne_nil hne]
    by_cases hs : Settles bytes
    · rw [drop_leading_append hs, leading_append _ hs, ih, List.cons_append]
    · rw [leading_append_encode hne hs, leading_of_not_settles hs, Segment.size, List.drop_left,
        List.drop_length, segments_nil, List.singleton_append]

/-- A text is cut out of the bytes around it, and what comes before and after is cut apart. -/
theorem segments_append_text (before : List UInt8) {text : List Char} (htext : text ≠ [])
    (after : List UInt8) :
    segments (before ++ text.flatMap utf8EncodeChar ++ after) =
      segments before ++ (text.map Segment.ofChar ++ segments after) := by
  obtain ⟨c, later, rfl⟩ := List.exists_cons_of_ne_nil htext
  rw [← segments_encode_append, List.flatMap_cons, List.append_assoc, List.append_assoc,
    segments_append_encode]

end Utf8

/-! ### Answers further on -/

/-- The same error when the bytes stand `k` further on. -/
def CursorError.further (k : Nat) : CursorError → CursorError
  | illFormed offset => illFormed (offset + k)
  | misuse cause => misuse cause
  | outOfRange index length => outOfRange index length
  | passed position readPosition => passed position readPosition
  | source cause => source cause

/-- The same answer, and the offset after it, when the bytes stand `k` further on. -/
def Delivery.further (k : Nat) : Delivery × Nat → Delivery × Nat
  | (char c, offset) => (char c, offset + k)
  | (finished, offset) => (finished, offset + k)
  | (fault cause, offset) => (fault (cause.further k), offset + k)

/-- The characters answered. -/
def Delivery.characters (answers : List (Delivery × Nat)) : List Char :=
  answers.filterMap (·.1.char?)

/-- The errors answered. -/
def Delivery.errors (answers : List (Delivery × Nat)) : List CursorError :=
  answers.filterMap (·.1.error?)

namespace Delivery

variable (answers later : List (Delivery × Nat)) (offset k : Nat) (text : List Char)

@[simp] theorem characters_append :
    characters (answers ++ later) = characters answers ++ characters later :=
  List.filterMap_append

@[simp] theorem errors_append : errors (answers ++ later) = errors answers ++ errors later :=
  List.filterMap_append

theorem characters_further : characters (answers.map (further k)) = characters answers := by
  rw [characters, List.filterMap_map]
  refine List.filterMap_congr fun a _ => ?_
  rcases a with ⟨_ | _ | _, _⟩ <;> rfl

theorem errors_further :
    errors (answers.map (further k)) = (errors answers).map (CursorError.further k) := by
  rw [errors, errors, List.filterMap_map, List.map_filterMap]
  refine List.filterMap_congr fun a _ => ?_
  rcases a with ⟨_ | _ | _, _⟩ <;> rfl

theorem characters_spelled : characters (Piece.spelled offset text) = text := by
  induction text generalizing offset with
  | nil => rfl
  | cons c text ih => exact congrArg (c :: ·) (ih _)

theorem characters_end : characters [(.finished, offset)] = [] := rfl

theorem errors_end : errors [(.finished, offset)] = [] := rfl

/-- Nothing is reported before the place from which offsets count. -/
theorem le_of_further {k start : Nat} {a : Delivery × Nat}
    (h : (further k a).1 = .fault (.illFormed start)) : k ≤ start := by
  rcases a with ⟨_ | _ | (_ | _ | _ | _ | offset), _⟩
  all_goals cases h
  exact Nat.le_add_left k offset

theorem errors_spelled : errors (Piece.spelled offset text) = [] := by
  induction text generalizing offset with
  | nil => rfl
  | cons c text ih => exact ih _

end Delivery

namespace Piece

variable (lossy : Bool) (offset : Nat)

theorem told_append (pieces later : List Piece) :
    told lossy offset (pieces ++ later) =
      told lossy offset pieces ++ told lossy (offset + (pieces.map size).sum) later := by
  induction pieces generalizing offset with
  | nil => rfl
  | cons p pieces ih =>
    rw [List.cons_append, told, told, ih, List.map_cons, List.sum_cons, Nat.add_assoc,
      List.cons_append]

/-- Offsets count from where the bytes stand. -/
theorem told_add (k : Nat) (pieces : List Piece) :
    told lossy (offset + k) pieces = (told lossy offset pieces).map (Delivery.further k) := by
  induction pieces generalizing offset with
  | nil => rfl
  | cons p later ih =>
    rw [told, told, List.map_cons, ← ih, Nat.add_right_comm]
    rcases p with (_ | _) | _
    · rfl
    · cases lossy <;> rfl
    · rfl

/-- An ill-formed run is reported at its beginning. -/
theorem start_eq_of_delivery {p : Piece} {start : Nat}
    (h : p.delivery lossy offset = .fault (.illFormed start)) : start = offset := by
  rcases p with (_ | _) | _
  · cases h
  · cases lossy
    · cases h
      rfl
    · cases h
  · cases h

theorem lt_of_mem_told (t : Tape) {a : Delivery × Nat} {start : Nat}
    (ha : a ∈ told lossy offset t.pieces) (h : a.1 = .fault (.illFormed start)) :
    start < offset + t.all.length := by
  induction t using Tape.induction_on_pieces generalizing offset with
  | done =>
    rw [Tape.pieces_blank] at ha
    cases ha
  | segment t hne hs hpieces ih =>
    have hpos := Utf8.length_drop_leading_lt_of_ne_nil hne
    have hsum := t.sum_size_pieces
    rw [hpieces, List.map_cons, List.sum_cons, Tape.sum_size_pieces, size] at hsum
    rw [hpieces, told] at ha
    rcases List.mem_cons.mp ha with rfl | ha
    · have hstart := start_eq_of_delivery lossy offset h
      rw [List.length_drop] at hpos
      omega
    · have hlt := ih _ ha
      rw [size] at hlt
      omega
  | failure bytes cause more rest hs hpieces ih =>
    have hsum := Tape.sum_size_pieces ⟨bytes, (cause, more) :: rest⟩
    rw [hpieces, List.map_cons, List.sum_cons, Tape.sum_size_pieces] at hsum
    rw [hpieces, told] at ha
    rcases List.mem_cons.mp ha with rfl | ha
    · cases h
    · have hlt := ih _ ha
      omega

/-- Bytes around a text are answered as if they stood alone, and the text with its characters. -/
theorem told_append_text (before : List UInt8) {text : List Char} (htext : text ≠ [])
    (after : List UInt8) :
    told lossy 0 ((Utf8.segments (before ++ text.flatMap utf8EncodeChar ++ after)).map segment) =
      told lossy 0 ((Utf8.segments before).map segment) ++ (spelled before.length text ++
        (told lossy 0 ((Utf8.segments after).map segment)).map
          (Delivery.further (before.length + (text.flatMap utf8EncodeChar).length))) := by
  have hsum := Tape.sum_size_pieces ⟨before, []⟩
  rw [Tape.pieces_of_bytes] at hsum
  have hlength : (((Utf8.segments before).map segment).map size).sum = before.length := by
    simpa [Tape.all] using hsum
  rw [Utf8.segments_append_text before htext, List.map_append, List.map_append, told_append,
    hlength, Nat.zero_add, told_letters_append, ← told_add, Nat.zero_add]

end Piece

/-! ### Main result -/

namespace ByteStream

/-- A stream that gives some bytes without a failure, in whichever portions. -/
structure Gives (bytes : List UInt8) (s : ByteStream) : Prop where
  flows : s.Flows
  calm : s.failures = []
  delivered : s.delivered = bytes

end ByteStream

namespace Decoder

/-- All the answers up to the end, each with the offset after it. -/
def answers (d : Decoder) : List (Delivery × Nat) := d.untilEnd.1.toList

/-- What bytes are answered with. -/
theorem exists_answers {input : ByteStream} {bytes : List UInt8} (h : input.Gives bytes)
    {capacity : Nat} (hc : 4 ≤ capacity) (lossy : Bool) :
    ∃ d, make input capacity lossy = .ok d ∧
      d.answers = Piece.told lossy 0 ((Utf8.segments bytes).map .segment) ++
        [(.finished, bytes.length)] := by
  obtain ⟨d, hd, hat⟩ := exists_make hc h.flows lossy
  rw [ByteStream.tape_of_no_failures h.calm, h.delivered] at hat
  refine ⟨d, hd, ?_⟩
  rw [answers, hat.toList_untilEnd, Tape.pieces_of_bytes]
  simp [Tape.all]

/-- Ill-formed bytes damage nothing beside them. Whatever stands before and after a text, and
however it is all cut into reads, the answers are those to what stands before alone, then the
characters of the text, then those to what stands after it, from there on. No error is reported
inside the text. -/
theorem damage_stays_local {before after : List UInt8} {text : List Char} (htext : text ≠ [])
    {whole left right : ByteStream}
    (hwhole : whole.Gives (before ++ text.flatMap utf8EncodeChar ++ after))
    (hleft : left.Gives before) (hright : right.Gives after) {capacity fore aft : Nat}
    (hc : 4 ≤ capacity) (hfore : 4 ≤ fore) (haft : 4 ≤ aft) (lossy : Bool) :
    ∃ d l r, make whole capacity lossy = .ok d ∧ make left fore lossy = .ok l ∧
      make right aft lossy = .ok r ∧
      let past := before.length + (text.flatMap utf8EncodeChar).length
      (∃ heard, l.answers = heard ++ [(.finished, before.length)] ∧
        d.answers = heard ++ (Piece.spelled before.length text ++
          r.answers.map (Delivery.further past))) ∧
      Delivery.characters d.answers =
        Delivery.characters l.answers ++ text ++ Delivery.characters r.answers ∧
      Delivery.errors d.answers =
        Delivery.errors l.answers ++ (Delivery.errors r.answers).map (CursorError.further past) ∧
      ∀ a ∈ d.answers, ∀ start, a.1 = .fault (.illFormed start) →
        start < before.length ∨ past ≤ start := by
  obtain ⟨d, hd, hall⟩ := exists_answers hwhole hc lossy
  obtain ⟨l, hl, hheard⟩ := exists_answers hleft hfore lossy
  obtain ⟨r, hr, hlater⟩ := exists_answers hright haft lossy
  refine ⟨d, l, r, hd, hl, hr, ?_⟩
  intro past
  have hanswers : d.answers = Piece.told lossy 0 ((Utf8.segments before).map .segment) ++
      (Piece.spelled before.length text ++ r.answers.map (Delivery.further past)) := by
    rw [hall, hlater, Piece.told_append_text lossy before htext, List.map_append]
    simp [Delivery.further, past, Nat.add_comm, Nat.add_left_comm]
  refine ⟨⟨_, hheard, hanswers⟩, ?_, ?_, ?_⟩
  · rw [hanswers, hheard]
    simp only [Delivery.characters_append, Delivery.characters_further,
      Delivery.characters_spelled, Delivery.characters_end, List.append_nil, List.append_assoc]
  · rw [hanswers, hheard]
    simp only [Delivery.errors_append, Delivery.errors_further, Delivery.errors_spelled,
      Delivery.errors_end, List.append_nil, List.nil_append]
  · intro a ha start hstart
    rw [hanswers, List.mem_append, List.mem_append] at ha
    rcases ha with ha | ha | ha
    · rw [← Tape.pieces_of_bytes] at ha
      have hlt := Piece.lt_of_mem_told lossy 0 ⟨before, []⟩ ha hstart
      simp only [Tape.all, List.flatMap_nil, List.append_nil] at hlt
      omega
    · have hchar := Piece.char?_spelled _ _ ha
      rw [hstart] at hchar
      cases hchar
    · obtain ⟨b, -, rfl⟩ := List.mem_map.mp ha
      exact Or.inr (Delivery.le_of_further hstart)

/-- A euro sign cut short, then a character, then a byte that continues nothing: each is replaced
or reported for itself, one byte a read. -/
theorem damage_stays_local_between :
    let whole : ByteStream :=
      { events := [.data [0x41, 0xE2, 0x82, 0xC3], .failure .interrupted,
          .data [0xA9, 0xAC, 0x42]], step := some 1 }
    let left : ByteStream := { events := [.data [0x41, 0xE2], .data [0x82]] }
    let right : ByteStream := { events := [.data [0xAC, 0x42]] }
    let text := ['é']
    whole.Gives ([0x41, 0xE2, 0x82] ++ text.flatMap utf8EncodeChar ++ [0xAC, 0x42]) ∧
    left.Gives [0x41, 0xE2, 0x82] ∧ right.Gives [0xAC, 0x42] ∧
    (∃ d, make whole 4 true = .ok d ∧
      Delivery.characters d.answers = ['A', '\uFFFD', 'é', '\uFFFD', 'B']) ∧
    ∃ d, make whole 4 false = .ok d ∧
      Delivery.errors d.answers = [.illFormed 1, .illFormed 5] := by
  intro whole left right text
  have hwhole : whole.Gives ([0x41, 0xE2, 0x82] ++ text.flatMap utf8EncodeChar ++ [0xAC, 0x42]) :=
    ⟨by decide, by decide, by decide⟩
  have hleft : left.Gives [0x41, 0xE2, 0x82] := ⟨by decide, by decide, by decide⟩
  have hright : right.Gives [0xAC, 0x42] := ⟨by decide, by decide, by decide⟩
  have hlocal := damage_stays_local (List.cons_ne_nil 'é' []) hwhole hleft hright (Nat.le_refl 4)
    (Nat.le_refl 4) (Nat.le_refl 4)
  obtain ⟨d, l, r, hd, hl, hr, -, hcharacters, -⟩ := hlocal true
  obtain ⟨e, l', r', he, hl', hr', -, -, herrors, -⟩ := hlocal false
  refine ⟨hwhole, hleft, hright, ⟨d, hd, ?_⟩, e, he, ?_⟩
  · obtain rfl : (⟨left, 4, Nat.le_refl 4, [], 0, false, true⟩ : Decoder) = l := Except.ok.inj hl
    obtain rfl : (⟨right, 4, Nat.le_refl 4, [], 0, false, true⟩ : Decoder) = r := Except.ok.inj hr
    rw [hcharacters]
    decide +kernel
  · obtain rfl : (⟨left, 4, Nat.le_refl 4, [], 0, false, false⟩ : Decoder) = l' := Except.ok.inj hl'
    obtain rfl : (⟨right, 4, Nat.le_refl 4, [], 0, false, false⟩ : Decoder) = r' :=
      Except.ok.inj hr'
    rw [herrors]
    decide +kernel

end Decoder
end BranchCursor
