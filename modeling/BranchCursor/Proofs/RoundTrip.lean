import BranchCursor.Proofs.Transcripts

/-! Strict decoding is the inverse of encoding: it goes through to the end exactly for the bytes
that encode a text, and answers with the characters of this text. -/
namespace BranchCursor
open String (utf8EncodeChar)

namespace Utf8

/-- Bytes that start with a sequence which is cut short or which Unicode forbids. -/
inductive Malformed : List UInt8 → Prop where
  | stray (b : UInt8) (rest : List UInt8) (h : 0x80 ≤ b.toNat ∧ b.toNat ≤ 0xBF) :
    Malformed (b :: rest)
  | overlongTwo (b : UInt8) (rest : List UInt8) (h : b.toNat = 0xC0 ∨ b.toNat = 0xC1) :
    Malformed (b :: rest)
  | overlongThree (x : UInt8) (rest : List UInt8) (h : x.toNat < 0xA0) :
    Malformed (0xE0 :: x :: rest)
  | overlongFour (x : UInt8) (rest : List UInt8) (h : x.toNat < 0x90) :
    Malformed (0xF0 :: x :: rest)
  | surrogate (x : UInt8) (rest : List UInt8) (h : 0xA0 ≤ x.toNat) :
    Malformed (0xED :: x :: rest)
  | tooLarge (x : UInt8) (rest : List UInt8) (h : 0x90 ≤ x.toNat) :
    Malformed (0xF4 :: x :: rest)
  | tooLargeLead (b : UInt8) (rest : List UInt8) (h : 0xF5 ≤ b.toNat) : Malformed (b :: rest)
  | truncated (bytes : List UInt8) (h : Begins bytes) (hne : bytes ≠ []) : Malformed bytes

theorem leading_of_misfit {b x : UInt8} {owed low high bits : Nat} (rest : List UInt8)
    (hl : lead b.toNat = some ⟨owed + 1, low, high, bits⟩)
    (hx : ¬(low ≤ x.toNat ∧ x.toNat ≤ high)) : leading (b :: x :: rest) = .broken 1 := by
  rw [leading_of_lead hl, follow, if_neg hx]

theorem Malformed.leading_eq {bytes : List UInt8} (h : Malformed bytes) :
    ∃ n, leading bytes = .broken n := by
  cases h with
  | stray b rest h => exact ⟨1, leading_of_lead_none (lead_none (by omega)) rest⟩
  | overlongTwo b rest h => exact ⟨1, leading_of_lead_none (lead_none (by omega)) rest⟩
  | overlongThree x rest h => exact ⟨1, leading_of_misfit (b := 0xE0) rest rfl (by omega)⟩
  | overlongFour x rest h => exact ⟨1, leading_of_misfit (b := 0xF0) rest rfl (by omega)⟩
  | surrogate x rest h => exact ⟨1, leading_of_misfit (b := 0xED) rest rfl (by omega)⟩
  | tooLarge x rest h => exact ⟨1, leading_of_misfit (b := 0xF4) rest rfl (by omega)⟩
  | tooLargeLead b rest h => exact ⟨1, leading_of_lead_none (lead_none (Or.inr h)) rest⟩
  | truncated bytes h hne => exact ⟨_, leading_of_begins h hne⟩

theorem Malformed.ne_nil {bytes : List UInt8} (h : Malformed bytes) : bytes ≠ [] := by
  cases h <;> first | assumption | exact List.cons_ne_nil _ _

end Utf8

/-! ### Answers with the letters of a text -/

namespace Piece

/-- The answers with the characters of a text, each at the end of its encoding. -/
def spelled : Nat → List Char → List (Delivery × Nat)
  | _, [] => []
  | offset, c :: text =>
    (.char c, offset + (utf8EncodeChar c).length) ::
      spelled (offset + (utf8EncodeChar c).length) text

variable (lossy : Bool) (offset : Nat) (text : List Char)

theorem told_letters_append (later : List Piece) :
    told lossy offset ((text.map Segment.ofChar).map segment ++ later) =
      spelled offset text ++
        told lossy (offset + (text.flatMap utf8EncodeChar).length) later := by
  induction text generalizing offset with
  | nil => rfl
  | cons c text ih =>
    simp only [List.map_cons, List.cons_append, told, spelled, List.flatMap_cons,
      List.length_append, ← Nat.add_assoc]
    rw [← ih]
    rfl

theorem map_fst_spelled : (spelled offset text).map (·.1) = text.map .char := by
  induction text generalizing offset with
  | nil => rfl
  | cons c text ih => exact congrArg (Delivery.char c :: ·) (ih _)

theorem char?_spelled {a : Delivery × Nat} (h : a ∈ spelled offset text) :
    a.1.char?.isSome = true := by
  have hmem := List.mem_map_of_mem (f := Prod.fst) h
  rw [map_fst_spelled] at hmem
  obtain ⟨c, -, hc⟩ := List.mem_map.mp hmem
  rw [← hc]
  rfl

end Piece

namespace Decoder

variable {d : Decoder} {lossy : Bool} {offset : Nat} {text : List Char} {tail : List UInt8}

/-- Draining first goes through the letters that the bytes start with. -/
theorem At.toList_drain (h : d.At lossy offset ⟨text.flatMap utf8EncodeChar ++ tail, []⟩) :
    d.drain.1.toList = Piece.spelled offset text ++ upTo (·.char?.isSome)
      (Piece.told lossy (offset + (text.flatMap utf8EncodeChar).length)
        ((Utf8.segments tail).map .segment) ++
      [(.finished, offset + (text.flatMap utf8EncodeChar ++ tail).length)]) := by
  rw [drain, h.toList_callsWhile rfl (Nat.lt_succ_of_le h.length_pieces_le), Tape.pieces_of_bytes,
    Utf8.segments_encode_append, List.map_append, Piece.told_letters_append, List.append_assoc,
    upTo_append fun a ha => Piece.char?_spelled offset text ha]
  simp [Tape.all]

/-- The encoding of a text is drained to its end. -/
theorem At.toList_drain_text (h : d.At lossy offset ⟨text.flatMap utf8EncodeChar, []⟩) :
    d.drain.1.toList = Piece.spelled offset text ++
      [(.finished, offset + (text.flatMap utf8EncodeChar).length)] := by
  rw [← List.append_nil (text.flatMap utf8EncodeChar)] at h
  rw [h.toList_drain, Utf8.segments_nil, List.append_nil]
  rfl

/-- Strict draining stops at the first ill-formed run, and tells where it begins. -/
theorem At.back?_drain_broken {n : Nat}
    (h : d.At false offset ⟨text.flatMap utf8EncodeChar ++ tail, []⟩) (hne : tail ≠ [])
    (htail : Utf8.leading tail = .broken n) :
    d.drain.1.back? = some (.fault (.illFormed (offset + (text.flatMap utf8EncodeChar).length)),
      offset + (text.flatMap utf8EncodeChar).length + n) := by
  rw [← Array.getLast?_toList, h.toList_drain, Utf8.segments_of_ne_nil hne, htail]
  exact List.getLast?_concat

/-- Strict draining comes to the end only after letters. -/
theorem At.exists_text {bytes : List UInt8} (h : d.At false offset ⟨bytes, []⟩)
    (hend : d.drain.1.back?.map (·.1) = some .finished) :
    ∃ text : List Char, bytes = text.flatMap utf8EncodeChar := by
  obtain ⟨text, tail, rfl, htail⟩ := Utf8.exists_text_append bytes
  by_cases hne : tail = []
  · exact ⟨text, by rw [hne, List.append_nil]⟩
  · cases hl : Utf8.leading tail with
    | letter c n =>
      rw [hl] at htail
      cases htail
    | broken n =>
      rw [h.back?_drain_broken hne hl] at hend
      cases hend

/-! ### Main result -/

/-- Strict decoding goes through to the end exactly for encodings of texts. It then answers with
the characters of the text, and so does lossy decoding; what is malformed is rejected where it
begins. -/
theorem strict_accepts_exactly_texts {input : ByteStream} {capacity : Nat} (hc : 4 ≤ capacity)
    (hf : input.Flows) (hcalm : input.failures = []) :
    ∃ strict lossy, make input capacity false = .ok strict ∧
      make input capacity true = .ok lossy ∧
      (strict.drain.1.back?.map (·.1) = some .finished ↔
        ∃ text : List Char, input.delivered = text.flatMap utf8EncodeChar) ∧
      (∀ text : List Char, input.delivered = text.flatMap utf8EncodeChar →
        strict.drain.1.toList.map (·.1) = text.map .char ++ [.finished] ∧
        strict.drain.1.back? = some (.finished, input.delivered.length) ∧
        lossy.drain.1 = strict.drain.1) ∧
      ∀ (text : List Char) (tail : List UInt8), Utf8.Malformed tail →
        input.delivered = text.flatMap utf8EncodeChar ++ tail →
        strict.drain.1.back?.map (·.1) =
          some (.fault (.illFormed (text.flatMap utf8EncodeChar).length)) := by
  obtain ⟨strict, hstrict, hat⟩ := exists_make hc hf false
  obtain ⟨lossy, hlossy, hatl⟩ := exists_make hc hf true
  rw [ByteStream.tape_of_no_failures hcalm] at hat hatl
  refine ⟨strict, lossy, hstrict, hlossy, ⟨hat.exists_text, ?_⟩, ?_, ?_⟩
  · rintro ⟨text, htext⟩
    rw [htext] at hat
    rw [← Array.getLast?_toList, hat.toList_drain_text, List.getLast?_concat]
    rfl
  · intro text htext
    rw [htext] at hat hatl ⊢
    have hdrain := hat.toList_drain_text
    refine ⟨?_, ?_, ?_⟩
    · rw [hdrain, List.map_append, Piece.map_fst_spelled]
      rfl
    · rw [← Array.getLast?_toList, hdrain, List.getLast?_concat, Nat.zero_add]
    · exact Array.toList_inj.mp (hatl.toList_drain_text.trans hdrain.symm)
  · intro text tail hbad hbytes
    obtain ⟨n, hn⟩ := hbad.leading_eq
    rw [hbytes] at hat
    rw [hat.back?_drain_broken hbad.ne_nil hn, Nat.zero_add]
    rfl

/-- An encoded replacement character, cut after each byte, is accepted like any other; a surrogate
after a letter is rejected where it begins. -/
theorem strict_accepts_exactly_texts_replacement :
    let input : ByteStream := { events := [.data [0xEF], .failure .interrupted,
      .data [0xBF, 0xBD, 0xF0, 0x9F, 0x99, 0x82]], step := some 1 }
    let paired : ByteStream := { events := [.data [0xC3, 0xA9, 0xED], .data [0xA0, 0x80]] }
    input.Flows ∧ input.failures = [] ∧ paired.Flows ∧ paired.failures = [] ∧
    (∃ strict lossy, make input 4 false = .ok strict ∧ make input 4 true = .ok lossy ∧
      strict.drain.1.toList.map (·.1) = [.char '\uFFFD', .char '🙂', .finished] ∧
      strict.drain.1.back? = some (.finished, 7) ∧ lossy.drain.1 = strict.drain.1) ∧
    ∃ strict, make paired 4 false = .ok strict ∧
      strict.drain.1.back?.map (·.1) = some (.fault (.illFormed 2)) := by
  intro input paired
  have hf : input.Flows := by decide
  have hcalm : input.failures = [] := by decide
  have hp : paired.Flows := by decide
  have hpcalm : paired.failures = [] := by decide
  have htext : input.delivered = ['\uFFFD', '🙂'].flatMap utf8EncodeChar := by decide
  have hpair : paired.delivered = ['é'].flatMap utf8EncodeChar ++ [0xED, 0xA0, 0x80] := by decide
  have hsurrogate : Utf8.Malformed [0xED, 0xA0, 0x80] := .surrogate 0xA0 [0x80] (by decide)
  obtain ⟨strict, lossy, hstrict, hlossy, -, haccepts, -⟩ :=
    strict_accepts_exactly_texts (Nat.le_refl 4) hf hcalm
  obtain ⟨other, -, hother, -, -, -, hrejects⟩ :=
    strict_accepts_exactly_texts (Nat.le_refl 4) hp hpcalm
  exact ⟨hf, hcalm, hp, hpcalm, ⟨strict, lossy, hstrict, hlossy, haccepts _ htext⟩,
    other, hother, hrejects _ _ hsurrogate hpair⟩

end Decoder

end BranchCursor
