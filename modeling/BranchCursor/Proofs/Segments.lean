import BranchCursor.Proofs.Encoding

/-! A whole byte string cut into segments. There is exactly one way to cut it from left to right,
and the cut consists of letters alone exactly if the bytes encode a text. -/
namespace BranchCursor
open String (utf8EncodeChar)

namespace Segment

/-- The character shown for a segment. -/
def shown : Segment → Char
  | letter c _ => c
  | broken _ => Utf8.replacement

/-- The letter of a character, of the size of its encoding. -/
def ofChar (c : Char) : Segment := .letter c (utf8EncodeChar c).length

end Segment

namespace Utf8

/-- Each segment is the one that the bytes left by those before it start with. -/
inductive Decomposes : List UInt8 → List Segment → Prop where
  | nil : Decomposes [] []
  | cons {bytes : List UInt8} {s : Segment} {later : List Segment} (h : Starts bytes s)
    (hlater : Decomposes (bytes.drop s.size) later) : Decomposes bytes (s :: later)

/-- Whether no byte that follows can change the segment that bytes start with. -/
def Settles (bytes : List UInt8) : Prop :=
  (leading bytes).isLetter = true ∨ (leading bytes).size < bytes.length

instance (bytes : List UInt8) : Decidable (Settles bytes) := inferInstanceAs (Decidable (_ ∨ _))

variable {bytes more : List UInt8} {s : Segment} {cut other : List Segment}

theorem not_settles_nil : ¬Settles [] := by decide

theorem length_drop_leading_lt_of_ne_nil (h : bytes ≠ []) :
    (bytes.drop (leading bytes).size).length < bytes.length := by
  obtain ⟨b, rest, rfl⟩ := List.exists_cons_of_ne_nil h
  exact length_drop_leading_lt b rest

/-- Bytes that settle nothing are all one ill-formed run. -/
theorem leading_of_not_settles (h : ¬Settles bytes) : leading bytes = .broken bytes.length := by
  have hle := size_leading_le bytes
  rw [Settles, not_or, Nat.not_lt] at h
  cases hl : leading bytes with
  | letter c n =>
    rw [hl] at h
    exact absurd rfl h.1
  | broken n =>
    rw [hl] at h hle
    exact congrArg _ (Nat.le_antisymm hle h.2)

theorem Settles.append (h : Settles bytes) (more : List UInt8) : Settles (bytes ++ more) := by
  rw [Settles, leading_append more h, List.length_append]
  exact h.imp_right fun h => by omega

theorem drop_leading_append (h : Settles bytes) (more : List UInt8) :
    (bytes ++ more).drop (leading (bytes ++ more)).size =
      bytes.drop (leading bytes).size ++ more := by
  rw [leading_append more h, List.drop_append_of_le_length (size_leading_le bytes)]

/-! ### The cut -/

/-- Byte strings are taken apart segment by segment. -/
@[elab_as_elim]
theorem induction_on_leading {motive : List UInt8 → Prop} (bytes : List UInt8) (nil : motive [])
    (cut : ∀ bytes ≠ [], motive (bytes.drop (leading bytes).size) → motive bytes) :
    motive bytes := by
  induction hn : bytes.length using Nat.strongRecOn generalizing bytes with
  | ind n ih =>
    by_cases hne : bytes = []
    · rw [hne]
      exact nil
    · exact cut bytes hne (ih _ (hn ▸ length_drop_leading_lt_of_ne_nil hne) _ rfl)

theorem segmentsAfter_of_ne_nil (found : Array Segment) (h : bytes ≠ []) :
    segmentsAfter found bytes =
      segmentsAfter (found.push (leading bytes)) (bytes.drop (leading bytes).size) := by
  obtain ⟨b, rest, rfl⟩ := List.exists_cons_of_ne_nil h
  rw [segmentsAfter]

theorem toList_segmentsAfter (found : Array Segment) (bytes : List UInt8) :
    (segmentsAfter found bytes).toList = found.toList ++ segments bytes := by
  unfold segments
  induction bytes using induction_on_leading generalizing found with
  | nil => simp [segmentsAfter]
  | cut bytes hne ih =>
    rw [segmentsAfter_of_ne_nil found hne, segmentsAfter_of_ne_nil #[] hne, ih,
      ih (#[].push (leading bytes))]
    simp

@[simp] theorem segments_nil : segments [] = [] := by
  rw [segments, segmentsAfter]

/-- The first segment, and then those of the bytes that it leaves. -/
theorem segments_of_ne_nil (h : bytes ≠ []) :
    segments bytes = leading bytes :: segments (bytes.drop (leading bytes).size) := by
  rw [segments, segmentsAfter_of_ne_nil #[] h, toList_segmentsAfter]
  rfl

theorem decomposes_segments (bytes : List UInt8) : Decomposes bytes (segments bytes) := by
  induction bytes using induction_on_leading with
  | nil =>
    rw [segments_nil]
    exact Decomposes.nil
  | cut bytes hne ih =>
    rw [segments_of_ne_nil hne]
    exact Decomposes.cons (starts_leading hne) ih

/-- Nothing starts where there are no bytes. -/
theorem not_starts_nil : ¬Starts [] s := by
  intro h
  cases h with
  | letter c h => exact String.utf8EncodeChar_ne_nil (List.prefix_nil.mp h)
  | broken n none pos inside => exact absurd inside (Nat.not_le.mpr pos)

theorem Decomposes.unique (h : Decomposes bytes cut) (h' : Decomposes bytes other) :
    cut = other := by
  induction h generalizing other with
  | nil =>
    cases h' with
    | nil => rfl
    | cons hs => exact absurd hs not_starts_nil
  | cons hs hlater ih =>
    cases h' with
    | nil => exact absurd hs not_starts_nil
    | cons hs' hlater' =>
      obtain rfl := hs.unique hs'
      rw [ih hlater']

/-! ### Texts -/

/-- The encoding of a text is cut into its letters, whatever comes after it. -/
theorem segments_encode_append (text : List Char) (tail : List UInt8) :
    segments (text.flatMap utf8EncodeChar ++ tail) = text.map Segment.ofChar ++ segments tail := by
  induction text with
  | nil => rfl
  | cons c text ih =>
    have hne : utf8EncodeChar c ++ (text.flatMap utf8EncodeChar ++ tail) ≠ [] :=
      List.append_ne_nil_of_left_ne_nil String.utf8EncodeChar_ne_nil _
    rw [List.flatMap_cons, List.append_assoc, segments_of_ne_nil hne, leading_encode_append,
      Segment.size, List.drop_left, ih]
    rfl

/-- Bytes encode a text as far as they start with letters. -/
theorem exists_text_append (bytes : List UInt8) :
    ∃ (text : List Char) (tail : List UInt8), bytes = text.flatMap utf8EncodeChar ++ tail ∧
      (leading tail).isLetter = false := by
  induction bytes using induction_on_leading with
  | nil => exact ⟨[], [], rfl, rfl⟩
  | cut bytes hne ih =>
    cases hl : leading bytes with
    | letter c n =>
      obtain ⟨⟨rest, rfl⟩, rfl⟩ := leading_eq_letter_iff.mp hl
      rw [hl, Segment.size, List.drop_left] at ih
      obtain ⟨text, tail, rfl, htail⟩ := ih
      exact ⟨c :: text, tail, (List.append_assoc _ _ _).symm, htail⟩
    | broken n => exact ⟨[], bytes, rfl, by rw [hl]; rfl⟩

end Utf8

end BranchCursor
