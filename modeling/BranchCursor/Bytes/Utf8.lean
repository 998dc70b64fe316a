/-! UTF-8 as segments: the character, or the ill-formed run, that a byte string starts with.
An ill-formed run is the longest beginning of a well-formed sequence found there, at least one
byte, so decoding resumes at the first byte that could start a character. -/
namespace BranchCursor

/-- The first piece of a byte string and its number of bytes. -/
inductive Segment where
  | letter (c : Char) (size : Nat)
  | broken (size : Nat)
  deriving DecidableEq, Repr

namespace Segment

def size : Segment → Nat
  | letter _ n => n
  | broken n => n

def isLetter : Segment → Bool
  | letter .. => true
  | broken _ => false

end Segment

namespace Utf8

/-- The character that stands for an ill-formed run. -/
def replacement : Char := '\uFFFD'

/-- What a lead byte announces: how many bytes it owes, the range of the next one, and its bits. -/
structure Lead where
  owed : Nat
  low : Nat
  high : Nat
  bits : Nat
  deriving DecidableEq, Repr

/-- The narrowed ranges after E0, ED, F0 and F4 keep out overlong forms, surrogates and values
above U+10FFFF; C0, C1 and everything from F5 on lead no sequence. -/
def lead (b : Nat) : Option Lead :=
  if b < 0x80 then some ⟨0, 0x80, 0xBF, b⟩
  else if b < 0xC2 then none
  else if b < 0xE0 then some ⟨1, 0x80, 0xBF, b - 0xC0⟩
  else if b = 0xE0 then some ⟨2, 0xA0, 0xBF, 0⟩
  else if b = 0xED then some ⟨2, 0x80, 0x9F, 0xD⟩
  else if b < 0xF0 then some ⟨2, 0x80, 0xBF, b - 0xE0⟩
  else if b = 0xF0 then some ⟨3, 0x90, 0xBF, 0⟩
  else if b < 0xF4 then some ⟨3, 0x80, 0xBF, b - 0xF0⟩
  else if b = 0xF4 then some ⟨3, 0x80, 0x8F, 4⟩
  else none

/-- The bytes after a lead: six bits each, until all that are owed came or one does not fit. -/
def follow : (owed low high bits taken : Nat) → List UInt8 → Segment
  | 0, _, _, bits, taken, _ => .letter (Char.ofNat bits) taken
  | _ + 1, _, _, _, taken, [] => .broken taken
  | owed + 1, low, high, bits, taken, b :: rest =>
    if low ≤ b.toNat ∧ b.toNat ≤ high then
      follow owed 0x80 0xBF (bits * 64 + (b.toNat - 0x80)) (taken + 1) rest
    else .broken taken

/-- The segment a byte string starts with; the empty string has a broken one of no bytes. -/
def leading : List UInt8 → Segment
  | [] => .broken 0
  | b :: rest =>
    match lead b.toNat with
    | none => .broken 1
    | some l => follow l.owed l.low l.high l.bits 1 rest

theorem taken_le_size_follow (owed low high bits taken : Nat) (bytes : List UInt8) :
    taken ≤ (follow owed low high bits taken bytes).size := by
  fun_induction follow owed low high bits taken bytes with
  | case1 => simp [Segment.size]
  | case2 => simp [Segment.size]
  | case3 owed low high bits taken b rest _ ih => omega
  | case4 => simp [Segment.size]

theorem size_follow_le (owed low high bits taken : Nat) (bytes : List UInt8) :
    (follow owed low high bits taken bytes).size ≤ taken + bytes.length := by
  fun_induction follow owed low high bits taken bytes with
  | case1 => simp [Segment.size]
  | case2 => simp [Segment.size]
  | case3 owed low high bits taken b rest _ ih => simp only [List.length_cons]; omega
  | case4 => simp [Segment.size]

theorem size_leading_pos (b : UInt8) (rest : List UInt8) : 0 < (leading (b :: rest)).size := by
  simp only [leading]
  split
  · simp [Segment.size]
  · exact taken_le_size_follow ..

theorem size_leading_le (bytes : List UInt8) : (leading bytes).size ≤ bytes.length := by
  match bytes with
  | [] => simp [leading, Segment.size]
  | b :: rest =>
    cases h : lead b.toNat with
    | none => simp [leading, h, Segment.size]
    | some l =>
      have := size_follow_le l.owed l.low l.high l.bits 1 rest
      simp only [leading, h, List.length_cons]
      omega

theorem length_drop_leading_lt (b : UInt8) (rest : List UInt8) :
    ((b :: rest).drop (leading (b :: rest)).size).length < (b :: rest).length := by
  have := size_leading_pos b rest
  simp only [List.length_drop, List.length_cons]
  omega

/-- A whole byte string cut into segments from left to right, after those found before. -/
def segmentsAfter (found : Array Segment) : List UInt8 → Array Segment
  | [] => found
  | b :: rest =>
    segmentsAfter (found.push (leading (b :: rest))) ((b :: rest).drop (leading (b :: rest)).size)
termination_by bytes => bytes.length
decreasing_by exact length_drop_leading_lt b rest

def segments (bytes : List UInt8) : List Segment := (segmentsAfter #[] bytes).toList

/-- Appends the character of a segment, unless a broken one was met. -/
def gatherLetter (text : Option (Array Char)) : Segment → Option (Array Char)
  | .letter c _ => text.map (·.push c)
  | .broken _ => none

/-- The text that a byte string encodes, if all of it is well formed. -/
def decode? (bytes : List UInt8) : Option (Array Char) :=
  (segments bytes).foldl gatherLetter (some #[])

example : leading [0xE2, 0x82, 0xAC, 0x41] = .letter '€' 3 := by decide
example : leading [0xE2, 0x82, 0x41] = .broken 2 := by decide
example : leading [0xED, 0xA0, 0x80] = .broken 1 := by decide

end Utf8

end BranchCursor
