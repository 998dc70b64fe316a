import BranchCursor.CommandLine.Arguments
import Mathlib.Data.Nat.Digits.Defs

/-! Numbers as they are written in words: decimal digits, at least one of them, after a plus sign
or without one. Such a word is read as its number if that is below the limit, and no other is. -/
namespace BranchCursor.CommandLine

/-- The number that decimal digits stand for, the first of them counting most. -/
def decimal (digits : List Char) : Nat :=
  Nat.ofDigits 10 (digits.reverse.map fun c => c.toNat - '0'.toNat)

/-- Whether a word is a way to write a number. -/
def Denotes (word : String) (n : Nat) : Prop :=
  ∃ digits, (word.toList = digits ∨ word.toList = '+' :: digits) ∧ digits ≠ [] ∧
    (∀ c ∈ digits, c.isDigit = true) ∧ decimal digits = n ∧ n < 2 ^ 64

variable {c : Char} {digits : List Char} {m n : Nat}

theorem isDigit_iff : c.isDigit = true ↔ '0' ≤ c ∧ c ≤ '9' := by
  rw [Char.isDigit, Bool.and_eq_true, decide_eq_true_iff, decide_eq_true_iff]
  rfl

theorem decimal_cons (c : Char) (digits : List Char) :
    decimal (c :: digits) = (c.toNat - '0'.toNat) * 10 ^ digits.length + decimal digits := by
  simp only [decimal, List.reverse_cons, List.map_append, List.map_singleton, Nat.ofDigits_append,
    Nat.ofDigits_singleton, List.length_map, List.length_reverse]
  rw [Nat.add_comm, Nat.mul_comm]

/-- Digits are read for the number that they make with the one read before. -/
theorem digits?_eq_some_iff (hm : m < countLimit) : digits? m digits = some n ↔
    (∀ c ∈ digits, c.isDigit = true) ∧ m * 10 ^ digits.length + decimal digits = n ∧
      n < countLimit := by
  induction digits generalizing m with
  | nil =>
    have hvalue : m * 10 ^ ([] : List Char).length + decimal [] = m := by simp [decimal]
    rw [hvalue]
    simp only [digits?, Option.some.injEq, List.not_mem_nil, false_imp_iff, implies_true, true_and]
    exact ⟨fun h => ⟨h, h ▸ hm⟩, And.left⟩
  | cons c later ih =>
    have hvalue : m * 10 ^ (c :: later).length + decimal (c :: later) =
        (10 * m + (c.toNat - '0'.toNat)) * 10 ^ later.length + decimal later := by
      rw [decimal_cons, List.length_cons, Nat.pow_succ]
      ring
    rw [hvalue, List.forall_mem_cons, isDigit_iff, digits?]
    by_cases hc : '0' ≤ c ∧ c ≤ '9'
    · rw [if_pos hc]
      dsimp only
      split
      · rename_i hnext
        rw [ih hnext, and_assoc, and_iff_right hc]
      · rename_i hlarge
        -- more digits only make a number larger
        have hle := Nat.le_mul_of_pos_right (10 * m + (c.toNat - '0'.toNat))
          (Nat.pow_pos (n := later.length) (show 0 < 10 by decide))
        refine iff_of_false (by simp) ?_
        rintro ⟨-, rfl, hn⟩
        omega
    · rw [if_neg hc]
      exact iff_of_false (by simp) fun h => hc h.1.1

/-- A word is read as the number that it is a way to write. -/
theorem count?_eq_some_iff {word : String} : count? word = some n ↔ Denotes word n := by
  have hread (digits : List Char) : digits? 0 digits = some n ↔
      (∀ c ∈ digits, c.isDigit = true) ∧ decimal digits = n ∧ n < 2 ^ 64 := by
    rw [digits?_eq_some_iff (by decide), Nat.zero_mul, Nat.zero_add]
    rfl
  -- a plus sign is no digit, so what is written decides which characters are the digits
  have hplus {digits : List Char} (h : ∀ c ∈ '+' :: digits, c.isDigit = true) : False := by
    simpa using h '+' List.mem_cons_self
  unfold count? Denotes
  generalize word.toList = cs
  split
  · refine iff_of_false (by simp) ?_
    rintro ⟨digits, rfl | h, hne, -⟩
    · exact hne rfl
    · cases h
  · refine iff_of_false (by simp) ?_
    rintro ⟨digits, rfl | h, hne, hdigits, -⟩
    · exact hplus hdigits
    · exact hne (List.cons.inj h).2.symm
  · rename_i later hne
    rw [hread]
    constructor
    · exact fun h => ⟨later, Or.inr rfl, hne, h⟩
    · rintro ⟨digits, rfl | h, -, hdigits⟩
      · exact (hplus hdigits.1).elim
      · rw [(List.cons.inj h).2]
        exact hdigits
  · rename_i hne _ hunsigned
    rw [hread]
    constructor
    · exact fun h => ⟨cs, Or.inl rfl, hne, h⟩
    · rintro ⟨digits, rfl | rfl, -, hdigits⟩
      · exact hdigits
      · exact (hunsigned digits rfl).elim

end BranchCursor.CommandLine
