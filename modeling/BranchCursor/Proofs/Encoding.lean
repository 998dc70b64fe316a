import BranchCursor.Bytes.Utf8
import Mathlib.Data.List.Basic

/-! What the leading segment of a byte string is, said by the encodings of characters alone.
A letter is found exactly where an encoding stands; otherwise the segment is the longest proper
beginning of an encoding found there. Bytes that settle a segment settle it whatever follows. -/
namespace BranchCursor.Utf8
open String (utf8EncodeChar)

/-- A beginning of some encoding that is not all of it. -/
def Begins (bytes : List UInt8) : Prop :=
  ∃ c, bytes <+: utf8EncodeChar c ∧ bytes ≠ utf8EncodeChar c

/-- What a byte string starts with: an encoding, or where none stands the longest proper beginning
of one, and a single byte if not even that begins an encoding. -/
inductive Starts (bytes : List UInt8) : Segment → Prop where
  | letter (c : Char) (h : utf8EncodeChar c <+: bytes) :
    Starts bytes (.letter c (utf8EncodeChar c).length)
  | broken (n : Nat) (none : ∀ c, ¬utf8EncodeChar c <+: bytes) (pos : 0 < n)
    (inside : n ≤ bytes.length) (begins : n = 1 ∨ Begins (bytes.take n))
    (longest : ∀ m ≤ bytes.length, n < m → ¬Begins (bytes.take m)) : Starts bytes (.broken n)

/-! ### Lead bytes -/

theorem lead_one {b : Nat} (h : b < 0x80) : lead b = some ⟨0, 0x80, 0xBF, b⟩ := if_pos h

theorem lead_two {b : Nat} (h : 0xC2 ≤ b) (h' : b < 0xE0) :
    lead b = some ⟨1, 0x80, 0xBF, b - 0xC0⟩ := by
  rw [lead, if_neg (by omega), if_neg (by omega), if_pos h']

/-- A continuation byte in the window of its lead makes neither a surrogate nor a value that a
shorter sequence has. -/
theorem lead_three {b : Nat} (h : 0xE0 ≤ b) (h' : b < 0xF0) :
    ∃ low high, lead b = some ⟨2, low, high, b - 0xE0⟩ ∧ ∀ x, low ≤ x ∧ x ≤ high ↔
      0x80 ≤ x ∧ x ≤ 0xBF ∧ 0x20 ≤ (b - 0xE0) * 64 + (x - 0x80) ∧
        ((b - 0xE0) * 64 + (x - 0x80) < 0x360 ∨ 0x380 ≤ (b - 0xE0) * 64 + (x - 0x80)) := by
  rw [lead, if_neg (by omega), if_neg (by omega), if_neg (by omega)]
  split
  · subst b
    exact ⟨_, _, rfl, fun x => by omega⟩
  split
  · subst b
    exact ⟨_, _, rfl, fun x => by omega⟩
  · exact ⟨_, _, rfl, fun x => by omega⟩

/-- Nor does one after a lead of four make a value beyond the last character. -/
theorem lead_four {b : Nat} (h : 0xF0 ≤ b) (h' : b < 0xF5) :
    ∃ low high, lead b = some ⟨3, low, high, b - 0xF0⟩ ∧ ∀ x, low ≤ x ∧ x ≤ high ↔
      0x80 ≤ x ∧ x ≤ 0xBF ∧ 0x10 ≤ (b - 0xF0) * 64 + (x - 0x80) ∧
        (b - 0xF0) * 64 + (x - 0x80) < 0x110 := by
  rw [lead, if_neg (by omega), if_neg (by omega), if_neg (by omega), if_neg (by omega),
    if_neg (by omega), if_neg (by omega)]
  split
  · subst b
    exact ⟨_, _, rfl, fun x => by omega⟩
  split
  · exact ⟨_, _, rfl, fun x => by omega⟩
  · rw [if_pos (by omega)]
    exact ⟨_, _, by rw [show b = 0xF4 by omega], fun x => by omega⟩

theorem lead_none {b : Nat} (h : 0x80 ≤ b ∧ b < 0xC2 ∨ 0xF5 ≤ b) : lead b = none := by
  unfold lead
  rcases h with ⟨h, h'⟩ | h
  · rw [if_neg (by omega), if_pos h']
  · rw [if_neg (by omega), if_neg (by omega), if_neg (by omega), if_neg (by omega),
      if_neg (by omega), if_neg (by omega), if_neg (by omega), if_neg (by omega),
      if_neg (by omega)]

/-- Whatever a byte leads, the window for the next one is there and holds continuations only. -/
theorem lead_window {b : Nat} {l : Lead} (h : lead b = some l) :
    l.low ≤ l.high ∧ l.high ≤ 0xBF := by
  unfold lead at h
  repeat' split at h
  all_goals cases h <;> simp

/-! ### Letters -/

variable {bytes rest : List UInt8} {c : Char} {n : Nat}

/-- A character value is below the surrogates or above them. -/
theorem scalar (c : Char) :
    c.val.toNat < 0xD800 ∨ 0xE000 ≤ c.val.toNat ∧ c.val.toNat < 0x110000 := by
  rcases c.valid with h | ⟨h, h'⟩
  · exact Or.inl h
  · exact Or.inr ⟨h, h'⟩

theorem val_ofNat {v : Nat} (h : v < 0xD800 ∨ 0xE000 ≤ v ∧ v < 0x110000) :
    (Char.ofNat v).val.toNat = v := by
  have hv : v.isValidChar := h
  rw [Char.ofNat, dif_pos hv]
  rfl

section Encode
variable {b x y z : UInt8}

theorem encode_one (h : c.val.toNat < 0x80) (hb : b.toNat = c.val.toNat) :
    utf8EncodeChar c = [b] := by
  rw [utf8EncodeChar, if_pos (by omega), ← hb, UInt8.ofNat_toNat]

theorem encode_two (h : 0x80 ≤ c.val.toNat) (h' : c.val.toNat < 0x800)
    (hb : b.toNat = c.val.toNat / 0x40 + 0xC0) (hx : x.toNat = c.val.toNat % 0x40 + 0x80) :
    utf8EncodeChar c = [b, x] := by
  rw [utf8EncodeChar, if_neg (by omega), if_pos (by omega), Nat.mod_eq_of_lt (by omega), ← hb,
    ← hx, UInt8.ofNat_toNat, UInt8.ofNat_toNat]

theorem encode_three (h : 0x800 ≤ c.val.toNat) (h' : c.val.toNat < 0x10000)
    (hb : b.toNat = c.val.toNat / 0x1000 + 0xE0)
    (hx : x.toNat = c.val.toNat / 0x40 % 0x40 + 0x80) (hy : y.toNat = c.val.toNat % 0x40 + 0x80) :
    utf8EncodeChar c = [b, x, y] := by
  rw [utf8EncodeChar, if_neg (by omega), if_neg (by omega), if_pos (by omega),
    Nat.mod_eq_of_lt (by omega : c.val.toNat / 0x1000 < 0x10), ← hb, ← hx, ← hy,
    UInt8.ofNat_toNat, UInt8.ofNat_toNat, UInt8.ofNat_toNat]

theorem encode_four (h : 0x10000 ≤ c.val.toNat) (hb : b.toNat = c.val.toNat / 0x40000 + 0xF0)
    (hx : x.toNat = c.val.toNat / 0x1000 % 0x40 + 0x80)
    (hy : y.toNat = c.val.toNat / 0x40 % 0x40 + 0x80) (hz : z.toNat = c.val.toNat % 0x40 + 0x80) :
    utf8EncodeChar c = [b, x, y, z] := by
  have hv := scalar c
  rw [utf8EncodeChar, if_neg (by omega), if_neg (by omega), if_neg (by omega),
    Nat.mod_eq_of_lt (by omega : c.val.toNat / 0x40000 < 0x08), ← hb, ← hx, ← hy, ← hz,
    UInt8.ofNat_toNat, UInt8.ofNat_toNat, UInt8.ofNat_toNat, UInt8.ofNat_toNat]

end Encode

/-- The bytes of an encoding, by the value of its character: the lead has the highest bits, and
each byte after it six more. -/
theorem encode_cases (c : Char) :
    let v := c.val.toNat
    (∃ b, utf8EncodeChar c = [b] ∧ v < 0x80 ∧ b.toNat = v) ∨
    (∃ b x, utf8EncodeChar c = [b, x] ∧ (0x80 ≤ v ∧ v < 0x800) ∧
      b.toNat = v / 0x40 + 0xC0 ∧ x.toNat = v % 0x40 + 0x80) ∨
    (∃ b x y, utf8EncodeChar c = [b, x, y] ∧ (0x800 ≤ v ∧ v < 0x10000) ∧
      b.toNat = v / 0x1000 + 0xE0 ∧ x.toNat = v / 0x40 % 0x40 + 0x80 ∧
      y.toNat = v % 0x40 + 0x80) ∨
    ∃ b x y z, utf8EncodeChar c = [b, x, y, z] ∧ 0x10000 ≤ v ∧
      b.toNat = v / 0x40000 + 0xF0 ∧ x.toNat = v / 0x1000 % 0x40 + 0x80 ∧
      y.toNat = v / 0x40 % 0x40 + 0x80 ∧ z.toNat = v % 0x40 + 0x80 := by
  intro v
  have hv : v < 0xD800 ∨ 0xE000 ≤ v ∧ v < 0x110000 := scalar c
  have hbyte : ∀ k < 0x100, (UInt8.ofNat k).toNat = k := fun k hk => by
    rw [UInt8.toNat_ofNat', Nat.mod_eq_of_lt hk]
  by_cases h₁ : v < 0x80
  · have hb := hbyte v (by omega)
    exact Or.inl ⟨_, encode_one h₁ hb, h₁, hb⟩
  have hlast := hbyte (v % 0x40 + 0x80) (by omega)
  by_cases h₂ : v < 0x800
  · have hb := hbyte (v / 0x40 + 0xC0) (by omega)
    exact Or.inr (Or.inl ⟨_, _, encode_two (by omega) h₂ hb hlast, by omega, hb, hlast⟩)
  have hmiddle := hbyte (v / 0x40 % 0x40 + 0x80) (by omega)
  by_cases h₃ : v < 0x10000
  · have hb := hbyte (v / 0x1000 + 0xE0) (by omega)
    exact Or.inr (Or.inr (Or.inl ⟨_, _, _, encode_three (by omega) h₃ hb hmiddle hlast, by omega,
      hb, hmiddle, hlast⟩))
  · have hb := hbyte (v / 0x40000 + 0xF0) (by omega)
    have hx := hbyte (v / 0x1000 % 0x40 + 0x80) (by omega)
    exact Or.inr (Or.inr (Or.inr ⟨_, _, _, _, encode_four (by omega) hb hx hmiddle hlast, by omega,
      hb, hx, hmiddle, hlast⟩))

/-- A byte that is owed is there, in its window, and the rest follows. -/
theorem follow_succ_eq_letter_iff {owed low high bits taken : Nat} :
    follow (owed + 1) low high bits taken bytes = .letter c n ↔
      ∃ x rest, bytes = x :: rest ∧ (low ≤ x.toNat ∧ x.toNat ≤ high) ∧
        follow owed 0x80 0xBF (bits * 64 + (x.toNat - 0x80)) (taken + 1) rest = .letter c n := by
  constructor
  · intro h
    cases bytes with
    | nil => cases h
    | cons x rest =>
      rw [follow] at h
      split at h
      · rename_i hx
        exact ⟨x, rest, rfl, hx, h⟩
      · cases h
  · rintro ⟨x, rest, rfl, hx, h⟩
    rw [follow, if_pos hx]
    exact h

theorem leading_of_lead {b : UInt8} {owed low high bits : Nat}
    (h : lead b.toNat = some ⟨owed, low, high, bits⟩) (rest : List UInt8) :
    leading (b :: rest) = follow owed low high bits 1 rest := by
  simp only [leading, h]

theorem leading_of_lead_none {b : UInt8} (h : lead b.toNat = none) (rest : List UInt8) :
    leading (b :: rest) = .broken 1 := by
  simp only [leading, h]

theorem follow_zero (low high : Nat) {bits taken : Nat} (h : bits = c.val.toNat) :
    follow 0 low high bits taken bytes = .letter c taken := by
  rw [follow, h]
  exact congrArg (Segment.letter · taken) (Char.ofNat_toNat c)

/-- An encoding is read as the letter it encodes, whatever comes after it. -/
theorem leading_encode_append (c : Char) (rest : List UInt8) :
    leading (utf8EncodeChar c ++ rest) = .letter c (utf8EncodeChar c).length := by
  have hv := scalar c
  rcases encode_cases c with ⟨b, he, hr, hb⟩ | ⟨b, x, he, hr, hb, hx⟩ |
    ⟨b, x, y, he, hr, hb, hx, hy⟩ | ⟨b, x, y, z, he, hr, hb, hx, hy, hz⟩
  · have hl := lead_one (b := b.toNat) (by omega)
    rw [he, List.cons_append, leading_of_lead hl]
    exact follow_zero _ _ (by omega)
  · have hl := lead_two (b := b.toNat) (by omega) (by omega)
    rw [he, List.cons_append, leading_of_lead hl, follow_succ_eq_letter_iff]
    refine ⟨x, rest, rfl, by omega, ?_⟩
    exact follow_zero _ _ (by omega)
  · obtain ⟨low, high, hl, hw⟩ := lead_three (b := b.toNat) (by omega) (by omega)
    rw [he, List.cons_append, leading_of_lead hl, follow_succ_eq_letter_iff]
    refine ⟨x, y :: rest, rfl, (hw _).mpr (by omega), ?_⟩
    rw [follow_succ_eq_letter_iff]
    refine ⟨y, rest, rfl, by omega, ?_⟩
    exact follow_zero _ _ (by omega)
  · obtain ⟨low, high, hl, hw⟩ := lead_four (b := b.toNat) (by omega) (by omega)
    rw [he, List.cons_append, leading_of_lead hl, follow_succ_eq_letter_iff]
    refine ⟨x, y :: z :: rest, rfl, (hw _).mpr (by omega), ?_⟩
    rw [follow_succ_eq_letter_iff]
    refine ⟨y, z :: rest, rfl, by omega, ?_⟩
    rw [follow_succ_eq_letter_iff]
    refine ⟨z, rest, rfl, by omega, ?_⟩
    exact follow_zero _ _ (by omega)

/-- A letter is read only where its encoding stands. -/
theorem encode_prefix_of_leading (h : leading bytes = .letter c n) :
    utf8EncodeChar c <+: bytes := by
  match bytes with
  | [] => cases h
  | b :: rest =>
    by_cases h₁ : b.toNat < 0x80
    · rw [leading_of_lead (lead_one h₁), follow] at h
      obtain ⟨rfl, -⟩ := Segment.letter.inj h
      have hv := val_ofNat (v := b.toNat) (by omega)
      rw [encode_one (by omega) hv.symm]
      exact ⟨rest, rfl⟩
    by_cases h₂ : 0xC2 ≤ b.toNat ∧ b.toNat < 0xE0
    · rw [leading_of_lead (lead_two h₂.1 h₂.2), follow_succ_eq_letter_iff] at h
      obtain ⟨x, rest, rfl, hx, h⟩ := h
      rw [follow] at h
      obtain ⟨rfl, -⟩ := Segment.letter.inj h
      have hv := val_ofNat (v := (b.toNat - 0xC0) * 64 + (x.toNat - 0x80)) (by omega)
      rw [encode_two (b := b) (x := x) (by omega) (by omega) (by omega) (by omega)]
      exact ⟨rest, rfl⟩
    by_cases h₃ : 0xE0 ≤ b.toNat ∧ b.toNat < 0xF0
    · obtain ⟨low, high, hl, hw⟩ := lead_three h₃.1 h₃.2
      rw [leading_of_lead hl, follow_succ_eq_letter_iff] at h
      obtain ⟨x, rest, rfl, hx, h⟩ := h
      rw [follow_succ_eq_letter_iff] at h
      obtain ⟨y, rest, rfl, hy, h⟩ := h
      rw [follow] at h
      obtain ⟨rfl, -⟩ := Segment.letter.inj h
      replace hx := (hw _).mp hx
      have hv := val_ofNat
        (v := ((b.toNat - 0xE0) * 64 + (x.toNat - 0x80)) * 64 + (y.toNat - 0x80)) (by omega)
      rw [encode_three (b := b) (x := x) (y := y) (by omega) (by omega) (by omega) (by omega)
        (by omega)]
      exact ⟨rest, rfl⟩
    by_cases h₄ : 0xF0 ≤ b.toNat ∧ b.toNat < 0xF5
    · obtain ⟨low, high, hl, hw⟩ := lead_four h₄.1 h₄.2
      rw [leading_of_lead hl, follow_succ_eq_letter_iff] at h
      obtain ⟨x, rest, rfl, hx, h⟩ := h
      rw [follow_succ_eq_letter_iff] at h
      obtain ⟨y, rest, rfl, hy, h⟩ := h
      rw [follow_succ_eq_letter_iff] at h
      obtain ⟨z, rest, rfl, hz, h⟩ := h
      rw [follow] at h
      obtain ⟨rfl, -⟩ := Segment.letter.inj h
      replace hx := (hw _).mp hx
      have hv := val_ofNat
        (v := (((b.toNat - 0xF0) * 64 + (x.toNat - 0x80)) * 64 + (y.toNat - 0x80)) * 64 +
          (z.toNat - 0x80)) (by omega)
      rw [encode_four (b := b) (x := x) (y := y) (z := z) (by omega) (by omega) (by omega)
        (by omega) (by omega)]
      exact ⟨rest, rfl⟩
    · rw [leading_of_lead_none (lead_none (by omega))] at h
      cases h

theorem leading_eq_letter_iff :
    leading bytes = .letter c n ↔ utf8EncodeChar c <+: bytes ∧ n = (utf8EncodeChar c).length := by
  constructor
  · intro h
    obtain ⟨rest, rfl⟩ := encode_prefix_of_leading h
    rw [leading_encode_append] at h
    exact ⟨List.prefix_append _ _, (Segment.letter.inj h).2.symm⟩
  · rintro ⟨⟨rest, rfl⟩, rfl⟩
    exact leading_encode_append c rest

/-! ### What more bytes can change -/

variable {owed low high bits taken k : Nat}

theorem follow_append (more : List UInt8)
    (h : (follow owed low high bits taken bytes).isLetter = true ∨
      (follow owed low high bits taken bytes).size < taken + bytes.length) :
    follow owed low high bits taken (bytes ++ more) = follow owed low high bits taken bytes := by
  fun_induction follow owed low high bits taken bytes with
  | case1 => rfl
  | case2 => simp [Segment.isLetter, Segment.size] at h
  | case3 owed low high bits taken b rest hb ih =>
    rw [List.cons_append, follow, if_pos hb]
    refine ih (h.imp_right fun h => ?_)
    rw [List.length_cons] at h
    omega
  | case4 owed low high bits taken b rest hb => rw [List.cons_append, follow, if_neg hb]

theorem size_follow_le_append (more : List UInt8) :
    (follow owed low high bits taken bytes).size ≤
      (follow owed low high bits taken (bytes ++ more)).size := by
  fun_induction follow owed low high bits taken bytes with
  | case1 => simp [follow]
  | case2 => exact taken_le_size_follow _ _ _ _ _ _
  | case3 owed low high bits taken b rest hb ih =>
    rw [List.cons_append, follow, if_pos hb]
    exact ih
  | case4 owed low high bits taken b rest hb =>
    have hsame : follow (owed + 1) low high bits taken (b :: rest ++ more) = .broken taken := by
      rw [List.cons_append, follow, if_neg hb]
    exact Nat.le_of_eq (congrArg Segment.size hsame.symm)

/-- As long as a segment is not complete, the bytes seen of it are an ill-formed run. -/
theorem follow_take_of_lt (h : taken + k < (follow owed low high bits taken bytes).size) :
    follow owed low high bits taken (bytes.take k) = .broken (taken + k) := by
  fun_induction follow owed low high bits taken bytes generalizing k with
  | case1 => simp only [Segment.size] at h; omega
  | case2 => simp only [Segment.size] at h; omega
  | case3 owed low high bits taken b rest hb ih =>
    cases k with
    | zero => rfl
    | succ k =>
      rw [List.take_succ_cons, follow, if_pos hb, ih (by omega), Nat.add_right_comm]
      rfl
  | case4 => simp only [Segment.size] at h; omega

/-- Any bytes that are owed can be supplied. -/
theorem exists_follow_eq_letter (owed low high bits taken : Nat) (h : low ≤ high ∧ high ≤ 0xBF) :
    ∃ more c, more.length = owed + 1 ∧
      follow (owed + 1) low high bits taken more = .letter c (taken + more.length) := by
  have hlow : (UInt8.ofNat low).toNat = low := by
    rw [UInt8.toNat_ofNat', Nat.mod_eq_of_lt (by omega)]
  have hfits : low ≤ (UInt8.ofNat low).toNat ∧ (UInt8.ofNat low).toNat ≤ high := by omega
  induction owed generalizing low high bits taken with
  | zero =>
    refine ⟨[UInt8.ofNat low], Char.ofNat (bits * 64 + (low - 0x80)), rfl, ?_⟩
    rw [follow, if_pos hfits, follow, hlow]
    rfl
  | succ owed ih =>
    obtain ⟨more, c, hlength, hmore⟩ :=
      ih 0x80 0xBF (bits * 64 + (low - 0x80)) (taken + 1) (by decide) rfl (by decide)
    refine ⟨UInt8.ofNat low :: more, c, by rw [List.length_cons, hlength], ?_⟩
    rw [follow, if_pos hfits, hlow, hmore, List.length_cons]
    congr 1
    omega

/-- What stands before the byte that breaks a sequence off can be completed to a letter. -/
theorem exists_completion (hw : low ≤ high ∧ high ≤ 0xBF)
    (h : follow owed low high bits taken bytes = .broken n) :
    ∃ more c, more ≠ [] ∧ follow owed low high bits taken (bytes.take (n - taken) ++ more) =
      .letter c (n + more.length) := by
  fun_induction follow owed low high bits taken bytes with
  | case1 => cases h
  | case2 low high bits owed taken =>
    obtain rfl := Segment.broken.inj h
    obtain ⟨more, c, hlength, hmore⟩ := exists_follow_eq_letter owed low high bits taken hw
    exact ⟨more, c, List.ne_nil_of_length_eq_add_one hlength, by simpa using hmore⟩
  | case3 owed low high bits taken b rest hb ih =>
    have hle := taken_le_size_follow owed 0x80 0xBF (bits * 64 + (b.toNat - 0x80)) (taken + 1) rest
    rw [h, Segment.size] at hle
    obtain ⟨more, c, hne, hmore⟩ := ih (by decide) h
    refine ⟨more, c, hne, ?_⟩
    rw [show n - taken = n - (taken + 1) + 1 by omega, List.take_succ_cons, List.cons_append,
      follow, if_pos hb]
    exact hmore
  | case4 owed low high bits taken b rest hb =>
    obtain rfl := Segment.broken.inj h
    obtain ⟨more, c, hlength, hmore⟩ := exists_follow_eq_letter owed low high bits taken hw
    exact ⟨more, c, List.ne_nil_of_length_eq_add_one hlength, by simpa using hmore⟩

/-- A letter, or an ill-formed run that another byte follows, is there to stay. -/
theorem leading_append (more : List UInt8)
    (h : (leading bytes).isLetter = true ∨ (leading bytes).size < bytes.length) :
    leading (bytes ++ more) = leading bytes := by
  match bytes with
  | [] => simp [leading, Segment.isLetter, Segment.size] at h
  | b :: rest =>
    cases hl : lead b.toNat with
    | none => rw [List.cons_append, leading_of_lead_none hl, leading_of_lead_none hl]
    | some l =>
      rw [leading_of_lead hl] at h
      rw [List.cons_append, leading_of_lead hl, leading_of_lead hl]
      refine follow_append more (h.imp_right fun h => ?_)
      rw [List.length_cons] at h
      omega

theorem size_leading_le_append (bytes more : List UInt8) :
    (leading bytes).size ≤ (leading (bytes ++ more)).size := by
  match bytes with
  | [] => exact Nat.zero_le _
  | b :: rest =>
    cases hl : lead b.toNat with
    | none =>
      have hsame : leading (b :: rest) = leading (b :: rest ++ more) :=
        (leading_of_lead_none hl rest).trans (leading_of_lead_none hl (rest ++ more)).symm
      exact Nat.le_of_eq (congrArg Segment.size hsame)
    | some l =>
      rw [List.cons_append, leading_of_lead hl, leading_of_lead hl]
      exact size_follow_le_append more

theorem leading_take_of_lt (hk : 0 < k) (h : k < (leading bytes).size) :
    leading (bytes.take k) = .broken k := by
  match bytes, k with
  | [], _ => exact absurd h (Nat.not_lt_zero _)
  | b :: rest, k + 1 =>
    cases hl : lead b.toNat with
    | none =>
      rw [leading_of_lead_none hl, Segment.size] at h
      omega
    | some l =>
      rw [leading_of_lead hl] at h
      rw [List.take_succ_cons, leading_of_lead hl, follow_take_of_lt (by omega), Nat.add_comm]

/-! ### The segment that a byte string starts with -/

/-- A proper beginning of an encoding is itself read as an ill-formed run. -/
theorem leading_of_begins (h : Begins bytes) (hne : bytes ≠ []) :
    leading bytes = .broken bytes.length := by
  obtain ⟨c, hp, hc⟩ := h
  have hlt : bytes.length < (utf8EncodeChar c).length :=
    Nat.lt_of_le_of_ne hp.length_le fun he => hc (hp.eq_of_length he)
  have hletter := leading_encode_append c []
  rw [List.append_nil] at hletter
  rw [List.prefix_iff_eq_take.mp hp]
  refine (leading_take_of_lt (List.length_pos_iff.mpr hne) (by rwa [hletter])).trans ?_
  rw [← List.prefix_iff_eq_take.mp hp]

/-- An ill-formed run of more than one byte begins an encoding. -/
theorem begins_of_leading (h : leading bytes = .broken n) : n ≤ 1 ∨ Begins (bytes.take n) := by
  match bytes with
  | [] => cases h; exact Or.inl (Nat.zero_le _)
  | b :: rest =>
    have hle := size_leading_le (b :: rest)
    have hpos := size_leading_pos b rest
    rw [h, Segment.size] at hle hpos
    cases hl : lead b.toNat with
    | none =>
      rw [leading_of_lead_none hl] at h
      cases h
      exact Or.inl (Nat.le_refl _)
    | some l =>
      rw [leading_of_lead hl] at h
      obtain ⟨more, c, hne, hmore⟩ := exists_completion (lead_window hl) h
      have htake : (b :: rest).take n = b :: rest.take (n - 1) := by
        rw [← List.take_succ_cons, Nat.sub_add_cancel hpos]
      rw [← leading_of_lead hl, ← List.cons_append, ← htake, leading_eq_letter_iff] at hmore
      obtain ⟨hp, hlength⟩ := hmore
      have heq := hp.eq_of_length (by
        rw [← hlength, List.length_append, List.length_take, Nat.min_eq_left hle])
      refine Or.inr ⟨c, ?_, ?_⟩
      · rw [heq]
        exact List.prefix_append _ _
      · rw [heq]
        exact fun he => hne (List.self_eq_append_right.mp he)

/-- Three bytes are the most that an ill-formed run has. -/
theorem broken_le_three (h : leading bytes = .broken n) : n ≤ 3 := by
  have hle := size_leading_le bytes
  rw [h, Segment.size] at hle
  rcases begins_of_leading h with h | ⟨c, hp, hne⟩
  · omega
  · have hlength : (utf8EncodeChar c).length ≤ 4 := by
      rw [String.length_utf8EncodeChar]
      exact c.utf8Size_le_four
    have hlt := Nat.lt_of_le_of_ne hp.length_le fun he => hne (hp.eq_of_length he)
    rw [List.length_take] at hlt
    omega

/-- Four bytes are the most that a segment has. -/
theorem size_leading_le_four (bytes : List UInt8) : (leading bytes).size ≤ 4 := by
  cases hl : leading bytes with
  | letter c n =>
    rw [Segment.size, (leading_eq_letter_iff.mp hl).2, String.length_utf8EncodeChar]
    exact c.utf8Size_le_four
  | broken n => exact Nat.le_succ_of_le (broken_le_three hl)

theorem size_leading_pos_of_ne_nil (h : bytes ≠ []) : 0 < (leading bytes).size := by
  obtain ⟨b, rest, rfl⟩ := List.exists_cons_of_ne_nil h
  exact size_leading_pos b rest

theorem starts_leading (h : bytes ≠ []) : Starts bytes (leading bytes) := by
  have hpos := size_leading_pos_of_ne_nil h
  have hle := size_leading_le bytes
  cases hl : leading bytes with
  | letter c n =>
    obtain ⟨hp, rfl⟩ := leading_eq_letter_iff.mp hl
    exact Starts.letter c hp
  | broken n =>
    rw [hl, Segment.size] at hpos hle
    refine Starts.broken n ?_ hpos hle ?_ ?_
    · intro c hp
      rw [leading_eq_letter_iff.mpr ⟨hp, rfl⟩] at hl
      cases hl
    · exact (begins_of_leading hl).imp_left fun h => by omega
    · intro m hm hnm hbegins
      have hrun := leading_of_begins hbegins (by
        rw [← List.length_pos_iff, List.length_take]
        omega)
      have hmono := size_leading_le_append (bytes.take m) (bytes.drop m)
      rw [List.take_append_drop, hl, hrun, List.length_take] at hmono
      simp only [Segment.size] at hmono
      omega

theorem Starts.unique {s t : Segment} (hs : Starts bytes s) (ht : Starts bytes t) : s = t := by
  cases hs with
  | letter c hc =>
    cases ht with
    | letter d hd =>
      exact (leading_eq_letter_iff.mpr ⟨hc, rfl⟩).symm.trans (leading_eq_letter_iff.mpr ⟨hd, rfl⟩)
    | broken m none => exact absurd hc (none c)
  | broken n none pos inside begins longest =>
    cases ht with
    | letter d hd => exact absurd hd (none d)
    | broken m none' pos' inside' begins' longest' =>
      rcases Nat.lt_trichotomy n m with h | rfl | h
      · exact absurd (begins'.resolve_left (by omega)) (longest m inside' h)
      · rfl
      · exact absurd (begins.resolve_left (by omega)) (longest' n inside h)

/-- Only the first byte of an encoding begins one. -/
theorem eq_nil_of_encode_eq {before tail more : List UInt8} {b : UInt8} {c d : Char}
    (hc : utf8EncodeChar c = b :: tail) (hd : utf8EncodeChar d = before ++ b :: more) : before = [] := by
  have hfirst : (utf8EncodeChar c)[0]? = some b := by simp [hc]
  have hother : (utf8EncodeChar d)[before.length]? = some b := by simp [hd]
  obtain ⟨_, hb⟩ := List.getElem?_eq_some_iff.mp hfirst
  obtain ⟨_, hb'⟩ := List.getElem?_eq_some_iff.mp hother
  have hbegins : b.IsUTF8FirstByte := hb ▸ UInt8.isUTF8FirstByte_getElem_utf8EncodeChar.mpr rfl
  exact List.length_eq_zero_iff.mp (UInt8.isUTF8FirstByte_getElem_utf8EncodeChar.mp (hb' ▸ hbegins))

end BranchCursor.Utf8
