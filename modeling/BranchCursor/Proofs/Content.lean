import BranchCursor.Supply
import Mathlib.Data.List.Basic

/-! What a supply has to give: the characters before its first end or failure, and this failure.
They depend on the supply alone, and every character lowers the bound on what is to come. -/
namespace BranchCursor

namespace ByteStream

/-- The bytes of a read leave the stream. -/
theorem length_add_weight_read_le {room : Nat} {s later : ByteStream} {bytes : List UInt8}
    (h : s.read room = (.ok bytes, later)) : bytes.length + later.weight ≤ s.weight := by
  unfold read at h
  split at h
  · obtain ⟨hb, rfl⟩ := Prod.mk.inj h
    cases hb
    simp [weight]
  · rename_i hs
    obtain ⟨hb, rfl⟩ := Prod.mk.inj h
    cases hb
    simp [weight, hs]
  · simp at h
  · rename_i data rest hs
    split at h
    · obtain ⟨hb, rfl⟩ := Prod.mk.inj h
      cases hb
      simp only [weight, hs, List.foldr_cons, ByteEvent.weight]
      omega
    · obtain ⟨hb, rfl⟩ := Prod.mk.inj h
      cases hb
      simp only [weight, hs, List.foldr_cons, ByteEvent.weight, List.length_drop,
        List.length_take]
      omega

end ByteStream

namespace Decoder

theorem bound_gather_le (d : Decoder) : d.gather.2.bound ≤ d.bound := by
  fun_induction gather d with
  | case1 d _ => exact Nat.le_refl _
  | case2 d _ input hr =>
    have h := ByteStream.length_add_weight_read_le hr
    simp only [bound] at h ⊢
    omega
  | case3 d _ b more input hr ih =>
    have h := ByteStream.length_add_weight_read_le hr
    simp only [bound, List.length_append, List.length_cons] at h ih ⊢
    omega
  | case4 d _ input hr ih =>
    have h := ByteStream.weight_lt_of_read_error hr
    simp only [bound] at ih ⊢
    omega
  | case5 d _ cause input _ hr =>
    have h := ByteStream.weight_lt_of_read_error hr
    simp only [bound]
    omega

/-- A character is made of at least one byte. -/
theorem bound_emit_lt {d : Decoder} {c : Char} (h : d.emit.1 = .char c) :
    d.emit.2.bound < d.bound := by
  have hsize := Utf8.size_leading_le d.pending
  revert h
  unfold emit
  split
  · simp
  · rename_i b rest hp
    have hpos := Utf8.size_leading_pos b rest
    rw [hp] at hsize
    split
    all_goals
      rename_i hl
      rw [hl] at hpos hsize
      simp only [Segment.size] at hpos hsize
      intro _
      simp only [consume, bound, hp, List.length_drop]
      omega

theorem bound_next_lt {d : Decoder} {c : Char} (h : d.next.1 = .char c) :
    d.next.2.bound < d.bound := by
  have hle := bound_gather_le d
  unfold next at h ⊢
  generalize d.gather = r at h hle ⊢
  rcases r with ⟨_ | cause, g⟩
  · exact Nat.lt_of_lt_of_le (bound_emit_lt h) hle
  · simp at h

end Decoder

namespace Supply

theorem bound_poll_lt {s : Supply} {c : Char} (h : s.poll.1 = .char c) :
    s.poll.2.bound < s.bound := by
  match s with
  | scripted [] => simp [poll] at h
  | scripted (_ :: later) => simp [poll, bound]
  | decoded d => exact Decoder.bound_next_lt h

/-- The characters that a supply gives before its first end or failure. -/
def content (s : Supply) : List Char :=
  match _h : s.poll.1 with
  | .char c => c :: content s.poll.2
  | .finished | .fault _ => []
termination_by s.bound
decreasing_by exact bound_poll_lt _h

/-- The supply that is left after it was asked `n` times. -/
def after : Nat → Supply → Supply
  | 0, s => s
  | n + 1, s => (after n s).poll.2

theorem content_of_char {s : Supply} {c : Char} (h : s.poll.1 = .char c) :
    s.content = c :: s.poll.2.content := by
  rw [content]
  split
  · rename_i hc
    rw [h] at hc
    rw [Delivery.char.inj hc]
  · rename_i hc
    simp [h] at hc
  · rename_i hc
    simp [h] at hc

theorem content_of_char?_eq_none {s : Supply} (h : s.poll.1.char? = none) : s.content = [] := by
  rw [content]
  split
  · rename_i hc
    simp [hc, Delivery.char?] at h
  · rfl
  · rfl

/-- The next answer is the first character of what is left, if there is one. -/
theorem char?_poll (s : Supply) : s.poll.1.char? = s.content.head? := by
  cases h : s.poll.1 with
  | char c => simp [content_of_char h, Delivery.char?]
  | finished => simp [content_of_char?_eq_none, h, Delivery.char?]
  | fault cause => simp [content_of_char?_eq_none, h, Delivery.char?]

/-- Asking for characters moves along the content. -/
theorem content_after {s : Supply} {n : Nat} (h : n ≤ s.content.length) :
    (s.after n).content = s.content.drop n := by
  induction n with
  | zero => rfl
  | succ n ih =>
    have hn := ih (by omega)
    cases hc : (s.after n).poll.1 with
    | char c =>
      rw [content_of_char hc] at hn
      rw [after, ← List.tail_drop, ← hn, List.tail_cons]
    | finished | fault _ =>
      rw [content_of_char?_eq_none (by rw [hc]; rfl)] at hn
      have := List.drop_eq_nil_iff.mp hn.symm
      omega

/-- The answer to the question number `n`, as long as only characters came before. -/
theorem char?_poll_after {s : Supply} {n : Nat} (h : n ≤ s.content.length) :
    (s.after n).poll.1.char? = s.content[n]? := by
  rw [char?_poll, content_after h, List.head?_drop]

/-- The failure that comes after the content, if there is one. -/
def ending (s : Supply) : Option CursorError := (s.after s.content.length).poll.1.error?

theorem after_poll (s : Supply) (n : Nat) : s.poll.2.after n = s.after (n + 1) := by
  induction n with
  | zero => rfl
  | succ n ih => exact congrArg (·.poll.2) ih

theorem ending_of_char {s : Supply} {c : Char} (h : s.poll.1 = .char c) :
    s.ending = s.poll.2.ending := by
  rw [ending, ending, content_of_char h, List.length_cons, after_poll]

theorem ending_of_char?_eq_none {s : Supply} (h : s.poll.1.char? = none) :
    s.ending = s.poll.1.error? := by
  rw [ending, content_of_char?_eq_none h]
  rfl

/-- What comes out of a supply that is polled until it stops. -/
def yield (s : Supply) : List Char × Option CursorError := (s.content, s.ending)

theorem yield_of_char {s : Supply} {c : Char} (h : s.poll.1 = .char c) :
    s.yield = (c :: s.poll.2.yield.1, s.poll.2.yield.2) := by
  rw [yield, content_of_char h, ending_of_char h]
  rfl

theorem yield_of_char?_eq_none {s : Supply} {a : Delivery} (h : s.poll.1 = a)
    (ha : a.char? = none) : s.yield = ([], a.error?) := by
  subst h
  rw [yield, content_of_char?_eq_none ha, ending_of_char?_eq_none ha]

/-- The content is never longer than what the bound allows. -/
theorem length_content_le (s : Supply) : s.content.length ≤ s.bound := by
  fun_induction content s with
  | case1 s c h ih =>
    have := bound_poll_lt h
    simp only [List.length_cons]
    omega
  | case2 => simp
  | case3 => simp

@[simp] theorem content_scripted_chars (chars : List Char) :
    (scripted (chars.map .char)).content = chars := by
  induction chars with
  | nil => exact content_of_char?_eq_none rfl
  | cons c chars ih =>
    rw [content_of_char (c := c) rfl]
    exact congrArg _ ih

example : (scripted [.char 'a', .char 'b', .finished, .char 'c']).content = ['a', 'b'] := by
  decide +kernel

end Supply

end BranchCursor
