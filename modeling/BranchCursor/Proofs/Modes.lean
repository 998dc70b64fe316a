import BranchCursor.Proofs.Progress

/-! The same bytes decoded in both modes. The mode decides nothing but the answer to an ill-formed
run, so a strict and a lossy decoder read alike, stand at the same place after every call, and
differ only where such a run is. -/
namespace BranchCursor
open String (utf8EncodeChar)

namespace Tape

/-- A segment takes its bytes off the front, and a failure none. -/
theorem all_of_next? {t later : Tape} {p : Piece} (h : t.next? = some (p, later)) :
    later.all = t.all.drop p.size := by
  rcases next?_cases h with ⟨rfl, rfl, -, hs⟩ | ⟨cause, more, rest, -, hb, rfl, rfl⟩
  · obtain ⟨hpast, hleading⟩ := all_past hs
    rw [hpast, hleading, Piece.size]
  · simp [all, hb, Piece.size]

end Tape

namespace Decoder

variable {d : Decoder} {offset : Nat} {t : Tape} {bytes : List UInt8}

/-- The same decoder in another mode. -/
def inMode (lossy : Bool) (d : Decoder) : Decoder := { d with lossy }

/-! ### Reading in either mode -/

theorem gather_inMode (lossy : Bool) (d : Decoder) :
    (d.inMode lossy).gather = (d.gather.1, d.gather.2.inMode lossy) := by
  induction d using induction_on_reads with
  | settled d hs =>
    rw [gather_of_settled hs]
    exact gather_of_settled hs
  | last d hs hg =>
    have hstops : (d.inMode lossy).goesOn = false := hg
    rw [gather_of_not_settled hs, gather_of_not_settled (d := d.inMode lossy) hs, hg, hstops]
    rfl
  | more d hs hg ih =>
    have hgoes : (d.inMode lossy).goesOn = true := hg
    rw [gather_of_not_settled hs, gather_of_not_settled (d := d.inMode lossy) hs, hg, hgoes]
    exact ih

theorem emit_inMode (lossy : Bool) (d : Decoder) :
    (d.inMode lossy).emit.2 = d.emit.2.inMode lossy := by
  by_cases hne : d.pending = []
  · have hemit : ∀ m, (d.inMode m).emit = (.finished, d.inMode m) := fun m => by
      unfold Decoder.emit
      rw [show (d.inMode m).pending = [] from hne]
    rw [hemit lossy, show d.emit = _ from hemit d.lossy]
    rfl
  · rw [emit_of_ne_nil hne, emit_of_ne_nil (d := d.inMode lossy) hne]
    rfl

/-- A call leaves the same behind in both modes. -/
theorem next_inMode (lossy : Bool) (d : Decoder) :
    (d.inMode lossy).next.2 = d.next.2.inMode lossy := by
  unfold next
  rw [gather_inMode]
  rcases d.gather with ⟨_ | cause, g⟩
  · exact emit_inMode lossy g
  · rfl

theorem calls_inMode (lossy : Bool) (n : Nat) (d : Decoder) :
    ((d.inMode lossy).calls n).2 = (d.calls n).2.inMode lossy := by
  induction n generalizing d with
  | zero => rfl
  | succ n ih => rw [calls_succ, calls_succ, next_inMode, ih]

/-- Each call adds its answer, and the offset after it. -/
theorem calls_concat (n : Nat) (d : Decoder) : (d.calls (n + 1)).1 =
    (d.calls n).1.push ((d.calls n).2.next.1, (d.calls n).2.next.2.offset) := by
  have hcalls : ∀ made, (d.callsWhile (fun _ => true) (n + 1) made).1 =
      (d.callsWhile (fun _ => true) n made).1.push
        ((d.calls n).2.next.1, (d.calls n).2.next.2.offset) := by
    induction n generalizing d with
    | zero => exact fun made => rfl
    | succ n ih =>
      intro made
      rw [callsWhile, if_pos rfl, ih, calls_succ]
      rfl
  exact hcalls #[]

/-! ### Answers -/

/-- Any calls stop at some place of the bytes, with the rest of them to come. -/
theorem At.exists_calls {lossy : Bool} (h : d.At lossy offset t) (hrest : t.all = bytes.drop offset)
    (hle : offset ≤ bytes.length) (n : Nat) : ∃ place later, (d.calls n).2.At lossy place later ∧
      later.all = bytes.drop place ∧ place ≤ bytes.length := by
  induction n generalizing d offset t with
  | zero => exact ⟨offset, t, h, hrest, hle⟩
  | succ n ih =>
    rw [calls_succ]
    cases hn : t.next? with
    | none => exact ih (h.next_of_none hn).2 hrest hle
    | some first =>
      obtain ⟨p, later⟩ := first
      have hlength := next?_all_length hn
      refine ih (h.next_of_some hn).2 ?_ ?_
      · rw [Tape.all_of_next? hn, hrest, List.drop_drop]
      · rw [hrest, List.length_drop] at hlength
        omega

/-- What a strict and a lossy decoder answer to the same call when `rest` is to come from `offset`
on, and the offset after it. -/
inductive Abreast (rest : List UInt8) (offset : Nat) : Delivery → Delivery → Nat → Prop where
  | letter (c : Char) (stands : utf8EncodeChar c <+: rest) :
    Abreast rest offset (.char c) (.char c) (offset + (utf8EncodeChar c).length)
  | broken (n : Nat) (starts : Utf8.Starts rest (.broken n)) :
    Abreast rest offset (.fault (.illFormed offset)) (.char Utf8.replacement) (offset + n)
  | failed (cause : ReadFailure) :
    Abreast rest offset (.fault (.source cause)) (.fault (.source cause)) offset
  | finished (nothing : rest = []) : Abreast rest offset .finished .finished offset

variable {rest : List UInt8} {answer : Delivery} {after : Nat}

theorem Abreast.eq_of_char {c : Char} (h : Abreast rest offset (.char c) answer after) :
    answer = .char c := by
  cases h
  rfl

theorem Abreast.eq_of_illFormed {start : Nat}
    (h : Abreast rest offset (.fault (.illFormed start)) answer after) :
    answer = .char Utf8.replacement := by
  cases h
  rfl

theorem At.abreast (h : d.At false offset t) :
    Abreast t.all offset d.next.1 (d.inMode true).next.1 d.next.2.offset := by
  have hlossy : (d.inMode true).At true offset t := ⟨rfl, h.offset, h.tape, h.flows⟩
  cases hn : t.next? with
  | none =>
    obtain ⟨hanswer, hat⟩ := h.next_of_none hn
    rw [hanswer, (hlossy.next_of_none hn).1, hat.offset]
    rw [Tape.next?_eq_none_iff.mp hn]
    exact Abreast.finished rfl
  | some first =>
    obtain ⟨p, later⟩ := first
    obtain ⟨hanswer, hat⟩ := h.next_of_some hn
    rw [hanswer, (hlossy.next_of_some hn).1, hat.offset]
    rcases Tape.next?_cases hn with ⟨rfl, -, hne, hs⟩ | ⟨cause, -, -, -, -, rfl, -⟩
    · have hall : t.all ≠ [] := List.append_ne_nil_of_left_ne_nil hne _
      have hstarts := Utf8.starts_leading hall
      rw [(Tape.all_past hs).2] at hstarts
      cases hl : Utf8.leading t.bytes with
      | letter c n =>
        rw [hl] at hstarts
        cases hstarts with
        | letter _ stands => exact Abreast.letter c stands
      | broken n => exact Abreast.broken n (hl ▸ hstarts)
    · exact Abreast.failed cause

/-! ### Main result -/

/-- Whatever a stream does, a strict and a lossy decoder over it make the same reads and stand at the
same offset after every call. Call by call they answer alike, also with an encoded replacement
character, unless the bytes at the offset start with an ill-formed run; then the one reports it at
this offset and the other replaces it. -/
theorem modes_keep_abreast {input : ByteStream} {capacity : Nat} (hc : 4 ≤ capacity)
    (hf : input.Flows) :
    ∃ strict lossy, make input capacity false = .ok strict ∧ make input capacity true = .ok lossy ∧
      ∀ n,
        let s := (strict.calls n).2
        let l := (lossy.calls n).2
        l = s.inMode true ∧ l.input.rooms = s.input.rooms ∧
        (strict.calls (n + 1)).1 = (strict.calls n).1.push (s.next.1, s.next.2.offset) ∧
        (lossy.calls (n + 1)).1 = (lossy.calls n).1.push (l.next.1, s.next.2.offset) ∧
        Abreast (input.delivered.drop s.offset) s.offset s.next.1 l.next.1 s.next.2.offset := by
  let strict : Decoder := ⟨input, capacity, hc, [], 0, false, false⟩
  have hat : strict.At false 0 input.tape := ⟨rfl, rfl, rfl, hf⟩
  refine ⟨strict, strict.inMode true, dif_pos hc, dif_pos hc, fun n => ?_⟩
  intro s l
  have hl : l = s.inMode true := calls_inMode true n strict
  have hrest : input.tape.all = input.delivered.drop 0 := input.all_tape
  obtain ⟨place, later, hplace, hlater, -⟩ := hat.exists_calls hrest (Nat.zero_le _) n
  have habreast := hplace.abreast
  have hoffset : l.next.2.offset = s.next.2.offset := by
    rw [hl, next_inMode]
    rfl
  rw [hlater, ← hplace.offset, ← hl] at habreast
  refine ⟨hl, by rw [hl]; rfl, calls_concat n strict, ?_, habreast⟩
  rw [← hoffset]
  exact calls_concat n (strict.inMode true)

/-- An encoded replacement character is answered by both; the first two bytes of a euro sign, with a
failed read behind them, are reported by the one and replaced by the other. -/
theorem modes_keep_abreast_replacement :
    let input : ByteStream :=
      { events := [.data [0xEF, 0xBF], .data [0xBD, 0xE2, 0x82], .failure .timedOut,
          .data [0x41]], step := some 2 }
    input.Flows ∧ ∃ strict lossy, make input 4 false = .ok strict ∧ make input 4 true = .ok lossy ∧
      (lossy.calls 4).2.input.rooms = [4, 2, 3, 2, 2] ∧
      (strict.calls 0).2.next.1 = .char Utf8.replacement ∧
      (lossy.calls 0).2.next.1 = .char Utf8.replacement ∧
      (strict.calls 2).2.next.1 = .fault (.illFormed 3) ∧
      (lossy.calls 2).2.next.1 = .char Utf8.replacement := by
  intro input
  have hf : input.Flows := by decide
  obtain ⟨strict, lossy, hstrict, hlossy, habreast⟩ := modes_keep_abreast (Nat.le_refl 4) hf
  obtain rfl : (⟨input, 4, Nat.le_refl 4, [], 0, false, false⟩ : Decoder) = strict :=
    Except.ok.inj hstrict
  refine ⟨hf, _, lossy, hstrict, hlossy, ?_, ?_⟩
  · rw [(habreast 4).2.1]
    decide +kernel
  · obtain ⟨-, -, -, -, hfirst⟩ := habreast 0
    obtain ⟨-, -, -, -, hthird⟩ := habreast 2
    have hencoded : (calls 0 ⟨input, 4, Nat.le_refl 4, [], 0, false, false⟩).2.next.1 =
        .char Utf8.replacement := by decide +kernel
    have hbroken : (calls 2 ⟨input, 4, Nat.le_refl 4, [], 0, false, false⟩).2.next.1 =
        .fault (.illFormed 3) := by decide +kernel
    rw [hencoded] at hfirst
    rw [hbroken] at hthird
    exact ⟨hencoded, hfirst.eq_of_char, hbroken, hthird.eq_of_illFormed⟩

end Decoder
end BranchCursor
