import BranchCursor.Delivery
import BranchCursor.Bytes.Stream
import BranchCursor.Bytes.Utf8

/-! An incremental UTF-8 decoder: it reads only when the bytes it keeps do not settle what
comes next, so cutting the data elsewhere changes neither its answers nor its offsets.
The bytes kept are always the delivered ones from `offset` on. -/
namespace BranchCursor

/-- A decoder over a byte stream, with a buffer that a whole sequence of four bytes fits. -/
structure Decoder where
  input : ByteStream
  capacity : Nat
  fits : 4 ≤ capacity
  pending : List UInt8 := []
  offset : Nat := 0
  ended : Bool := false
  lossy : Bool
  deriving DecidableEq, Repr

namespace Decoder

def make (input : ByteStream) (capacity : Nat) (lossy : Bool) : Except CursorError Decoder :=
  if fits : 4 ≤ capacity then .ok { input, capacity, fits, lossy }
  else .error (.misuse .shortBuffer)

/-- The free part of the buffer once the kept bytes are at its front. -/
def room (d : Decoder) : Nat := d.capacity - d.pending.length

/-- No further byte can change what comes next: the input has ended, or the kept bytes start
with a character, or with an ill-formed run that another byte already follows. -/
def settled (d : Decoder) : Bool :=
  d.ended ||
    match Utf8.leading d.pending with
    | .letter .. => true
    | .broken n => !(d.pending.drop n).isEmpty

/-- Reads until the next answer is settled; an interrupted read is repeated, any other failure
is handed over with nothing lost. -/
def gather (d : Decoder) : Option ReadFailure × Decoder :=
  if d.settled then (none, d)
  else
    match _h : d.input.read d.room with
    | (.ok [], input) => (none, { d with input, ended := true })
    | (.ok (b :: more), input) => gather { d with input, pending := d.pending ++ b :: more }
    | (.error .interrupted, input) => gather { d with input }
    | (.error cause, input) => (some cause, { d with input })
termination_by d.input.weight
decreasing_by
  · exact ByteStream.weight_lt_of_read_cons ‹_›
  · exact ByteStream.weight_lt_of_read_error ‹_›

/-- Moves past `n` of the kept bytes. -/
def consume (n : Nat) (d : Decoder) : Decoder :=
  { d with pending := d.pending.drop n, offset := d.offset + n }

/-- Answers from the kept bytes: nothing kept is the end, an ill-formed run is replaced or
reported at the offset of its first byte. -/
def emit (d : Decoder) : Delivery × Decoder :=
  match d.pending with
  | [] => (.finished, d)
  | b :: rest =>
    match Utf8.leading (b :: rest) with
    | .letter c n => (.char c, d.consume n)
    | .broken n =>
      (if d.lossy then .char Utf8.replacement else .fault (.illFormed d.offset), d.consume n)

/-- The next answer. After a failed read a later call goes on where this one stopped. -/
def next (d : Decoder) : Delivery × Decoder :=
  match d.gather with
  | (none, d) => d.emit
  | (some cause, d) => (.fault (.source cause), d)

/-- Every character takes at least one byte, so no more than this many are still to come. -/
def bound (d : Decoder) : Nat := d.pending.length + d.input.weight

/-- Up to `n` calls, the last of them the first whose answer does not go `on`, each with the
offset after it. -/
def callsWhile (on : Delivery → Bool) :
    Nat → Array (Delivery × Nat) → Decoder → Array (Delivery × Nat) × Decoder
  | 0, made, d => (made, d)
  | n + 1, made, d =>
    let r := d.next
    let made := made.push (r.1, r.2.offset)
    if on r.1 then callsWhile on n made r.2 else (made, r.2)

/-- Exactly `n` calls, whatever they answer. -/
def calls (n : Nat) (d : Decoder) : Array (Delivery × Nat) × Decoder :=
  d.callsWhile (fun _ => true) n #[]

/-- Calls until the first answer that is not a character. -/
def drain (d : Decoder) : Array (Delivery × Nat) × Decoder :=
  d.callsWhile (fun r => r.char?.isSome) (d.bound + 1) #[]

theorem settled_of_ended {d : Decoder} (h : d.ended = true) : d.settled = true := by
  simp [settled, h]

theorem gather_of_settled {d : Decoder} (h : d.settled = true) : d.gather = (none, d) := by
  rw [gather, if_pos h]

example : (make { events := [.data [0xC3], .data [0xA9]] } 4 true).toOption.map
    (fun d => (d.calls 3).1) = some #[(.char 'é', 2), (.finished, 2), (.finished, 2)] := by
  decide +kernel

end Decoder

end BranchCursor
