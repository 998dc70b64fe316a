import BranchCursor.Error

/-! Byte streams as the list of what they will do, read piece by piece into a given room.
A read never joins two events, and a read of no bytes ends the stream for its reader. -/
namespace BranchCursor

/-- What a byte stream does next: hand out data, report the end once, or fail once. -/
inductive ByteEvent where
  | data (bytes : List UInt8)
  | stop
  | failure (cause : ReadFailure)
  deriving DecidableEq, Repr

/-- Every read takes at least one unit of this. -/
def ByteEvent.weight : ByteEvent → Nat
  | data bytes => bytes.length + 1
  | stop | failure _ => 1

/-- The events to come, the most bytes one read gives, and the room of every read so far, the
latest first. -/
structure ByteStream where
  events : List ByteEvent
  step : Option Nat := none
  reads : List Nat := []
  deriving DecidableEq, Repr

namespace ByteStream

/-- The room of every read so far, in order. -/
def rooms (s : ByteStream) : List Nat := s.reads.reverse

def weight (s : ByteStream) : Nat := s.events.foldr (fun e n => e.weight + n) 0

/-- How many bytes one read may give when there is room for `room`. -/
def limit (s : ByteStream) (room : Nat) : Nat :=
  match s.step with
  | none => room
  | some n => min room n

/-- One read: the bytes it gave (none at the end of the stream), or its failure. -/
def read (room : Nat) (s : ByteStream) : Except ReadFailure (List UInt8) × ByteStream :=
  let reads := room :: s.reads
  match s.events with
  | [] => (.ok [], { s with reads })
  | .stop :: later => (.ok [], { s with events := later, reads })
  | .failure cause :: later => (.error cause, { s with events := later, reads })
  | .data bytes :: later =>
    match bytes.drop (s.limit room) with
    | [] => (.ok bytes, { s with events := later, reads })
    | rest => (.ok (bytes.take (s.limit room)), { s with events := .data rest :: later, reads })

@[simp] theorem step_read (room : Nat) (s : ByteStream) : (s.read room).2.step = s.step := by
  unfold read; split <;> try rfl
  split <;> rfl

@[simp] theorem reads_read (room : Nat) (s : ByteStream) :
    (s.read room).2.reads = room :: s.reads := by
  unfold read; split <;> try rfl
  split <;> rfl

/-- A read that failed used up its event. -/
theorem weight_lt_of_read_error {room : Nat} {s later : ByteStream} {cause : ReadFailure}
    (h : s.read room = (.error cause, later)) : later.weight < s.weight := by
  unfold read at h
  split at h
  · simp at h
  · simp at h
  · rename_i hs
    obtain ⟨-, rfl⟩ := Prod.mk.inj h
    simp [weight, hs, ByteEvent.weight]
  · split at h <;> simp at h

/-- A read that gave bytes leaves fewer of them. -/
theorem weight_lt_of_read_cons {room : Nat} {s later : ByteStream} {b : UInt8}
    {more : List UInt8} (h : s.read room = (.ok (b :: more), later)) :
    later.weight < s.weight := by
  unfold read at h
  split at h
  · simp at h
  · simp at h
  · simp at h
  · rename_i bytes _ hs
    split at h
    · obtain ⟨-, rfl⟩ := Prod.mk.inj h
      simp [weight, hs, ByteEvent.weight]
    · obtain ⟨htaken, rfl⟩ := Prod.mk.inj h
      have hpos : 0 < s.limit room := by
        cases hl : s.limit room with
        | zero => simp [hl] at htaken
        | succ n => omega
      have hbytes : bytes ≠ [] := by rintro rfl; simp at htaken
      have := List.length_pos_iff.mpr hbytes
      simp [weight, hs, ByteEvent.weight]
      omega

end ByteStream

end BranchCursor
