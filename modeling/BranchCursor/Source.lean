import BranchCursor.Cursor

/-! What a root cursor can be opened on. -/
namespace BranchCursor

/-- A text in memory, a place in one, nothing at all, or a source that is read on demand. -/
inductive Source where
  | text (content : Array Char)
  | textAt (buffer : Array Char) (index : Nat)
  | nothing
  | iterated (content : List Char) (options : Options)
  | scripted (answers : List Delivery) (options : Options)
  | bytes (input : ByteStream) (options : Options)

/-- What a watched source tells about how it was used. -/
inductive Probe where
  | polls (count : Nat)
  | reads (rooms : List Nat)
  deriving DecidableEq, Repr

namespace Source

/-- The lazy root at position 0 of a new feed; it waits for its character. -/
def attachRoot (supply : Supply) (options : Options) : Cursor × Feed :=
  let r := (Feed.make supply options).attach (fun _ => false) 0 none
  (.mark r.1, r.2)

/-- The root cursor and the feed of its family. -/
def open? : Source → Except CursorError (Cursor × Feed)
  | text content => .ok (.ofText content 0, .idle)
  | textAt buffer index => (TextCursor.make buffer index).map fun t => (.text t, .idle)
  | nothing => .ok (.finish, .idle)
  | iterated content options => .ok (attachRoot (.scripted (content.map .char)) options)
  | scripted answers options => .ok (attachRoot (.scripted answers) options)
  | bytes input options =>
    (Decoder.make input options.bufferSize options.lossy).map fun d =>
      attachRoot (.decoded d) options

/-- Whether the source is read on demand. -/
def isLazy : Source → Bool
  | text _ | textAt .. | nothing => false
  | iterated .. | scripted .. | bytes .. => true

/-- A script counts how often it was asked, a byte stream the room of each read. -/
def probe? (f : Feed) : Source → Option Probe
  | scripted .. => some (.polls f.polls)
  | bytes .. => f.supply.rooms?.map .reads
  | text _ | textAt .. | nothing | iterated .. => none

end Source

example : ((Source.iterated ['a'] {}).open?).toOption.map (fun r => r.2.status fun _ => true) =
    some ⟨0, false, 1, 1, false⟩ := by decide +kernel

end BranchCursor
