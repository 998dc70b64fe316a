import BranchCursor.Proofs.Readout
import BranchCursor.Proofs.Steps
import BranchCursor.Proofs.Twins

/-! Sources that are opened with other choices: whether to log, when to sweep, how much to read at
once. What they yield is the same, they open alike, and their probes tell at most of other reads. -/
namespace BranchCursor

variable {f g : Feed} {alive held : MarkId → Bool}

/-- A supply goes on to be a script or a decoder. -/
theorem Supply.isSome_rooms?_after (n : Nat) (s : Supply) :
    (s.after n).rooms?.isSome = s.rooms?.isSome := by
  induction n with
  | zero => rfl
  | succ n ih =>
    rw [← ih, Supply.after]
    rcases s.after n with (_ | ⟨a, later⟩) | d <;> rfl

/-- Feeds over alike backings both tell of reads, or neither does. -/
theorem Backing.Alike.isSome_rooms? {b b' : Backing} (hb : b.Alike b') (hf : f.Serves b alive)
    (hg : g.Serves b' held) : f.supply.rooms?.isSome = g.supply.rooms?.isSome := by
  cases hb with
  | text buffer =>
    obtain rfl : f = g := Eq.trans hf (Eq.symm hg)
    rfl
  | supply _ reads =>
    rw [Feed.Sound.toLinked hf |>.supply, Feed.Sound.toLinked hg |>.supply,
      Supply.isSome_rooms?_after, Supply.isSome_rooms?_after, reads]

/-- Probes that differ at most in the room of the reads. -/
inductive Probe.Tuned : Probe → Probe → Prop
  | polls (count : Nat) : Tuned (.polls count) (.polls count)
  | reads (rooms rooms' : List Nat) : Tuned (.reads rooms) (.reads rooms')

/-- Where both tell of reads, or neither does, the probes are alike. -/
theorem Probe.tuned_rooms {rooms rooms' : Option (List Nat)} (h : rooms.isSome = rooms'.isSome) :
    Option.Rel Probe.Tuned (rooms.map .reads) (rooms'.map .reads) := by
  cases rooms with
  | none =>
    obtain rfl : rooms' = none := by simpa using h.symm
    exact .none
  | some told =>
    obtain ⟨told', rfl⟩ : ∃ told', rooms' = some told' := Option.isSome_iff_exists.mp h.symm
    exact .some (.reads told told')

namespace Source

/-- The same source, opened with other choices. The buffer of a byte stream has room for any
character both times, and ill-formed bytes are dealt with in the same way. -/
inductive Retuned : Source → Source → Prop
  | same (source : Source) : Retuned source source
  | iterated (content : List Char) (own other : Options) :
      Retuned (.iterated content own) (.iterated content other)
  | scripted (answers : List Delivery) (own other : Options) :
      Retuned (.scripted answers own) (.scripted answers other)
  | bytes (input : ByteStream) {own other : Options} (lossy : own.lossy = other.lossy)
      (room : 4 ≤ own.bufferSize) (room' : 4 ≤ other.bufferSize) :
      Retuned (.bytes input own) (.bytes input other)

variable {source other : Source}

/-- A buffer of any size lets the same characters through. -/
theorem Retuned.alike (h : source.Retuned other) : source.backing.Alike other.backing := by
  cases h with
  | same source => exact .refl _
  | iterated content own other => exact .refl _
  | scripted answers own other => exact .refl _
  | @bytes input own other lossy room room' =>
    obtain ⟨d, e, hd, he, hyield⟩ := Decoder.yield_make_eq input room room' own.lossy
    rw [lossy] at he
    simp only [backing, hd, he]
    exact .supply hyield rfl

theorem attachRoot_same (supply supply' : Supply) (own other : Options) :
    (attachRoot supply own).1 = (attachRoot supply' other).1 ∧
    (attachRoot supply own).2.Same (attachRoot supply' other).2 := by
  have hmade : (Feed.make supply own).Same (Feed.make supply' other) :=
    ⟨rfl, rfl, rfl, rfl, rfl, rfl, rfl⟩
  obtain ⟨hid, hsame⟩ := hmade.attach (fun _ => false) 0 none
  exact ⟨congrArg Cursor.mark hid, hsame⟩

theorem open?_bytes (input : ByteStream) {options : Options} (room : 4 ≤ options.bufferSize) :
    ∃ supply, (bytes input options).open? = .ok (attachRoot supply options) := by
  simp only [open?, Decoder.make, dif_pos room]
  exact ⟨_, rfl⟩

/-- Both are refused for the same cause, or open with the same root. -/
theorem Retuned.open? (h : source.Retuned other) :
    (∃ cause, source.open? = .error cause ∧ other.open? = .error cause) ∨
    ∃ c f g, source.open? = .ok (c, f) ∧ other.open? = .ok (c, g) ∧ f.Same g := by
  have hroots : ∀ supply supply' own other', source.open? = .ok (attachRoot supply own) →
      other.open? = .ok (attachRoot supply' other') →
      ∃ c f g, source.open? = .ok (c, f) ∧ other.open? = .ok (c, g) ∧ f.Same g := by
    intro supply supply' own other' ho ho'
    obtain ⟨hroot, hsame⟩ := attachRoot_same supply supply' own other'
    refine ⟨(attachRoot supply own).1, _, _, ho, ho'.trans ?_, hsame⟩
    exact congrArg (fun c => Except.ok (c, (attachRoot supply' other').2)) hroot.symm
  cases h with
  | same source =>
    cases ho : source.open? with
    | error cause => exact Or.inl ⟨cause, rfl, rfl⟩
    | ok r => exact Or.inr ⟨r.1, r.2, r.2, rfl, rfl, Feed.Same.refl _⟩
  | iterated content own other => exact Or.inr (hroots _ _ _ _ rfl rfl)
  | scripted answers own other => exact Or.inr (hroots _ _ _ _ rfl rfl)
  | @bytes input own other lossy room room' =>
    obtain ⟨supply, ho⟩ := open?_bytes input room
    obtain ⟨supply', ho'⟩ := open?_bytes input room'
    exact Or.inr (hroots _ _ _ _ ho ho')

/-- The probe counts as many polls, and tells of reads if the other does. -/
theorem Retuned.probe? (h : source.Retuned other) (hsame : f.Same g)
    (hrooms : f.supply.rooms?.isSome = g.supply.rooms?.isSome) :
    Option.Rel Probe.Tuned (source.probe? f) (other.probe? g) := by
  have hpolls : Option.Rel Probe.Tuned (some (.polls f.polls)) (some (.polls g.polls)) := by
    rw [hsame.polls]
    exact .some (.polls _)
  cases h with
  | same source =>
    cases source with
    | text _ | textAt _ _ | nothing | iterated _ _ => exact .none
    | scripted _ _ => exact hpolls
    | bytes _ _ => exact Probe.tuned_rooms hrooms
  | iterated content own other => exact .none
  | scripted answers own other => exact hpolls
  | bytes input lossy room room' => exact Probe.tuned_rooms hrooms

end Source

end BranchCursor
