import BranchCursor.CommandLine.Run
import BranchCursor.Proofs.Settings

/-! Which arguments the program takes, and what it makes of them. A list of words gives settings
exactly if it comes apart into items, one of them a pattern and no two of them at odds, and then the
settings hold what the items say; their order does not matter but among items of one kind. All other
words make the program stop before it reads anything, and say why. -/
namespace BranchCursor.CommandLine

/-- The kind of an item: the part that its first word plays. -/
def Item.role : Item → Role
  | flag f => .flag f
  | pattern _ => .valued .pattern
  | workers _ => .valued .workers
  | bufferSize _ => .valued .bufferSize
  | input _ => .input

/-- Whether items are the same, and those of each kind follow each other in the same order. -/
def Rearranged (found others : List Item) : Prop :=
  ∀ r : Role, found.filter (·.role = r) = others.filter (·.role = r)

/-- Why words give no settings. -/
inductive Refused : List String → Stop → Prop where
  | halted {before rest : List String} {found : List Item} {stop : Stop}
    (hbefore : Splits before found) (hrest : Halts rest stop) : Refused (before ++ rest) stop
  | noPattern {words : List String} {found : List Item} (h : Splits words found)
    (hnone : ∀ word, .pattern word ∉ found) : Refused words .noPattern
  | logWithEager {words : List String} {found : List Item} (h : Splits words found)
    (hpattern : ∃ word, .pattern word ∈ found) (hlog : .flag .log ∈ found)
    (heager : .flag .eager ∈ found) : Refused words (.misused .logWithEager)

/-- Whether help is asked for where an item could start, and all before it are items. -/
def AsksForHelp (words : List String) : Prop := ∃ before found name later,
  words = before ++ name :: later ∧ Splits before found ∧ name ∈ Role.help.names

variable {words other : List String} {found others : List Item} {stop : Stop}

/-! ### The order of items -/

/-- An item of another kind gives nothing. -/
theorem Item.eq_none_of_role (item : Item) :
    (item.role ≠ .valued .pattern → item.pattern? = none) ∧
      (item.role ≠ .valued .workers → item.workers? = none) ∧
      (item.role ≠ .valued .bufferSize → item.bufferSize? = none) ∧
      (item.role ≠ .input → item.input? = none) := by
  cases item <;> simp [role, pattern?, workers?, bufferSize?, input?]

namespace Rearranged

/-- What items of one kind give does not depend on where the others are. -/
theorem filterMap {α : Type} (h : Rearranged found others) {pick : Item → Option α} {r : Role}
    (hpick : ∀ item, item.role ≠ r → pick item = none) :
    found.filterMap pick = others.filterMap pick := by
  have hkind : (fun item : Item => if item.role = r then pick item else none) = pick := by
    funext item
    by_cases hrole : item.role = r
    · rw [if_pos hrole]
    · rw [if_neg hrole, hpick item hrole]
  have hfilter (items : List Item) :
      (items.filter (·.role = r)).filterMap pick = items.filterMap pick := by
    simp only [List.filterMap_filter, decide_eq_true_eq, hkind]
  rw [← hfilter found, h r, hfilter]

theorem mem_iff (h : Rearranged found others) (item : Item) : item ∈ found ↔ item ∈ others := by
  have hfilter := congrArg (item ∈ ·) (h item.role)
  simpa using hfilter

theorem ofItems_eq (h : Rearranged found others) :
    Settings.ofItems found = Settings.ofItems others := by
  have hs := Settings.records_ofItems found
  have hpatterns := h.filterMap fun item => item.eq_none_of_role.1
  have hworkers := h.filterMap fun item => item.eq_none_of_role.2.1
  have hbuffer := h.filterMap fun item => item.eq_none_of_role.2.2.1
  have hinput := h.filterMap fun item => item.eq_none_of_role.2.2.2
  exact Settings.records_iff.mp {
    patterns := hs.patterns.trans hpatterns
    flags := fun f => (hs.flags f).trans (h.mem_iff _)
    workers := hworkers ▸ hs.workers
    bufferSize := hbuffer ▸ hs.bufferSize
    input := hinput ▸ hs.input }

end Rearranged

/-- Words whose items are rearranged stand for the same settings, or are refused for the same. -/
theorem parse_congr (h : Splits words found) (hother : Splits other others)
    (hsame : Rearranged found others) : Settings.parse words = Settings.parse other := by
  rw [Settings.parse, Settings.parse, items_of_splits h, items_of_splits hother]
  exact congrArg Settings.check hsame.ofItems_eq

/-- What is read is the input named last, or the standard input if none is named. -/
theorem Settings.Records.events {s : Settings} (hs : s.Records found) (world : Surroundings) :
    s.events world =
      (found.filterMap Item.input?).getLast?.elim (.ok world.stdin) world.files := by
  rw [Settings.events, hs.input]
  cases (found.filterMap Item.input?).getLast? <;> rfl

/-! ### Words that give no settings -/

/-- Words give no settings if there is a reason for it, and for that reason. -/
theorem Settings.parse_eq_error_iff : parse words = .error stop ↔ Refused words stop := by
  constructor
  · intro h
    unfold parse at h
    cases hitems : items words with
    | error cause =>
      rw [hitems] at h
      obtain rfl := Except.error.inj h
      obtain ⟨before, found, rest, rfl, hbefore, hrest⟩ := items_eq_error_iff.mp hitems
      exact .halted hbefore hrest
    | ok found =>
      rw [hitems] at h
      rcases check_ofItems_eq_error_iff.mp h with ⟨hnone, rfl⟩ | ⟨hpattern, ⟨hlog, heager⟩, rfl⟩
      · exact .noPattern (items_eq_ok_iff.mp hitems) hnone
      · exact .logWithEager (items_eq_ok_iff.mp hitems) hpattern hlog heager
  · intro h
    unfold parse
    cases h with
    | halted hbefore hrest =>
      rw [items_append hbefore, items_of_halts hrest]
      rfl
    | noPattern h hnone =>
      rw [items_of_splits h]
      exact check_ofItems_eq_error_iff.mpr (Or.inl ⟨hnone, rfl⟩)
    | logWithEager h hpattern hlog heager =>
      rw [items_of_splits h]
      exact check_ofItems_eq_error_iff.mpr (Or.inr ⟨hpattern, ⟨hlog, heager⟩, rfl⟩)

/-- Help is asked for if that is why there are no settings. -/
theorem asksForHelp_iff : AsksForHelp words ↔ Refused words .help := by
  constructor
  · rintro ⟨before, found, name, later, rfl, hbefore, hname⟩
    exact .halted hbefore (.help hname later)
  · intro h
    cases h with
    | halted hbefore hrest =>
      cases hrest with
      | help hname later => exact ⟨_, _, _, later, rfl, hbefore, hname⟩

/-- For all arguments. They give settings exactly if they come apart into items of which one at
least is a pattern and no two ask for a log and for eager input, and then the settings hold what
these items say: the patterns in their order, the last of other values or what stands for none, and
the flags that occur; without an input the standard input is read. Rearranged items give the same.
Other arguments are answered with no more than a text on the error output: the help, and that is a
success, if it is asked for before anything is wrong; what is wrong first; or again the help if
there is no pattern. -/
theorem arguments_follow_grammar (words : List String) :
    (∀ s, Settings.parse words = .ok s ↔
      ∃ found, Splits words found ∧ (∃ word, .pattern word ∈ found) ∧
        ¬(.flag .log ∈ found ∧ .flag .eager ∈ found) ∧ s.Records found) ∧
    (∀ found other others, Splits words found → Splits other others → Rearranged found others →
      Settings.parse words = Settings.parse other) ∧
    ∀ world,
      (∀ s found, Settings.parse words = .ok s → Splits words found → s.events world =
        (found.filterMap Item.input?).getLast?.elim (.ok world.stdin) world.files) ∧
      ((∀ s, Settings.parse words ≠ .ok s) →
        let out := run world words
        out.stdout = "" ∧
        (AsksForHelp words → out.code = 0 ∧ out.stderr = helpText world.program) ∧
        (¬AsksForHelp words → out.code = 2 ∧
          ((∃ cause, Refused words (.misused cause) ∧ out.stderr = cause.message ++ "\n") ∨
            Refused words .noPattern ∧ out.stderr = helpText world.program))) := by
  refine ⟨fun s => ?_, fun found other others h hother hsame => parse_congr h hother hsame,
    fun world => ⟨fun s found hparse h => ?_, fun hnone => ?_⟩⟩
  · rw [Settings.parse_eq_ok_iff]
    constructor
    · rintro ⟨found, hitems, hs, hpattern, hboth⟩
      exact ⟨found, items_eq_ok_iff.mp hitems, hpattern, hboth, Settings.records_iff.mpr hs⟩
    · rintro ⟨found, h, hpattern, hboth, hs⟩
      exact ⟨found, items_of_splits h, Settings.records_iff.mp hs, hpattern, hboth⟩
  · obtain ⟨others, hitems, rfl, -⟩ := Settings.parse_eq_ok_iff.mp hparse
    obtain rfl := Except.ok.inj ((items_of_splits h).symm.trans hitems)
    exact (Settings.records_ofItems found).events world
  · intro out
    obtain ⟨stop, hstop⟩ : ∃ stop, Settings.parse words = .error stop := by
      cases hparse : Settings.parse words with
      | error stop => exact ⟨stop, rfl⟩
      | ok s => exact absurd hparse (hnone s)
    have hrefused := Settings.parse_eq_error_iff.mp hstop
    have hhelp : AsksForHelp words ↔ stop = .help := by
      rw [asksForHelp_iff, ← Settings.parse_eq_error_iff, hstop]
      simp
    have hout : out = stop.outcome world.program := run_of_stop world hstop
    rw [hout, hhelp]
    cases stop with
    | help => exact ⟨rfl, fun _ => ⟨rfl, rfl⟩, fun h => absurd rfl h⟩
    | noPattern => exact ⟨rfl, nofun, fun _ => ⟨rfl, Or.inr ⟨hrefused, rfl⟩⟩⟩
    | misused cause => exact ⟨rfl, nofun, fun _ => ⟨rfl, Or.inl ⟨cause, hrefused, rfl⟩⟩⟩

/-- Words that look like options but are values, and items in another order and spelling; help that
is asked for before a value is missing; and a mistake that comes before the help. -/
theorem arguments_follow_grammar_lookalikes :
    let world : Surroundings := {
      program := "scan"
      stdin := []
      files := fun _ => .error .notFound }
    let words := ["--workers", "+2", "-p", "-h", "in", "-i", "--workers", "3", "-p", "x", "-"]
    let found : List Item := [.workers 2, .pattern "-h", .input "in", .flag .ignoreCase,
      .workers 3, .pattern "x", .input "-"]
    let other := ["in", "-", "--pattern", "-h", "-p", "x", "--workers", "2", "--workers", "003",
      "--ignore-case"]
    let others : List Item := [.input "in", .input "-", .pattern "-h", .pattern "x", .workers 2,
      .workers 3, .flag .ignoreCase]
    let s : Settings := {
      patterns := #["-h", "x"]
      ignoreCase := true
      workers := 3
      input := some "-" }
    let helped := ["-p", "-h", "-h", "--workers"]
    let wrong := ["-p", "x", "--workers", "0", "--help"]
    (Splits words found ∧ Splits other others ∧ Rearranged found others) ∧
    (Settings.parse words = .ok s ∧ Settings.parse other = .ok s) ∧
    (AsksForHelp helped ∧ (run world helped).code = 0) ∧
    ¬AsksForHelp wrong ∧ (run world wrong).code = 2 := by
  intro world words found other others s helped wrong
  have hwords : Splits words found := items_eq_ok_iff.mp (by decide +kernel)
  have hother : Splits other others := items_eq_ok_iff.mp (by decide +kernel)
  have hsame : Rearranged found others := by
    intro r
    cases r with
    | flag f => cases f <;> rfl
    | valued option => cases option <;> rfl
    | help | unknown | input => rfl
  have hrecords : s.Records found :=
    ⟨rfl, fun f => by cases f <;> decide, rfl, rfl, rfl⟩
  have hparse : Settings.parse words = .ok s := ((arguments_follow_grammar words).1 s).mpr
    ⟨found, hwords, ⟨"x", by decide⟩, by decide, hrecords⟩
  have hreordered := (arguments_follow_grammar words).2.1 found other others hwords hother hsame
  have hhelped : Settings.parse helped = .error .help := by decide +kernel
  have hasks : AsksForHelp helped :=
    ⟨["-p", "-h"], [.pattern "-h"], "-h", ["--workers"], rfl,
      items_eq_ok_iff.mp (by decide +kernel), by decide⟩
  have hwrong : Settings.parse wrong = .error (.misused (.badValue .workers)) := by decide +kernel
  have hmute : ¬AsksForHelp wrong := by
    rw [asksForHelp_iff, ← Settings.parse_eq_error_iff, hwrong]
    decide
  refine ⟨⟨hwords, hother, hsame⟩, ⟨hparse, hreordered ▸ hparse⟩, ⟨hasks, ?_⟩, hmute, ?_⟩
  · have hsettings : ∀ s, Settings.parse helped ≠ .ok s := fun s h => by cases hhelped.symm.trans h
    exact ((((arguments_follow_grammar helped).2.2 world).2 hsettings).2.1 hasks).1
  · have hsettings : ∀ s, Settings.parse wrong ≠ .ok s := fun s h => by cases hwrong.symm.trans h
    exact ((((arguments_follow_grammar wrong).2.2 world).2 hsettings).2.2 hmute).1

end BranchCursor.CommandLine
