import BranchCursor.Proofs.Spellings

/-! What the settings of a run tell of the words that they were read from: no pattern is empty, the
room for bytes suffices, a flag is set if it was among the words, and of items that say nothing
about the outcome nothing else is left. -/
namespace BranchCursor.CommandLine

namespace Item

/-- What is let through as an item. -/
def Fit : Item → Prop
  | flag _ | input _ => True
  | pattern word => word ≠ ""
  | workers n => 0 < n
  | bufferSize n => 4 ≤ n

def pattern? : Item → Option String
  | pattern word => some word
  | flag _ | workers _ | bufferSize _ | input _ => none

def workers? : Item → Option Nat
  | workers n => some n
  | flag _ | pattern _ | bufferSize _ | input _ => none

def bufferSize? : Item → Option Nat
  | bufferSize n => some n
  | flag _ | pattern _ | workers _ | input _ => none

def input? : Item → Option String
  | input word => some word
  | flag _ | pattern _ | workers _ | bufferSize _ => none

end Item

namespace Settings

/-- Settings that words can be read as. -/
structure Fit (s : Settings) : Prop where
  patterns : ∀ word ∈ s.patterns, word ≠ ""
  workers : 0 < s.workers
  bufferSize : 4 ≤ s.bufferSize

/-- Whether a flag is set. -/
def has (s : Settings) : Flag → Bool
  | .ignoreCase => s.ignoreCase
  | .eager => s.eager
  | .strict => s.strict
  | .count => s.count
  | .log => s.log

theorem Fit.add {s : Settings} {item : Item} (hs : s.Fit) (hitem : item.Fit) :
    (s.add item).Fit := by
  obtain ⟨hpatterns, hworkers, hbuffer⟩ := hs
  cases item with
  | flag f => cases f <;> exact ⟨hpatterns, hworkers, hbuffer⟩
  | pattern word =>
    refine ⟨fun other hother => ?_, hworkers, hbuffer⟩
    rcases Array.mem_push.mp hother with hother | rfl
    · exact hpatterns other hother
    · exact hitem
  | workers n => exact ⟨hpatterns, hitem, hbuffer⟩
  | bufferSize n => exact ⟨hpatterns, hworkers, hitem⟩
  | input word => exact ⟨hpatterns, hworkers, hbuffer⟩

/-- A flag is set if it was among the items. -/
theorem has_ofItems (f : Flag) (found : List Item) :
    (ofItems found).has f = true ↔ .flag f ∈ found := by
  have hadd : ∀ (s : Settings) (item : Item),
      (s.add item).has f = true ↔ s.has f = true ∨ .flag f = item := by
    intro s item
    cases item with
    | flag g => cases f <;> cases g <;> simp [add, set, has]
    | pattern _ | workers _ | bufferSize _ | input _ => cases f <;> simp [add, has]
  have hfold : ∀ s : Settings,
      (found.foldl add s).has f = true ↔ s.has f = true ∨ .flag f ∈ found := by
    induction found with
    | nil => simp
    | cons item later ih =>
      intro s
      rw [List.foldl_cons, ih, hadd, List.mem_cons, or_assoc]
  have hnone : ({} : Settings).has f = false := by cases f <;> rfl
  exact (hfold {}).trans (by simp [hnone])

/-- The patterns are those of the items, in their order. -/
theorem patterns_ofItems (found : List Item) :
    (ofItems found).patterns.toList = found.filterMap Item.pattern? := by
  have hfold : ∀ s : Settings,
      (found.foldl add s).patterns.toList = s.patterns.toList ++ found.filterMap Item.pattern? := by
    induction found with
    | nil => simp
    | cons item later ih =>
      intro s
      rw [List.foldl_cons, ih]
      cases item with
      | flag f => cases f <;> rfl
      | pattern word => simp [add, Item.pattern?]
      | workers _ | bufferSize _ | input _ => rfl
  exact (hfold {}).trans (List.nil_append _)

theorem isEmpty_patterns_ofItems (found : List Item) :
    (ofItems found).patterns.isEmpty = true ↔ ∀ word, .pattern word ∉ found := by
  rw [← Array.isEmpty_toList, patterns_ofItems, List.isEmpty_iff, List.filterMap_eq_nil_iff]
  constructor
  · intro h word hword
    cases h _ hword
  · intro h item hitem
    cases item with
    | pattern word => exact absurd hitem (h word)
    | flag _ | workers _ | bufferSize _ | input _ => rfl

/-- Where each value takes the place of the one before, the last one stays. -/
theorem last_ofItems {α : Type} (get : Settings → Option α) (pick : Item → Option α)
    (hadd : ∀ s item, get (s.add item) = (pick item).or (get s)) (found : List Item) :
    get (ofItems found) = (found.filterMap pick).getLast?.or (get {}) := by
  have hfold : ∀ s : Settings,
      get (found.foldl add s) = (found.filterMap pick).getLast?.or (get s) := by
    induction found with
    | nil => exact fun s => rfl
    | cons item later ih =>
      intro s
      rw [List.foldl_cons, ih, hadd, List.filterMap_cons]
      cases pick item with
      | none => rfl
      | some value =>
        rw [List.getLast?_cons]
        cases (later.filterMap pick).getLast? <;> rfl
  exact hfold {}

/-- What an item gives takes the place of what was there. -/
theorem replace_add (s : Settings) (item : Item) :
    some (s.add item).workers = item.workers?.or (some s.workers) ∧
      some (s.add item).bufferSize = item.bufferSize?.or (some s.bufferSize) ∧
      (s.add item).input = item.input?.or s.input := by
  cases item with
  | flag f => cases f <;> exact ⟨rfl, rfl, rfl⟩
  | pattern _ | workers _ | bufferSize _ | input _ => exact ⟨rfl, rfl, rfl⟩

/-- What settings hold that were made from items, each part said on its own. -/
structure Records (s : Settings) (found : List Item) : Prop where
  patterns : s.patterns.toList = found.filterMap Item.pattern?
  flags : ∀ f, s.has f = true ↔ .flag f ∈ found
  workers : s.workers = (found.filterMap Item.workers?).getLast?.getD 1
  bufferSize : s.bufferSize = (found.filterMap Item.bufferSize?).getLast?.getD 8192
  input : s.input = (found.filterMap Item.input?).getLast?

theorem records_ofItems (found : List Item) : (ofItems found).Records found where
  patterns := patterns_ofItems found
  flags f := has_ofItems f found
  workers := by
    have hlast := last_ofItems (fun s => some s.workers) Item.workers?
      (fun s item => (replace_add s item).1) found
    exact Option.some.inj (hlast.trans Option.or_some)
  bufferSize := by
    have hlast := last_ofItems (fun s => some s.bufferSize) Item.bufferSize?
      (fun s item => (replace_add s item).2.1) found
    exact Option.some.inj (hlast.trans Option.or_some)
  input := by
    have hlast := last_ofItems input Item.input? (fun s item => (replace_add s item).2.2) found
    exact hlast.trans Option.or_none

attribute [ext] Settings

/-- There is no more in settings than that. -/
theorem records_iff {s : Settings} {found : List Item} : s.Records found ↔ s = ofItems found := by
  refine ⟨fun hs => ?_, fun hs => hs ▸ records_ofItems found⟩
  have ht := records_ofItems found
  have hflags (f : Flag) : s.has f = (ofItems found).has f :=
    Bool.eq_iff_iff.mpr ((hs.flags f).trans (ht.flags f).symm)
  exact Settings.ext (Array.toList_inj.mp (hs.patterns.trans ht.patterns.symm))
    (hflags .ignoreCase) (hflags .eager) (hflags .strict) (hflags .count) (hflags .log)
    (hs.workers.trans ht.workers.symm) (hs.bufferSize.trans ht.bufferSize.symm)
    (hs.input.trans ht.input.symm)

/-! ### What is left without some items -/

variable {keep : Settings → Settings} {drop : Item → Bool} {found other : List Item}

theorem log_and_eager_ofItems (found : List Item) :
    ((ofItems found).log && (ofItems found).eager) = true ↔
      .flag .log ∈ found ∧ .flag .eager ∈ found := by
  rw [Bool.and_eq_true]
  exact and_congr (has_ofItems .log found) (has_ofItems .eager found)

theorem check_ofItems_eq_ok_iff {s : Settings} : (ofItems found).check = .ok s ↔
    s = ofItems found ∧ (∃ word, .pattern word ∈ found) ∧
      ¬(.flag .log ∈ found ∧ .flag .eager ∈ found) := by
  rw [check, ← Classical.not_forall_not, ← isEmpty_patterns_ofItems, ← log_and_eager_ofItems]
  split
  · rename_i hempty
    simp [hempty]
  · split
    · rename_i hlog
      simp [hlog]
    · rename_i hsome hcalm
      simp [hsome, hcalm, eq_comm]

theorem check_ofItems_eq_error_iff {stop : Stop} : (ofItems found).check = .error stop ↔
    (∀ word, .pattern word ∉ found) ∧ stop = .noPattern ∨
      (∃ word, .pattern word ∈ found) ∧ (.flag .log ∈ found ∧ .flag .eager ∈ found) ∧
        stop = .misused .logWithEager := by
  rw [check, ← Classical.not_forall_not, ← isEmpty_patterns_ofItems, ← log_and_eager_ofItems]
  split
  · rename_i hempty
    simp [hempty, @eq_comm _ stop]
  · split
    · rename_i hsome hlog
      simp [hsome, hlog, @eq_comm _ stop]
    · rename_i hsome hcalm
      simp [hsome, hcalm]

/-- Words stand for settings if all of them are items, a pattern is among them, and eager input is
not to be logged. -/
theorem parse_eq_ok_iff {words : List String} {s : Settings} : parse words = .ok s ↔
    ∃ found, items words = .ok found ∧ s = ofItems found ∧ (∃ word, .pattern word ∈ found) ∧
      ¬(.flag .log ∈ found ∧ .flag .eager ∈ found) := by
  unfold parse
  cases items words with
  | error stop => simp
  | ok found => simp [check_ofItems_eq_ok_iff]

end Settings

end BranchCursor.CommandLine
