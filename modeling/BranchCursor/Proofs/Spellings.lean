import BranchCursor.Proofs.Numerals

/-! How the items of a command line are written, and how a list of words comes apart into items
from left to right. The words are read as items exactly if they come apart; otherwise there is a
first place where an item should start and none does. -/
namespace BranchCursor.CommandLine

/-- The names by which a word plays a part; the other words are inputs or unknown. -/
def Role.names : Role → List String
  | help => ["-h", "--help"]
  | flag .ignoreCase => ["-i", "--ignore-case"]
  | flag .eager => ["--eager"]
  | flag .strict => ["--strict-utf8"]
  | flag .count => ["--count"]
  | flag .log => ["--log"]
  | valued .pattern => ["-p", "--pattern"]
  | valued .workers => ["--workers"]
  | valued .bufferSize => ["--buffer-size"]
  | unknown | input => []

/-- Whether no part goes by the name of a word. -/
def Nameless (word : String) : Prop := ∀ r : Role, word ∉ r.names

/-- Whether a word starts with a dash and goes on. -/
def Dashed (word : String) : Prop := word.toList.head? = some '-' ∧ word ≠ "-"

instance (word : String) : Decidable (Dashed word) := inferInstanceAs (Decidable (_ ∧ _))

/-- What an option takes as its value, and the item that it makes of it. -/
inductive Valued.Takes : Valued → String → Item → Prop where
  | pattern {word : String} (hword : word ≠ "") : Takes pattern word (.pattern word)
  | workers {word : String} {n : Nat} (hword : Denotes word n) (hpos : 0 < n) :
    Takes workers word (.workers n)
  | bufferSize {word : String} {n : Nat} (hword : Denotes word n) (hroom : 4 ≤ n) :
    Takes bufferSize word (.bufferSize n)

/-- The words of one item. -/
inductive Spells : List String → Item → Prop where
  | flag {name : String} {f : Flag} (hname : name ∈ (Role.flag f).names) : Spells [name] (.flag f)
  | valued {name value : String} {option : Valued} {item : Item}
    (hname : name ∈ (Role.valued option).names) (hvalue : option.Takes value item) :
    Spells [name, value] item
  | input {word : String} (hname : Nameless word) (hlook : ¬Dashed word) :
    Spells [word] (.input word)

/-- Words that are the words of items, one item after the other. -/
inductive Splits : List String → List Item → Prop where
  | nil : Splits [] []
  | cons {front later : List String} {item : Item} {found : List Item} (h : Spells front item)
    (hlater : Splits later found) : Splits (front ++ later) (item :: found)

/-- Why no item starts at the first of some words. -/
inductive Halts : List String → Stop → Prop where
  | help {name : String} (hname : name ∈ Role.help.names) (later : List String) :
    Halts (name :: later) .help
  | unknown {word : String} (hname : Nameless word) (hlook : Dashed word)
    (later : List String) : Halts (word :: later) (.misused (.unknownOption word))
  | missing {name : String} {option : Valued} (hname : name ∈ (Role.valued option).names) :
    Halts [name] (.misused (.missingValue option))
  | bad {name value : String} {option : Valued} (hname : name ∈ (Role.valued option).names)
    (hvalue : ∀ item, ¬option.Takes value item) (later : List String) :
    Halts (name :: value :: later) (.misused (.badValue option))

variable {word : String} {words front later before rest : List String} {item : Item}
  {found : List Item} {option : Valued} {stop : Stop} {r : Role}

/-! ### Single words -/

theorem role_of_mem_names (h : word ∈ r.names) : role word = r := by
  revert word
  cases r with
  | help => decide
  | flag f => cases f <;> decide
  | valued option => cases option <;> decide
  | unknown | input => decide

/-- A word is a name of its part, or its look decides. -/
theorem mem_names_role_or (word : String) :
    word ∈ (role word).names ∨ role word = plainRole word := by
  fun_cases role word
  -- the last case is that of all words without a name
  case case13 => exact Or.inr rfl
  all_goals exact Or.inl (by decide)

theorem plainRole_eq (word : String) :
    plainRole word = if Dashed word then .unknown else .input := by
  have hdash : word = "-" ↔ word.toList = ['-'] := by
    rw [← String.toList_inj]
    rfl
  simp only [plainRole, Dashed, Ne, hdash]
  split
  · rename_i h
    rw [if_pos (by simp [h])]
  · rename_i h
    rw [if_neg]
    rintro ⟨hhead, hmore⟩
    obtain ⟨later, hlater⟩ := List.head?_eq_some_iff.mp hhead
    cases later with
    | nil => exact hmore hlater
    | cons c later => exact h c later hlater

/-- A part that words are given by name is played by its names alone. -/
theorem mem_names_of_role (h : role word = r) (hunknown : r ≠ .unknown) (hinput : r ≠ .input) :
    word ∈ r.names := by
  subst h
  rcases mem_names_role_or word with hmem | hplain
  · exact hmem
  · rw [plainRole_eq] at hplain
    split at hplain
    · exact absurd hplain hunknown
    · exact absurd hplain hinput

theorem nameless_of_role (h : (role word).names = []) : Nameless word := by
  intro r hr
  rw [role_of_mem_names hr] at h
  rw [h] at hr
  cases hr

/-- A word without a name is an input or unknown, by its look. -/
theorem role_of_nameless (h : Nameless word) :
    role word = if Dashed word then .unknown else .input :=
  ((mem_names_role_or word).resolve_left (h _)).trans (plainRole_eq word)

theorem Valued.item?_eq_some_iff : option.item? word = some item ↔ option.Takes word item := by
  constructor
  · intro h
    cases option with
    | pattern =>
      obtain ⟨hword, rfl⟩ : word ≠ "" ∧ Item.pattern word = item := by simpa [item?] using h
      exact .pattern hword
    | workers =>
      obtain ⟨n, hcount, hpos, rfl⟩ :
          ∃ n, count? word = some n ∧ 0 < n ∧ Item.workers n = item := by
        simpa [item?, Option.bind_eq_some_iff] using h
      exact .workers (count?_eq_some_iff.mp hcount) hpos
    | bufferSize =>
      obtain ⟨n, hcount, hroom, rfl⟩ :
          ∃ n, count? word = some n ∧ 4 ≤ n ∧ Item.bufferSize n = item := by
        simpa [item?, Option.bind_eq_some_iff] using h
      exact .bufferSize (count?_eq_some_iff.mp hcount) hroom
  · intro h
    cases h with
    | pattern hword => simp [item?, hword]
    | workers hword hpos => simp [item?, count?_eq_some_iff.mpr hword, hpos]
    | bufferSize hword hroom => simp [item?, count?_eq_some_iff.mpr hword, hroom]

/-! ### Lists of words -/

theorem items_of_spells (h : Spells front item) (later : List String) :
    items (front ++ later) = (items later).map (item :: ·) := by
  cases h with
  | flag hname =>
    rw [List.singleton_append, items, role_of_mem_names hname]
  | valued hname hvalue =>
    rw [List.cons_append, List.singleton_append, items, role_of_mem_names hname]
    simp only [Valued.item?_eq_some_iff.mpr hvalue]
  | input hname hlook =>
    rw [List.singleton_append, items, role_of_nameless hname, if_neg hlook]

theorem items_of_halts (h : Halts rest stop) : items rest = .error stop := by
  cases h with
  | help hname later => rw [items, role_of_mem_names hname]
  | unknown hname hlook later => rw [items, role_of_nameless hname, if_pos hlook]
  | missing hname => rw [items, role_of_mem_names hname]
  | bad hname hvalue later =>
    rw [items, role_of_mem_names hname]
    have hnone := Option.eq_none_iff_forall_ne_some.mpr fun item =>
      mt Valued.item?_eq_some_iff.mp (hvalue item)
    simp only [hnone]

/-- Items are read one after the other, and then what follows them. -/
theorem items_append (h : Splits before found) (rest : List String) :
    items (before ++ rest) = (items rest).map (found ++ ·) := by
  -- the rest stays general, so that both a further item and a halt can stand there
  induction h with
  | nil =>
    rw [List.nil_append]
    cases items rest <;> rfl
  | cons h hlater ih =>
    rw [List.append_assoc, items_of_spells h, ih]
    cases items rest <;> rfl

theorem items_of_splits (h : Splits words found) : items words = .ok found := by
  have happend := items_append h []
  rwa [List.append_nil, items, Except.map, List.append_nil] at happend

/-- Whether words are those of items up to their end, or up to a place where no item starts. -/
def Parted (words : List String) : Prop := ∃ before found rest,
  words = before ++ rest ∧ Splits before found ∧ (rest = [] ∨ ∃ stop, Halts rest stop)

theorem parted_of_spells (h : Spells front item) (hlater : Parted later) :
    Parted (front ++ later) := by
  obtain ⟨before, found, rest, rfl, hbefore, hrest⟩ := hlater
  exact ⟨_, _, rest, (List.append_assoc ..).symm, .cons h hbefore, hrest⟩

theorem parted_of_halts (h : Halts rest stop) : Parted rest :=
  ⟨[], [], rest, rfl, .nil, Or.inr ⟨stop, h⟩⟩

/-- There are no other words. -/
theorem parted (words : List String) : Parted words := by
  -- along the reading: where it goes on a rule of `Spells` applies, where it ends one of `Halts`
  fun_induction items words with
  | case1 => exact ⟨[], [], [], rfl, .nil, Or.inl rfl⟩
  | case2 word later hrole =>
    exact parted_of_halts (.help (mem_names_of_role hrole nofun nofun) later)
  | case3 word later f hrole ih =>
    exact parted_of_spells (.flag (mem_names_of_role hrole nofun nofun)) ih
  | case4 word later hrole ih =>
    have hname := nameless_of_role (congrArg Role.names hrole)
    have hlook : ¬Dashed word := by simpa [hrole] using role_of_nameless hname
    exact parted_of_spells (.input hname hlook) ih
  | case5 word later hrole =>
    have hname := nameless_of_role (congrArg Role.names hrole)
    have hlook : Dashed word := by simpa [hrole] using role_of_nameless hname
    exact parted_of_halts (.unknown hname hlook later)
  | case6 word option hrole =>
    exact parted_of_halts (.missing (mem_names_of_role hrole nofun nofun))
  | case7 word option hrole value later hnone =>
    refine parted_of_halts (.bad (mem_names_of_role hrole nofun nofun) (fun item hitem => ?_) later)
    exact absurd (Valued.item?_eq_some_iff.mpr hitem) (Option.eq_none_iff_forall_ne_some.mp hnone _)
  | case8 word option hrole value later item hitem ih =>
    exact parted_of_spells
      (.valued (mem_names_of_role hrole nofun nofun) (Valued.item?_eq_some_iff.mp hitem)) ih

/-- Words are read as the items that they come apart into. -/
theorem items_eq_ok_iff : items words = .ok found ↔ Splits words found := by
  refine ⟨fun h => ?_, items_of_splits⟩
  obtain ⟨before, others, rest, rfl, hbefore, rfl | ⟨stop, hrest⟩⟩ := parted words
  · rw [List.append_nil] at h ⊢
    obtain rfl := Except.ok.inj ((items_of_splits hbefore).symm.trans h)
    exact hbefore
  · rw [items_append hbefore, items_of_halts hrest] at h
    cases h

/-- They are not read if after some items there is a place where none starts, and the first such
place says why. -/
theorem items_eq_error_iff : items words = .error stop ↔
    ∃ before found rest, words = before ++ rest ∧ Splits before found ∧ Halts rest stop := by
  constructor
  · intro h
    obtain ⟨before, found, rest, rfl, hbefore, rfl | ⟨other, hrest⟩⟩ := parted words
    · rw [List.append_nil, items_of_splits hbefore] at h
      cases h
    · rw [items_append hbefore, items_of_halts hrest] at h
      obtain rfl := Except.error.inj h
      exact ⟨before, found, rest, rfl, hbefore, hrest⟩
  · rintro ⟨before, found, rest, rfl, hbefore, hrest⟩
    rw [items_append hbefore, items_of_halts hrest]
    rfl

end BranchCursor.CommandLine
