import BranchCursor.Proofs.Steps

/-! What holds of a session between any two of its steps.
Every feed is sound for the marks held by names and iterators, and each of these cursors stands
somewhere in the content of its family. -/
namespace BranchCursor
open Cursor (Within holding)

namespace Named
variable {α : Type} {name : String} {a : α} {entries : Named α} {e : String × α}

theorem mem_of_get? (h : entries.get? name = some a) : ∃ e ∈ entries, e.2 = a := by
  obtain ⟨e, he, rfl⟩ := Option.map_eq_some_iff.mp h
  exact ⟨e, List.mem_of_find?_eq_some he, rfl⟩

theorem mem_of_mem_erase (h : e ∈ entries.erase name) : e ∈ entries :=
  (List.mem_filter.mp h).1

theorem eq_or_mem_of_mem_put (h : e ∈ entries.put name a) : e = (name, a) ∨ e ∈ entries :=
  (List.mem_cons.mp h).imp_right mem_of_mem_erase

end Named

/-! ### Roots -/

/-- A feed of which nobody knows anything yet. -/
theorem Feed.sound_make (supply : Supply) (options : Options) :
    (Feed.make supply options).Sound supply fun _ => false := by
  refine ⟨⟨rfl, rfl, Nat.zero_le _, ?_, rfl, ?_, fun _ => rfl⟩, ?_, ?_, ?_⟩
  · intro hx
    cases hx
  · intro k hk
    exact absurd hk (Nat.not_lt_zero k)
  all_goals
    intro id hid
    cases hid

namespace Source

/-- A lazy root stands at the beginning, on a feed of which nothing was read. -/
theorem attachRoot_stands (supply : Supply) (options : Options) :
    let r := attachRoot supply options
    r.1.Stands (.supply supply) r.2 0 ∧ r.2.Sound supply (r.1.holds ·) := by
  obtain ⟨hid, hsize, hmark, -⟩ :=
    Feed.attach_spec (fun _ => false) 0 none (Feed.make supply options)
  have hroot : ((Feed.make supply options).attach (fun _ => false) 0 none).2.Sound supply
      fun id => false || id == (Feed.make supply options).marks.size :=
    (Feed.sound_make supply options).attach (fun _ h => h) rfl
  refine ⟨⟨rfl, ?_, ?_⟩, hroot.mono ?_⟩
  · rw [hid]
    exact hsize ▸ Nat.lt_succ_self _
  · rw [hid]
    exact congrArg Mark.position hmark
  · intro id hh
    have hown := beq_iff_eq.mp hh
    rw [← hown, hid]
    simp

/-- The choices made for a source that is read on demand. -/
def options? : Source → Option Options
  | iterated _ options | scripted _ options | bytes _ options => some options
  | text _ | textAt .. | nothing => none

/-- A source that is read on demand opens with such a root. -/
theorem open?_of_options? {source : Source} {options : Options} {r : Cursor × Feed}
    (hoptions : source.options? = some options) (ho : source.open? = .ok r) :
    ∃ supply, source.backing = .supply supply ∧ r = attachRoot supply options := by
  cases source with
  | text _ | textAt _ _ | nothing => cases hoptions
  | iterated content own =>
    cases hoptions
    exact ⟨_, rfl, (Except.ok.inj ho).symm⟩
  | scripted answers own =>
    cases hoptions
    exact ⟨_, rfl, (Except.ok.inj ho).symm⟩
  | bytes input own =>
    cases hoptions
    simp only [open?, backing] at ho ⊢
    cases hd : Decoder.make input options.bufferSize options.lossy with
    | error cause =>
      rw [hd] at ho
      cases ho
    | ok d =>
      rw [hd] at ho
      exact ⟨_, rfl, (Except.ok.inj ho).symm⟩

theorem options?_of_supply {source : Source} {origin : Supply}
    (hb : source.backing = .supply origin) : ∃ options, source.options? = some options := by
  cases source with
  | text _ | textAt _ _ | nothing => cases hb
  | iterated _ options | scripted _ options | bytes _ options => exact ⟨options, rfl⟩

theorem open?_of_isLazy {source : Source} {r : Cursor × Feed} (hlazy : source.isLazy = true)
    (ho : source.open? = .ok r) :
    ∃ supply options, source.backing = .supply supply ∧ r = attachRoot supply options := by
  obtain ⟨options, hoptions⟩ : ∃ options, source.options? = some options := by
    cases source with
    | text _ | textAt _ _ | nothing => cases hlazy
    | iterated _ options | scripted _ options | bytes _ options => exact ⟨options, rfl⟩
  obtain ⟨supply, hback, hr⟩ := open?_of_options? hoptions ho
  exact ⟨supply, options, hback, hr⟩

theorem stands_of_open? {source : Source} {c : Cursor} {f : Feed}
    (h : source.open? = .ok (c, f)) :
    c.Stands source.backing f source.start ∧ f.Serves source.backing (c.holds ·) := by
  cases hlazy : source.isLazy with
  | true =>
    obtain ⟨supply, options, hback, hr⟩ := open?_of_isLazy hlazy h
    obtain ⟨rfl, rfl⟩ := Prod.mk.inj hr
    have hstart : source.start = 0 := by
      cases source with
      | text _ | textAt _ _ | nothing => cases hlazy
      | _ => rfl
    rw [hback, hstart]
    exact attachRoot_stands supply options
  | false =>
    cases source with
    | text content =>
      obtain ⟨rfl, rfl⟩ := Prod.mk.inj (Except.ok.inj h)
      refine ⟨?_, rfl⟩
      unfold Cursor.ofText
      split
      · exact ⟨rfl, rfl⟩
      · rename_i hout
        exact Nat.le_of_not_lt hout
    | textAt buffer index =>
      simp only [open?, TextCursor.make] at h
      split at h
      · obtain ⟨rfl, rfl⟩ := Prod.mk.inj (Except.ok.inj h)
        exact ⟨⟨rfl, rfl⟩, rfl⟩
      · cases h
    | nothing =>
      obtain ⟨rfl, rfl⟩ := Prod.mk.inj (Except.ok.inj h)
      exact ⟨Nat.le_refl _, rfl⟩
    | iterated _ _ | scripted _ _ | bytes _ _ => cases hlazy

end Source

namespace Session

/-! ### The invariant -/

/-- What is behind family `i`. -/
def backing (i : Nat) (s : Session) : Backing :=
  match s.families[i]? with
  | some family => family.source.backing
  | none => .text #[]

/-- All that holds cursors: the names and the iterators. -/
def places (s : Session) : List Place := s.cursors.map (·.2) ++ s.iterators.map (·.2)

/-- A place of the session stands at offset `o` of the content of its family. -/
def Stands (s : Session) (p : Place) (o : Nat) : Prop :=
  p.family < s.families.size ∧ p.cursor.Stands (s.backing p.family) (s.feed p.family) o

/-- Feeds are sound for what is held, what is held stands somewhere, and handles lead to feeds. -/
structure Sound (s : Session) : Prop where
  serves : ∀ i, (s.feed i).Serves (s.backing i) (s.alive i)
  placed : ∀ p ∈ s.places, ∃ o, s.Stands p o
  handled : ∀ e ∈ s.handles, e.2 < s.families.size

/-- A later state of the same session: families are added, and their feeds go on. -/
structure Leads (s t : Session) : Prop where
  size : s.families.size ≤ t.families.size
  backing : ∀ i < s.families.size, t.backing i = s.backing i
  extend : ∀ i < s.families.size, (s.feed i).Extends (t.feed i)

variable {s t u : Session} {i j : Nat} {id : MarkId} {p q : Place} {o : Nat} {name : String}

theorem Leads.refl (s : Session) : s.Leads s :=
  ⟨Nat.le_refl _, fun _ _ => rfl, fun _ _ => Feed.Extends.refl _⟩

theorem Leads.trans (hst : s.Leads t) (htu : t.Leads u) : s.Leads u where
  size := Nat.le_trans hst.size htu.size
  backing i hi := by
    rw [htu.backing i (Nat.lt_of_lt_of_le hi hst.size), hst.backing i hi]
  extend i hi := (hst.extend i hi).trans (htu.extend i (Nat.lt_of_lt_of_le hi hst.size))

theorem Stands.leads (h : s.Stands p o) (hst : s.Leads t) : t.Stands p o := by
  obtain ⟨hi, hc⟩ := h
  refine ⟨Nat.lt_of_lt_of_le hi hst.size, ?_⟩
  rw [hst.backing p.family hi]
  exact hc.extend (hst.extend p.family hi)

/-- The family of a cursor in a feed was opened on a source that is read on demand. -/
theorem Stands.family_of_mark (h : s.Stands ⟨.mark id, i⟩ o) :
    ∃ family origin, s.families[i]? = some family ∧ family.source.backing = .supply origin ∧
      s.backing i = .supply origin := by
  have hi : i < s.families.size := h.1
  have hkind : (s.backing i).isText = false := h.2.1
  have hfamily := Array.getElem?_eq_getElem hi
  have hback : s.backing i = s.families[i].source.backing := by
    rw [Session.backing, hfamily]
  cases hb : s.backing i with
  | text buffer =>
    rw [hb] at hkind
    cases hkind
  | supply origin => exact ⟨_, origin, hfamily, hback.symm.trans hb, rfl⟩

/-- There is a supply only where a family is. -/
theorem lt_size_of_supply {origin : Supply} (h : s.backing i = .supply origin) :
    i < s.families.size := by
  by_contra hout
  have hnone : s.families[i]? = none := Array.getElem?_eq_none_iff.mpr (Nat.le_of_not_lt hout)
  simp only [backing, hnone] at h
  cases h

/-- What a family was opened on. -/
def source? (i : Nat) (s : Session) : Option Source := s.families[i]?.map Family.source

theorem lt_size_of_source? {source : Source} (h : s.source? i = some source) :
    i < s.families.size := by
  obtain ⟨family, hfamily, -⟩ := Option.map_eq_some_iff.mp h
  exact (Array.getElem?_eq_some_iff.mp hfamily).1

theorem backing_of_source? {source : Source} (h : s.source? i = some source) :
    s.backing i = source.backing := by
  obtain ⟨family, hfamily, rfl⟩ := Option.map_eq_some_iff.mp h
  rw [backing, hfamily]

theorem alive_iff : s.alive i id = true ↔ ∃ p ∈ s.places, p.holds i id = true := by
  simp only [alive, places, Bool.or_eq_true, List.any_eq_true, List.mem_append, List.mem_map]
  constructor
  · rintro (⟨e, he, hh⟩ | ⟨e, he, hh⟩)
    · exact ⟨e.2, Or.inl ⟨e, he, rfl⟩, hh⟩
    · exact ⟨e.2, Or.inr ⟨e, he, rfl⟩, hh⟩
  · rintro ⟨p, ⟨e, he, rfl⟩ | ⟨e, he, rfl⟩, hh⟩
    · exact Or.inl ⟨e, he, hh⟩
    · exact Or.inr ⟨e, he, hh⟩

theorem mem_places_of_cursor (h : s.cursors.get? name = some p) : p ∈ s.places := by
  obtain ⟨e, he, rfl⟩ := Named.mem_of_get? h
  exact List.mem_append_left _ (List.mem_map_of_mem he)

theorem mem_places_of_iterator (h : s.iterators.get? name = some p) : p ∈ s.places := by
  obtain ⟨e, he, rfl⟩ := Named.mem_of_get? h
  exact List.mem_append_right _ (List.mem_map_of_mem he)

theorem mem_places_release (h : q ∈ (s.release name).places) : q ∈ s.places := by
  simp only [places, release, List.mem_append, List.mem_map] at h ⊢
  refine h.imp_right ?_
  rintro ⟨e, he, rfl⟩
  exact ⟨e, Named.mem_of_mem_erase he, rfl⟩

/-- What a named cursor or an iterator holds is among the marks held. -/
theorem holding_of_mem (h : p ∈ s.places) (id : MarkId)
    (hid : holding (s.alive p.family) [p.cursor] id) : s.alive p.family id := by
  simp only [holding, List.any_cons, List.any_nil, Bool.or_false, Bool.or_eq_true] at hid
  rcases hid with hid | hid
  · exact hid
  · exact alive_iff.mpr ⟨p, h, by simp [Place.holds, hid]⟩

/-- What is held after one more cursor may have come to be held. -/
theorem alive_of_places (h : ∀ q ∈ t.places, q = p ∨ q ∈ s.places) (hid : t.alive i id = true) :
    s.alive i id = true ∨ p.holds i id = true := by
  obtain ⟨q, hq, hh⟩ := alive_iff.mp hid
  rcases h q hq with rfl | hq
  · exact Or.inr hh
  · exact Or.inl (alive_iff.mpr ⟨q, hq, hh⟩)

theorem alive_of_subset (h : ∀ q ∈ t.places, q ∈ s.places) (hid : t.alive i id = true) :
    s.alive i id = true := by
  obtain ⟨q, hq, hh⟩ := alive_iff.mp hid
  exact alive_iff.mpr ⟨q, h q hq, hh⟩

theorem mem_places_nameCursor (h : q ∈ (s.nameCursor name p).places) : q = p ∨ q ∈ s.places := by
  rcases List.mem_append.mp h with hq | hq
  · obtain ⟨e, he, rfl⟩ := List.mem_map.mp hq
    rcases Named.eq_or_mem_of_mem_put he with rfl | he
    · exact Or.inl rfl
    · exact Or.inr (List.mem_append_left _ (List.mem_map_of_mem he))
  · exact Or.inr (List.mem_append_right _ hq)

theorem mem_places_putIterator
    (h : q ∈ ({ s with iterators := s.iterators.put name p } : Session).places) :
    q = p ∨ q ∈ s.places := by
  rcases List.mem_append.mp h with hq | hq
  · exact Or.inr (List.mem_append_left _ hq)
  · obtain ⟨e, he, rfl⟩ := List.mem_map.mp hq
    rcases Named.eq_or_mem_of_mem_put he with rfl | he
    · exact Or.inl rfl
    · exact Or.inr (List.mem_append_right _ (List.mem_map_of_mem he))

theorem mem_places_dropCursor
    (h : q ∈ ({ s with cursors := s.cursors.erase name } : Session).places) : q ∈ s.places := by
  rcases List.mem_append.mp h with hq | hq
  · obtain ⟨e, he, rfl⟩ := List.mem_map.mp hq
    exact List.mem_append_left _ (List.mem_map_of_mem (Named.mem_of_mem_erase he))
  · exact List.mem_append_right _ hq

theorem sound_empty : ({} : Session).Sound where
  serves _ := rfl
  placed p hp := by cases hp
  handled e he := by cases he

theorem Sound.lt_size_of_handle (hs : s.Sound) (hget : s.handles.get? name = some i) :
    i < s.families.size := by
  obtain ⟨e, he, rfl⟩ := Named.mem_of_get? hget
  exact hs.handled e he

/-- There is no handle yet of a family that is still to come. -/
theorem Sound.get?_handles_ne (hs : s.Sound) (hi : s.families.size ≤ i) (name : String) :
    s.handles.get? name ≠ some i :=
  fun hget => absurd (hs.lt_size_of_handle hget) (Nat.not_lt.mpr hi)

/-! ### How it is kept -/

theorem feed_of_families (h : t.families = s.families) (i : Nat) : t.feed i = s.feed i := by
  rw [feed, h]
  rfl

theorem backing_of_families (h : t.families = s.families) (i : Nat) :
    t.backing i = s.backing i := by
  rw [backing, h]
  rfl

theorem leads_of_families (h : t.families = s.families) : s.Leads t where
  size := Nat.le_of_eq (congrArg Array.size h.symm)
  backing i _ := backing_of_families h i
  extend i _ := by
    rw [feed_of_families h]
    exact Feed.Extends.refl _

/-- Names and iterators may be changed as long as what they hold then was held before. -/
theorem Sound.regroup (hf : t.families = s.families)
    (hserves : ∀ i, (s.feed i).Serves (s.backing i) (t.alive i))
    (hplaced : ∀ p ∈ t.places, ∃ o, s.Stands p o)
    (hhandled : ∀ e ∈ t.handles, e.2 < s.families.size) : t.Sound where
  serves i := by
    rw [feed_of_families hf, backing_of_families hf]
    exact hserves i
  placed p hp := by
    obtain ⟨o, hstands⟩ := hplaced p hp
    exact ⟨o, hstands.leads (leads_of_families hf)⟩
  handled := by
    rw [hf]
    exact hhandled

/-- Letting go of some cursors breaks nothing. -/
theorem Sound.fewer (hs : s.Sound) (hf : t.families = s.families)
    (hsub : ∀ q ∈ t.places, q ∈ s.places)
    (hhandled : ∀ e ∈ t.handles, e.2 < s.families.size) : t.Sound := by
  refine Sound.regroup hf (fun i => (hs.serves i).mono ?_) ?_ hhandled
  · intro id hid
    exact alive_of_subset hsub hid
  · intro q hq
    exact hs.placed q (hsub q hq)

/-- One cursor more may be held if its feed is sound for it, too. -/
theorem Sound.withPlace (hs : s.Sound) (hp : s.Stands p o)
    (hserves : (s.feed p.family).Serves (s.backing p.family)
      (holding (s.alive p.family) [p.cursor]))
    (hf : t.families = s.families) (hsub : ∀ q ∈ t.places, q = p ∨ q ∈ s.places)
    (hhandles : t.handles = s.handles) : t.Sound := by
  refine Sound.regroup hf ?_ ?_ (hhandles ▸ hs.handled)
  · intro i
    by_cases hi : i = p.family
    · subst hi
      refine hserves.mono ?_
      intro id hid
      simpa [holding, Place.holds] using alive_of_places hsub hid
    · refine (hs.serves i).mono ?_
      intro id hid
      simpa [Place.holds, Ne.symm hi] using alive_of_places hsub hid
  · intro q hq
    rcases hsub q hq with rfl | hq
    · exact ⟨o, hp⟩
    · exact hs.placed q hq

theorem size_setFeed (i : Nat) (f : Feed) (s : Session) :
    (s.setFeed i f).families.size = s.families.size := by
  simp [setFeed]

theorem backing_setFeed (i j : Nat) (f : Feed) (s : Session) :
    (s.setFeed i f).backing j = s.backing j := by
  simp only [backing, setFeed, Array.getElem?_modify]
  by_cases h : i = j
  · rw [if_pos h]
    cases s.families[j]? <;> rfl
  · rw [if_neg h]

theorem leads_setFeed {f : Feed} (hi : i < s.families.size) (hext : (s.feed i).Extends f) :
    s.Leads (s.setFeed i f) where
  size := Nat.le_of_eq (size_setFeed i f s).symm
  backing j _ := backing_setFeed i j f s
  extend j _ := by
    by_cases h : i = j
    · subst h
      rw [feed_setFeed hi]
      exact hext
    · rw [feed_setFeed_ne h]
      exact Feed.Extends.refl _

/-- A feed may go on as long as it stays sound for what is held. -/
theorem Sound.setFeed {f : Feed} (hs : s.Sound) (hi : i < s.families.size)
    (hext : (s.feed i).Extends f) (hserves : f.Serves (s.backing i) (s.alive i)) :
    (s.setFeed i f).Sound where
  serves j := by
    rw [backing_setFeed]
    by_cases h : i = j
    · subst h
      rw [feed_setFeed hi]
      exact hserves
    · rw [feed_setFeed_ne h]
      exact hs.serves j
  placed p hp := by
    obtain ⟨o, hstands⟩ := hs.placed p hp
    exact ⟨o, hstands.leads (leads_setFeed hi hext)⟩
  handled := by
    rw [size_setFeed]
    exact hs.handled

end Session

end BranchCursor
