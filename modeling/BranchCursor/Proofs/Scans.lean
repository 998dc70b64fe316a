import BranchCursor.Proofs.Crews
import BranchCursor.Proofs.Runs

/-! Searches from any cursor of any session, by one worker or by many in any interleaving.
They find every occurrence and nothing else, and share out the offsets; and the source is asked
once for each character and once for its end. -/
namespace BranchCursor
open Cursor (Within)

/-- The characters from a cursor on, given what is behind its family. -/
def Cursor.rest (b : Backing) (f : Feed) : Cursor → List Char
  | finish => []
  | text t => t.remaining
  | mark id => b.content.drop (f.mark id).position

theorem Cursor.Stands.rest_eq {b : Backing} {f : Feed} {o : Nat} {c : Cursor}
    (hc : c.Stands b f o) : c.rest b f = b.content.drop o := by
  cases c with
  | finish => exact (List.drop_eq_nil_of_le hc).symm
  | text t =>
    obtain ⟨rfl, rfl⟩ := hc
    rfl
  | mark id =>
    obtain ⟨-, -, rfl⟩ := hc
    rfl

variable {b : Backing} {f : Feed} {o lanes : Nat} {c : Cursor} {like : Char → Char → Bool}
  {patterns : List (List Char)}

namespace Crew

/-- Lanes need the cursor that they start at and no other. -/
theorem sound_searching {Q : Nat → Findings → Feed → Prop} (hs : f.Serves b (c.holds ·))
    (hmeets : ∀ k, (Program.search like patterns k lanes (c.bound f) c).Meets b
      (fun a g _ => Q k a g) f [c]) :
    (searching like patterns lanes c f).Sound b Q where
  serves := by
    refine hs.mono ?_
    intro id hid
    obtain ⟨p, hp, hh⟩ := List.any_eq_true.mp hid
    obtain ⟨k, -, rfl⟩ := List.mem_map.mp hp
    simpa [Program.search, Program.lane, Program.holds] using hh
  meets k p hp := by
    rw [searching, List.getElem?_map, Option.map_eq_some_iff] at hp
    obtain ⟨k', hk, rfl⟩ := hp
    obtain ⟨-, rfl⟩ := List.getElem?_eq_some_iff.mp hk
    rw [List.getElem_range]
    exact (hmeets k).own.1

/-- In every interleaving each lane finds what it finds alone. -/
theorem results_searching (hc : c.Stands b f o) (hs : f.Serves b (c.holds ·))
    {turns : List Turn} {results : List Findings}
    (hdone : ((searching like patterns lanes c f).run turns).Done results) :
    results = Findings.ofLanes like patterns lanes (b.content.drop o) := by
  have hsound : (searching like patterns lanes c f).Sound b fun k found _ =>
      found = Findings.ofLane like patterns k lanes 0 (b.content.drop o) #[] := by
    refine sound_searching hs fun k => ?_
    have hbound := hc.length_le_bound hs
    exact (Program.ensures_lane _ 0 #[] (by omega) hc (Within.refl _)).meets
  have hend := hsound.run (fun _ _ _ _ _ h => h) turns
  have hlength : results.length = lanes := by
    rw [length_of_done hdone, searching, List.length_map, List.length_range]
  apply List.ext_getElem?
  intro k
  cases hk : results[k]? with
  | none =>
    have hge := List.getElem?_eq_none_iff.mp hk
    exact (List.getElem?_eq_none (by simp [Findings.ofLanes]; omega)).symm
  | some found =>
    have hlt := (List.getElem?_eq_some_iff.mp hk).1
    rw [hend.result hdone hk, Findings.ofLanes, List.getElem?_map,
      List.getElem?_range (by omega)]
    rfl

/-- A lane that is done and was not refused has found the end of the source. -/
theorem ended_searching (hne : [] ∉ patterns) (hc : c.Stands b f o) (hfound : c.Found f)
    (hs : f.Serves b (c.holds ·)) :
    (searching like patterns lanes c f).Sound b fun _ _ g => g.exhausted = true := by
  refine sound_searching hs fun k => ?_
  have hbound := hc.length_le_bound hs
  exact Program.meets_lane hne _ 0 #[] (by omega) hc hfound (Within.refl _)

/-- Once all lanes are done, unless they are refused, the end of the source was found. -/
theorem exhausted_searching (hlanes : 0 < lanes) (hne : [] ∉ patterns) (hc : c.Stands b f o)
    (hfound : c.Found f) (hs : f.Serves b (c.holds ·)) {turns : List Turn}
    {results : List Findings}
    (hdone : ((searching like patterns lanes c f).run turns).Done results) :
    ((searching like patterns lanes c f).run turns).feed.exhausted = true ∧
    ((searching like patterns lanes c f).run turns).feed.Serves b fun _ => false := by
  have hsound := @ended_searching b f o lanes c like patterns hne hc hfound hs
  have hend := hsound.run (fun _ _ _ _ hfg h => hfg.ended h) turns
  have hsome : results ≠ [] := by
    rintro rfl
    have h := length_of_done hdone
    rw [searching, List.length_map, List.length_range] at h
    exact Nat.ne_of_lt hlanes h
  obtain ⟨found, hfirst⟩ := List.exists_mem_of_ne_nil results hsome
  obtain ⟨k, hk⟩ := List.getElem?_of_mem hfirst
  exact ⟨hend.result hdone hk, hend.serves.mono (by simp)⟩

end Crew

/-- A search finds everything, whoever holds its cursor and however many workers there are. -/
theorem Cursor.Stands.scan (hc : c.Stands b f o) (hs : f.Serves b (c.holds ·)) (workers : Nat)
    (held : MarkId → Bool) :
    (c.scan like patterns workers held f).1 = Findings.every like patterns (b.content.drop o) := by
  have hturn : ∀ lanes, (Program.runAll held (Crew.searching like patterns lanes c f).works f).1 =
      Findings.ofLanes like patterns lanes (b.content.drop o) := by
    intro lanes
    obtain ⟨turns, hrun⟩ := Crew.exists_turns_of_runAll held []
      (Crew.searching like patterns lanes c f).works f
    have hdone := Crew.done_map ([] ++ (Program.runAll held
      (Crew.searching like patterns lanes c f).works f).1) (Program.runAll held
      (Crew.searching like patterns lanes c f).works f).2
    exact Crew.results_searching hc hs (hrun ▸ hdone)
  unfold Cursor.scan
  dsimp only
  split
  · have hone := hturn 1
    simp only [Crew.searching, Findings.ofLanes, List.range_one, List.map_cons, List.map_nil,
      Program.runAll, List.any_nil, Bool.or_false, List.cons.injEq, and_true] at hone
    rw [← Findings.ofLane_one]
    exact hone
  · rename_i hmany
    dsimp only
    have hlanes : 0 < workers := by omega
    rw [← Findings.merge_ofLanes hlanes]
    exact congrArg Findings.merge (hturn workers)

namespace Session

variable {s : Session} {p : Place}

theorem Sound.serves_of_mem (hs : s.Sound) (hmem : p ∈ s.places) :
    (s.feed p.family).Serves (s.backing p.family) (p.cursor.holds ·) := by
  refine ((hs.serves p.family).mono (holding_of_mem hmem)).mono ?_
  intro id hid
  simp [Cursor.holding, hid]

/-- From every cursor that any steps lead to, a search finds the occurrences of its patterns, each
once and in order, in the characters from the cursor on; or it is refused, if a pattern is empty
and there is a character at all. Neither the number of workers, nor how they take turns, nor
whether the characters are in memory or read on demand makes any difference. -/
theorem scan_finds_all (steps : List Step) {p : Place}
    (hmem : p ∈ (runAll steps {}).2.places) (like : Char → Char → Bool)
    (patterns : List (List Char)) :
    let s := (runAll steps {}).2
    let f := s.feed p.family
    let rest := p.cursor.rest (s.backing p.family) f
    ∃ found : Findings,
      (∀ workers held, (p.cursor.scan like patterns workers held f).1 = found) ∧
      (∀ workers held,
        ((Cursor.ofText rest.toArray 0).scan like patterns workers held .idle).1 = found) ∧
      (∀ lanes turns results, 0 < lanes →
        ((Crew.searching like patterns lanes p.cursor f).run turns).Done results →
        Findings.merge results = found) ∧
      (found = .error (.misuse .emptyPattern) ↔ rest ≠ [] ∧ [] ∈ patterns) ∧
      (¬(rest ≠ [] ∧ [] ∈ patterns) → ∃ hits, found = .ok hits ∧
        hits.toList.Pairwise Hit.Before ∧
        ∀ h, h ∈ hits ↔ ∃ pattern, patterns[h.pattern]? = some pattern ∧
          Occurs like pattern rest h.offset) := by
  intro s f rest
  have hs : s.Sound := sound_runAll steps
  obtain ⟨o, hp⟩ := hs.placed p hmem
  have hserves := hs.serves_of_mem hmem
  have hrest : (s.backing p.family).content.drop o = rest := hp.2.rest_eq.symm
  refine ⟨Findings.every like patterns rest, ?_, ?_, ?_, ?_, ?_⟩
  · intro workers held
    rw [hp.2.scan hserves, hrest]
  · intro workers held
    have htext : (Cursor.ofText rest.toArray 0).Stands (.text rest.toArray) .idle 0 :=
      (Source.stands_of_open? (show (Source.text rest.toArray).open? = .ok _ from rfl)).1
    rw [htext.scan (b := .text rest.toArray) rfl]
    rfl
  · intro lanes turns results hlanes hdone
    rw [Crew.results_searching hp.2 hserves hdone, Findings.merge_ofLanes hlanes, hrest]
  · unfold Findings.every
    split
    · rename_i hrefused
      simp [hrefused]
    · rename_i hfound
      simp [hfound]
  · intro hfound
    rw [Findings.every, if_neg hfound]
    refine ⟨_, rfl, Hit.pairwise_all 0 rest patterns, fun h => ?_⟩
    rw [List.mem_toArray, Hit.mem_all]
    simp

/-- Overlapping occurrences, and a pattern that is given twice, when two characters were read. -/
theorem scan_finds_all_overlapping :
    let steps := [.openSource "r" (.iterated ['a', 'b', 'a', 'b', 'a'] {}),
      .cursor "r" (.peek 2)]
    let s := (runAll steps {}).2
    ⟨.mark 0, 0⟩ ∈ s.places ∧
    ∀ workers held, ((Cursor.mark 0).scan (· == ·) [['a', 'b', 'a'], ['b'], ['a', 'b', 'a']]
      workers held (s.feed 0)).1 = .ok #[⟨0, 0⟩, ⟨0, 2⟩, ⟨1, 1⟩, ⟨2, 0⟩, ⟨2, 2⟩, ⟨3, 1⟩] := by
  intro steps s
  have hmem : (⟨.mark 0, 0⟩ : Place) ∈ s.places := by decide +kernel
  have hone : ((Cursor.mark 0).scan (· == ·) [['a', 'b', 'a'], ['b'], ['a', 'b', 'a']] 1
      (fun _ => false) (s.feed 0)).1 =
      .ok #[⟨0, 0⟩, ⟨0, 2⟩, ⟨1, 1⟩, ⟨2, 0⟩, ⟨2, 2⟩, ⟨3, 1⟩] := by decide +kernel
  clear_value steps
  obtain ⟨found, hall, -⟩ :=
    scan_finds_all steps hmem (· == ·) [['a', 'b', 'a'], ['b'], ['a', 'b', 'a']]
  refine ⟨hmem, fun workers held => ?_⟩
  exact (hall workers held).trans ((hall 1 fun _ => false).symm.trans hone)

/-- Several lanes that share a feed, from any cursor in it that any steps lead to: they can always
be done, and however they take turns, each comes to what one worker finds at the offsets of the
lane, so together they find everything once, and the source was asked for each character and once
for the end. -/
theorem lanes_share_out (steps : List Step) {i : Nat} {id : MarkId}
    (hmem : ⟨.mark id, i⟩ ∈ (runAll steps {}).2.places) (like : Char → Char → Bool)
    {patterns : List (List Char)} (hne : [] ∉ patterns) {lanes : Nat} (hlanes : 0 < lanes) :
    let f := (runAll steps {}).2.feed i
    let crew := Crew.searching like patterns lanes (.mark id) f
    ∃ origin hits, (runAll steps {}).2.backing i = .supply origin ∧
      (∀ held, ((Cursor.mark id).scan like patterns 1 held f).1 = .ok hits) ∧
      hits.toList.Nodup ∧
      (∀ turns, ∃ more results, (crew.run (turns ++ more)).Done results) ∧
      ∀ turns results, (crew.run turns).Done results →
        let parts := (List.range lanes).map fun k => hits.filter (Hit.falls k lanes)
        let g := (crew.run turns).feed
        results = parts.map .ok ∧
        parts.Pairwise (fun l r => ∀ h ∈ l, h ∉ r) ∧
        (parts.flatMap Array.toList).Perm hits.toList ∧
        g.polls = origin.content.length + 1 ∧
        g.supply = origin.after (origin.content.length + 1) := by
  intro f crew
  have hs : (runAll steps {}).2.Sound := sound_runAll steps
  obtain ⟨o, hp⟩ := hs.placed _ hmem
  have hserves := hs.serves_of_mem hmem
  obtain ⟨-, origin, -, -, hb⟩ := hp.family_of_mark
  have hc := hp.2
  dsimp only at hc hserves
  rw [hb] at hc hserves
  have hfound : ¬(origin.content.drop o ≠ [] ∧ [] ∈ patterns) := fun h => hne h.2
  have hnodup : (Hit.all like patterns 0 (origin.content.drop o)).Nodup :=
    Hit.nodup_all 0 (origin.content.drop o) patterns
  refine ⟨origin, (Hit.all like patterns 0 (origin.content.drop o)).toArray, hb, ?_, hnodup,
    crew.exists_finish, ?_⟩
  · intro held
    rw [hc.scan hserves]
    exact if_neg hfound
  · intro turns results hdone parts g
    have hfilter : parts = (List.range lanes).map fun k =>
        ((Hit.all like patterns 0 (origin.content.drop o)).filter (Hit.falls k lanes)).toArray := by
      apply List.map_congr_left
      intro k _
      exact List.filter_toArray
    obtain ⟨hended, hserves'⟩ :=
      Crew.exhausted_searching hlanes hne hc (fun h => by cases h) hserves hdone
    have hlinked : g.Linked origin := Feed.Sound.toLinked hserves'
    have hpolls : g.polls = origin.content.length + 1 := by
      have hexh : g.exhausted = true := hended
      rw [hlinked.polls, hlinked.ended hexh, hexh]
      rfl
    refine ⟨?_, ?_, ?_, hpolls, hpolls ▸ hlinked.supply⟩
    · rw [Crew.results_searching hc hserves hdone, hfilter, Findings.ofLanes, List.map_map]
      apply List.map_congr_left
      intro k _
      exact Findings.ofLane_of_found hfound
    · refine List.pairwise_map.mpr (List.pairwise_lt_range.imp fun {j k} hjk h hj hk => ?_)
      simp only [Array.mem_filter, Hit.falls, beq_iff_eq] at hj hk
      omega
    · rw [hfilter, List.flatMap_map]
      exact Findings.perm_falls hlanes hnodup

/-- Two lanes on a feed of which one character was read; the second lane has three turns to two
of the first. -/
theorem lanes_share_out_unevenly :
    let steps := [.openSource "r" (.iterated ['a', 'b', 'a', 'b'] {}), .cursor "r" (.peek 1)]
    let s := (runAll steps {}).2
    let crew := Crew.searching (· == ·) [['a', 'b'], ['b']] 2 (.mark 0) (s.feed 0)
    let turns := (List.range 60).map fun n => ⟨if n % 5 < 2 then 0 else 1, fun _ => false⟩
    ⟨.mark 0, 0⟩ ∈ s.places ∧ [] ∉ [['a', 'b'], ['b']] ∧ 0 < 2 ∧
    (crew.run turns).Done [.ok #[⟨0, 0⟩, ⟨2, 0⟩], .ok #[⟨1, 1⟩, ⟨3, 1⟩]] ∧
    (crew.run turns).feed.polls = 5 := by
  intro steps s crew turns
  have hmem : (⟨.mark 0, 0⟩ : Place) ∈ s.places := by decide +kernel
  have hne : [] ∉ [['a', 'b'], ['b']] := by decide
  have hback : s.backing 0 = .supply (.scripted (['a', 'b', 'a', 'b'].map .char)) := by
    decide +kernel
  have hdone : (crew.run turns).Done [.ok #[⟨0, 0⟩, ⟨2, 0⟩], .ok #[⟨1, 1⟩, ⟨3, 1⟩]] := by
    decide +kernel
  clear_value steps turns
  obtain ⟨origin, hits, hb, -, -, -, hall⟩ :=
    lanes_share_out steps hmem (· == ·) hne (Nat.succ_pos 1)
  obtain ⟨-, -, -, hpolls, -⟩ := hall turns _ hdone
  obtain rfl := Backing.supply.inj (hb.symm.trans hback)
  rw [Supply.content_scripted_chars] at hpolls
  exact ⟨hmem, hne, Nat.succ_pos 1, hdone, hpolls⟩

end Session

end BranchCursor
