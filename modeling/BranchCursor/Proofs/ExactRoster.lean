import BranchCursor.Proofs.Histories

/-! The roster of a feed in the course of any session: it holds exactly those who wait, and it does
not grow beyond twice as many as ever waited together. -/
namespace BranchCursor
open Instant (Next)

namespace Instant

variable {origin : Supply} {m n : Instant} {l : List Instant} {floor peak : Nat}

/-- How many of the marks held wait for their characters. -/
def waiting (m : Instant) : Nat := (m.feed.waiting m.alive).length

theorem sound_tidy_of_isChain (h : (m :: l).IsChain Next) (hs : m.feed.Sound origin m.alive)
    (ht : m.feed.Tidy) : ∀ n ∈ m :: l, n.feed.Sound origin n.alive ∧ n.feed.Tidy :=
  forall_of_isChain (P := fun n => n.feed.Sound origin n.alive ∧ n.feed.Tidy)
    (fun _ _ hnext hm => ⟨hnext.sound hm.1, hnext.tidy hm.2⟩) h ⟨hs, ht⟩

/-- From a sound feed with a tidy roster on, the roster is exact at every instant. -/
theorem awaits_of_isChain (h : (m :: l).IsChain Next) (hs : m.feed.Sound origin m.alive)
    (ht : m.feed.Tidy) : ∀ n ∈ m :: l, n.feed.Awaits n.alive := by
  intro n hn
  obtain ⟨hsound, htidy⟩ := sound_tidy_of_isChain h hs ht n hn
  exact htidy.awaits hsound

/-- Once the source has ended the roster is what it was, however much later. -/
theorem pairwise_ended (h : l.IsChain Next) :
    l.Pairwise fun m n => m.feed.exhausted = true →
      n.feed.exhausted = true ∧ n.feed.roster = m.feed.roster := by
  induction l with
  | nil => exact List.Pairwise.nil
  | cons m l ih =>
    refine List.pairwise_cons.mpr ⟨fun n hn he => ?_, ih h.tail⟩
    exact forall_of_isChain (P := fun n => n.feed.exhausted = true ∧ n.feed.roster = m.feed.roster)
      (fun _ _ hnext hk => ⟨(hnext.ended hk.1).1, (hnext.ended hk.1).2.trans hk.2⟩) h ⟨he, rfl⟩ n
      (List.mem_cons_of_mem m hn)

/-- A sweep leaves those who wait, so what is due is bounded by how many waited until then. -/
theorem fits_of_isChain (hfloor : 0 < floor) (h : (m :: l).IsChain Next)
    (hall : ∀ n ∈ m :: l, n.feed.Awaits n.alive) (hpeak : m.waiting ≤ peak)
    (hm : m.feed.roster.Fits floor peak) {before : List Instant} (hn : before ++ [n] <+: l) :
    n.feed.roster.Fits floor (max peak (largest ((before ++ [n]).map waiting))) := by
  induction l generalizing m before peak with
  | nil => simp at hn
  | cons k l ih =>
    obtain ⟨hnext, hrest⟩ := List.isChain_cons_cons.mp h
    have hlive : m.feed.roster.liveCount m.alive ≤ peak :=
      Nat.le_trans (Nat.le_of_eq (hall m List.mem_cons_self).live) hpeak
    have hk := hnext.fits hfloor hlive hm
    cases before with
    | nil =>
      obtain ⟨rfl, -⟩ := List.cons_prefix_cons.mp hn
      exact hk.mono (Nat.le_max_left _ _)
    | cons b before =>
      obtain ⟨rfl, hbefore⟩ := List.cons_prefix_cons.mp hn
      have hk' := hk.mono (Nat.le_max_left peak b.waiting)
      have hstep := ih hrest (fun n hmem => hall n (List.mem_cons_of_mem m hmem))
        (Nat.le_max_right peak b.waiting) hk' hbefore
      rw [Nat.max_assoc] at hstep
      exact hstep

end Instant

theorem Feed.tidy_make (supply : Supply) (options : Options) : (Feed.make supply options).Tidy where
  ordered := List.Pairwise.nil
  ahead id hid := by simp [Feed.make, Roster.make] at hid

theorem Feed.tidy_idle : Feed.idle.Tidy where
  ordered := List.Pairwise.nil
  ahead id hid := by simp [Feed.idle, Roster.make] at hid

theorem Roster.fits_make {α : Type} (threshold : Nat) :
    (Roster.make threshold : Roster α).Fits (max threshold 1) 0 where
  room := Nat.zero_le _
  least := rfl
  due := Nat.le_max_left _ _

namespace Session

variable {s : Session} {i : Nat} {origin : Supply}

/-- The roster stays tidy from step to step. -/
theorem Sound.tidy_run (hs : s.Sound) (hi : i < s.families.size)
    (hb : s.backing i = .supply origin) (ht : (s.feed i).Tidy) (step : Step) :
    ((s.run step).2.feed i).Tidy := by
  have hall := Instant.forall_of_isChain (P := fun n => n.feed.Tidy)
    (fun _ _ hnext => hnext.tidy) (hs.isChain_run hi hb step) ht
  exact hall ⟨(s.run step).2.alive i, (s.run step).2.feed i⟩ (by simp)

/-- After a step the rosters of all feeds are tidy, those of new families as well. -/
theorem Sound.forall_tidy_run (hs : s.Sound) (ht : ∀ i, (s.feed i).Tidy) (step : Step) (i : Nat) :
    ((s.run step).2.feed i).Tidy := by
  obtain ⟨hs', hleads⟩ := hs.run step
  cases hb : (s.run step).2.backing i with
  | text buffer =>
    have hserves := hs'.serves i
    rw [hb] at hserves
    rw [show (s.run step).2.feed i = .idle from hserves]
    exact Feed.tidy_idle
  | supply origin =>
    by_cases hi : i < s.families.size
    · exact hs.tidy_run hi ((hleads.backing i hi).symm.trans hb) (ht i) step
    · obtain ⟨source, c, ho, hsource⟩ := opened_run (Nat.le_of_not_lt hi) (lt_size_of_supply hb)
      obtain ⟨options, hoptions⟩ :=
        Source.options?_of_supply ((backing_of_source? hsource).symm.trans hb)
      obtain ⟨supply, -, hchange⟩ := hs'.change_opened hsource hoptions ho
      exact hchange.next.tidy (Feed.tidy_make supply options)

/-- At every instant of every session each entry of a roster is of a mark that was not read yet,
and the live entries are the marks held that wait, each once; a pull that brings a character leaves
no dead entry, and after the end of the source nobody joins. -/
theorem roster_holds_who_waits (steps : List Step) {i : Nat} {origin : Supply}
    (hb : (runAll steps {}).2.backing i = .supply origin) :
    let s := (runAll steps {}).2
    let instants := history i steps {}
    instants.getLast? = some ⟨s.alive i, s.feed i⟩ ∧
    (∀ m ∈ instants, m.feed.Awaits m.alive) ∧
    instants.IsChain (fun m n => n.feed.readPosition = m.feed.readPosition ∨
      n.feed.readPosition = m.feed.readPosition + 1 ∧
        (∀ id ∈ n.feed.roster.entries, n.alive id = true) ∧
        (n.feed.status n.alive).subscribers = (n.feed.status n.alive).live) ∧
    instants.Pairwise (fun m n => m.feed.exhausted = true →
      n.feed.roster.entries = m.feed.roster.entries) := by
  intro s instants
  obtain ⟨source, options, hsource, hoptions⟩ := exists_options_of_supply hb
  obtain ⟨supply, -, hchain, hlast⟩ := isChain_history steps hsource hoptions
  have hall := Instant.awaits_of_isChain hchain (Feed.sound_make supply options)
    (Feed.tidy_make supply options)
  refine ⟨hlast, fun m hm => hall m (List.mem_cons_of_mem _ hm), ?_, ?_⟩
  · refine hchain.tail.imp fun m n hnext => ?_
    refine hnext.swept.imp_right fun ⟨hread, hlive⟩ => ⟨hread, hlive, ?_⟩
    exact (Array.countP_eq_size.mpr hlive).symm
  · exact (Instant.pairwise_ended hchain.tail).imp fun hended he =>
      congrArg Roster.entries (hended he).2

/-- Of the four entries three are dead, of a cursor, an iterator and a walk that is over; the cursor
that is held along with the last one was read and waits no more. -/
theorem roster_holds_who_waits_among_dropped :
    let steps := [.openSource "r" (.iterated ['a', 'b'] {}), .cursor "r" (.skip 3 "t"),
      .cursor "r" (.iterate "i"), .iterator "i" (.take 1), .cursor "r" (.skip 2 "u"),
      .cursor "t" .drop, .iterator "i" .drop]
    let s := (runAll steps {}).2
    s.backing 0 = .supply (.scripted (['a', 'b'].map .char)) ∧
    (s.feed 0).readPosition = 1 ∧ (s.feed 0).roster.entries = #[3, 4, 5, 6] ∧
    (s.feed 0).waiting (s.alive 0) = [6] ∧ ((s.feed 0).status (s.alive 0)).live = 1 := by
  intro steps s
  have hback : s.backing 0 = .supply (.scripted (['a', 'b'].map .char)) := by decide +kernel
  have hread : (s.feed 0).readPosition = 1 := by decide +kernel
  have hentries : (s.feed 0).roster.entries = #[3, 4, 5, 6] := by decide +kernel
  have hwaiting : (s.feed 0).waiting (s.alive 0) = [6] := by decide +kernel
  clear_value steps
  obtain ⟨hlast, hall, -, -⟩ := roster_holds_who_waits steps hback
  have hlive := (hall _ (List.mem_of_getLast? hlast)).live
  refine ⟨hback, hread, hentries, hwaiting, hlive.trans ?_⟩
  exact congrArg List.length hwaiting

/-- However a roster is used, what is due is the floor, or what the last sweep before a
subscription sets, and the roster is not longer than that. So on every feed, at every instant of
every session, there are at most as many entries as the threshold or as twice the number of marks
that ever waited together until then. -/
theorem roster_stays_small :
    (∀ (α σ : Type) (threshold : Nat) (uses : List (Roster.Use α σ)),
      let r := Roster.useAll uses (.make threshold)
      let kept := Roster.sweeps uses (.make threshold)
      let floor := max threshold 1
      r.size ≤ r.due ∧ r.due = (kept.getLast?.map fun n => max floor (2 * n)).getD floor ∧
      r.size ≤ max floor (2 * largest kept)) ∧
    ∀ (steps : List Step) (i : Nat) (source : Source) (options : Options),
      (runAll steps {}).2.source? i = some source → source.options? = some options →
      ∀ before m, before ++ [m] <+: history i steps {} →
        (m.feed.status m.alive).subscribers ≤ max (max options.pruneThreshold 1)
          (2 * largest ((before ++ [m]).map Instant.waiting)) := by
  constructor
  · intro α σ threshold uses r kept floor
    have hfloor : 0 < floor := Nat.lt_of_lt_of_le Nat.zero_lt_one (Nat.le_max_right threshold 1)
    obtain ⟨hroom, hdue⟩ : r.size ≤ r.due ∧
        r.due = (kept.getLast?.map fun n => max floor (2 * n)).getD floor :=
      Roster.useAll_spec uses (Nat.zero_le _) hfloor
    refine ⟨hroom, hdue, Nat.le_trans hroom ?_⟩
    rw [hdue]
    cases hlast : kept.getLast? with
    | none => exact Nat.le_max_left _ _
    | some n =>
      have hle := le_largest (List.mem_of_getLast? hlast)
      simp only [Option.map_some, Option.getD_some]
      omega
  · intro steps i source options hsource hoptions before m hm
    obtain ⟨supply, -, hchain, -⟩ := isChain_history steps hsource hoptions
    have hall := Instant.awaits_of_isChain hchain (Feed.sound_make supply options)
      (Feed.tidy_make supply options)
    have hfloor : 0 < max options.pruneThreshold 1 := by omega
    have hfits := Instant.fits_of_isChain hfloor hchain hall (Nat.le_refl 0)
      (Roster.fits_make options.pruneThreshold) hm
    rw [Nat.zero_max] at hfits
    exact hfits.size_le

/-- A roster swept at every subscription but the first; and a walk of nine characters ahead of a
source that is never read, in which at most three cursors wait together. -/
theorem roster_stays_small_ahead :
    (let uses : List (Roster.Use Nat Unit) := [.subscribe (fun _ => true) 0,
      .subscribe (· == 0) 1, .subscribe (· == 0) 2, .prune (· == 2),
      .broadcast (fun _ _ => true) (fun _ s => (true, s)) ()]
    let r := Roster.useAll uses (.make 0)
    Roster.sweeps uses (.make 0) = [1, 1] ∧ r.due = 2 ∧ r.size ≤ 2) ∧
    let steps := [.openSource "r" (.iterated [] { pruneThreshold := 2 }), .cursor "r" (.skip 9 "t")]
    let s := (runAll steps {}).2
    s.source? 0 = some (.iterated [] { pruneThreshold := 2 }) ∧
    (s.feed 0).marks.size = 10 ∧ largest ((history 0 steps {}).map Instant.waiting) = 3 ∧
    ((s.feed 0).status (s.alive 0)).subscribers ≤ 6 := by
  constructor
  · intro uses r
    have hsweeps : Roster.sweeps uses (.make 0) = [1, 1] := by decide +kernel
    obtain ⟨-, hdue, hsize⟩ := roster_stays_small.1 Nat Unit 0 uses
    rw [hsweeps] at hdue hsize
    exact ⟨hsweeps, hdue, hsize⟩
  · intro steps s
    have hsource : s.source? 0 = some (.iterated [] { pruneThreshold := 2 }) := by rfl
    have hmarks : (s.feed 0).marks.size = 10 := by decide +kernel
    have hpeak : largest ((history 0 steps {}).map Instant.waiting) = 3 := by decide +kernel
    clear_value steps
    obtain ⟨-, -, -, hlast⟩ := isChain_history steps hsource rfl
    have hwhole := List.dropLast_append_getLast? _ hlast
    have hsmall := roster_stays_small.2 steps 0 _ _ hsource rfl _ _
      ⟨[], (List.append_nil _).trans hwhole⟩
    rw [hwhole, hpeak] at hsmall
    exact ⟨hsource, hmarks, hpeak, hsmall⟩

end Session

end BranchCursor
