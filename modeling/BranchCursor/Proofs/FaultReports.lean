import BranchCursor.Proofs.Faults
import BranchCursor.Proofs.Sequence

/-! How the failure of a source is reported: once, as soon as it was met, and at no cost to what was
read before. Only the first answer that is no character decides whether there is one. -/
namespace BranchCursor

namespace Supply

/-- A script gives its leading characters; whatever stands behind the first other answer, be it an
end or a failure, is never seen. -/
theorem yield_scripted (answers : List Delivery) :
    (scripted answers).content =
        (answers.takeWhile (·.char?.isSome)).filterMap Delivery.char? ∧
      (scripted answers).ending = (answers.find? (·.char?.isNone)).bind Delivery.error? := by
  induction answers with
  | nil => exact ⟨content_of_char?_eq_none rfl, ending_of_char?_eq_none rfl⟩
  | cons answer later ih =>
    cases answer with
    | char c =>
      obtain ⟨hcontent, hending⟩ := ih
      exact ⟨(content_of_char rfl).trans (congrArg (c :: ·) hcontent),
        (ending_of_char rfl).trans hending⟩
    | finished | fault _ => exact ⟨content_of_char?_eq_none rfl, ending_of_char?_eq_none rfl⟩

end Supply

namespace Feed

variable {origin : Supply} {alive : MarkId → Bool} {taken : List CursorError} {f : Feed}

/-- The end was found if the source was asked once more than there are characters. -/
theorem Linked.exhausted_iff (h : f.Linked origin) :
    f.exhausted = true ↔ origin.content.length < f.polls := by
  have hpolls := h.polls
  have hwithin := h.within
  cases he : f.exhausted with
  | true =>
    have := h.ended he
    rw [he, Bool.toNat_true] at hpolls
    exact iff_of_true rfl (by omega)
  | false =>
    rw [he, Bool.toNat_false] at hpolls
    exact iff_of_false Bool.false_ne_true (by omega)

theorem Linked.polls_of_exhausted (h : f.Linked origin) (he : f.exhausted = true) :
    f.polls = origin.content.length + 1 := by
  rw [h.polls, he, h.ended he, Bool.toNat_true]

/-- What is in the feed is the failure of the source, if that was met and not handed over yet. -/
theorem Accounts.fault_eq (h : f.Accounts origin taken) :
    f.fault = if f.exhausted ∧ taken = [] then origin.ending else none := by
  unfold Accounts at h
  cases taken with
  | nil =>
    have hhead := congrArg List.head? h
    cases he : f.exhausted with
    | true => simpa [he] using hhead
    | false => simpa [he] using hhead
  | cons cause rest =>
    rw [if_neg (by simp)]
    cases he : f.exhausted with
    | true =>
      -- a failure that was handed over is all there is
      have hlength := congrArg List.length h
      have hone : origin.ending.toList.length ≤ 1 := by cases origin.ending <;> simp
      rw [he, if_pos rfl, List.length_append, List.length_cons] at hlength
      exact Option.toList_eq_nil_iff.mp (List.length_eq_zero_iff.mp (by omega))
    | false => simp [he] at h

theorem Accounts.taken_prefix (h : f.Accounts origin taken) : taken <+: origin.ending.toList := by
  unfold Accounts at h
  split at h
  · exact ⟨_, h⟩
  · rw [(List.append_eq_nil_iff.mp h).1]
    exact List.nil_prefix

end Feed

namespace Session

variable {s : Session} {i : Nat} {origin : Supply}

theorem Sound.linked (hs : s.Sound) (hb : s.backing i = .supply origin) :
    (s.feed i).Linked origin := by
  have hserves := hs.serves i
  rw [hb] at hserves
  exact hserves.toLinked

theorem accounts_reached (steps : List Step)
    (hb : (runAll steps {}).2.backing i = .supply origin) :
    ((runAll steps {}).2.feed i).Accounts origin (faultsTaken i steps {}) :=
  sound_empty.accounts_runAll steps (lt_size_of_supply hb) hb
    (fun h => absurd h (Nat.not_lt_zero i)) fun _ => rfl

/-- What a mark stood for at some time it stands for ever after. -/
theorem Sound.answers_later (hs : s.Sound) (hb : s.backing i = .supply origin) {id : MarkId}
    (hid : id < (s.feed i).marks.size) (later : List Step) :
    let t := (Session.runAll later s).2
    let position := ((s.feed i).mark id).position
    (∀ name, t.cursors.get? name = some ⟨.mark id, i⟩ →
      (t.run (.cursor name .current)).1.answer = .char origin.content[position]? ∧
      (t.run (.cursor name .collect)).1.answer =
        .text (origin.content.drop position).toArray) ∧
    ∀ name, t.iterators.get? name = some ⟨.mark id, i⟩ → ∀ n,
      (t.run (.iterator name (.take n))).1.answer =
        .given ((List.range n).map fun k => origin.content[position + k]?).toArray := by
  intro t position
  obtain ⟨ht, hleads⟩ := hs.runAll later
  have hi : i < s.families.size := lt_size_of_supply hb
  have hbt : t.backing i = .supply origin := (hleads.backing i hi).trans hb
  have hplace : ∀ o, t.Stands ⟨.mark id, i⟩ o → o = position := by
    intro o hp
    exact hp.2.2.2.symm.trans ((hleads.extend i hi).position id hid)
  constructor
  · intro name hname
    obtain ⟨o, hp⟩ := ht.placed _ (mem_places_of_cursor hname)
    obtain rfl := hplace o hp
    have hcurrent := ht.answer_run hname hp .current rfl
    have hcollect := ht.answer_run hname hp .collect rfl
    rw [List.head?_drop] at hcurrent
    dsimp only at hcurrent hcollect
    rw [hbt] at hcurrent hcollect
    exact ⟨hcurrent, hcollect⟩
  · intro name hname n
    obtain ⟨o, hp⟩ := ht.placed _ (mem_places_of_iterator hname)
    obtain rfl := hplace o hp
    have hgiven := (ht.run_take hname hp n).1
    dsimp only at hgiven
    rw [hbt] at hgiven
    exact hgiven

/-- In every session the failure of a source is there for the asking once the answer behind its
characters was met, until it is handed over, and that happens once. From then on the source is left
alone, and cursors and iterators that were there at any time go on giving all characters from their
positions on. -/
theorem fault_reported_once (steps : List Step) {i : Nat} {origin : Supply}
    (hb : (runAll steps {}).2.backing i = .supply origin) :
    let s := (runAll steps {}).2
    let met := origin.content.length < (s.feed i).polls
    let taken := faultsTaken i steps {}
    let pending := if met ∧ taken = [] then origin.ending else none
    (∀ answers, origin = .scripted answers →
      origin.content = (answers.takeWhile (·.char?.isSome)).filterMap Delivery.char? ∧
      origin.ending = (answers.find? (·.char?.isNone)).bind Delivery.error?) ∧
    (∀ name, s.handles.get? name = some i →
      (s.run (.handle name .takeFault)).1.answer = .fault pending) ∧
    taken <+: origin.ending.toList ∧
    (s.status i).hasFault = pending.isSome ∧
    ((s.status i).exhausted = true ↔ met) ∧
    (met → ∀ later, let t := (runAll later s).2
      (t.status i).exhausted = true ∧ (t.feed i).polls = (s.feed i).polls ∧
      (t.feed i).supply = (s.feed i).supply) ∧
    ∀ later, ∀ id < (s.feed i).marks.size,
      let t := (runAll later s).2
      let position := ((s.feed i).mark id).position
      (∀ name, t.cursors.get? name = some ⟨.mark id, i⟩ →
        (t.run (.cursor name .current)).1.answer = .char origin.content[position]? ∧
        (t.run (.cursor name .collect)).1.answer =
          .text (origin.content.drop position).toArray) ∧
      ∀ name, t.iterators.get? name = some ⟨.mark id, i⟩ → ∀ n,
        (t.run (.iterator name (.take n))).1.answer =
          .given ((List.range n).map fun k => origin.content[position + k]?).toArray := by
  intro s met taken pending
  have hs : s.Sound := sound_runAll steps
  have hi : i < s.families.size := lt_size_of_supply hb
  have hlinked := hs.linked hb
  have haccounts : (s.feed i).Accounts origin taken := accounts_reached steps hb
  have hfault : (s.feed i).fault = pending := by
    rw [haccounts.fault_eq]
    simp only [hlinked.exhausted_iff]
    rfl
  refine ⟨?_, ?_, haccounts.taken_prefix, congrArg Option.isSome hfault, hlinked.exhausted_iff,
    ?_, fun later id hid => hs.answers_later hb hid later⟩
  · rintro answers rfl
    exact Supply.yield_scripted answers
  · intro name hname
    have htakes : s.takesFault i (.handle name .takeFault) = true := by simp [takesFault, hname]
    rw [(run_of_takesFault hi htakes).1, hfault]
  · intro hmet later t
    have he := hlinked.exhausted_iff.mpr hmet
    obtain ⟨ht, hleads⟩ := hs.runAll later
    obtain ⟨he', hsupply⟩ := hs.rests_runAll hi hb ⟨he, rfl⟩ later
    have hlinked' := ht.linked ((hleads.backing i hi).trans hb)
    exact ⟨he', (hlinked'.polls_of_exhausted he').trans (hlinked.polls_of_exhausted he).symm,
      hsupply⟩

/-- Two failures one after the other: the first is handed over, to the second handle that asks
nothing is left, and the cursor that was there first still has both characters. -/
theorem fault_reported_once_lagging :
    let script : List Delivery := [.char 'a', .char 'b', .fault (.source .timedOut),
      .fault (.source .brokenPipe), .char 'c']
    let steps := [.openSource "r" (.scripted script {}), .cursor "r" (.handle "h"),
      .cursor "r" (.handle "g"), .cursor "r" (.skip 1 "x"), .cursor "x" .collect,
      .handle "h" .takeFault]
    let s := (runAll steps {}).2
    s.backing 0 = .supply (.scripted script) ∧ faultsTaken 0 steps {} = [.source .timedOut] ∧
    (s.run (.handle "g" .takeFault)).1.answer = .fault none ∧ (s.status 0).hasFault = false ∧
    ((runAll [.cursor "r" .collect] s).2.feed 0).polls = 3 ∧
    (s.run (.cursor "r" .collect)).1.answer = .text #['a', 'b'] := by
  intro script steps s
  have hb : s.backing 0 = .supply (.scripted script) := by decide +kernel
  have htaken : faultsTaken 0 steps {} = [.source .timedOut] := by decide +kernel
  have hpolls : (s.feed 0).polls = 3 := by decide +kernel
  have hcontent : (Supply.scripted script).content = ['a', 'b'] := by decide +kernel
  have hhandle : s.handles.get? "g" = some 0 := by decide +kernel
  have hcursor : s.cursors.get? "r" = some ⟨.mark 0, 0⟩ := by decide +kernel
  have hsize : 0 < (s.feed 0).marks.size := by decide +kernel
  have hposition : ((s.feed 0).mark 0).position = 0 := by decide +kernel
  clear_value steps
  obtain ⟨-, hasked, -, hfault, -, hrests, hcursors⟩ := fault_reported_once steps hb
  rw [htaken] at hasked hfault
  have hlater := hrests (by rw [hcontent, hpolls]; decide) [.cursor "r" .collect]
  have hcollect := ((hcursors [] 0 hsize).1 "r" hcursor).2
  rw [hposition, hcontent] at hcollect
  refine ⟨hb, htaken, ?_, ?_, hlater.2.1.trans hpolls, hcollect⟩
  · rw [hasked "g" hhandle, if_neg (by simp)]
  · rw [hfault, if_neg (by simp)]
    rfl

end Session

end BranchCursor
