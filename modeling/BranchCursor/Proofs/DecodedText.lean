import BranchCursor.Proofs.Faults
import BranchCursor.Proofs.Lockstep
import BranchCursor.Proofs.Readout

/-! Cursors over a byte stream behave as cursors in the text that is read out of it, however it is
cut into reads. What ends the reading, a failed read or an ill-formed run, is kept as the failure of
the feed, and the stream is not read again. -/
namespace BranchCursor.Session

/-- A source over bytes opens, on a supply out of which come the characters of the settled segments
of the bytes before the first failure. -/
theorem bytes_backing {input : ByteStream} {options : Options} (hc : 4 ≤ options.bufferSize)
    (hf : input.Flows) :
    ∃ (root : Cursor × Feed) (origin : Supply),
      (Source.bytes input options).open? = .ok root ∧
      (Source.bytes input options).backing = .supply origin ∧
      origin.yield = Segment.readout options.lossy 0 input.barrier?
        (Segment.settled input.barrier? (Utf8.segments input.front)) := by
  obtain ⟨d, hd, hyield⟩ := Decoder.yield_make hc hf options.lossy
  refine ⟨Source.attachRoot (.decoded d) options, .decoded d, ?_, ?_, hyield⟩
  · rw [Source.open?, hd]
    rfl
  · rw [Source.backing, hd]

/-- In lockstep with a text of the characters read out of a byte stream, whatever is done aside,
cursors over the stream are answered as cursors in the text. In every session they collect its
characters from their positions on; the failure that ends the reading is met once and handed over
once, if it is asked for, and then nothing is read any more. -/
theorem bytes_refine_decoded_text {input : ByteStream} {options : Options}
    (hc : 4 ≤ options.bufferSize) (hf : input.Flows) :
    let source := Source.bytes input options
    ∃ cut, Utf8.Decomposes input.front cut ∧
      (∀ cut', Utf8.Decomposes input.front cut' → cut' = cut) ∧
      let out := Segment.readout options.lossy 0 input.barrier?
        (Segment.settled input.barrier? cut)
      (∃ root, source.open? = .ok root) ∧
      (∀ (root : String) (shared : String → Bool) (moves : List Move),
        (∀ m ∈ moves, m.allowed shared = true) →
        ∀ pair ∈ (lockstep moves (({} : Session).run (.openSource root (.text out.1.toArray))).2
          (({} : Session).run (.openSource root source)).2).1,
          pair.1.Agrees out.1.length pair.2) ∧
      ∀ (steps : List Step) (i : Nat), (runAll steps {}).2.backing i = source.backing →
        let s := (runAll steps {}).2
        (∀ name id, s.cursors.get? name = some ⟨.mark id, i⟩ →
          (s.run (.cursor name .collect)).1.answer =
            .text (out.1.drop ((s.feed i).mark id).position).toArray) ∧
        faultsTaken i steps {} ++ (s.feed i).fault.toList =
          (if (s.feed i).exhausted then out.2.toList else []) ∧
        ∀ later, (s.feed i).exhausted = true →
          ((runAll later s).2.feed i).supply = (s.feed i).supply := by
  intro source
  have hcut := Utf8.decomposes_segments input.front
  obtain ⟨⟨c, f⟩, origin, ho, hback, hyield⟩ := bytes_backing hc hf
  refine ⟨_, hcut, fun cut' h => h.unique hcut, ⟨_, ho⟩, ?_, ?_⟩
  · intro root shared moves hmoves
    rw [← hyield]
    have hcontent : source.backing.content = origin.yield.1.toArray.toList := by
      rw [hback]
      rfl
    exact ((alike_roots ho rfl hcontent root shared).lockstep moves hmoves).1
  · intro steps i hb s
    rw [hback] at hb
    have hs : s.Sound := sound_runAll steps
    have hi : i < s.families.size := lt_size_of_supply hb
    rw [← hyield]
    refine ⟨?_, ?_, ?_⟩
    · intro name id hname
      obtain ⟨o, hp⟩ := hs.placed _ (mem_places_of_cursor hname)
      have ho : ((s.feed i).mark id).position = o := hp.2.2.2
      have hanswer := hs.answer_run hname hp .collect rfl
      dsimp only at hanswer
      rw [hb] at hanswer
      rw [ho]
      exact hanswer
    · exact sound_empty.accounts_runAll steps hi hb (fun h => absurd h (Nat.not_lt_zero i))
        fun _ => rfl
    · intro later he
      exact (hs.rests_runAll hi hb ⟨he, rfl⟩ later).2

/-- Strict reading, a byte at a time, until a read fails inside a sequence: the two letters before
it are the content, its begun sequence is no failure, and the failed read is told once. -/
theorem bytes_refine_decoded_text_unsettled :
    let input : ByteStream := { events := [.data [0x41, 0xC3], .failure .interrupted,
      .data [0xA9, 0xE2], .failure .timedOut, .data [0x82, 0xAC]], step := some 1 }
    let options : Options := { bufferSize := 4, lossy := false }
    let source := Source.bytes input options
    let steps := [.openSource "r" source, .cursor "r" .collect, .cursor "r" (.handle "h"),
      .handle "h" .takeFault, .handle "h" .takeFault]
    let moves := [Move.aside (.cursor "r" (.handle "h")), .both (.cursor "r" (.skip 1 "x")),
      .aside (.handle "h" .takeFault), .both (.cursor "x" .collect), .both (.cursor "r" (.peek 3))]
    let s := (runAll steps {}).2
    4 ≤ options.bufferSize ∧ input.Flows ∧ s.backing 0 = source.backing ∧
    (∀ m ∈ moves, m.allowed (fun name => name == "r" || name == "x") = true) ∧
    (∀ pair ∈ (lockstep moves (({} : Session).run (.openSource "r" (.text #['A', 'é']))).2
      (({} : Session).run (.openSource "r" source)).2).1, pair.1.Agrees 2 pair.2) ∧
    (s.feed 0).exhausted = true ∧
    faultsTaken 0 steps {} ++ (s.feed 0).fault.toList = [.source .timedOut] ∧
    ∀ later, ((runAll later s).2.feed 0).supply = (s.feed 0).supply := by
  intro input options source steps moves s
  have hc : 4 ≤ options.bufferSize := Nat.le_refl 4
  have hf : input.Flows := by decide
  have hb : s.backing 0 = source.backing := by decide +kernel
  have hmoves : ∀ m ∈ moves, m.allowed (fun name => name == "r" || name == "x") = true := by
    decide +kernel
  have hexh : (s.feed 0).exhausted = true := by decide +kernel
  have hout : Segment.readout options.lossy 0 input.barrier?
      (Segment.settled input.barrier? (Utf8.segments input.front)) =
      (['A', 'é'], some (.source .timedOut)) := by decide +kernel
  clear_value steps
  obtain ⟨cut, -, hunique, -, hlockstep, hfaults⟩ := bytes_refine_decoded_text hc hf
  obtain rfl := hunique _ (Utf8.decomposes_segments _)
  rw [hout] at hlockstep hfaults
  obtain ⟨-, htaken, hrests⟩ := hfaults steps 0 hb
  rw [if_pos hexh] at htaken
  exact ⟨hc, hf, hb, hmoves, hlockstep "r" _ moves hmoves, hexh, htaken,
    fun later => hrests later hexh⟩

end BranchCursor.Session
