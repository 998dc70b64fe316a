import BranchCursor.Proofs.Comparisons

/-! Likenesses that fold case. Each compares characters by a key, so it is an equivalence, and a
coarser key finds more. Where characters have the same keys, one may stand for the other, in a
pattern as in the content. -/
namespace BranchCursor

namespace Likeness

/-- What a likeness that folds case compares characters by; the others have no such key. -/
def key? : Likeness → Option (Char → List Char)
  | exact => some ([·])
  | asciiCase => some ([foldAscii ·])
  | anyCase => some Text.lowercase
  | digits | anything | nothing | upTo | own _ => none

variable {l : Likeness} {key : Char → List Char} {e a : Char}

/-- Within ASCII the full mapping moves the letters `A` to `Z` and nothing else. -/
theorem lowercase_of_isAscii {c : Char} (h : isAscii c = true) :
    Text.lowercase c = [foldAscii c] := by
  have hlt : c.toNat < 128 := of_decide_eq_true h
  have hdotted : c ≠ '\u0130' := by
    rintro rfl
    exact absurd hlt (by decide)
  -- the first run is that of the ASCII letters, and all others lie above
  have hruns : Text.lowerRuns = ⟨0x41, 0x5A, 1, 0x61⟩ :: Text.lowerRuns.tail := rfl
  have habove : ∀ r ∈ Text.lowerRuns.tail, 128 ≤ r.first := by decide +kernel
  have hnone : Text.lowerRuns.tail.find? (Text.LowerRun.covers c.toNat) = none := by
    refine List.find?_eq_none.mpr fun r hr => ?_
    have := habove r hr
    simp only [Text.LowerRun.covers, Bool.and_eq_true, decide_eq_true_eq]
    omega
  have hletter : 'A' ≤ c ∧ c ≤ 'Z' ↔ 0x41 ≤ c.toNat ∧ c.toNat ≤ 0x5A := Iff.rfl
  rw [Text.lowercase, if_neg hdotted, hruns, List.find?_cons, hnone, foldAscii]
  by_cases hin : 0x41 ≤ c.toNat ∧ c.toNat ≤ 0x5A
  · have hto : 0x61 + (c.toNat - 0x41) = c.toNat + 32 := by omega
    simp [Text.LowerRun.covers, Text.LowerRun.lower, hletter, hin, Nat.mod_one, hto]
  · rw [if_neg (mt hletter.mp hin)]
    have hcovers : Text.LowerRun.covers c.toNat ⟨0x41, 0x5A, 1, 0x61⟩ = false := by
      simp only [Text.LowerRun.covers, Bool.and_eq_false_iff, decide_eq_false_iff_not]
      omega
    rw [hcovers]

theorem foldAscii_of_not_isAscii {c : Char} (h : isAscii c = false) : foldAscii c = c := by
  have hge : ¬c.toNat < 128 := of_decide_eq_false h
  unfold foldAscii
  rw [if_neg]
  rintro ⟨-, hle⟩
  have hz : c.toNat ≤ 'Z'.toNat := hle
  have : 'Z'.toNat = 90 := rfl
  omega

/-- To fold ASCII letters first makes no difference to the full mapping. -/
theorem lowercase_foldAscii (c : Char) : Text.lowercase (foldAscii c) = Text.lowercase c := by
  cases h : isAscii c with
  | true =>
    have hfold : isAscii (foldAscii c) = true ∧ foldAscii (foldAscii c) = foldAscii c := by
      have hall : ∀ n < 128, isAscii (foldAscii (Char.ofNat n)) = true ∧
          foldAscii (foldAscii (Char.ofNat n)) = foldAscii (Char.ofNat n) := by decide +kernel
      have hc := hall c.toNat (of_decide_eq_true h)
      rwa [Char.ofNat_toNat] at hc
    rw [lowercase_of_isAscii hfold.1, hfold.2, lowercase_of_isAscii h]
  | false => rw [foldAscii_of_not_isAscii h]

/-- The shortcuts for equal characters and within ASCII come to what the mappings say. -/
theorem sameLowercase_iff : sameLowercase e a = true ↔ Text.lowercase e = Text.lowercase a := by
  unfold sameLowercase
  split
  · rename_i heq
    simp [heq]
  · split
    · rename_i hascii
      obtain ⟨he, ha⟩ := Bool.and_eq_true_iff.mp hascii
      rw [lowercase_of_isAscii he, lowercase_of_isAscii ha]
      simp
    · exact beq_iff_eq

/-- Two characters are alike if they have the same key. -/
theorem like_iff_key (h : l.key? = some key) : l.like e a = true ↔ key e = key a := by
  cases l with
  | exact =>
    obtain rfl := Option.some.inj h
    simp [like]
  | asciiCase =>
    obtain rfl := Option.some.inj h
    simp [like]
  | anyCase =>
    obtain rfl := Option.some.inj h
    exact sameLowercase_iff
  | digits | anything | nothing | upTo | own _ => cases h

theorem equivalence_like (h : l.key? = some key) :
    Equivalence fun e a => l.like e a = true := by
  simp only [like_iff_key h]
  exact ⟨fun _ => rfl, Eq.symm, Eq.trans⟩

theorem asciiCase_of_exact (h : exact.like e a = true) : asciiCase.like e a = true := by
  have heq : e = a := beq_iff_eq.mp h
  exact beq_iff_eq.mpr (congrArg foldAscii heq)

theorem anyCase_of_asciiCase (h : asciiCase.like e a = true) : anyCase.like e a = true := by
  have heq : foldAscii e = foldAscii a := beq_iff_eq.mp h
  refine sameLowercase_iff.mpr ?_
  rw [← lowercase_foldAscii e, heq, lowercase_foldAscii]

/-- Characters that are alike one by one have the same keys. -/
theorem forall₂_like_iff (h : l.key? = some key) {text other : List Char} :
    List.Forall₂ (fun e a => l.like e a = true) text other ↔ text.map key = other.map key := by
  simp only [like_iff_key h]
  calc List.Forall₂ (fun e a => key e = key a) text other
      ↔ List.Forall₂ (· = ·) (text.map key) (other.map key) := by
        rw [List.forall₂_map_left_iff, List.forall₂_map_right_iff]
    _ ↔ text.map key = other.map key := by rw [List.forall₂_eq_eq_eq]

end Likeness

/-! ### What is found -/

variable {like other : Char → Char → Bool} {key : Char → List Char} {pattern rest : List Char}
  {patterns : List (List Char)}

/-- Where characters are compared by a key, a pattern occurs where its keys begin those of what
is left. -/
theorem Comparison.verdict_along_iff_prefix (h : ∀ e a, like e a = true ↔ key e = key a)
    (asked : Array (Char × Char)) :
    (along like pattern rest asked).verdict = true ↔ pattern.map key <+: rest.map key := by
  induction pattern generalizing rest asked with
  | nil => simp [along]
  | cons e later ih =>
    cases rest with
    | nil => simp [along]
    | cons a rest =>
      rw [along, List.map_cons, List.map_cons, List.cons_prefix_cons]
      by_cases hlike : like e a = true
      · rw [if_pos hlike, ih]
        exact (and_iff_right ((h e a).mp hlike)).symm
      · rw [if_neg hlike]
        exact iff_of_false Bool.false_ne_true fun hkeys => hlike ((h e a).mpr hkeys.1)

theorem Occurs.imp (h : ∀ e a, like e a = true → other e a = true) {offset : Nat}
    (hoccurs : Occurs like pattern rest offset) : Occurs other pattern rest offset where
  begins := hoccurs.begins
  fits := hoccurs.fits
  alike j e a he ha := h e a (hoccurs.alike j e a he ha)

namespace Hit

variable {rest' : List Char} {patterns' : List (List Char)}

/-- Only the verdicts on the patterns, one by one, make up what is found at an offset. -/
theorem here_congr
    (h : List.Forall₂ (fun p q => (Comparison.along like p rest #[]).verdict =
      (Comparison.along like q rest' #[]).verdict) patterns patterns') (offset index : Nat) :
    here like offset rest patterns index = here like offset rest' patterns' index := by
  induction h generalizing index with
  | nil => rfl
  | cons hfirst _ ih =>
    have hlater := ih (index + 1)
    simp only [here, List.zipIdx_cons, List.filterMap_cons, hfirst] at hlater ⊢
    rw [hlater]

/-- Where the keys are the same, the same is found. -/
theorem all_congr (h : ∀ e a, like e a = true ↔ key e = key a)
    (hp : List.Forall₂ (fun p q => p.map key = q.map key) patterns patterns')
    (hr : rest.map key = rest'.map key) (offset : Nat) :
    all like patterns offset rest = all like patterns' offset rest' := by
  induction rest generalizing rest' offset with
  | nil =>
    obtain rfl := List.map_eq_nil_iff.mp hr.symm
    rfl
  | cons a rest ih =>
    obtain ⟨b, rest', rfl⟩ : ∃ b later, rest' = b :: later := by
      cases rest' with
      | nil => cases hr
      | cons b later => exact ⟨b, later, rfl⟩
    have hverdicts : List.Forall₂ (fun p q =>
        (Comparison.along like p (a :: rest) #[]).verdict =
          (Comparison.along like q (b :: rest') #[]).verdict) patterns patterns' := by
      refine hp.imp fun p q hpq => ?_
      rw [Bool.eq_iff_iff, Comparison.verdict_along_iff_prefix h,
        Comparison.verdict_along_iff_prefix h, hpq, hr]
    rw [all, all, here_congr hverdicts, ih (List.cons.inj hr).2]

end Hit

namespace Findings

/-- Refused for the same cause, or found with everything that the first found. -/
def Within : Findings → Findings → Prop
  | .ok hits, .ok more => ∀ h ∈ hits, h ∈ more
  | .error cause, .error refusal => cause = refusal
  | .ok _, .error _ | .error _, .ok _ => False

/-- What is alike under the first and therefore under the second is found by both. -/
theorem within_every (h : ∀ e a, like e a = true → other e a = true)
    (patterns : List (List Char)) (rest : List Char) :
    (every like patterns rest).Within (every other patterns rest) := by
  unfold every
  split
  · rfl
  · intro hit hmem
    rw [List.mem_toArray, Hit.mem_all] at hmem ⊢
    obtain ⟨o, ho, pattern, hget, hoccurs⟩ := hmem
    exact ⟨o, ho, pattern, hget, hoccurs.imp h⟩

variable {rest' : List Char} {patterns' : List (List Char)}

theorem every_congr (h : ∀ e a, like e a = true ↔ key e = key a)
    (hp : List.Forall₂ (fun p q => p.map key = q.map key) patterns patterns')
    (hr : rest.map key = rest'.map key) :
    every like patterns rest = every like patterns' rest' := by
  have hempty : rest = [] ↔ rest' = [] := by
    rw [← List.map_eq_nil_iff (f := key), hr, List.map_eq_nil_iff]
  have hnil : [] ∈ patterns ↔ [] ∈ patterns' := by
    clear hempty
    induction hp with
    | nil => rfl
    | cons hfirst _ ih =>
      rw [List.mem_cons, List.mem_cons, ih, eq_comm, ← List.map_eq_nil_iff (f := key), hfirst,
        List.map_eq_nil_iff, eq_comm]
  simp only [every, ne_eq, hempty, hnil, Hit.all_congr h hp hr]

end Findings

namespace Session

variable {pattern' rest' : List Char}

/-- What a comparison comes to, apart from the characters that it was asked about. -/
theorem verdict_congr (h : ∀ e a, like e a = true ↔ key e = key a)
    (hp : pattern.map key = pattern'.map key) (hr : rest.map key = rest'.map key) :
    verdict false (Comparison.of like pattern rest) =
      verdict false (Comparison.of like pattern' rest') := by
  have hempty : pattern = [] ↔ pattern' = [] := by
    rw [← List.map_eq_nil_iff (f := key), hp, List.map_eq_nil_iff]
  unfold Comparison.of
  by_cases hne : pattern = []
  · rw [if_pos hne, if_pos (hempty.mp hne)]
  · rw [if_neg hne, if_neg fun hne' => hne (hempty.mpr hne')]
    refine congrArg Answer.flag (Bool.eq_iff_iff.mpr ?_)
    rw [Comparison.verdict_along_iff_prefix h, Comparison.verdict_along_iff_prefix h, hp, hr]

/-- Two characters are alike in any case if their full lowercase mappings are the same. The three
likenesses that fold no case, that of ASCII or all of it are equivalences, each coarser than the one
before; so from every cursor that any steps lead to, by any number of workers, the coarser one finds
all that the finer one finds. Where one of them holds between two contents and between two patterns
or lists of patterns, character by character, comparisons come to the same and searches find the
same, in memory as well as on demand. -/
theorem case_folding_coherent :
    (∀ e a, Likeness.anyCase.like e a = true ↔ Text.lowercase e = Text.lowercase a) ∧
    (∀ l ∈ [Likeness.exact, .asciiCase, .anyCase], Equivalence fun e a => l.like e a = true) ∧
    (∀ e a, (Likeness.exact.like e a = true → Likeness.asciiCase.like e a = true) ∧
      (Likeness.asciiCase.like e a = true → Likeness.anyCase.like e a = true)) ∧
    (∀ (steps : List Step) (p : Place), p ∈ (runAll steps {}).2.places →
      ∀ patterns workers held,
        let found := fun l : Likeness => (p.cursor.scan l.like patterns workers held
          ((runAll steps {}).2.feed p.family)).1
        (found .exact).Within (found .asciiCase) ∧ (found .asciiCase).Within (found .anyCase)) ∧
    ∀ l ∈ [Likeness.exact, .asciiCase, .anyCase], ∀ (steps steps' : List Step) (name name' : String)
      (p p' : Place),
      let alike := List.Forall₂ fun e a => l.like e a = true
      let s := (runAll steps {}).2
      let s' := (runAll steps' {}).2
      s.cursors.get? name = some p → s'.cursors.get? name' = some p' →
      alike (p.cursor.rest (s.backing p.family) (s.feed p.family))
        (p'.cursor.rest (s'.backing p'.family) (s'.feed p'.family)) →
      (∀ pattern pattern', alike pattern pattern' →
        (s.run (.cursor name (.compare pattern l false))).1.answer =
          (s'.run (.cursor name' (.compare pattern' l false))).1.answer) ∧
      ∀ patterns patterns', List.Forall₂ alike patterns patterns' →
        ∀ workers workers' held held',
          (p.cursor.scan l.like patterns workers held (s.feed p.family)).1 =
            (p'.cursor.scan l.like patterns' workers' held' (s'.feed p'.family)).1 := by
  have hkeys : ∀ l ∈ [Likeness.exact, .asciiCase, .anyCase], ∃ key, l.key? = some key := by
    intro l hl
    simp only [List.mem_cons, List.not_mem_nil, or_false] at hl
    rcases hl with rfl | rfl | rfl
    · exact ⟨_, rfl⟩
    · exact ⟨_, rfl⟩
    · exact ⟨_, rfl⟩
  refine ⟨fun e a => Likeness.sameLowercase_iff, fun l hl => ?_, fun e a => ?_, ?_, ?_⟩
  · obtain ⟨key, hkey⟩ := hkeys l hl
    exact Likeness.equivalence_like hkey
  · exact ⟨Likeness.asciiCase_of_exact, Likeness.anyCase_of_asciiCase⟩
  · intro steps p hmem patterns workers held found
    have hs := sound_runAll steps
    obtain ⟨o, hp⟩ := hs.placed p hmem
    have hfound : ∀ l, found l = _ := fun l => hp.2.scan (hs.serves_of_mem hmem) workers held
    rw [hfound, hfound, hfound]
    exact ⟨Findings.within_every (fun _ _ => Likeness.asciiCase_of_exact) _ _,
      Findings.within_every (fun _ _ => Likeness.anyCase_of_asciiCase) _ _⟩
  · intro l hl steps steps' name name' p p' alike s s' hname hname' hrest
    obtain ⟨key, hkey⟩ := hkeys l hl
    have hlike : ∀ e a, l.like e a = true ↔ key e = key a := fun e a => Likeness.like_iff_key hkey
    have hs : s.Sound := sound_runAll steps
    have hs' : s'.Sound := sound_runAll steps'
    obtain ⟨o, hp⟩ := hs.placed p (mem_places_of_cursor hname)
    obtain ⟨o', hp'⟩ := hs'.placed p' (mem_places_of_cursor hname')
    rw [hp.2.rest_eq, hp'.2.rest_eq] at hrest
    replace hrest := (Likeness.forall₂_like_iff hkey).mp hrest
    constructor
    · intro pattern pattern' hpattern
      rw [hs.answer_run hname hp (.compare pattern l false) rfl,
        hs'.answer_run hname' hp' (.compare pattern' l false) rfl]
      exact verdict_congr hlike ((Likeness.forall₂_like_iff hkey).mp hpattern) hrest
    · intro patterns patterns' hpatterns workers workers' held held'
      rw [hp.2.scan (hs.serves_of_mem (mem_places_of_cursor hname)),
        hp'.2.scan (hs'.serves_of_mem (mem_places_of_cursor hname'))]
      refine Findings.every_congr hlike (hpatterns.imp fun _ _ h => ?_) hrest
      exact (Likeness.forall₂_like_iff hkey).mp h

/-- The kelvin sign, which is not ASCII, and both cases of its letter: all three have one mapping.
They may stand for each other in the patterns, and in the content, be it of a feed or of a text. -/
theorem case_folding_coherent_kelvin :
    let steps := [.openSource "r" (.iterated ['K', 'e', '\u212A'] {}), .cursor "r" (.peek 1)]
    let steps' := [.openSource "t" (.text #['\u212A', 'E', 'k'])]
    let s := (runAll steps {}).2
    let s' := (runAll steps' {}).2
    let text := Cursor.ofText #['\u212A', 'E', 'k'] 0
    let alike := List.Forall₂ fun e a => Likeness.anyCase.like e a = true
    let found := fun l : Likeness => ((Cursor.mark 0).scan l.like [['K'], ['k', 'E']] 1
      (fun _ => false) (s.feed 0)).1
    s.cursors.get? "r" = some ⟨.mark 0, 0⟩ ∧ s'.cursors.get? "t" = some ⟨text, 0⟩ ∧
    alike ['K', 'e', '\u212A'] ['\u212A', 'E', 'k'] ∧
    Likeness.anyCase.like 'k' '\u212A' = true ∧ Likeness.asciiCase.like 'k' '\u212A' = false ∧
    found .exact = .ok #[⟨0, 0⟩] ∧ found .asciiCase = .ok #[⟨0, 0⟩, ⟨0, 1⟩] ∧
    found .anyCase = .ok #[⟨0, 0⟩, ⟨0, 1⟩, ⟨2, 0⟩] ∧
    (found .exact).Within (found .asciiCase) ∧ (found .asciiCase).Within (found .anyCase) ∧
    (s.run (.cursor "r" (.compare ['k', 'e'] .anyCase false))).1.answer =
      (s'.run (.cursor "t" (.compare ['\u212A', 'e'] .anyCase false))).1.answer ∧
    (text.scan Likeness.anyCase.like [['k'], ['\u212A', 'e']] 3 (fun _ => false) (s'.feed 0)).1 =
      .ok #[⟨0, 0⟩, ⟨0, 1⟩, ⟨2, 0⟩] := by
  intro steps steps' s s' text alike found
  have hname : s.cursors.get? "r" = some ⟨.mark 0, 0⟩ := by decide +kernel
  have hname' : s'.cursors.get? "t" = some ⟨text, 0⟩ := by decide +kernel
  have hrest : (Cursor.mark 0).rest (s.backing 0) (s.feed 0) = ['K', 'e', '\u212A'] := by
    decide +kernel
  have hrest' : text.rest (s'.backing 0) (s'.feed 0) = ['\u212A', 'E', 'k'] := by decide +kernel
  have hcontent : alike ['K', 'e', '\u212A'] ['\u212A', 'E', 'k'] := by decide +kernel
  have hpattern : alike ['k', 'e'] ['\u212A', 'e'] := by decide +kernel
  have hpatterns : List.Forall₂ alike [['K'], ['k', 'E']] [['k'], ['\u212A', 'e']] := by
    decide +kernel
  have hexact : found .exact = .ok #[⟨0, 0⟩] := by decide +kernel
  have hascii : found .asciiCase = .ok #[⟨0, 0⟩, ⟨0, 1⟩] := by decide +kernel
  have hany : found .anyCase = .ok #[⟨0, 0⟩, ⟨0, 1⟩, ⟨2, 0⟩] := by decide +kernel
  have hdiffer : Likeness.asciiCase.like 'k' '\u212A' = false := by decide
  clear_value steps steps'
  obtain ⟨hmapping, -, -, hwithin, hreplace⟩ := case_folding_coherent
  have hkelvin : Likeness.anyCase.like 'k' '\u212A' = true :=
    (hmapping _ _).mpr (by decide +kernel)
  obtain ⟨hfiner, hcoarser⟩ := hwithin steps _ (mem_places_of_cursor hname) [['K'], ['k', 'E']] 1
    fun _ => false
  obtain ⟨hcompare, hscan⟩ := hreplace .anyCase (by simp) steps steps' "r" "t" _ _ hname hname'
    (by rw [hrest, hrest']; exact hcontent)
  exact ⟨hname, hname', hcontent, hkelvin, hdiffer, hexact, hascii, hany, hfiner, hcoarser,
    hcompare _ _ hpattern, (hscan _ _ hpatterns 1 3 _ _).symm.trans hany⟩

end Session

end BranchCursor
