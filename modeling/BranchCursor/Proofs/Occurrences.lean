import BranchCursor.Proofs.Searches
import Mathlib.Data.List.Nodup

/-! Every occurrence of some patterns as one list in order, and that searches come to that list.
A lane comes to the occurrences at its own offsets, and all lanes merged to all of them. -/
namespace BranchCursor

/-- A pattern occurs at an offset of some characters: one of them is there, enough are left from
there on, and each is like the one of the pattern. -/
structure Occurs (like : Char → Char → Bool) (pattern rest : List Char) (offset : Nat) : Prop where
  begins : offset < rest.length
  fits : offset + pattern.length ≤ rest.length
  alike : ∀ (j : Nat) (e a : Char), pattern[j]? = some e → rest[offset + j]? = some a →
    like e a = true

variable {like : Char → Char → Bool} {pattern rest : List Char} {patterns : List (List Char)}
  {offset k lanes : Nat} {h : Hit}

/-- A comparison succeeds if there are enough characters and each is like its counterpart. -/
theorem Comparison.verdict_along (asked : Array (Char × Char)) :
    (along like pattern rest asked).verdict = true ↔ pattern.length ≤ rest.length ∧
      ∀ (j : Nat) (e a : Char), pattern[j]? = some e → rest[j]? = some a → like e a = true := by
  induction pattern generalizing rest asked with
  | nil => simp [along]
  | cons e later ih =>
    cases rest with
    | nil => simp [along]
    | cons a rest =>
      by_cases hlike : like e a = true
      · rw [along, if_pos hlike, ih, List.length_cons, List.length_cons, Nat.succ_le_succ_iff]
        apply and_congr_right
        intro _
        constructor
        · intro h j
          cases j with
          | zero => simpa using hlike
          | succ j => simpa using h j
        · intro h j
          simpa using h (j + 1)
      · rw [along, if_neg hlike]
        simp only [Bool.false_eq_true, false_iff, not_and]
        intro _ h
        exact hlike (h 0 e a rfl rfl)

namespace Occurs

theorem zero_iff {a : Char} : Occurs like pattern (a :: rest) 0 ↔
    (Comparison.along like pattern (a :: rest) #[]).verdict = true := by
  rw [Comparison.verdict_along]
  constructor
  · intro h
    refine ⟨by simpa using h.fits, fun j e b he hb => h.alike j e b he ?_⟩
    simpa using hb
  · rintro ⟨hfits, halike⟩
    refine ⟨Nat.succ_pos _, by simpa using hfits, fun j e b he hb => halike j e b he ?_⟩
    simpa using hb

theorem succ_iff {a : Char} :
    Occurs like pattern (a :: rest) (offset + 1) ↔ Occurs like pattern rest offset := by
  constructor
  · intro h
    refine ⟨Nat.lt_of_succ_lt_succ h.begins, ?_, fun j e b he hb => h.alike j e b he ?_⟩
    · have := h.fits
      rw [List.length_cons] at this
      omega
    · rw [Nat.add_right_comm, List.getElem?_cons_succ]
      exact hb
  · intro h
    refine ⟨Nat.succ_lt_succ h.begins, ?_, fun j e b he hb => h.alike j e b he ?_⟩
    · have := h.fits
      rw [List.length_cons]
      omega
    · rw [Nat.add_right_comm, List.getElem?_cons_succ] at hb
      exact hb

end Occurs

namespace Hit

/-- At an earlier offset, or an earlier pattern at the same one. -/
def Before (a b : Hit) : Prop := a.offset < b.offset ∨ a.offset = b.offset ∧ a.pattern < b.pattern

/-- What is found at one offset, where `rest` begins, of patterns numbered from `index` on. -/
def here (like : Char → Char → Bool) (offset : Nat) (rest : List Char)
    (patterns : List (List Char)) (index : Nat) : List Hit :=
  (patterns.zipIdx index).filterMap fun e =>
    if (Comparison.along like e.1 rest #[]).verdict then some ⟨offset, e.2⟩ else none

/-- What is found at all offsets from `offset` on, where the characters begin. -/
def all (like : Char → Char → Bool) (patterns : List (List Char)) : Nat → List Char → List Hit
  | _, [] => []
  | offset, a :: rest =>
    here like offset (a :: rest) patterns 0 ++ all like patterns (offset + 1) rest

/-- The offsets of a lane. -/
def falls (k lanes : Nat) (h : Hit) : Bool := h.offset % lanes == k

theorem mem_here : h ∈ here like offset rest patterns 0 ↔ h.offset = offset ∧
    ∃ pattern, patterns[h.pattern]? = some pattern ∧
      (Comparison.along like pattern rest #[]).verdict = true := by
  simp only [here, List.mem_filterMap, Option.ite_none_right_eq_some, Option.some.injEq]
  constructor
  · rintro ⟨e, he, hverdict, rfl⟩
    exact ⟨rfl, e.1, List.mem_zipIdx_iff_getElem?.mp he, hverdict⟩
  · rintro ⟨rfl, pattern, hget, hverdict⟩
    exact ⟨(pattern, h.pattern), List.mk_mem_zipIdx_iff_getElem?.mpr hget, hverdict, rfl⟩

/-- The list holds every occurrence and nothing else. -/
theorem mem_all : h ∈ all like patterns offset rest ↔ ∃ o, h.offset = offset + o ∧
    ∃ pattern, patterns[h.pattern]? = some pattern ∧ Occurs like pattern rest o := by
  induction rest generalizing offset with
  | nil =>
    simp only [all, List.not_mem_nil, false_iff]
    rintro ⟨o, -, pattern, -, hoccurs⟩
    exact Nat.not_lt_zero o hoccurs.begins
  | cons a rest ih =>
    rw [all, List.mem_append, mem_here, ih]
    constructor
    · rintro (⟨ho, pattern, hget, hverdict⟩ | ⟨o, ho, pattern, hget, hoccurs⟩)
      · exact ⟨0, ho, pattern, hget, Occurs.zero_iff.mpr hverdict⟩
      · exact ⟨o + 1, by omega, pattern, hget, Occurs.succ_iff.mpr hoccurs⟩
    · rintro ⟨o, ho, pattern, hget, hoccurs⟩
      cases o with
      | zero => exact Or.inl ⟨ho, pattern, hget, Occurs.zero_iff.mp hoccurs⟩
      | succ o => exact Or.inr ⟨o, by omega, pattern, hget, Occurs.succ_iff.mp hoccurs⟩

theorem pairwise_here (offset : Nat) (rest : List Char) (patterns : List (List Char)) :
    (here like offset rest patterns 0).Pairwise Before := by
  have hindices : (patterns.zipIdx 0).Pairwise fun a b => a.2 < b.2 := by
    rw [← List.pairwise_map, List.zipIdx_map_snd]
    exact List.pairwise_lt_range' 1
  apply hindices.filterMap
  intro a b hab x hx y hy
  simp only [Option.ite_none_right_eq_some, Option.some.injEq] at hx hy
  obtain ⟨-, rfl⟩ := hx
  obtain ⟨-, rfl⟩ := hy
  exact Or.inr ⟨rfl, hab⟩

/-- The list is in strict order, so nothing is in it twice. -/
theorem pairwise_all (offset : Nat) (rest : List Char) (patterns : List (List Char)) :
    (all like patterns offset rest).Pairwise Before := by
  induction rest generalizing offset with
  | nil => exact List.Pairwise.nil
  | cons a rest ih =>
    refine List.pairwise_append.mpr ⟨pairwise_here _ _ _, ih (offset + 1), fun x hx y hy => ?_⟩
    obtain ⟨hx, -⟩ := mem_here.mp hx
    obtain ⟨o, hy, -⟩ := mem_all.mp hy
    exact Or.inl (by omega)

theorem nodup_all (offset : Nat) (rest : List Char) (patterns : List (List Char)) :
    (all like patterns offset rest).Nodup := by
  refine (pairwise_all offset rest patterns).imp ?_
  rintro a b h rfl
  rcases h with h | ⟨-, h⟩ <;> exact Nat.lt_irrefl _ h

end Hit

namespace Findings

/-- All that is to be found, in order. An empty pattern is refused where anything is to be tried. -/
def every (like : Char → Char → Bool) (patterns : List (List Char)) (rest : List Char) :
    Findings :=
  if rest ≠ [] ∧ [] ∈ patterns then .error (.misuse .emptyPattern)
  else .ok (Hit.all like patterns 0 rest).toArray

/-! ### One lane -/

theorem tried_of_not_mem (hne : [] ∉ patterns) (index : Nat) (hits : Array Hit) :
    tried like offset rest patterns index hits =
      .ok (hits ++ (Hit.here like offset rest patterns index).toArray) := by
  induction patterns generalizing index hits with
  | nil => simp [tried, Hit.here]
  | cons pattern later ih =>
    obtain ⟨hpattern, hlater⟩ := not_or.mp (mt List.mem_cons.mpr hne)
    rw [tried, Comparison.of, if_neg (Ne.symm hpattern)]
    dsimp only
    rw [ih hlater]
    simp only [Hit.here, List.zipIdx_cons, List.filterMap_cons]
    cases (Comparison.along like pattern rest #[]).verdict <;> simp

theorem tried_of_mem (he : [] ∈ patterns) (index : Nat) (hits : Array Hit) :
    tried like offset rest patterns index hits = .error (.misuse .emptyPattern) := by
  induction patterns generalizing index hits with
  | nil => cases he
  | cons pattern later ih =>
    rw [tried, Comparison.of]
    by_cases hpattern : pattern = []
    · rw [if_pos hpattern]
    · rw [if_neg hpattern]
      exact ih ((List.mem_cons.mp he).resolve_left (Ne.symm hpattern)) _ _

/-- A lane finds what falls to its own offsets. -/
theorem ofLane_of_not_mem (hne : [] ∉ patterns) (hits : Array Hit) :
    ofLane like patterns k lanes offset rest hits =
      .ok (hits ++ ((Hit.all like patterns offset rest).filter (Hit.falls k lanes)).toArray) := by
  induction rest generalizing offset hits with
  | nil => simp [ofLane, Hit.all]
  | cons a rest ih =>
    -- all that is found at one offset falls to the same lane
    have hsame : ∀ h ∈ Hit.here like offset (a :: rest) patterns 0,
        Hit.falls k lanes h = decide (offset % lanes = k) := by
      intro h hh
      obtain ⟨rfl, -⟩ := Hit.mem_here.mp hh
      rfl
    rw [ofLane, tried_of_not_mem hne, Hit.all, List.filter_append, List.filter_congr hsame]
    by_cases hlane : offset % lanes = k
    · simp [hlane, ih]
    · simp [hlane, ih]

/-- The first lane of all tries the first offset. -/
theorem ofLane_zero_of_mem (he : [] ∈ patterns) (hrest : rest ≠ []) (hits : Array Hit) :
    ofLane like patterns 0 lanes 0 rest hits = .error (.misuse .emptyPattern) := by
  cases rest with
  | nil => exact absurd rfl hrest
  | cons a rest => rw [ofLane, if_pos (Nat.zero_mod lanes), tried_of_mem he]

/-- A lane that is not refused finds all of its own from the first offset on. -/
theorem ofLane_of_found (hfound : ¬(rest ≠ [] ∧ [] ∈ patterns)) :
    ofLane like patterns k lanes 0 rest #[] =
      .ok ((Hit.all like patterns 0 rest).filter (Hit.falls k lanes)).toArray := by
  by_cases he : [] ∈ patterns
  · have hnil : rest = [] := by_contra fun hrest => hfound ⟨hrest, he⟩
    subst hnil
    rfl
  · simp [ofLane_of_not_mem he]

/-- One lane alone finds everything. -/
theorem ofLane_one (like : Char → Char → Bool) (patterns : List (List Char)) (rest : List Char) :
    ofLane like patterns 0 1 0 rest #[] = every like patterns rest := by
  unfold every
  split
  · rename_i hrefused
    exact ofLane_zero_of_mem hrefused.2 hrefused.1 #[]
  · rename_i hfound
    have hall : ∀ h ∈ Hit.all like patterns 0 rest, Hit.falls 0 1 h = true := by
      intro h _
      simp [Hit.falls, Nat.mod_one]
    rw [ofLane_of_found hfound, List.filter_eq_self.mpr hall]

/-! ### All lanes -/

/-- What the lanes of a crew find, one after the other. -/
def ofLanes (like : Char → Char → Bool) (patterns : List (List Char)) (lanes : Nat)
    (rest : List Char) : List Findings :=
  (List.range lanes).map fun k => ofLane like patterns k lanes 0 rest #[]

theorem foldl_join_error (cause : CursorError) (found : List Findings) :
    found.foldl join (.error cause) = .error cause := by
  induction found with
  | nil => rfl
  | cons _ _ ih => exact ih

theorem foldl_join_ok {parts : List (List Hit)} (hits : Array Hit) :
    (parts.map fun part => (.ok part.toArray : Findings)).foldl join (.ok hits) =
      .ok (hits ++ parts.flatten.toArray) := by
  induction parts generalizing hits with
  | nil => simp
  | cons part parts ih =>
    rw [List.map_cons, List.foldl_cons, join, ih]
    simp

/-- Each hit falls to one lane. -/
theorem perm_falls (hlanes : 0 < lanes) {hits : List Hit} (hnodup : hits.Nodup) :
    ((List.range lanes).flatMap fun k => hits.filter (Hit.falls k lanes)).Perm hits := by
  refine (List.perm_ext_iff_of_nodup ?_ hnodup).mpr fun h => ?_
  · refine List.nodup_flatMap.mpr ⟨fun k _ => hnodup.filter _, ?_⟩
    refine List.pairwise_lt_range.imp fun {j k} hjk => ?_
    simp only [Function.onFun, List.disjoint_left, List.mem_filter, Hit.falls, beq_iff_eq]
    omega
  · simp only [List.mem_flatMap, List.mem_range, List.mem_filter, Hit.falls, beq_iff_eq]
    constructor
    · rintro ⟨k, -, hh, -⟩
      exact hh
    · intro hh
      exact ⟨h.offset % lanes, Nat.mod_lt _ hlanes, hh, rfl⟩

/-- Sorting what all lanes found gives the list of everything. -/
theorem mergeSort_of_perm {hits found : List Hit} (hperm : found.Perm hits)
    (hsorted : hits.Pairwise Hit.Before) : found.mergeSort Hit.le = hits := by
  have hle : ∀ a b : Hit, Hit.le a b = true ↔ a.offset < b.offset ∨
      a.offset = b.offset ∧ a.pattern ≤ b.pattern := by
    intro a b
    simp [Hit.le]
  have htrans : ∀ a b c : Hit, Hit.le a b = true → Hit.le b c = true → Hit.le a c = true := by
    intro a b c
    simp only [hle]
    omega
  have htotal : ∀ a b : Hit, (Hit.le a b || Hit.le b a) = true := by
    intro a b
    simp only [Bool.or_eq_true, hle]
    omega
  have hmerged : (found.mergeSort Hit.le).Pairwise fun a b => Hit.le a b = true :=
    List.pairwise_mergeSort htrans htotal found
  have hhits : hits.Pairwise fun a b => Hit.le a b = true :=
    hsorted.imp fun {a b} hab => (hle a b).mpr (hab.imp_right fun h => ⟨h.1, Nat.le_of_lt h.2⟩)
  refine ((List.mergeSort_perm _ _).trans hperm).eq_of_pairwise ?_ hmerged hhits
  intro a b _ _ hab hba
  rw [hle] at hab hba
  obtain ⟨_, _⟩ := a
  obtain ⟨_, _⟩ := b
  simp only [Hit.mk.injEq] at hab hba ⊢
  omega

/-- All lanes together find everything, and are refused as one lane alone is. -/
theorem merge_ofLanes (hlanes : 0 < lanes) :
    merge (ofLanes like patterns lanes rest) = every like patterns rest := by
  unfold every
  split
  · rename_i hrefused
    obtain ⟨more, rfl⟩ := Nat.exists_eq_succ_of_ne_zero (Nat.ne_of_gt hlanes)
    rw [ofLanes, List.range_succ_eq_map, List.map_cons,
      ofLane_zero_of_mem hrefused.2 hrefused.1, merge, List.foldl_cons, join, foldl_join_error]
  · rename_i hfound
    have hparts : ofLanes like patterns lanes rest =
        ((List.range lanes).map fun k => (Hit.all like patterns 0 rest).filter
          (Hit.falls k lanes)).map fun part => .ok part.toArray := by
      rw [ofLanes, List.map_map]
      apply List.map_congr_left
      intro k _
      exact ofLane_of_found hfound
    have hnodup : (Hit.all like patterns 0 rest).Nodup := Hit.nodup_all 0 rest patterns
    have hperm := perm_falls hlanes hnodup
    rw [hparts, merge, foldl_join_ok]
    simp only [Array.empty_append, ← List.flatMap_def]
    rw [mergeSort_of_perm hperm (Hit.pairwise_all 0 rest patterns)]

end Findings

end BranchCursor
