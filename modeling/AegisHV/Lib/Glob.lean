import Mathlib.Tactic

/-! Words placed in a text, one after the other and with anything between them, and why the
search that takes the first place for each word finds a placement whenever there is one. -/

namespace Sys
open List

variable {α : Type*}

/-- The words occur in this order, apart from each other; with `atEnd` nothing follows them. -/
def Placed (atEnd : Bool) : List (List α) → List α → Prop
  | [], text => atEnd = true → text = []
  | word :: words, text =>
    ∃ skipped rest, text = skipped ++ (word ++ rest) ∧ Placed atEnd words rest

/-- The same, with nothing before the first word when `atStart`. -/
def PlacedFrom (atStart atEnd : Bool) : List (List α) → List α → Prop
  | [], text => Placed atEnd [] text
  | word :: words, text =>
    ∃ skipped rest, (atStart = true → skipped = []) ∧ text = skipped ++ (word ++ rest) ∧
      Placed atEnd words rest

variable {atEnd : Bool} {words : List (List α)} {text : List α}

theorem placedFrom_false :
    PlacedFrom false atEnd words text ↔ Placed atEnd words text := by
  cases words with
  | nil => exact Iff.rfl
  | cons word words => simp [PlacedFrom, Placed]

theorem Placed.skip (h : Placed false words text)
    (skipped : List α) : Placed false words (skipped ++ text) := by
  cases words with
  | nil => simp [Placed]
  | cons word words =>
    obtain ⟨before, rest, rfl, hrest⟩ := h
    exact ⟨skipped ++ before, rest, by simp, hrest⟩

theorem Placed.of_suffix {rest : List α}
    (h : Placed false words rest) (hsuffix : rest <:+ text) : Placed false words text := by
  obtain ⟨skipped, rfl⟩ := hsuffix
  exact h.skip skipped

variable {last : List α}

theorem Placed.length_le (h : Placed atEnd (words ++ [last]) text) : last.length ≤ text.length := by
  induction words generalizing text with
  | nil =>
    obtain ⟨skipped, rest, rfl, -⟩ := h
    simp only [length_append]
    omega
  | cons word words ih =>
    obtain ⟨skipped, rest, rfl, hrest⟩ := h
    have := ih hrest
    simp only [length_append]
    omega

/-- A placement reaches the end as soon as the text ends in the last word: the last word can
be moved there. -/
theorem placed_true_iff :
    Placed true (words ++ [last]) text ↔ Placed false (words ++ [last]) text ∧ last <:+ text := by
  induction words generalizing text with
  | nil =>
    constructor
    · rintro ⟨skipped, rest, rfl, hrest⟩
      obtain rfl := hrest rfl
      exact ⟨⟨skipped, [], rfl, by simp [Placed]⟩, skipped, by simp⟩
    · rintro ⟨-, skipped, rfl⟩
      exact ⟨skipped, [], by simp, by simp [Placed]⟩
  | cons word words ih =>
    constructor
    · rintro ⟨skipped, rest, rfl, hrest⟩
      obtain ⟨hplaced, hlast⟩ := ih.1 hrest
      refine ⟨⟨skipped, rest, rfl, hplaced⟩, ?_⟩
      exact hlast.trans ((suffix_append word rest).trans (suffix_append skipped _))
    · rintro ⟨⟨skipped, rest, rfl, hplaced⟩, hlast⟩
      refine ⟨skipped, rest, rfl, ih.2 ⟨hplaced, ?_⟩⟩
      -- the last word is no longer than what the placement leaves for it
      apply suffix_of_suffix_length_le hlast _ hplaced.length_le
      exact (suffix_append word rest).trans (suffix_append skipped _)

theorem placedFrom_true_iff {atStart : Bool} {word : List α} :
    PlacedFrom atStart true (word :: (words ++ [last])) text ↔
      PlacedFrom atStart false (word :: (words ++ [last])) text ∧ last <:+ text := by
  constructor
  · rintro ⟨skipped, rest, hskipped, rfl, hrest⟩
    obtain ⟨hplaced, hlast⟩ := placed_true_iff.1 hrest
    refine ⟨⟨skipped, rest, hskipped, rfl, hplaced⟩, ?_⟩
    exact hlast.trans ((suffix_append word rest).trans (suffix_append skipped _))
  · rintro ⟨⟨skipped, rest, hskipped, rfl, hplaced⟩, hlast⟩
    refine ⟨skipped, rest, hskipped, rfl, placed_true_iff.2 ⟨hplaced, ?_⟩⟩
    apply suffix_of_suffix_length_le hlast _ hplaced.length_le
    exact (suffix_append word rest).trans (suffix_append skipped _)

/-- An empty word has a place anywhere, so it can be left out where something else fixes how
far the text goes. -/
theorem placed_nil_cons (h : words ≠ [] ∨ atEnd = false) :
    Placed atEnd ([] :: words) text ↔ Placed atEnd words text := by
  constructor
  · rintro ⟨skipped, rest, rfl, hrest⟩
    cases words with
    | nil =>
      obtain rfl := h.resolve_left (by simp)
      simp [Placed]
    | cons word words =>
      obtain ⟨before, rest', rfl, hrest'⟩ := hrest
      exact ⟨skipped ++ before, rest', by simp, hrest'⟩
  · intro hplaced
    exact ⟨[], text, rfl, hplaced⟩

/-- Leaving out the empty words changes nothing when no empty word ends a text that stops
there. -/
theorem placed_filter [DecidableEq α] {atEnd : Bool} {words : List (List α)} {text : List α}
    (hlast : atEnd = true → words.getLast? ≠ some []) :
    Placed atEnd (words.filter (· ≠ [])) text ↔ Placed atEnd words text := by
  induction words generalizing text with
  | nil => exact Iff.rfl
  | cons word words ih =>
    have hlast' : atEnd = true → words.getLast? ≠ some [] := by
      intro hend h
      apply hlast hend
      rw [getLast?_cons, h]
      rfl
    by_cases hword : word = []
    · subst hword
      rw [filter_cons_of_neg (by simp), ih hlast', placed_nil_cons]
      by_cases hend : atEnd = true
      · left
        rintro rfl
        exact hlast hend rfl
      · right
        simpa using hend
    · rw [filter_cons_of_pos (by simpa using hword)]
      refine exists₂_congr fun skipped rest => ?_
      rw [ih hlast']

theorem placedFrom_filter [DecidableEq α] {atStart atEnd : Bool} {words : List (List α)}
    {text : List α} (hfirst : atStart = true → words.head? ≠ some [])
    (hlast : atEnd = true → words.getLast? ≠ some []) :
    PlacedFrom atStart atEnd (words.filter (· ≠ [])) text ↔
      PlacedFrom atStart atEnd words text := by
  by_cases hstart : atStart = true
  · cases words with
    | nil => exact Iff.rfl
    | cons word words =>
      have hword : word ≠ [] := by
        rintro rfl
        exact hfirst hstart rfl
      have hlast' : atEnd = true → words.getLast? ≠ some [] := by
        intro hend h
        apply hlast hend
        rw [getLast?_cons, h]
        rfl
      rw [filter_cons_of_pos (by simpa using hword)]
      refine exists₂_congr fun skipped rest => ?_
      rw [placed_filter hlast']
  · obtain rfl : atStart = false := by simpa using hstart
    rw [placedFrom_false, placedFrom_false, placed_filter hlast]

end Sys
