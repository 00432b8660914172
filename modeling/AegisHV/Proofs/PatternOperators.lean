import AegisHV.Proofs.PatternText

/-! Which operators `compile` lets through: the documented ones, and a dot, a star, a caret or a
dollar that stands where it is not one, which it takes as a literal. -/

namespace AegisHV
namespace Regex

open Sys Pattern

variable {s : List Char} {c : Char} {input : String} {p : Pattern} {pieces : List Piece}
  {piece : Piece}

theorem rejectUnsupported_cons (hc : c ≠ '\\') (rest : List Char) :
    rejectUnsupported (c :: rest) = .ok () ↔
      isUnsupported c = false ∧ rejectUnsupported rest = .ok () := by
  rw [rejectUnsupported]
  · cases isUnsupported c <;> simp
  · exact fun h => absurd h hc
  · exact fun _ _ h => absurd h hc

/-- What the checks of the whole text leave unescaped. -/
theorem of_plain_mem_scan (hclosed : closed s = true) (hs : rejectUnsupported s = .ok ())
    (h : .plain c ∈ scan s) : c ≠ '\\' ∧ c ≠ '|' ∧ isUnsupported c = false := by
  induction s using scan.induct with
  | case1 => simp [scan] at h
  | case2 d rest ih =>
    exact ih hclosed hs (by simpa [scan] using h)
  | case3 rest ih =>
    rw [rejectUnsupported_cons (by decide), rejectUnsupported_cons (by decide)] at hs
    exact ih hclosed hs.2.2 (by simpa [scan] using h)
  | case4 rest ih =>
    rw [rejectUnsupported_cons (by decide)] at hs
    exact ih hclosed hs.2 (by simpa [scan] using h)
  | case5 d rest hescape hany hbar ih =>
    -- a backslash that escapes nothing is the last character, and the text is not closed
    have hd : d ≠ '\\' := by
      rintro rfl
      cases rest with
      | nil => cases hclosed
      | cons e rest => exact hescape e rest rfl rfl
    rw [closed_cons hd] at hclosed
    obtain ⟨hsupported, hs⟩ := (rejectUnsupported_cons hd rest).1 hs
    rw [scan] at h
    · obtain heq | h := List.mem_cons.1 h
      · cases heq
        exact ⟨hd, hbar, hsupported⟩
      · exact ih hclosed hs h
    · exact hescape
    · exact hany
    · exact hbar

theorem metacharacter_cases : ∀ c ∈ metacharacters, c ≠ '\\' → c ≠ '|' →
    isUnsupported c = false → c ∈ ['.', '*', '^', '$'] :=
  @of_decide_eq_true _ (List.decidableBAll _ _) rfl

theorem mem_of_mem_unanchored (h : piece ∈ unanchored pieces) : piece ∈ pieces := by
  have hcaret : piece ∈ (takeCaret pieces).2 := by
    rw [unanchored, takeDollar] at h
    split_ifs at h
    · exact List.mem_of_mem_dropLast h
    · exact h
  unfold takeCaret at hcaret
  split at hcaret
  · exact List.mem_cons_of_mem _ hcaret
  · exact hcaret

theorem mem_of_mem_alternatives (h : pieces ∈ alternatives input) (hpiece : piece ∈ pieces) :
    piece ∈ scan (stripFlag (trim input.toList)).2 := by
  obtain ⟨whole, hwhole, rfl⟩ := List.mem_map.1 h
  have hmem : piece ∈ whole :=
    (List.dropWhile_sublist _).subset ((List.rdropWhile_prefix _ _).subset hpiece)
  exact (mem_of_mem_splitOn hwhole hmem).1

theorem alternatives_ne_nil (h : compile input = .ok p) (hpieces : pieces ∈ alternatives input) :
    pieces ≠ [] := by
  rintro rfl
  obtain ⟨-, -, hsegments⟩ := compile_trimmed h
  obtain ⟨whole, hwhole, hnil⟩ := List.mem_map.1 hpieces
  apply hsegments _ (List.mem_map.2 ⟨whole, hwhole, rfl⟩)
  rw [hnil]
  rfl

/-- A text that compiles has only documented operators exactly if no dot, star, caret or dollar
is out of place in it: every other use of an operator is refused. -/
theorem compiled_documented_iff {input : String} {p : Pattern} (h : compile input = .ok p) :
    Documented input ↔ Unstrayed input := by
  obtain ⟨-, hclosed, hsupported, -⟩ := compile_reads h
  constructor
  · intro hdoc pieces hpieces c hc
    apply (hdoc pieces hpieces).2
    revert c
    exact @of_decide_eq_true _ (List.decidableBAll _ _) rfl
  · intro hstray pieces hpieces
    refine ⟨alternatives_ne_nil h hpieces, ?_⟩
    intro c hc hmem
    have hscan := mem_of_mem_alternatives hpieces (mem_of_mem_unanchored hmem)
    obtain ⟨hescape, hbar, hother⟩ := of_plain_mem_scan hclosed hsupported hscan
    exact hstray pieces hpieces c (metacharacter_cases c hc hescape hbar hother) hmem

theorem compiled_documented_alternation :
    ∃ p, compile "(?i)^npf|a\\.b.*c$" = .ok p ∧ Documented "(?i)^npf|a\\.b.*c$" := by
  refine ⟨⟨"(?i)^npf|a\\.b.*c$", _⟩, rfl, (compiled_documented_iff rfl).2 ?_⟩
  exact @of_decide_eq_true _ (@List.decidableBAll _ _ (fun _ => List.decidableBAll _ _) _) rfl

/-- A lone dot is taken, and as a literal. -/
theorem lone_dot_is_literal : ∃ p, compile "a.b" = .ok p ∧ p.isMatch "a.b" = true ∧
    p.isMatch "axb" = false ∧ ¬ Documented "a.b" := by
  refine ⟨⟨"a.b", _⟩, rfl, by decide, by decide, ?_⟩
  intro h
  exact (h [.plain 'a', .plain '.', .plain 'b'] (by decide)).2 '.' (by decide) (by decide)

end Regex
end AegisHV
