import AegisHV.Lib.Glob
import AegisHV.Spec.Regex

/-! What `is_match` looks for is a placement of an alternative's parts, and a placement of the
segments is what the language of an expression asks for. The search takes the first place for
each part, which leaves the most text for the parts after it. -/

namespace AegisHV

open Sys List

namespace Pattern

variable {hay : List Char}

theorem afterFirst_eq_none {part : List Char} (h : afterFirst part hay = none)
    (skipped rest : List Char) : hay ≠ skipped ++ (part ++ rest) := by
  induction hay generalizing skipped with
  | nil =>
    rintro heq
    obtain ⟨rfl, rfl⟩ : skipped = [] ∧ part = [] := by
      simpa [] using (append_eq_nil_iff.1 heq.symm).imp_right
        (fun h => (append_eq_nil_iff.1 h).1)
    simp [afterFirst] at h
  | cons c hay ih =>
    rw [afterFirst] at h
    by_cases hstarts : part.isPrefixOf (c :: hay)
    · simp [hstarts] at h
    · rw [if_neg hstarts] at h
      intro heq
      cases skipped with
      | nil =>
        apply hstarts
        rw [heq]
        simp
      | cons d skipped =>
        simp only [cons_append, List.cons.injEq] at heq
        exact ih h skipped heq.2

/-- `find` stops at the first place: what follows any other place is part of what follows it. -/
theorem afterFirst_eq_some {part rest : List Char} (h : afterFirst part hay = some rest) :
    (∃ skipped, hay = skipped ++ (part ++ rest)) ∧
      ∀ skipped rest', hay = skipped ++ (part ++ rest') → rest' <:+ rest := by
  induction hay with
  | nil =>
    by_cases hpart : part = []
    · subst hpart
      obtain rfl : [] = rest := by simpa [afterFirst] using h
      refine ⟨⟨[], rfl⟩, fun skipped rest' heq => ?_⟩
      obtain rfl : rest' = [] := by simpa using (append_eq_nil_iff.1 heq.symm).2
      exact suffix_refl _
    · simp [afterFirst, hpart] at h
  | cons c hay ih =>
    rw [afterFirst] at h
    by_cases hstarts : part.isPrefixOf (c :: hay)
    · obtain ⟨tail, htail⟩ := isPrefixOf_iff_prefix.1 hstarts
      obtain rfl : tail = rest := by simpa [← htail] using h
      refine ⟨⟨[], htail.symm⟩, fun skipped rest' heq => ?_⟩
      rw [← htail] at heq
      -- the place found is the very first one, so nothing is skipped before it
      have hsuffix : part ++ rest' <:+ part ++ tail := ⟨skipped, heq.symm⟩
      have hlen : rest'.length ≤ tail.length := by simpa using hsuffix.length_le
      apply suffix_of_suffix_length_le _ (suffix_append part tail) hlen
      exact (suffix_append part rest').trans hsuffix
    · rw [if_neg hstarts] at h
      obtain ⟨⟨skipped, hskipped⟩, hfirst⟩ := ih h
      refine ⟨⟨c :: skipped, by rw [hskipped]; rfl⟩, fun before rest' heq => ?_⟩
      cases before with
      | nil =>
        apply absurd _ hstarts
        rw [heq]
        simp
      | cons d before =>
        simp only [cons_append, List.cons.injEq] at heq
        exact hfirst before rest' heq.2

theorem walkParts_iff {parts : List (List Char)} :
    walkParts false parts hay = true ↔ Placed false parts hay := by
  induction parts generalizing hay with
  | nil => simp [walkParts, Placed]
  | cons part parts ih =>
    simp only [walkParts, Bool.false_eq_true, if_false, Placed]
    cases hfirst : afterFirst part hay with
    | none =>
      simp only [Bool.false_eq_true, false_iff, not_exists, not_and]
      intro skipped rest heq
      exact absurd heq (afterFirst_eq_none hfirst skipped rest)
    | some rest =>
      obtain ⟨⟨skipped, heq⟩, hbest⟩ := afterFirst_eq_some hfirst
      simp only [ih]
      constructor
      · intro hplaced
        exact ⟨skipped, rest, heq, hplaced⟩
      · rintro ⟨skipped', rest', heq', hplaced⟩
        exact hplaced.of_suffix (hbest skipped' rest' heq')

theorem walkParts_anchored_iff {anchored : Bool} {parts : List (List Char)} :
    walkParts anchored parts hay = true ↔ PlacedFrom anchored false parts hay := by
  cases anchored with
  | false => rw [walkParts_iff, placedFrom_false]
  | true =>
    cases parts with
    | nil => simp [walkParts, PlacedFrom, Placed]
    | cons part parts =>
      simp only [walkParts, if_true, PlacedFrom, forall_const]
      by_cases hstarts : part.isPrefixOf hay
      · obtain ⟨rest, rfl⟩ := isPrefixOf_iff_prefix.1 hstarts
        rw [if_pos hstarts, walkParts_iff]
        simp
      · rw [if_neg hstarts]
        simp only [Bool.false_eq_true, false_iff]
        rintro ⟨skipped, rest, rfl, rfl, -⟩
        apply hstarts
        simp

theorem altMatches_iff {alt : Alt} (hparts : alt.parts ≠ []) (hay : List Char) :
    altMatches alt hay = true ↔ PlacedFrom alt.anchorStart alt.anchorEnd alt.parts hay := by
  obtain ⟨start, stop, parts⟩ := alt
  obtain ⟨first, rest, rfl⟩ := exists_cons_of_ne_nil hparts
  cases rest with
  | nil =>
    have hfind : (afterFirst first hay).isSome = true ↔ Placed false [first] hay := by
      rw [← walkParts_iff]
      simp only [walkParts, Bool.false_eq_true, if_false]
      cases afterFirst first hay <;> simp
    cases start <;> cases stop <;>
      simp only [altMatches, PlacedFrom, Placed, hfind, beq_iff_eq, isPrefixOf_iff_prefix,
        isSuffixOf_iff_suffix, forall_const, Bool.false_eq_true, false_implies, true_and,
        and_true]
    · constructor
      · rintro ⟨skipped, rfl⟩
        exact ⟨skipped, [], by simp⟩
      · rintro ⟨skipped, rest, rfl, rfl⟩
        exact ⟨skipped, by simp⟩
    · constructor
      · rintro ⟨rest, rfl⟩
        exact ⟨[], rest, rfl, rfl⟩
      · rintro ⟨skipped, rest, rfl, rfl⟩
        exact ⟨rest, rfl⟩
    · constructor
      · rintro rfl
        exact ⟨[], [], by simp⟩
      · simp
  | cons second rest =>
    obtain ⟨words, last, hwords⟩ : ∃ words last, second :: rest = words ++ [last] :=
      ⟨_, _, (dropLast_append_getLast (by simp)).symm⟩
    have hlast : (first :: second :: rest).getLast? = some last := by
      rw [hwords, getLast?_cons]
      simp
    simp only [altMatches, hlast, Option.getD_some, Bool.and_eq_true, walkParts_anchored_iff]
    rw [hwords]
    cases stop with
    | false => simp
    | true =>
      rw [placedFrom_true_iff]
      simp

end Pattern

namespace Regex

open Pattern

variable {ci : Bool} {s : List Char}

theorem lowerIf_eq_nil : lowerIf ci s = [] ↔ s = [] := by
  cases ci <;> simp [lowerIf]

theorem lowerIf_eq_append {a b : List Char} :
    lowerIf ci s = a ++ b ↔ ∃ s₁ s₂, s = s₁ ++ s₂ ∧ lowerIf ci s₁ = a ∧ lowerIf ci s₂ = b := by
  cases ci with
  | false => simp [lowerIf]
  | true => exact map_eq_append_iff

/-- What may follow the last segment. -/
def afterLast (atEnd : Bool) : Language Char := if atEnd then 1 else ⊤

theorem mem_afterLast {atEnd : Bool} :
    s ∈ afterLast atEnd ↔ (atEnd = true → s = []) := by
  cases atEnd with
  | false => exact iff_of_true (Set.mem_univ s) (by simp)
  | true => simp [afterLast, Language.mem_one]

def body (ci : Bool) (segments : List (List Char)) : Language Char :=
  ((segments.map (literal ci)).intersperse anyText).prod

theorem body_singleton (ci : Bool) (segment : List Char) : body ci [segment] = literal ci segment :=
  mul_one _

theorem body_cons_cons (ci : Bool) (first second : List Char) (rest : List (List Char)) :
    body ci (first :: second :: rest) = literal ci first * (anyText * body ci (second :: rest)) :=
  rfl

theorem mem_body {atEnd : Bool} {first : List Char} {rest : List (List Char)} (hline : '\n' ∉ s) :
    s ∈ body ci (first :: rest) * afterLast atEnd ↔
      ∃ here after, s = here ++ after ∧ lowerIf ci here = lowerIf ci first ∧
        Placed atEnd (rest.map (lowerIf ci)) (lowerIf ci after) := by
  induction rest generalizing first s with
  | nil =>
    rw [body_singleton, Language.mem_mul]
    simp only [mem_afterLast, map_nil, Placed, lowerIf_eq_nil]
    constructor
    · rintro ⟨here, hhere, after, hafter, rfl⟩
      exact ⟨here, after, rfl, hhere, hafter⟩
    · rintro ⟨here, after, rfl, hhere, hafter⟩
      exact ⟨here, hhere, after, hafter, rfl⟩
  | cons second rest ih =>
    rw [body_cons_cons, mul_assoc, mul_assoc]
    simp only [map_cons, Placed, lowerIf_eq_append]
    constructor
    · rintro ⟨here, hhere, after, hafter, rfl⟩
      obtain ⟨gap, -, after', hafter', rfl⟩ := Language.mem_mul.1 hafter
      have hline' : '\n' ∉ after' := fun h => hline (by simp [h])
      obtain ⟨here', tail, rfl, hhere', htail⟩ := (ih hline').1 hafter'
      refine ⟨here, _, rfl, hhere, lowerIf ci gap, lowerIf ci tail, ⟨gap, _, rfl, rfl, ?_⟩, htail⟩
      exact ⟨here', tail, rfl, hhere', rfl⟩
    · rintro ⟨here, after, rfl, hhere, skipped, tail, ⟨gap, after', rfl, -, here', tail', rfl, hhere',
        rfl⟩, htail⟩
      refine ⟨here, hhere, _, Language.mem_mul.2 ⟨gap, ?_, here' ++ tail', ?_, rfl⟩, rfl⟩
      · exact fun h => hline (by simp [h])
      · exact (ih fun h => hline (by simp at h ⊢; tauto)).2 ⟨here', tail', rfl, hhere', htail⟩

/-- The language of an expression, on a value without line breaks: its segments placed in the
value, both with their case folded. -/
theorem mem_language {e : Expr} (hsegments : e.segments ≠ []) (hline : '\n' ∉ s) :
    s ∈ e.language ↔ PlacedFrom e.atStart e.atEnd (e.segments.map (lowerIf e.foldCase))
      (lowerIf e.foldCase s) := by
  obtain ⟨ci, atStart, atEnd, segments⟩ := e
  obtain ⟨first, rest, rfl⟩ := exists_cons_of_ne_nil hsegments
  have hlang : Expr.language ⟨ci, atStart, atEnd, first :: rest⟩ =
      afterLast atStart * (body ci (first :: rest) * afterLast atEnd) := mul_assoc _ _ _
  rw [hlang, Language.mem_mul]
  simp only [map_cons, PlacedFrom, lowerIf_eq_append, mem_afterLast]
  constructor
  · rintro ⟨skipped, hskipped, after, hafter, rfl⟩
    have hline' : '\n' ∉ after := fun h => hline (by simp [h])
    obtain ⟨here, tail, rfl, hhere, htail⟩ := (mem_body hline').1 hafter
    refine ⟨lowerIf ci skipped, lowerIf ci tail, ?_, ⟨skipped, _, rfl, rfl, ?_⟩, htail⟩
    · exact fun hstart => lowerIf_eq_nil.2 (hskipped hstart)
    · exact ⟨here, tail, rfl, hhere, rfl⟩
  · rintro ⟨_, _, hstart, ⟨skipped, _, rfl, rfl, here, tail, rfl, hhere, rfl⟩, htail⟩
    refine ⟨skipped, fun h => lowerIf_eq_nil.1 (hstart h), here ++ tail, ?_, rfl⟩
    exact (mem_body fun h => hline (by simp at h ⊢; tauto)).2 ⟨here, tail, rfl, hhere, htail⟩

end Regex
end AegisHV
