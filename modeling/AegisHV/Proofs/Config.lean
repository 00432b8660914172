import AegisHV.Spec.Config

/-! What a quoted string in the configuration is read as. The scanners agree where a string
ends, and the decoder of arrays and inline tables gives back what was written; the decoder of
plain values leaves escaped backslashes as they are. -/

namespace AegisHV.Config

open Sys List Quote

/-- What stands between the quotes of a literal, and the string it stands for. -/
inductive Body : List Char → List Char → Prop
  | nil : Body [] []
  | plain {c l s} (hquote : c ≠ '"') (hslash : c ≠ '\\') (h : Body l s) : Body (c :: l) (c :: s)
  | escaped {c l s} (h : Body l s) : Body ('\\' :: c :: l) (unescape c ++ s)

/-- The literal with the given characters between its quotes. -/
def literal (l : List Char) : List Char := '"' :: l ++ ['"']

/-- Quote, backslash and line feed behind a backslash. -/
def escapeChar (c : Char) : List Char :=
  if c = '"' then ['\\', '"'] else if c = '\\' then ['\\', '\\']
  else if c = '\n' then ['\\', 'n'] else [c]

theorem body_written (s : List Char) : Body (s.flatMap escapeChar) s := by
  induction s with
  | nil => exact .nil
  | cons c s ih =>
    rw [flatMap_cons]
    unfold escapeChar
    split_ifs with h1 h2 h3
    · subst h1
      exact .escaped (c := '"') ih
    · subst h2
      exact .escaped (c := '\\') ih
    · subst h3
      exact .escaped (c := 'n') ih
    · exact .plain h1 h2 ih

/-- A literal together with the string it stands for. -/
structure Quoted where
  body : List Char
  value : List Char
  spells : Body body value

namespace Quoted

def text (q : Quoted) : List Char := literal q.body

/-- The literal that is written for a string. -/
def write (s : List Char) : Quoted := ⟨s.flatMap escapeChar, s, body_written s⟩

end Quoted

/-! The scanners pass over a literal. -/

/-- Inside a string nothing stops a loop. -/
def Quote.inside : Quote := ⟨true, false⟩

variable {stop : Char → Bool}

theorem splitOutside_body {l s : List Char} (h : Body l s) (rest : List Char) :
    splitOutside stop inside (l ++ '"' :: rest) =
      ((l ++ '"' :: (splitOutside stop start rest).1),
        (splitOutside stop start rest).2) := by
  induction h with
  | nil => rfl
  | plain hquote hslash h ih =>
    rw [cons_append, splitOutside]
    have hnext : ∀ c, c ≠ '"' → c ≠ '\\' → Quote.inside.next c = Quote.inside := by
      intro c h1 h2
      simp [Quote.next, Quote.inside, h1, h2]
    rw [hnext _ hquote hslash, ih]
    rfl
  | @escaped c l s h ih =>
    rw [cons_append, cons_append, splitOutside, if_neg (by simp [outside, inside])]
    have hslash : inside.next '\\' = ⟨true, true⟩ := rfl
    have hnext : next ⟨true, true⟩ c = inside := rfl
    rw [hslash, splitOutside, hnext, ih]
    rfl

/-- A loop that does not stop at quotes passes over a literal. -/
theorem splitOutside_literal (hstop : stop '"' = false) {l s : List Char}
    (h : Body l s) (rest : List Char) :
    splitOutside stop start (literal l ++ rest) =
      (literal l ++ (splitOutside stop start rest).1,
        (splitOutside stop start rest).2) := by
  have hopen : literal l ++ rest = '"' :: (l ++ '"' :: rest) := by simp [literal]
  have hnext : start.next '"' = inside := rfl
  rw [hopen, splitOutside, if_neg (by simp [hstop]), hnext, splitOutside_body h]
  simp [literal]

/-- A loop passes over characters that are neither quotes nor its own. -/
theorem splitOutside_pass {front : List Char}
    (h : ∀ c ∈ front, c ≠ '"' ∧ stop c = false) (rest : List Char) :
    splitOutside stop start (front ++ rest) =
      (front ++ (splitOutside stop start rest).1, (splitOutside stop start rest).2) := by
  induction front with
  | nil => rfl
  | cons c front ih =>
    obtain ⟨hquote, hstop⟩ := h c (by simp)
    have hnext : Quote.start.next c = Quote.start := by simp [Quote.next, Quote.start, hquote]
    rw [cons_append, splitOutside, if_neg (by simp [hstop]), hnext,
      ih fun d hd => h d (by simp [hd])]
    rfl

theorem splitOutside_stop {c : Char} (h : stop c = true) (rest : List Char) :
    splitOutside stop start (c :: rest) = ([], c :: rest, start) := by
  rw [splitOutside, if_pos (by simp [h, outside, start])]

/-! Decoding a literal. -/

theorem parseQuotedFrom_body {l s : List Char} (h : Body l s) (rest : List Char) :
    ∀ out idx, parseQuotedFrom out false idx (l ++ '"' :: rest) =
      .ok (out ++ s, idx + l.length + 1) := by
  induction h with
  | nil =>
    intro out idx
    rw [nil_append, parseQuotedFrom]
    simp
  | plain hquote hslash h ih =>
    intro out idx
    rw [cons_append, parseQuotedFrom, if_neg (by decide), if_neg hslash, if_neg hquote, ih]
    simp [Nat.add_comm, Nat.add_left_comm]
  | escaped h ih =>
    intro out idx
    rw [cons_append, parseQuotedFrom, if_neg (by decide), cons_append, parseQuotedFrom, ih]
    simp [Nat.add_comm, Nat.add_left_comm]

theorem parseQuotedValue_literal {l s : List Char} (h : Body l s) (rest : List Char) :
    parseQuotedValue (literal l ++ rest) = .ok (s, (literal l).length) := by
  have hdrop : (literal l ++ rest).drop 1 = l ++ '"' :: rest := by simp [literal]
  rw [parseQuotedValue, hdrop, parseQuotedFrom_body h]
  simp [literal, Nat.add_comm, Nat.add_left_comm]

/-! The decoder of plain values. -/

section

variable {a b x y : Char} {new l : List Char}

theorem replacePair_cons (hx : x ≠ a) : replacePair a b new (x :: l) = x :: replacePair a b new l := by
  cases l with
  | nil => rfl
  | cons y l => rw [replacePair, if_neg fun h => hx h.1]

theorem replacePair_pair : replacePair a b new (a :: b :: l) = new ++ replacePair a b new l := by
  rw [replacePair, if_pos ⟨rfl, rfl⟩]

theorem replacePair_other (hl : l.head? ≠ some b) :
    replacePair a b new (a :: l) = a :: replacePair a b new l := by
  cases l with
  | nil => rfl
  | cons y l => rw [replacePair, if_neg fun h => hl (by rw [h.2]; rfl)]

end

/-- The first of the two replacements of `parse_string_value`. -/
def unquote (l : List Char) : List Char := replacePair '\\' '"' ['"'] l

/-- Both replacements. -/
def decodePlain (l : List Char) : List Char := replacePair '\\' 'n' ['\n'] (unquote l)

/-- The body has a backslash behind a backslash that escapes it. -/
def hasEscapedBackslash : List Char → Bool
  | '\\' :: c :: rest => c == '\\' || hasEscapedBackslash rest
  | _ :: rest => hasEscapedBackslash rest
  | [] => false

theorem hasEscapedBackslash_escaped (c : Char) (l : List Char) :
    hasEscapedBackslash ('\\' :: c :: l) = (c == '\\' || hasEscapedBackslash l) := by
  rw [hasEscapedBackslash]

theorem hasEscapedBackslash_plain {c : Char} (hc : c ≠ '\\') (l : List Char) :
    hasEscapedBackslash (c :: l) = hasEscapedBackslash l := by
  rw [hasEscapedBackslash]
  intro d rest h _
  exact hc h

theorem Body.head_ne_quote {l s : List Char} (h : Body l s) : l.head? ≠ some '"' := by
  cases h with
  | nil => simp
  | plain hquote hslash h => simpa using hquote
  | escaped h => simp

section

variable {c : Char} {l s : List Char}

theorem unquote_plain (hc : c ≠ '\\') : unquote (c :: l) = c :: unquote l := replacePair_cons hc

theorem unquote_escaped (hc : c ≠ '"') (h : Body l s) :
    unquote ('\\' :: c :: l) = '\\' :: c :: unquote l := by
  have hfirst : unquote ('\\' :: c :: l) = '\\' :: unquote (c :: l) :=
    replacePair_other (by simpa using hc)
  rw [hfirst]
  by_cases hslash : c = '\\'
  · subst hslash
    exact congrArg _ (replacePair_other h.head_ne_quote)
  · rw [unquote_plain hslash]

theorem decodePlain_plain (hc : c ≠ '\\') : decodePlain (c :: l) = c :: decodePlain l := by
  rw [decodePlain, unquote_plain hc, replacePair_cons hc]
  rfl

theorem decodePlain_quote : decodePlain ('\\' :: '"' :: l) = '"' :: decodePlain l := by
  exact replacePair_cons (by decide)

theorem decodePlain_newline (h : Body l s) :
    decodePlain ('\\' :: 'n' :: l) = '\n' :: decodePlain l := by
  rw [decodePlain, unquote_escaped (by decide) h]
  rfl

theorem decodePlain_other (hquote : c ≠ '"') (hn : c ≠ 'n') (hslash : c ≠ '\\') (h : Body l s) :
    decodePlain ('\\' :: c :: l) = '\\' :: c :: decodePlain l := by
  rw [decodePlain, unquote_escaped hquote h, replacePair_other (by simpa using hn),
    replacePair_cons hslash]
  rfl

/-- Only a plain n is left as an n at the start by the first replacement. -/
theorem Body.eq_n_of_unquote {x : List Char} (h : Body l s) (hx : unquote l = 'n' :: x) :
    ∃ l' s', l = 'n' :: l' ∧ s = 'n' :: s' ∧ x = unquote l' := by
  cases h with
  | nil => cases hx
  | plain hquote hslash h =>
    rw [unquote_plain hslash] at hx
    obtain ⟨rfl, rfl⟩ := hx
    exact ⟨_, _, rfl, rfl, rfl⟩
  | @escaped d l s h =>
    by_cases hd : d = '"'
    · subst hd
      exact absurd (List.cons.inj hx).1 (by decide)
    · rw [unquote_escaped hd h] at hx
      exact absurd (List.cons.inj hx).1 (by decide)

/-- An escaped backslash stays, or makes a line feed of the n behind it. -/
theorem decodePlain_backslash (h : Body l s) :
    decodePlain ('\\' :: '\\' :: l) = '\\' :: '\\' :: decodePlain l ∨
      ∃ l' s', l = 'n' :: l' ∧ s = 'n' :: s' ∧
        decodePlain ('\\' :: '\\' :: l) = '\\' :: '\n' :: decodePlain l' := by
  have hfirst : decodePlain ('\\' :: '\\' :: l) =
      '\\' :: replacePair '\\' 'n' ['\n'] ('\\' :: unquote l) := by
    rw [decodePlain, unquote_escaped (by decide) h]
    exact replacePair_other (by simp)
  by_cases hn : (unquote l).head? = some 'n'
  · obtain ⟨x, hx⟩ := head?_eq_some_iff.1 hn
    obtain ⟨l', s', hl, hs, rfl⟩ := h.eq_n_of_unquote hx
    refine Or.inr ⟨l', s', hl, hs, ?_⟩
    rw [hfirst, hx]
    rfl
  · refine Or.inl ?_
    rw [hfirst, replacePair_other hn]
    rfl

end

/-- The two decoders agree on a body exactly when it has no escaped backslash. -/
theorem decodePlain_eq_iff {l s : List Char} (h : Body l s) :
    s.length ≤ (decodePlain l).length ∧ (decodePlain l = s ↔ hasEscapedBackslash l = false) := by
  induction h with
  | nil => exact ⟨le_rfl, iff_of_true rfl rfl⟩
  | plain hquote hslash h ih =>
    rw [decodePlain_plain hslash, hasEscapedBackslash_plain hslash]
    simpa using ih
  | @escaped c l s h ih =>
    rw [hasEscapedBackslash_escaped]
    by_cases hquote : c = '"'
    · subst hquote
      rw [decodePlain_quote]
      simpa [unescape] using ih
    by_cases hn : c = 'n'
    · subst hn
      rw [decodePlain_newline h]
      simpa [unescape] using ih
    by_cases hslash : c = '\\'
    · subst hslash
      have hun : unescape '\\' = ['\\'] := rfl
      rw [hun, singleton_append]
      -- the written backslash is one character longer, or the n behind it is lost
      rcases decodePlain_backslash h with heq | ⟨l', s', rfl, rfl, heq⟩
      · rw [heq]
        refine ⟨by simp only [length_cons]; omega, iff_of_false ?_ (by simp)⟩
        intro hcons
        have hlen := congrArg List.length (List.cons.inj hcons).2
        rw [length_cons] at hlen
        omega
      · rw [heq]
        rw [decodePlain_plain (by decide)] at ih
        refine ⟨by simpa using ih.1, iff_of_false ?_ (by simp)⟩
        intro hcons
        exact absurd (List.cons.inj (List.cons.inj hcons).2).1 (by decide)
    · rw [decodePlain_other hquote hn hslash h]
      have hun : unescape c = ['\\', c] := by simp [unescape, hquote, hn, hslash]
      rw [hun]
      simpa [hslash] using ih

theorem hasEscapedBackslash_written (s : List Char) :
    hasEscapedBackslash (s.flatMap escapeChar) = false ↔ '\\' ∉ s := by
  induction s with
  | nil => exact iff_of_true rfl (by simp)
  | cons c s ih =>
    rw [flatMap_cons, mem_cons, not_or]
    by_cases hslash : c = '\\'
    · subst hslash
      exact iff_of_false (by simp [escapeChar, hasEscapedBackslash_escaped]) (by simp)
    · rw [and_iff_right (Ne.symm hslash), ← ih]
      unfold escapeChar
      split_ifs
      · rw [cons_append, cons_append, hasEscapedBackslash_escaped]
        simp
      · rw [cons_append, cons_append, hasEscapedBackslash_escaped]
        simp
      · rw [singleton_append, hasEscapedBackslash_plain hslash]

end AegisHV.Config
