import Mathlib.Tactic

/-! Cutting a text at the first occurrence of a pattern, at the last occurrence of a character,
and at the characters of a class. -/

namespace Sys
open List

variable {α : Type*} {pat s a b : List α}

/-- The non-empty stretches of a text without characters of the class. -/
def splitWords (p : α → Bool) (s : List α) : List (List α) := (s.splitOnP p).filter (· ≠ [])

variable {p : α → Bool} {w : List α}

theorem mem_splitOnP (hw : w ∈ s.splitOnP p) : (∀ c ∈ w, p c = false) ∧ w.Sublist s := by
  induction s generalizing w with
  | nil =>
    rw [splitOnP_nil, mem_singleton] at hw
    simp [hw]
  | cons c cs ih =>
    rw [splitOnP_cons_eq_if_modifyHead] at hw
    split_ifs at hw with hc
    · rcases mem_cons.1 hw with rfl | hw
      · simp
      · exact (ih hw).imp_right (·.cons c)
    · cases hsplit : cs.splitOnP p with
      | nil => exact absurd hsplit (splitOnP_ne_nil p cs)
      | cons w₀ ws =>
        rw [hsplit] at hw
        rcases mem_cons.1 hw with rfl | hw
        · obtain ⟨hclass, hsub⟩ := ih (hsplit ▸ mem_cons_self)
          exact ⟨forall_mem_cons.2 ⟨eq_false_of_ne_true hc, hclass⟩, hsub.cons_cons c⟩
        · exact (ih (hsplit ▸ mem_cons_of_mem _ hw)).imp_right (·.cons c)

theorem mem_splitWords (hw : w ∈ splitWords p s) :
    (∀ c ∈ w, p c = false) ∧ w.length ≤ s.length :=
  (mem_splitOnP (mem_of_mem_filter hw)).imp_right List.Sublist.length_le

variable {c : α}

theorem splitOnP_append_sep (hc : p c = true) (s t : List α) :
    (s ++ c :: t).splitOnP p = s.splitOnP p ++ t.splitOnP p := by
  induction s with
  | nil => rw [nil_append, splitOnP_cons_eq_if_modifyHead, if_pos hc]; rfl
  | cons d s ih =>
    rw [cons_append, splitOnP_cons_eq_if_modifyHead, splitOnP_cons_eq_if_modifyHead, ih]
    split
    · rfl
    · rcases hsplit : s.splitOnP p with _ | ⟨w, ws⟩
      · exact absurd hsplit (splitOnP_ne_nil p s)
      · rfl

/-- The words on both sides of a character of the class. -/
theorem splitWords_append_sep (hc : p c = true) (s t : List α) :
    splitWords p (s ++ c :: t) = splitWords p s ++ splitWords p t := by
  rw [splitWords, splitOnP_append_sep hc, filter_append, splitWords, splitWords]

theorem splitWords_eq_nil (h : ∀ c ∈ s, p c = true) : splitWords p s = [] := by
  induction s with
  | nil => simp [splitWords]
  | cons c s ih =>
    have hcons := splitWords_append_sep (h c mem_cons_self) [] s
    rw [nil_append, ih fun d hd => h d (mem_cons_of_mem c hd)] at hcons
    rw [hcons]
    simp [splitWords]

theorem splitWords_skip (ha : ∀ c ∈ a, p c = true) (s : List α) :
    splitWords p (a ++ s) = splitWords p s := by
  induction a with
  | nil => rfl
  | cons c a ih =>
    have hcons := splitWords_append_sep (ha c mem_cons_self) [] (a ++ s)
    rw [nil_append] at hcons
    rw [cons_append, hcons, ih fun d hd => ha d (mem_cons_of_mem c hd)]
    simp [splitWords]

theorem splitWords_append_skip (hb : ∀ c ∈ b, p c = true) (s : List α) :
    splitWords p (s ++ b) = splitWords p s := by
  rcases b with _ | ⟨c, b⟩
  · rw [append_nil]
  · rw [splitWords_append_sep (hb c mem_cons_self),
      splitWords_eq_nil fun d hd => hb d (mem_cons_of_mem c hd), append_nil]

/-- A word at the start of the text, up to a character of the class, is its first word. -/
theorem head?_splitWords {rest : List α} (hne : w ≠ [])
    (hw : ∀ d ∈ w, p d = false) (hc : p c = true) :
    (splitWords p (w ++ c :: rest)).head? = some w := by
  rw [splitWords, splitOnP_append_cons_of_forall_mem hw c hc,
    filter_cons_of_pos (by simpa using hne)]
  rfl

theorem mem_intercalate {d : α} {ls : List (List α)} (h : d ∈ [c].intercalate ls) :
    d = c ∨ ∃ l ∈ ls, d ∈ l := by
  induction ls with
  | nil => cases h
  | cons l ls ih =>
    cases ls with
    | nil => exact Or.inr ⟨l, by simp, by simpa [List.intercalate] using h⟩
    | cons l' ls =>
      have hcons : [c].intercalate (l :: l' :: ls) = l ++ c :: [c].intercalate (l' :: ls) := by
        simp [List.intercalate]
      rw [hcons, mem_append, mem_cons] at h
      rcases h with h | h | h
      · exact Or.inr ⟨l, by simp, h⟩
      · exact Or.inl h
      · rcases ih h with h | ⟨m, hm, h⟩
        · exact Or.inl h
        · exact Or.inr ⟨m, by simp [hm], h⟩

theorem intercalate_concat (c : α) {ls : List (List α)} (hne : ls ≠ []) (l : List α) :
    [c].intercalate (ls ++ [l]) = [c].intercalate ls ++ c :: l := by
  induction ls with
  | nil => exact absurd rfl hne
  | cons m ls ih =>
    cases ls with
    | nil => simp [List.intercalate]
    | cons m' ls =>
      have hrest := ih (by simp)
      simp only [List.intercalate, cons_append, intersperse_cons_cons, flatten_cons,
        append_assoc] at hrest ⊢
      rw [hrest]

/-- A pattern without the character c that starts before a c also ends before it. -/
theorem prefix_of_append_cons (hc : c ∉ pat) (h : pat <+: a ++ c :: b) : pat <+: a := by
  rcases prefix_or_prefix_of_prefix h (prefix_append a (c :: b)) with hpre | ⟨t, rfl⟩
  · exact hpre
  · rw [prefix_append_right_inj] at h
    rcases t with _ | ⟨d, t⟩
    · rw [append_nil]
    · obtain ⟨rfl, -⟩ := cons_prefix_cons.mp h
      exact absurd (by simp) hc

theorem isInfix_of_prefix_append_cons (hc : c ∉ pat) (h : pat <+: a ++ c :: b) :
    pat <:+: a :=
  (prefix_of_append_cons hc h).isInfix

variable [DecidableEq α]

/-- The text before and after the first occurrence of a pattern. -/
def splitFirst (pat : List α) : List α → Option (List α × List α)
  | [] => if pat = [] then some ([], []) else none
  | c :: cs => match (c :: cs).dropPrefix? pat with
    | some rest => some ([], rest)
    | none => (splitFirst pat cs).map fun r => (c :: r.1, r.2)

/-- The text before and after the last occurrence of a character. -/
def splitLast (c : α) (s : List α) : Option (List α × List α) :=
  (splitFirst [c] s.reverse).map fun r => (r.2.reverse, r.1.reverse)

theorem dropPrefix?_eq_some {rest : List α} :
    s.dropPrefix? pat = some rest ↔ s = pat ++ rest := by
  rw [dropPrefix?_eq_some_iff]
  constructor
  · rintro ⟨front, hs, hfront⟩
    rw [hs, eq_of_beq hfront]
  · intro hs
    exact ⟨pat, hs, beq_self_eq_true pat⟩

theorem splitFirst_spec (h : splitFirst pat s = some (a, b)) : s = a ++ (pat ++ b) := by
  induction s generalizing a b with
  | nil =>
    unfold splitFirst at h
    split_ifs at h with hpat
    simp only [Option.some.injEq, Prod.mk.injEq] at h
    simp [← h.1, ← h.2, hpat]
  | cons c cs ih =>
    unfold splitFirst at h
    split at h
    · next rest hdrop =>
      simp only [Option.some.injEq, Prod.mk.injEq] at h
      rw [← h.1, ← h.2, nil_append]
      exact dropPrefix?_eq_some.1 hdrop
    · obtain ⟨r, hr, heq⟩ := Option.map_eq_some_iff.1 h
      simp only [Prod.mk.injEq] at heq
      rw [← heq.1, ← heq.2]
      exact congrArg _ (ih hr)

/-- No occurrence of the pattern comes before the one that is found. -/
theorem splitFirst_first (hs : s = a ++ (pat ++ b)) :
    ∃ a' b', splitFirst pat s = some (a', b') ∧ a'.length ≤ a.length := by
  induction s generalizing a with
  | nil =>
    have hnil := append_eq_nil_iff.1 hs.symm
    have hpat := (append_eq_nil_iff.1 hnil.2).1
    exact ⟨[], [], by simp [splitFirst, hpat], by simp⟩
  | cons c cs ih =>
    unfold splitFirst
    cases hdrop : (c :: cs).dropPrefix? pat with
    | some rest => exact ⟨[], rest, rfl, Nat.zero_le _⟩
    | none =>
      cases a with
      | nil =>
        rw [nil_append] at hs
        have := dropPrefix?_eq_some.2 hs
        rw [hdrop] at this
        cases this
      | cons d a =>
        rw [cons_append, List.cons.injEq] at hs
        obtain ⟨a', b', hsplit, hle⟩ := ih hs.2
        exact ⟨c :: a', b', by simp [hsplit], Nat.succ_le_succ hle⟩

theorem splitFirst_eq_some (hs : s = a ++ (pat ++ b))
    (hfirst : ∀ a' b', s = a' ++ (pat ++ b') → a.length ≤ a'.length) :
    splitFirst pat s = some (a, b) := by
  obtain ⟨a', b', hsplit, hle⟩ := splitFirst_first hs
  have hs' := splitFirst_spec hsplit
  have hlen : a'.length = a.length := le_antisymm hle (hfirst a' b' hs')
  obtain ⟨rfl, hrest⟩ := append_inj (hs'.symm.trans hs) hlen
  rw [hsplit, append_cancel_left hrest]

/-- Where the pattern does not start it is looked for behind the next character. -/
theorem splitFirst_cons (h : ¬ pat <+: c :: s) :
    splitFirst pat (c :: s) = (splitFirst pat s).map fun r => (c :: r.1, r.2) := by
  have hnone : (c :: s).dropPrefix? pat = none := by
    apply Option.eq_none_iff_forall_ne_some.2
    intro rest hrest
    exact h ⟨rest, (dropPrefix?_eq_some.1 hrest).symm⟩
  rw [splitFirst, hnone]

/-- The first occurrence of a pattern without the character c is not sought across a c. -/
theorem splitFirst_append_cons (hc : c ∉ pat) (hpat : ¬ pat <:+: a) :
    splitFirst pat (a ++ c :: b) = (splitFirst pat b).map fun r => (a ++ c :: r.1, r.2) := by
  induction a with
  | nil =>
    apply splitFirst_cons
    intro h
    exact hpat (isInfix_of_prefix_append_cons (a := []) hc h)
  | cons d a ih =>
    have htail : ¬ pat <:+: a := fun h => hpat (infix_cons h)
    rw [cons_append, splitFirst_cons, ih htail, Option.map_map]
    · rfl
    · intro h
      exact hpat (isInfix_of_prefix_append_cons (a := d :: a) hc h)

/-- A pattern whose first character does not come back in it cannot begin before its own
occurrence and end inside it. -/
theorem splitFirst_marker {tail : List α} (hc : c ∉ tail) (hpat : ¬ c :: tail <:+: a) (b : List α) :
    splitFirst (c :: tail) (a ++ (c :: tail ++ b)) = some (a, b) := by
  induction a with
  | nil =>
    have hdrop := dropPrefix?_eq_some.2 (rfl : c :: tail ++ b = c :: tail ++ b)
    rw [nil_append, cons_append, splitFirst, ← cons_append, hdrop]
  | cons d a ih =>
    have hinner : ¬ c :: tail <:+: a := fun h => hpat (h.trans (infix_cons infix_rfl))
    have hhere : ¬ c :: tail <+: d :: (a ++ (c :: tail ++ b)) := by
      intro h
      obtain ⟨rfl, htail⟩ := cons_prefix_cons.mp h
      refine hpat ?_
      exact (cons_prefix_cons.mpr ⟨rfl, prefix_of_append_cons hc htail⟩).isInfix
    rw [cons_append, splitFirst_cons hhere, ih hinner]
    rfl

theorem splitFirst_singleton (hc : c ∉ a) :
    splitFirst [c] (a ++ c :: b) = some (a, b) := by
  apply splitFirst_eq_some (by simp)
  intro a' b' hs
  by_contra hlt
  apply hc
  have hget : (a ++ c :: b)[a'.length]? = some c := by
    rw [hs]
    simp
  rw [getElem?_append_left (Nat.lt_of_not_le hlt)] at hget
  exact mem_of_getElem? hget

theorem splitFirst_singleton_eq_none (hc : c ∉ s) : splitFirst [c] s = none := by
  apply Option.eq_none_iff_forall_not_mem.2
  intro r hr
  apply hc
  rw [splitFirst_spec hr]
  simp

theorem splitLast_eq_some (hc : c ∉ b) : splitLast c (a ++ c :: b) = some (a, b) := by
  have hrev : (a ++ c :: b).reverse = b.reverse ++ c :: a.reverse := by simp
  rw [splitLast, hrev, splitFirst_singleton (by simpa using hc)]
  simp

theorem splitLast_spec (h : splitLast c s = some (a, b)) : s = a ++ c :: b := by
  obtain ⟨r, hr, heq⟩ := Option.map_eq_some_iff.1 h
  have hs := congrArg List.reverse (splitFirst_spec hr)
  simp only [Prod.mk.injEq] at heq
  rw [← heq.1, ← heq.2]
  simpa using hs

end Sys
