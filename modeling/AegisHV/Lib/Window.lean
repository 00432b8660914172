import Mathlib.Tactic

/-! Counting events in windows of a fixed width. A window opens at the first event that does not
fall in the one before, and a counter that stops at a cap counts the events of the window. -/

namespace Sys
open List

/-- The open window and the count of its events. -/
structure Window where
  start : ℕ
  hits : ℕ
  deriving DecidableEq

namespace Window

variable {cap width : ℕ}

/-- The window of an event at time `t`, with the event counted. -/
def next (cap width : ℕ) (w : Option Window) (t : ℕ) : Window :=
  let w := w.getD ⟨t, 0⟩
  let w := if width ≤ t - w.start then ⟨t, 0⟩ else w
  { w with hits := min (w.hits + 1) cap }

/-- The events with their windows. -/
def trace (cap width : ℕ) : Option Window → List ℕ → List (ℕ × Window)
  | _, [] => []
  | w, t :: ts => (t, next cap width w t) :: trace cap width (some (next cap width w t)) ts

/-- The window after all events. -/
def last (cap width : ℕ) (w : Option Window) (ts : List ℕ) : Option Window :=
  ts.foldl (fun w t => some (next cap width w t)) w

theorem next_none (t : ℕ) : next cap width none t = ⟨t, min 1 cap⟩ := by
  simp only [next, Option.getD_none, ite_self, Nat.zero_add]

theorem next_some (s h t : ℕ) : next cap width (some ⟨s, h⟩) t =
    if width ≤ t - s then ⟨t, min 1 cap⟩ else ⟨s, min (h + 1) cap⟩ := by
  simp only [next, Option.getD_some]
  split_ifs with hreset
  · simp
  · rfl

theorem next_start_le (w : Option Window) {t : ℕ} (hw : ∀ v, w = some v → v.start ≤ t) :
    (next cap width w t).start ≤ t := by
  cases w with
  | none => rw [next_none]
  | some v =>
    obtain ⟨s, h⟩ := v
    rw [next_some]
    split_ifs
    · exact le_rfl
    · exact hw ⟨s, h⟩ rfl

theorem next_hits_le (w : Option Window) (t : ℕ) : (next cap width w t).hits ≤ cap :=
  min_le_right _ _

/-! How the windows of two events lie. -/

variable {ts : List ℕ}

/-- From an open window on, every event is in it, or in one that opens a width later and not
before the time at hand. -/
theorem trace_spaced : ∀ {v : Window} {t : ℕ}, v.start ≤ t → ts.Pairwise (· ≤ ·) →
    (∀ u ∈ ts, t ≤ u) → ∀ e ∈ trace cap width (some v) ts, e.2.start ≤ e.1 ∧
      (e.2.start = v.start ∨ (v.start + width ≤ e.2.start ∧ t ≤ e.2.start)) := by
  induction ts with
  | nil =>
    intro v t _ _ _ e he
    cases he
  | cons u ts ih =>
    intro v t hv hsorted hle e he
    obtain ⟨hu, hsorted⟩ := pairwise_cons.1 hsorted
    have htu := hle u (by simp)
    obtain ⟨s, h⟩ := v
    have hstart : (next cap width (some ⟨s, h⟩) u).start ≤ u :=
      next_start_le _ fun v hv' => by cases hv'; exact hv.trans htu
    have hcase : (next cap width (some ⟨s, h⟩) u).start = s ∨
        (s + width ≤ (next cap width (some ⟨s, h⟩) u).start ∧
          t ≤ (next cap width (some ⟨s, h⟩) u).start) := by
      simp only at hv
      rw [next_some]
      split_ifs with hreset
      · by_cases hs : u = s
        · exact Or.inl hs
        · exact Or.inr ⟨by simp only; omega, htu⟩
      · exact Or.inl rfl
    rcases mem_cons.1 he with rfl | he
    · exact ⟨hstart, hcase⟩
    · obtain ⟨h1, h2⟩ := ih hstart hsorted hu e he
      simp only at hcase ⊢
      omega

/-- How the windows of two events lie, the first one first. -/
def Spaced (width : ℕ) (e e' : ℕ × Window) : Prop :=
  e'.2.start = e.2.start ∨ (e.2.start + width ≤ e'.2.start ∧ e.1 ≤ e'.2.start)

theorem trace_pairwise : ∀ {w : Option Window}, ts.Pairwise (· ≤ ·) →
    (∀ v, w = some v → ∀ u ∈ ts, v.start ≤ u) →
      (trace cap width w ts).Pairwise (Spaced width) ∧
        ∀ e ∈ trace cap width w ts, e.2.start ≤ e.1 := by
  induction ts with
  | nil =>
    intro w _ _
    exact ⟨List.Pairwise.nil, by simp [trace]⟩
  | cons t ts ih =>
    intro w hsorted hw
    obtain ⟨ht, hsorted⟩ := pairwise_cons.1 hsorted
    have hstart : (next cap width w t).start ≤ t :=
      next_start_le w fun v hv => hw v hv t (by simp)
    obtain ⟨hpair, hle⟩ := ih (w := some (next cap width w t)) hsorted
      fun v hv u hu => by cases hv; exact hstart.trans (ht u hu)
    refine ⟨pairwise_cons.2 ⟨?_, hpair⟩, ?_⟩
    · intro e he
      exact (trace_spaced hstart hsorted ht e he).2
    · intro e he
      rcases mem_cons.1 he with rfl | he
      · exact hstart
      · exact hle e he

/-! How many events of a window are counted low. -/

/-- The events of the window that opens at `s` whose count is `m` at most. -/
def low (m s : ℕ) (e : ℕ × Window) : Bool := e.2.start == s && decide (e.2.hits ≤ m)

variable {m : ℕ}

/-- No event falls in a window again once a later one is open. -/
theorem countP_low_later {s : ℕ} {v : Window} {t : ℕ} (hv : v.start ≤ t)
    (hs : s < v.start) (hsorted : ts.Pairwise (· ≤ ·)) (hle : ∀ u ∈ ts, t ≤ u) :
    (trace cap width (some v) ts).countP (low m s) = 0 := by
  rw [countP_eq_zero]
  intro e he
  obtain ⟨-, h⟩ := trace_spaced hv hsorted hle e he
  simp only [low, Bool.and_eq_true, beq_iff_eq, decide_eq_true_eq, not_and]
  omega

/-- Below the cap the counts of a window go up with every event. -/
theorem countP_low_open (hm : m < cap) (hwidth : 0 < width) :
    ∀ {v : Window} {t : ℕ}, v.start ≤ t → ts.Pairwise (· ≤ ·) → (∀ u ∈ ts, t ≤ u) →
      (trace cap width (some v) ts).countP (low m v.start) ≤ m - v.hits := by
  induction ts with
  | nil =>
    simp [trace]
  | cons u ts ih =>
    intro v t hv hsorted hle
    obtain ⟨hu, hsorted⟩ := pairwise_cons.1 hsorted
    have htu := hle u (by simp)
    obtain ⟨s, h⟩ := v
    simp only at hv ⊢
    rw [trace, next_some]
    split_ifs with hreset
    · have hzero : (trace cap width (some ⟨u, min 1 cap⟩) ts).countP (low m s) = 0 :=
        countP_low_later le_rfl (show s < u by omega) hsorted hu
      rw [countP_cons, hzero]
      have hnot : low m s (u, ⟨u, min 1 cap⟩) = false := by
        simp only [low, Bool.and_eq_false_iff, beq_eq_false_iff_ne]
        exact Or.inl (by omega)
      simp [hnot]
    · have hrest := ih (v := ⟨s, min (h + 1) cap⟩) (t := u) (hv.trans htu) hsorted hu
      simp only at hrest
      rw [countP_cons]
      by_cases hlow : h + 1 ≤ m
      · have hmin : min (h + 1) cap = h + 1 := by omega
        split_ifs <;> omega
      · have hnot : low m s (u, ⟨s, min (h + 1) cap⟩) = false := by
          simp only [low, Bool.and_eq_false_iff, decide_eq_false_iff_not]
          exact Or.inr (by omega)
        rw [hnot]
        simp only [Bool.false_eq_true, if_false]
        omega

theorem countP_low_le {s : ℕ} (hm : m < cap) (hwidth : 0 < width) :
    ∀ {w : Option Window}, ts.Pairwise (· ≤ ·) → (∀ v, w = some v → v.start < s) →
      (∀ v, w = some v → ∀ u ∈ ts, v.start ≤ u) →
      (trace cap width w ts).countP (low m s) ≤ m := by
  induction ts with
  | nil =>
    simp [trace]
  | cons t ts ih =>
    intro w hsorted hlt hle
    obtain ⟨ht, hsorted⟩ := pairwise_cons.1 hsorted
    have hstart : (next cap width w t).start ≤ t :=
      next_start_le w fun v hv => hle v hv t (by simp)
    rw [trace, countP_cons]
    by_cases hs : (next cap width w t).start = s
    · -- the window opens here, with a count of one
      have hone : (next cap width w t).hits = min 1 cap := by
        cases w with
        | none => rw [next_none]
        | some v =>
          obtain ⟨s', h'⟩ := v
          have hs' := hlt ⟨s', h'⟩ rfl
          rw [next_some] at hs ⊢
          split_ifs at hs ⊢ with hreset
          · rfl
          · simp only at hs hs'
            omega
      have hrest := countP_low_open hm hwidth hstart hsorted ht
      rw [hs] at hrest
      by_cases hlow : low m s (t, next cap width w t) = true
      · have h1 : (next cap width w t).hits ≤ m := by
          simp only [low, Bool.and_eq_true, decide_eq_true_eq] at hlow
          exact hlow.2
        rw [if_pos hlow]
        omega
      · rw [if_neg hlow]
        omega
    · have hnot : low m s (t, next cap width w t) = false := by
        simp only [low, Bool.and_eq_false_iff, beq_eq_false_iff_ne]
        exact Or.inl hs
      rw [hnot]
      rcases lt_or_gt_of_ne hs with hs | hs
      · exact ih hsorted (fun v hv => by cases hv; exact hs)
          fun v hv u hu => by cases hv; exact hstart.trans (ht u hu)
      · rw [countP_low_later hstart hs hsorted ht]
        exact Nat.zero_le m

theorem spaced_or_spaced {l : List (ℕ × Window)} (h : l.Pairwise (Spaced width)) :
    ∀ e ∈ l, ∀ e' ∈ l, Spaced width e e' ∨ Spaced width e' e := by
  intro e he e' he'
  have hpair : l.Pairwise fun e e' => Spaced width e e' ∨ Spaced width e' e :=
    h.imp fun hs => Or.inl hs
  have hsymm : Std.Symm fun e e' => Spaced width e e' ∨ Spaced width e' e :=
    ⟨fun _ _ => Or.symm⟩
  by_cases heq : e = e'
  · subst heq
    exact Or.inl (Or.inl rfl)
  · exact hpair.forall he he' heq

/-- Events that all share a window are as many as the window has, at most. -/
theorem countP_le_of_same {l : List (ℕ × Window)} {p : ℕ × Window → Bool}
    (hlow : ∀ s, l.countP (low m s) ≤ m) (hp : ∀ e, p e = true → e.2.hits ≤ m)
    (hsame : ∀ e ∈ l, ∀ e' ∈ l, p e = true → p e' = true → e.2.start = e'.2.start) :
    l.countP p ≤ m := by
  by_cases hsome : ∃ e ∈ l, p e = true
  · obtain ⟨e, he, hpe⟩ := hsome
    refine (countP_mono_left ?_).trans (hlow e.2.start)
    intro e' he' hpe'
    simp only [low, Bool.and_eq_true, beq_iff_eq, decide_eq_true_eq]
    exact ⟨hsame e' he' e he hpe' hpe, hp e' hpe'⟩
  · have hzero : l.countP p = 0 := by
      rw [countP_eq_zero]
      intro e he hpe
      exact hsome ⟨e, he, hpe⟩
    omega

/-- An interval shorter than a window meets two windows at most: the one that is open when it
begins, and one that opens in it. -/
theorem countP_between_le {a b : ℕ} (hsorted : ts.Pairwise (· ≤ ·))
    (hlow : ∀ s, (trace cap width none ts).countP (low m s) ≤ m) (hab : b < a + width) :
    (trace cap width none ts).countP
      (fun e => decide (a ≤ e.1 ∧ e.1 ≤ b) && decide (e.2.hits ≤ m)) ≤ 2 * m := by
  obtain ⟨hpair, hstart⟩ : (trace cap width none ts).Pairwise (Spaced width) ∧
      ∀ e ∈ trace cap width none ts, e.2.start ≤ e.1 := trace_pairwise hsorted (by simp)
  generalize trace cap width none ts = l at hpair hstart hlow
  have hnear := spaced_or_spaced hpair
  rw [countP_eq_countP_filter_add l _ fun e => decide (e.2.start < a)]
  rw [countP_filter, countP_filter]
  have hbefore : l.countP (fun e => (decide (a ≤ e.1 ∧ e.1 ≤ b) && decide (e.2.hits ≤ m)) &&
      decide (e.2.start < a)) ≤ m := by
    refine countP_le_of_same hlow ?_ ?_
    · intro e he
      simp only [Bool.and_eq_true, decide_eq_true_eq] at he
      exact he.1.2
    · intro e he e' he' h h'
      simp only [Bool.and_eq_true, decide_eq_true_eq] at h h'
      rcases hnear e he e' he' with hs | hs
      · rcases hs with hs | hs <;> omega
      · rcases hs with hs | hs <;> omega
  have hinside : l.countP (fun e => (decide (a ≤ e.1 ∧ e.1 ≤ b) && decide (e.2.hits ≤ m)) &&
      !decide (e.2.start < a)) ≤ m := by
    refine countP_le_of_same hlow ?_ ?_
    · intro e he
      simp only [Bool.and_eq_true, decide_eq_true_eq] at he
      exact he.1.2
    · intro e he e' he' h h'
      simp only [Bool.and_eq_true, decide_eq_true_eq, Bool.not_eq_true', decide_eq_false_iff_not]
        at h h'
      have h1 := hstart e he
      have h2 := hstart e' he'
      rcases hnear e he e' he' with hs | hs
      · rcases hs with hs | hs <;> omega
      · rcases hs with hs | hs <;> omega
  omega

/-! The open window. -/

theorem last_append (w : Option Window) (ts : List ℕ) (t : ℕ) :
    last cap width w (ts ++ [t]) = some (next cap width (last cap width w ts) t) := by
  simp [last]

/-- The count is at most the number of events since the window opened. -/
theorem last_hits_le : ∀ {v : Window}, ts.Pairwise (· ≤ ·) → last cap width none ts = some v →
      v.hits ≤ ts.countP (fun u => decide (v.start ≤ u)) ∧ v.start ∈ ts := by
  induction ts using List.reverseRecOn with
  | nil =>
    intro v _ h
    cases h
  | append_singleton ts t ih =>
    intro v hsorted h
    obtain ⟨hsorted, -, ht⟩ := pairwise_append.1 hsorted
    rw [last_append] at h
    obtain rfl := Option.some.inj h
    rw [countP_append]
    have hopen : (⟨t, min 1 cap⟩ : Window).hits ≤ ts.countP (fun u => decide (t ≤ u)) +
        [t].countP (fun u => decide (t ≤ u)) ∧ t ∈ ts ++ [t] := by
      simp
    cases hlast : last cap width none ts with
    | none =>
      rw [next_none]
      exact hopen
    | some w =>
      obtain ⟨s, h⟩ := w
      obtain ⟨hcount, hmem⟩ := ih hsorted hlast
      rw [next_some]
      split_ifs
      · exact hopen
      · have hst : s ≤ t := ht s hmem t (by simp)
        simp only [countP_cons, countP_nil, hst, decide_true, if_true, mem_append]
        simp only at hcount
        exact ⟨by omega, Or.inl hmem⟩

/-! The windows without their counts. -/

/-- The start of the window of each event. -/
def starts (width : ℕ) : Option ℕ → List ℕ → List ℕ
  | _, [] => []
  | s, t :: ts =>
    let s := s.getD t
    let s := if width ≤ t - s then t else s
    s :: starts width (some s) ts

theorem map_start_trace (ts : List ℕ) : ∀ w : Option Window,
    (trace cap width w ts).map (fun e => e.2.start) = starts width (w.map start) ts := by
  induction ts with
  | nil =>
    intro w
    rfl
  | cons t ts ih =>
    intro w
    have hnext : (next cap width w t).start =
        if width ≤ t - (w.map start).getD t then t else (w.map start).getD t := by
      cases w with
      | none => simp [next_none]
      | some v =>
        rw [next_some]
        simp only [Option.map_some, Option.getD_some]
        split_ifs <;> rfl
    rw [trace, map_cons, ih, starts, Option.map_some, hnext]

theorem map_time_trace (ts : List ℕ) : ∀ w : Option Window,
    (trace cap width w ts).map Prod.fst = ts := by
  induction ts with
  | nil =>
    intro w
    rfl
  | cons t ts ih =>
    intro w
    rw [trace, map_cons, ih]

theorem mem_trace_hits_le : ∀ {w : Option Window}, ∀ e ∈ trace cap width w ts, e.2.hits ≤ cap := by
  induction ts with
  | nil =>
    intro w e he
    cases he
  | cons t ts ih =>
    intro w e he
    rcases mem_cons.1 he with rfl | he
    · exact next_hits_le w t
    · exact ih e he

/-- No count is above the cap, so up to the cap all events of the window are counted low. -/
theorem countP_low_cap (s : ℕ) (w : Option Window) (ts : List ℕ) :
    (trace cap width w ts).countP (low cap s) = (starts width (w.map start) ts).count s := by
  rw [← @map_start_trace cap, count_eq_countP, countP_map]
  apply countP_congr
  intro e he
  simp [low, mem_trace_hits_le e he]

theorem starts_replicate (t n : ℕ) :
    starts width (some t) (List.replicate n t) = List.replicate n t := by
  induction n with
  | zero => rfl
  | succ n ih =>
    rw [replicate_succ, starts]
    simp only [Option.getD_some, ite_self]
    rw [ih]

end Window
end Sys
