import Mathlib.Tactic

/-! Lists of half-open intervals in a linear order. An interval is anything with a
lower and an upper end; `Apart` lists are sorted with a gap between neighbours. -/

namespace Sys
open List

universe u v

section

variable {α : Type u} [LinearOrder α] {β : Type v} (lo hi : β → α)

def Covers (l : List β) (x : α) : Prop := ∃ b ∈ l, lo b ≤ x ∧ x < hi b

def Apart (l : List β) : Prop := l.Pairwise fun a b => hi a < lo b

variable {lo hi}

@[simp] theorem covers_nil (x : α) : ¬ Covers lo hi [] x := by simp [Covers]

variable {b : β} {l : List β} {x : α}

theorem covers_cons :
    Covers lo hi (b :: l) x ↔ (lo b ≤ x ∧ x < hi b) ∨ Covers lo hi l x := by
  simp [Covers]

theorem covers_ite {c : Prop} [Decidable c] {x : α} :
    Covers lo hi (if c then [b] else []) x ↔ c ∧ lo b ≤ x ∧ x < hi b := by
  split_ifs with h <;> simp [Covers, h]

variable {l' : List β}

theorem covers_append :
    Covers lo hi (l ++ l') x ↔ Covers lo hi l x ∨ Covers lo hi l' x := by
  simp only [Covers, mem_append, or_and_right, exists_or]

theorem covers_flatMap {f : β → List β} :
    Covers lo hi (l.flatMap f) x ↔ ∃ b ∈ l, Covers lo hi (f b) x := by
  simp only [Covers, mem_flatMap]
  constructor
  · rintro ⟨c, ⟨b, hb, hc⟩, h⟩
    exact ⟨b, hb, c, hc, h⟩
  · rintro ⟨b, hb, c, hc, h⟩
    exact ⟨c, ⟨b, hb, hc⟩, h⟩

theorem apart_append :
    Apart lo hi (l ++ l') ↔ Apart lo hi l ∧ Apart lo hi l' ∧ ∀ a ∈ l, ∀ b ∈ l', hi a < lo b :=
  pairwise_append

theorem apart_cons :
    Apart lo hi (b :: l) ↔ (∀ c ∈ l, hi b < lo c) ∧ Apart lo hi l :=
  pairwise_cons

/-- Replacing each interval by pieces of itself keeps a list apart. -/
theorem apart_flatMap {f : β → List β} (h : Apart lo hi l) (hf : ∀ b ∈ l, Apart lo hi (f b))
    (hsub : ∀ b ∈ l, ∀ c ∈ f b, lo b ≤ lo c ∧ hi c ≤ hi b) : Apart lo hi (l.flatMap f) := by
  induction l with
  | nil => exact List.Pairwise.nil
  | cons b l ih =>
    obtain ⟨hb, hl⟩ := apart_cons.1 h
    rw [flatMap_cons, apart_append]
    refine ⟨hf b (by simp), ih hl (fun c hc => hf c (by simp [hc]))
      (fun c hc => hsub c (by simp [hc])), ?_⟩
    intro a ha c hc
    obtain ⟨d, hd, hcd⟩ := mem_flatMap.1 hc
    have h1 := (hsub b (by simp) a ha).2
    have h2 := (hsub d (by simp [hd]) c hcd).1
    exact lt_of_le_of_lt h1 (lt_of_lt_of_le (hb d hd) h2)

/-- The same for one interval of the list. -/
theorem apart_splice {m r : List β} (h : Apart lo hi (l ++ b :: r)) (hm : Apart lo hi m)
    (hsub : ∀ c ∈ m, lo b ≤ lo c ∧ hi c ≤ hi b) : Apart lo hi (l ++ m ++ r) := by
  obtain ⟨hl, hbr, hcross⟩ := apart_append.1 h
  obtain ⟨hb, hr⟩ := apart_cons.1 hbr
  refine apart_append.2 ⟨apart_append.2 ⟨hl, hm, fun a ha c hc => ?_⟩, hr, fun a ha d hd => ?_⟩
  · exact lt_of_lt_of_le (hcross a ha b (by simp)) (hsub c hc).1
  · rcases mem_append.1 ha with ha | ha
    · exact hcross a ha d (by simp [hd])
    · exact lt_of_le_of_lt (hsub a ha).2 (hb d hd)

theorem apart_of_ne (h : Apart lo hi l) {a : β} (ha : a ∈ l) (hb : b ∈ l)
    (hne : a ≠ b) : hi a < lo b ∨ hi b < lo a := by
  obtain ⟨i, hi, rfl⟩ := getElem_of_mem ha
  obtain ⟨j, hj, rfl⟩ := getElem_of_mem hb
  rcases lt_trichotomy i j with hij | rfl | hji
  · exact Or.inl (pairwise_iff_getElem.1 h i j hi hj hij)
  · exact absurd rfl hne
  · exact Or.inr (pairwise_iff_getElem.1 h j i hj hi hji)

/-- If there are gaps between the intervals, an interval that they cover lies in one of them. -/
theorem covers_interval (h : Apart lo hi l) {y : α} (hxy : x < y)
    (hc : ∀ z, x ≤ z → z < y → Covers lo hi l z) : ∃ b ∈ l, lo b ≤ x ∧ y ≤ hi b := by
  obtain ⟨b, hb, hlo, hhi⟩ := hc x le_rfl hxy
  refine ⟨b, hb, hlo, ?_⟩
  by_contra hlt
  -- the first point after `b` is covered by another interval, which then touches it
  obtain ⟨c, hcl, hclo, hchi⟩ := hc (hi b) hhi.le (not_le.1 hlt)
  have hne : b ≠ c := by
    rintro rfl
    exact lt_irrefl _ hchi
  rcases apart_of_ne h hb hcl hne with h' | h'
  · exact absurd h' (not_lt.2 hclo)
  · exact absurd (hhi.trans hchi) (not_lt.2 (h'.le.trans hlo))

theorem lo_le_of_covers (h : Apart lo hi (b :: l)) (hb : lo b < hi b)
    (hx : Covers lo hi (b :: l) x) : lo b ≤ x := by
  rcases covers_cons.1 hx with hx | ⟨c, hc, hcx, -⟩
  · exact hx.1
  · exact hb.le.trans (((apart_cons.1 h).1 c hc).le.trans hcx)

theorem not_covers_hi (h : Apart lo hi (b :: l)) :
    ¬ Covers lo hi (b :: l) (hi b) := by
  intro hx
  rcases covers_cons.1 hx with hx | ⟨c, hc, hcx, -⟩
  · exact lt_irrefl _ hx.2
  · exact absurd ((apart_cons.1 h).1 c hc) (not_lt.2 hcx)

theorem apart_head {a : β} (h : Apart lo hi (a :: l)) (h' : Apart lo hi (b :: l'))
    (hne : ∀ c ∈ a :: l, lo c < hi c) (hne' : ∀ c ∈ b :: l', lo c < hi c)
    (hc : ∀ x, Covers lo hi (a :: l) x ↔ Covers lo hi (b :: l') x) : lo a = lo b ∧ hi a = hi b := by
  have ha := hne a (by simp)
  have hb := hne' b (by simp)
  have hab : lo a = lo b := le_antisymm
    (lo_le_of_covers h ha ((hc _).2 (covers_cons.2 (Or.inl ⟨le_rfl, hb⟩))))
    (lo_le_of_covers h' hb ((hc _).1 (covers_cons.2 (Or.inl ⟨le_rfl, ha⟩))))
  refine ⟨hab, ?_⟩
  -- otherwise the end of the shorter one is covered on one side only
  rcases lt_trichotomy (hi a) (hi b) with hlt | heq | hlt
  · exact absurd ((hc _).2 (covers_cons.2 (Or.inl ⟨hab ▸ ha.le, hlt⟩))) (not_covers_hi h)
  · exact heq
  · exact absurd ((hc _).1 (covers_cons.2 (Or.inl ⟨hab ▸ hb.le, hlt⟩))) (not_covers_hi h')

/-- Non-empty intervals with gaps between them are determined by what they cover. -/
theorem apart_unique (h : Apart lo hi l) (h' : Apart lo hi l')
    (hne : ∀ b ∈ l, lo b < hi b) (hne' : ∀ b ∈ l', lo b < hi b)
    (hinj : ∀ a b : β, lo a = lo b → hi a = hi b → a = b)
    (hc : ∀ x, Covers lo hi l x ↔ Covers lo hi l' x) : l = l' := by
  induction l generalizing l' with
  | nil =>
    cases l' with
    | nil => rfl
    | cons b l' =>
      have := (hc (lo b)).2 (covers_cons.2 (Or.inl ⟨le_rfl, hne' b (by simp)⟩))
      exact absurd this (covers_nil _)
  | cons a l ih =>
    cases l' with
    | nil =>
      have := (hc (lo a)).1 (covers_cons.2 (Or.inl ⟨le_rfl, hne a (by simp)⟩))
      exact absurd this (covers_nil _)
    | cons b l' =>
      obtain ⟨hlo, hhi⟩ := apart_head h h' hne hne' hc
      obtain rfl := hinj a b hlo hhi
      obtain ⟨ha, hl⟩ := apart_cons.1 h
      obtain ⟨ha', hl'⟩ := apart_cons.1 h'
      rw [ih hl hl' (fun c hcl => hne c (by simp [hcl])) (fun c hcl => hne' c (by simp [hcl]))]
      intro x
      have hx := hc x
      rw [covers_cons, covers_cons] at hx
      have hout : ∀ {m : List β}, (∀ c ∈ m, hi a < lo c) → Covers lo hi m x →
          ¬ (lo a ≤ x ∧ x < hi a) := by
        rintro m hm ⟨c, hcm, hcx, -⟩ ⟨-, hlt⟩
        exact absurd (hm c hcm) (not_lt.2 (hcx.trans hlt.le))
      constructor
      · intro hm
        exact (hx.1 (Or.inr hm)).resolve_left (hout ha hm)
      · intro hm
        exact (hx.2 (Or.inr hm)).resolve_left (hout ha' hm)

end

section

/-! How much a list of intervals of naturals covers. -/

variable {β : Type v} {lo hi : β → ℕ}

def cover (lo hi : β → ℕ) (l : List β) : Finset ℕ :=
  l.foldr (fun b covered => Finset.Ico (lo b) (hi b) ∪ covered) ∅

variable {l : List β}

theorem mem_cover {x : ℕ} : x ∈ cover lo hi l ↔ Covers lo hi l x := by
  induction l with
  | nil => simp [cover]
  | cons b l ih =>
    rw [cover, foldr_cons, Finset.mem_union, Finset.mem_Ico, covers_cons]
    exact or_congr_right ih

theorem card_cover (h : l.Pairwise fun a b => ¬ (lo a < hi b ∧ lo b < hi a)) :
    (cover lo hi l).card = (l.map fun b => hi b - lo b).sum := by
  induction l with
  | nil => rfl
  | cons b l ih =>
    obtain ⟨hb, hl⟩ := pairwise_cons.1 h
    have hdisj : Disjoint (Finset.Ico (lo b) (hi b)) (cover lo hi l) := by
      rw [Finset.disjoint_left]
      intro x hx hx'
      obtain ⟨h1, h2⟩ := Finset.mem_Ico.1 hx
      obtain ⟨c, hc, h3, h4⟩ := mem_cover.1 hx'
      exact hb c hc ⟨by omega, by omega⟩
    rw [map_cons, sum_cons, ← ih hl, ← Nat.card_Ico]
    exact Finset.card_union_of_disjoint hdisj

/-- Intervals that do not meet have the same total length if they cover the same points. -/
theorem sum_eq_of_covers {γ : Type*} {lo' hi' : γ → ℕ} {l' : List γ}
    (h : l.Pairwise fun a b => ¬ (lo a < hi b ∧ lo b < hi a))
    (h' : l'.Pairwise fun a b => ¬ (lo' a < hi' b ∧ lo' b < hi' a))
    (hc : ∀ x, Covers lo hi l x ↔ Covers lo' hi' l' x) :
    (l.map fun b => hi b - lo b).sum = (l'.map fun b => hi' b - lo' b).sum := by
  rw [← card_cover h, ← card_cover h']
  congr 1
  ext x
  rw [mem_cover, mem_cover, hc]

/-- Intervals below a bound that do not meet are together no longer than the bound. -/
theorem sum_le_of_below {n : ℕ}
    (h : l.Pairwise fun a b => ¬ (lo a < hi b ∧ lo b < hi a)) (hn : ∀ b ∈ l, hi b ≤ n) :
    (l.map fun b => hi b - lo b).sum ≤ n := by
  rw [← card_cover h, ← Finset.card_range n]
  apply Finset.card_le_card
  intro x hx
  obtain ⟨b, hb, -, hlt⟩ := mem_cover.1 hx
  exact Finset.mem_range.2 (lt_of_lt_of_le hlt (hn b hb))

end

/-- A linear search splits its list at the element it stops at. -/
theorem findIdx_split {β : Type v} (p : β → Bool) (l : List β) :
    ∃ before rest, l = before ++ rest ∧ l.findIdx p = before.length ∧
      (∀ b ∈ before, p b = false) ∧ ∀ b tail, rest = b :: tail → p b = true := by
  induction l with
  | nil => exact ⟨[], [], rfl, rfl, by simp, by simp⟩
  | cons a l ih =>
    cases hp : p a with
    | true =>
      refine ⟨[], a :: l, rfl, by simp [findIdx_cons, hp], by simp, ?_⟩
      intro b tail h
      cases h
      exact hp
    | false =>
      obtain ⟨before, rest, hl, hidx, hb, hr⟩ := ih
      refine ⟨a :: before, rest, by simp [hl], by simp [findIdx_cons, hp, hidx], ?_, hr⟩
      intro b hmem
      rcases mem_cons.1 hmem with rfl | hmem
      · exact hp
      · exact hb b hmem

end Sys
