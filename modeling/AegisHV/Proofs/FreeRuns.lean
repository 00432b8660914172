import AegisHV.Spec.Allocator
import AegisHV.Lib.Span

/-! The free-run table of the page allocator as a set of addresses. Taking a range of
pages away cuts every run it meets, and giving a run back merges it with the runs
it touches; both keep the runs aligned, sorted and apart. -/

namespace AegisHV
open Sys List

theorem alignDown_page {v : ℕ} (hv : v < 2 ^ 64) : alignDown v PAGE_SIZE_4K = v / 4096 * 4096 :=
  and_complement_mask v 12 hv (by norm_num)

theorem alignUp_page {v n : ℕ} :
    alignUp v PAGE_SIZE_4K = .ok n ↔ v + 4095 < 2 ^ 64 ∧ n = (v + 4095) / 4096 * 4096 := by
  have hmask : PAGE_SIZE_4K - 1 = 2 ^ 12 - 1 := rfl
  simp only [alignUp, hmask]
  cases h : checkedAdd v (2 ^ 12 - 1) with
  | none =>
    have := checkedAdd_eq_none.1 h
    refine ⟨fun hn => by simp at hn, fun hn => absurd hn.1 (by omega)⟩
  | some m =>
    obtain ⟨hlt, rfl⟩ := checkedAdd_eq_some.1 h
    simp only [and_complement_mask _ 12 hlt (by norm_num), Except.ok.injEq]
    refine ⟨fun hn => ⟨by omega, by omega⟩, fun hn => by omega⟩

namespace PageRun

/-- The end of a run that does not overflow. -/
def hi (r : PageRun) : ℕ := r.start + r.count * 4096

theorem hi_eq (r : PageRun) : r.hi = r.start + r.count * 4096 := rfl

@[simp] theorem hi_mk (s c : ℕ) : hi ⟨s, c⟩ = s + c * 4096 := rfl

attribute [irreducible] hi

structure WF (r : PageRun) : Prop where
  aligned : r.start % 4096 = 0
  count_pos : 0 < r.count
  hi_lt : r.start + r.count * 4096 < 2 ^ 64

theorem start_lt_hi {r : PageRun} (h : r.WF) : r.start < r.hi := by
  have := h.count_pos
  rw [hi_eq]
  omega

theorem WF.stop {r : PageRun} (h : r.WF) : r.stop = .ok r.hi := by
  have h2 := h.hi_lt
  have hsat : saturatingMul r.count PAGE_SIZE_4K = r.count * 4096 := by
    unfold saturatingMul PAGE_SIZE_4K
    omega
  unfold PageRun.stop
  rw [hsat, checkedAdd_eq_some.2 ⟨h2, rfl⟩, hi_eq]

/-- What is left of a run when the pages of `[a, b)` are taken away. -/
def cut (a b : ℕ) (r : PageRun) : List PageRun :=
  (if r.start < a then [⟨r.start, (min a r.hi - r.start) / 4096⟩] else []) ++
    if b < r.hi then [⟨max b r.start, (r.hi - max b r.start) / 4096⟩] else []

section

variable {a b : ℕ} {r : PageRun}

theorem cut_left (hr : r.WF) (h : r.hi ≤ a) (hab : a < b) : cut a b r = [r] := by
  obtain ⟨h1, h2, h3⟩ := hr
  have hhi := r.hi_eq
  have hc : (min a r.hi - r.start) / 4096 = r.count := by omega
  rw [cut, if_pos (by omega), if_neg (by omega), hc]
  rfl

theorem cut_right (hr : r.WF) (h : b ≤ r.start) (hab : a < b) : cut a b r = [r] := by
  obtain ⟨h1, h2, h3⟩ := hr
  have hhi := r.hi_eq
  have hs : max b r.start = r.start := by omega
  have hc : (r.hi - r.start) / 4096 = r.count := by omega
  rw [cut, if_neg (by omega), if_pos (by omega), hs, hc]
  rfl

/-! The four ways a range can meet a run. -/

theorem cut_all (hl : a ≤ r.start) (hu : r.hi ≤ b) : cut a b r = [] := by
  rw [cut, if_neg (by omega), if_neg (by omega)]
  rfl

theorem cut_front (hl : a ≤ r.start) (hb : r.start ≤ b) (hu : b < r.hi) :
    cut a b r = [⟨b, (r.hi - b) / 4096⟩] := by
  rw [cut, if_neg (by omega), if_pos hu, Nat.max_eq_left hb]
  rfl

theorem cut_back (hl : r.start < a) (ha : a ≤ r.hi) (hu : r.hi ≤ b) :
    cut a b r = [⟨r.start, (a - r.start) / 4096⟩] := by
  rw [cut, if_pos hl, if_neg (by omega), Nat.min_eq_left ha]
  rfl

theorem cut_middle (hl : r.start < a) (hab : a ≤ b) (hu : b < r.hi) :
    cut a b r = [⟨r.start, (a - r.start) / 4096⟩, ⟨b, (r.hi - b) / 4096⟩] := by
  rw [cut, if_pos hl, if_pos hu, Nat.min_eq_left (by omega), Nat.max_eq_left (by omega)]
  rfl

theorem hi_left (hr : r.WF) (ha : a % 4096 = 0) (h : r.start < a) :
    hi ⟨r.start, (min a r.hi - r.start) / 4096⟩ = min a r.hi := by
  obtain ⟨h1, h2, -⟩ := hr
  have hhi := r.hi_eq
  rw [hi_mk]
  omega

theorem hi_right (hr : r.WF) (hb : b % 4096 = 0) (h : b < r.hi) :
    hi ⟨max b r.start, (r.hi - max b r.start) / 4096⟩ = r.hi := by
  obtain ⟨h1, h2, -⟩ := hr
  have hhi := r.hi_eq
  rw [hi_mk]
  omega

theorem cut_wf (hr : r.WF) (ha : a % 4096 = 0) (hb : b % 4096 = 0) :
    ∀ c ∈ cut a b r, c.WF ∧ r.start ≤ c.start ∧ c.hi ≤ r.hi := by
  obtain ⟨h1, h2, h3⟩ := id hr
  have hhi := r.hi_eq
  intro c hc
  rcases mem_append.1 hc with hc | hc
  · split_ifs at hc with hlt
    · have hl := hi_left hr ha hlt
      obtain rfl := mem_singleton.1 hc
      refine ⟨⟨h1, ?_, ?_⟩, le_rfl, ?_⟩
      · dsimp only
        omega
      · rw [← hi_eq]
        omega
      · omega
    · simp at hc
  · split_ifs at hc with hlt
    · have hl := hi_right hr hb hlt
      obtain rfl := mem_singleton.1 hc
      refine ⟨⟨?_, ?_, ?_⟩, le_max_right _ _, hl.le⟩
      · dsimp only
        omega
      · dsimp only
        omega
      · rw [← hi_eq]
        omega
    · simp at hc

theorem cut_apart (hr : r.WF) (ha : a % 4096 = 0) (hab : a < b) : Apart start hi (cut a b r) := by
  unfold cut
  split_ifs with hl hu
  · rw [singleton_append, apart_cons]
    refine ⟨fun c hc => ?_, pairwise_singleton _ _⟩
    rw [mem_singleton.1 hc, hi_left hr ha hl]
    dsimp only
    omega
  all_goals simp [Apart]

theorem cut_covers (hr : r.WF) (ha : a % 4096 = 0) (hb : b % 4096 = 0) (x : ℕ) :
    Covers start hi (cut a b r) x ↔ (r.start ≤ x ∧ x < r.hi) ∧ ¬ (a ≤ x ∧ x < b) := by
  have hl : r.start < a → _ := hi_left hr ha
  have hu : b < r.hi → _ := hi_right hr hb
  rw [cut, covers_append, covers_ite, covers_ite]
  dsimp only
  omega

end

end PageRun

open PageRun

structure FreeRuns (l : List PageRun) : Prop where
  wf : ∀ r ∈ l, r.WF
  apart : Apart start hi l

theorem freeRuns_nil : FreeRuns [] := ⟨by simp, List.Pairwise.nil⟩

variable {l : List PageRun}

theorem freeRuns_cut (h : FreeRuns l) {a b : ℕ} (ha : a % 4096 = 0)
    (hb : b % 4096 = 0) (hab : a < b) : FreeRuns (l.flatMap (cut a b)) := by
  refine ⟨?_, apart_flatMap h.apart (fun r hr => cut_apart (h.wf r hr) ha hab)
    fun r hr c hc => (cut_wf (h.wf r hr) ha hb c hc).2⟩
  intro c hc
  obtain ⟨r, hr, hc⟩ := mem_flatMap.1 hc
  exact (cut_wf (h.wf r hr) ha hb c hc).1

theorem freeRuns_cut_covers (h : FreeRuns l) {a b : ℕ} (ha : a % 4096 = 0)
    (hb : b % 4096 = 0) (x : ℕ) :
    Covers start hi (l.flatMap (cut a b)) x ↔ Covers start hi l x ∧ ¬ (a ≤ x ∧ x < b) := by
  rw [covers_flatMap]
  constructor
  · rintro ⟨r, hr, hc⟩
    obtain ⟨hx, hn⟩ := (cut_covers (h.wf r hr) ha hb x).1 hc
    exact ⟨⟨r, hr, hx⟩, hn⟩
  · rintro ⟨⟨r, hr, hx⟩, hn⟩
    exact ⟨r, hr, (cut_covers (h.wf r hr) ha hb x).2 ⟨hx, hn⟩⟩

/-- The free runs with the same addresses are the same list. -/
theorem freeRuns_unique {l' : List PageRun} (h : FreeRuns l) (h' : FreeRuns l')
    (hc : ∀ x, Covers start hi l x ↔ Covers start hi l' x) : l = l' := by
  refine apart_unique h.apart h'.apart (fun r hr => start_lt_hi (h.wf r hr))
    (fun r hr => start_lt_hi (h'.wf r hr)) ?_ hc
  intro a b hstart hhi
  rw [hi_eq, hi_eq] at hhi
  cases a
  simp_all

variable {run : PageRun}

theorem freeRuns_splice {r : List PageRun} (h : FreeRuns (l ++ run :: r)) {a b : ℕ}
    (ha : a % 4096 = 0) (hb : b % 4096 = 0) (hab : a < b) :
    FreeRuns (l ++ cut a b run ++ r) := by
  have hw : run.WF := h.wf run (by simp)
  have hcut := cut_wf hw ha hb
  refine ⟨?_, apart_splice h.apart (cut_apart hw ha hab) fun c hc => (hcut c hc).2⟩
  intro c hc
  rcases mem_append.1 hc with hc | hc
  · rcases mem_append.1 hc with hc | hc
    · exact h.wf c (by simp [hc])
    · exact (hcut c hc).1
  · exact h.wf c (by simp [hc])

theorem flatMap_cut_left {a b : ℕ} (hw : ∀ r ∈ l, r.WF)
    (h : ∀ r ∈ l, r.hi ≤ a) (hab : a < b) : l.flatMap (cut a b) = l := by
  induction l with
  | nil => rfl
  | cons r l ih =>
    rw [flatMap_cons, cut_left (hw r (by simp)) (h r (by simp)) hab,
      ih (fun c hc => hw c (by simp [hc])) fun c hc => h c (by simp [hc])]
    rfl

theorem flatMap_cut_right {a b : ℕ} (hw : ∀ r ∈ l, r.WF)
    (h : ∀ r ∈ l, b ≤ r.start) (hab : a < b) : l.flatMap (cut a b) = l := by
  induction l with
  | nil => rfl
  | cons r l ih =>
    rw [flatMap_cons, cut_right (hw r (by simp)) (h r (by simp)) hab,
      ih (fun c hc => hw c (by simp [hc])) fun c hc => h c (by simp [hc])]
    rfl

/-- A range inside one run leaves the other runs as they are. -/
theorem flatMap_cut_within {r : List PageRun} {a b : ℕ}
    (h : FreeRuns (l ++ run :: r)) (ha : run.start ≤ a) (hb : b ≤ run.hi) (hab : a < b) :
    (l ++ run :: r).flatMap (cut a b) = l ++ cut a b run ++ r := by
  obtain ⟨-, hr, hcross⟩ := apart_append.1 h.apart
  have hleft : ∀ c ∈ l, c.hi ≤ a := fun c hc => (hcross c hc run (by simp)).le.trans ha
  have hright : ∀ c ∈ r, b ≤ c.start := fun c hc => hb.trans ((apart_cons.1 hr).1 c hc).le
  rw [flatMap_append, flatMap_cons, flatMap_cut_left (fun c hc => h.wf c (by simp [hc])) hleft hab,
    flatMap_cut_right (fun c hc => h.wf c (by simp [hc])) hright hab, append_assoc]

/-- Putting one run in the place of some neighbours. -/
theorem freeRuns_replace {m r : List PageRun} (h : FreeRuns (l ++ m ++ r))
    (hw : run.WF) (hl : ∀ a ∈ l, a.hi < run.start) (hr : ∀ b ∈ r, run.hi < b.start) :
    FreeRuns (l ++ run :: r) := by
  obtain ⟨hlm, hra, hcross⟩ := apart_append.1 h.apart
  refine ⟨?_, apart_append.2 ⟨(apart_append.1 hlm).1, apart_cons.2 ⟨hr, hra⟩, ?_⟩⟩
  · intro a ha
    rcases mem_append.1 ha with ha | ha
    · exact h.wf a (by simp [ha])
    · rcases mem_cons.1 ha with rfl | ha
      · exact hw
      · exact h.wf a (by simp [ha])
  · intro a ha b hb
    rcases mem_cons.1 hb with rfl | hb
    · exact hl a ha
    · exact hcross a (mem_append_left _ ha) b hb

theorem covers_replace {m r : List PageRun} {new : PageRun} (h : ∀ x, (new.start ≤ x ∧ x < new.hi) ↔
      Covers start hi m x ∨ (run.start ≤ x ∧ x < run.hi)) (x : ℕ) :
    Covers start hi (l ++ new :: r) x ↔
      Covers start hi (l ++ m ++ r) x ∨ (run.start ≤ x ∧ x < run.hi) := by
  simp only [covers_append, covers_cons, h]
  tauto

/-- A run that ends where the next one starts, joined with it. -/
theorem join_spec {p q : PageRun} (hp : p.WF) (hq : q.WF) (h : p.hi = q.start) :
    (⟨p.start, p.count + q.count⟩ : PageRun).WF ∧
      (⟨p.start, p.count + q.count⟩ : PageRun).hi = q.hi := by
  obtain ⟨h1, h2, h3⟩ := hp
  obtain ⟨h4, h5, h6⟩ := hq
  have hp' := p.hi_eq
  have hq' := q.hi_eq
  have hsum : p.start + (p.count + q.count) * 4096 = q.hi := by omega
  refine ⟨⟨h1, Nat.add_pos_left h2 _, ?_⟩, by rw [hi_mk, hsum]⟩
  rwa [hsum, hq']

end AegisHV
