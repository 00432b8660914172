import AegisHV.Lib.Run
import AegisHV.Lib.Window
import AegisHV.Spec.TrapPolicy

/-! The storm guard over a whole stream of hits: how often it lets the hits of a key through in
a window and in an interval, and that keys do not disturb each other. -/

namespace AegisHV
open Sys List Window

namespace TrapStormGuard

/-- A hit of a key at a time. -/
abbrev Hit := TrapStormKey × ℕ

def step (self : TrapStormGuard) (hit : Hit) : TrapStormDecision × TrapStormGuard :=
  self.observe hit.1 hit.2

/-- The times of the hits of a key. -/
def hitsOf (key : TrapStormKey) (stream : List Hit) : List ℕ :=
  (stream.filter fun hit => hit.1 = key).map Prod.snd

/-- The answers to the hits of a key. -/
def answers (self : TrapStormGuard) (stream : List Hit) (key : TrapStormKey) :
    List TrapStormDecision :=
  ((run step self stream).1.filter fun entry => entry.1.1 = key).map Prod.snd

/-- The hits of a key: the time, the start of the window it falls in, and the answer. -/
def history (self : TrapStormGuard) (stream : List Hit) (key : TrapStormKey) :
    List (ℕ × ℕ × TrapStormDecision) :=
  (hitsOf key stream).zip
    ((starts self.windowMs none (hitsOf key stream)).zip (self.answers stream key))

/-! One hit. -/

/-- The highest count of a bucket. -/
def maxCount : ℕ := 2 ^ 32 - 1

def windowOf (bucket : TrapStormBucket) : Window := ⟨bucket.windowStartMs, bucket.hits⟩

/-- The open window of a key. -/
def openWindow (self : TrapStormGuard) (key : TrapStormKey) : Option Window :=
  (self.buckets.get key).map windowOf

/-- The answer to a hit with the given count. -/
def verdict (self : TrapStormGuard) (hits : ℕ) : TrapStormDecision :=
  if hits ≤ self.maxHits then .allow
  else if self.mode = .failOpen then .throttleFailOpen else .throttleFailClosed

theorem verdict_eq_allow {g : TrapStormGuard} {hits : ℕ} :
    g.verdict hits = .allow ↔ hits ≤ g.maxHits := by
  unfold verdict
  split_ifs with h <;> simp [h]

/-- What a guard is set up with, and no hit changes. -/
def SameSetup (g g' : TrapStormGuard) : Prop :=
  g'.windowMs = g.windowMs ∧ g'.maxHits = g.maxHits ∧ g'.mode = g.mode

/-- The bucket of the key with the hit counted. -/
def counted (self : TrapStormGuard) (key : TrapStormKey) (nowMs : ℕ) : TrapStormBucket :=
  let bucket := (self.buckets.get key).getD ⟨nowMs, 0⟩
  let bucket := if self.windowMs ≤ nowMs - bucket.windowStartMs then ⟨nowMs, 0⟩ else bucket
  { bucket with hits := min (bucket.hits + 1) (2 ^ 32 - 1) }

theorem windowOf_counted (g : TrapStormGuard) (key : TrapStormKey) (nowMs : ℕ) :
    windowOf (g.counted key nowMs) =
      next maxCount g.windowMs (g.openWindow key) nowMs := by
  rw [counted, openWindow]
  cases g.buckets.get key with
  | none =>
    simp only [Option.getD_none, Option.map_none, next_none]
    split_ifs <;> rfl
  | some b =>
    simp only [Option.getD_some, Option.map_some, windowOf, next_some]
    split_ifs <;> rfl

theorem observe_eq (g : TrapStormGuard) (key : TrapStormKey) (nowMs : ℕ) :
    g.observe key nowMs = (g.verdict (g.counted key nowMs).hits,
      { g with buckets := g.buckets.insert key (g.counted key nowMs) }) := by
  obtain ⟨windowMs, maxHits, mode, buckets⟩ := g
  change (if (counted ⟨windowMs, maxHits, mode, buckets⟩ key nowMs).hits ≤ maxHits then _ else _) = _
  unfold verdict
  by_cases hle : (counted ⟨windowMs, maxHits, mode, buckets⟩ key nowMs).hits ≤ maxHits
  · rw [if_pos hle, if_pos hle]
    rfl
  · rw [if_neg hle, if_neg hle]
    cases mode with
    | failOpen => rfl
    | failClosed => rfl

variable {g : TrapStormGuard} {key : TrapStormKey}

theorem step_fst (g : TrapStormGuard) (hit : Hit) : (step g hit).1 =
    g.verdict (next maxCount g.windowMs (g.openWindow hit.1) hit.2).hits := by
  rw [step, observe_eq, ← windowOf_counted]
  rfl

theorem openWindow_step (g : TrapStormGuard) (hit : Hit) (key : TrapStormKey) :
    (step g hit).2.openWindow key = if key = hit.1 then
      some (next maxCount g.windowMs (g.openWindow hit.1) hit.2) else g.openWindow key := by
  rw [step, observe_eq, ← windowOf_counted, openWindow, OrdMap.get_insert]
  split_ifs <;> rfl

theorem sameSetup_step (g : TrapStormGuard) (hit : Hit) : SameSetup g (step g hit).2 := by
  rw [step, observe_eq]
  exact ⟨rfl, rfl, rfl⟩

/-! A stream of hits. -/

theorem hitsOf_cons (key : TrapStormKey) (hit : Hit) (stream : List Hit) :
    hitsOf key (hit :: stream) =
      if hit.1 = key then hit.2 :: hitsOf key stream else hitsOf key stream := by
  unfold hitsOf
  split_ifs <;> simp_all

/-- The answers to the hits of a key follow from the windows of these hits alone. -/
theorem answers_eq (stream : List Hit) (key : TrapStormKey) : ∀ g : TrapStormGuard,
    g.answers stream key = (trace maxCount g.windowMs (g.openWindow key)
      (hitsOf key stream)).map fun e => g.verdict e.2.hits := by
  induction stream with
  | nil =>
    intro g
    rfl
  | cons hit stream ih =>
    intro g
    obtain ⟨hwindow, hmax, hmode⟩ := sameSetup_step g hit
    have hverdict : ∀ n, (step g hit).2.verdict n = g.verdict n := by
      intro n
      rw [verdict, verdict, hmax, hmode]
    have hrest := ih (step g hit).2
    simp only [answers, hwindow, hverdict, openWindow_step] at hrest
    rw [answers, run_cons, filter_cons, hitsOf_cons]
    by_cases hkey : hit.1 = key
    · subst hkey
      simp only [decide_true, if_true, map_cons, trace] at hrest ⊢
      rw [hrest, step_fst]
    · simp only [hkey, Ne.symm hkey, decide_false, if_false, Bool.false_eq_true] at hrest ⊢
      exact hrest

theorem openWindow_run (stream : List Hit) (key : TrapStormKey) : ∀ g : TrapStormGuard,
    (run step g stream).2.openWindow key =
        last maxCount g.windowMs (g.openWindow key) (hitsOf key stream) ∧
      SameSetup g (run step g stream).2 := by
  induction stream with
  | nil =>
    intro g
    exact ⟨rfl, rfl, rfl, rfl⟩
  | cons hit stream ih =>
    intro g
    obtain ⟨hwindow, hmax, hmode⟩ := sameSetup_step g hit
    obtain ⟨hopen, h1, h2, h3⟩ := ih (step g hit).2
    rw [run_cons]
    refine ⟨?_, h1.trans hwindow, h2.trans hmax, h3.trans hmode⟩
    rw [hopen, hwindow, openWindow_step, hitsOf_cons]
    by_cases hkey : hit.1 = key
    · subst hkey
      simp only [if_true, last, foldl_cons]
    · simp only [hkey, Ne.symm hkey, if_false]

theorem hitsOf_filter (key : TrapStormKey) (stream : List Hit) :
    hitsOf key (stream.filter fun hit => hit.1 = key) = hitsOf key stream := by
  simp [hitsOf]

theorem hitsOf_sorted {stream : List Hit} (h : (stream.map Prod.snd).Pairwise (· ≤ ·))
    (key : TrapStormKey) : (hitsOf key stream).Pairwise (· ≤ ·) := by
  rw [pairwise_map] at h
  exact pairwise_map.2 (h.filter _)

/-! What the guard promises. -/

/-- The history of a key, with the answers as whether the hit was let through. -/
theorem history_eq (g : TrapStormGuard) (hnone : g.openWindow key = none) (stream : List Hit) :
    g.history stream key = (trace maxCount g.windowMs none (hitsOf key stream)).map
      fun e => (e.1, e.2.start, g.verdict e.2.hits) := by
  have htimes := @map_time_trace maxCount g.windowMs (hitsOf key stream) none
  have hstarts := @map_start_trace maxCount g.windowMs (hitsOf key stream) none
  rw [history, answers_eq, hnone]
  nth_rewrite 1 [← htimes]
  rw [Option.map_none] at hstarts
  rw [← hstarts, zip_map', zip_map']

/-- What the guard promises for a stream of hits. -/
structure Limits (g : TrapStormGuard) (stream : List Hit) : Prop where
  perWindow : ∀ key start, (g.history stream key).countP
    (fun e => e.2.1 = start ∧ e.2.2 = .allow) ≤ g.maxHits
  perInterval : ∀ key a b, b < a + g.windowMs → (g.history stream key).countP
    (fun e => (a ≤ e.1 ∧ e.1 ≤ b) ∧ e.2.2 = .allow) ≤ 2 * g.maxHits
  prompt : ∀ before key nowMs after, stream = before ++ (key, nowMs) :: after →
    (hitsOf key before).countP (fun t => nowMs - t < g.windowMs) < g.maxHits →
    ((run step g before).2.observe key nowMs).1 = .allow
  separate : ∀ key, g.answers stream key = g.answers (stream.filter fun hit => hit.1 = key) key

/-- The hits of a key that fall in the window opened at `start`. -/
def inWindow (windowMs : ℕ) (stream : List Hit) (key : TrapStormKey) (start : ℕ) : ℕ :=
  (starts windowMs none (hitsOf key stream)).count start

theorem perWindow_eq (hnone : g.openWindow key = none) (stream : List Hit) (start : ℕ) :
    (g.history stream key).countP (fun e => e.2.1 = start ∧ e.2.2 = .allow) =
      (trace maxCount g.windowMs none (hitsOf key stream)).countP
        (low g.maxHits start) := by
  rw [history_eq g hnone, countP_map]
  apply countP_congr
  simp [low, verdict_eq_allow]

theorem perInterval_eq (hnone : g.openWindow key = none) (stream : List Hit) (a b : ℕ) :
    (g.history stream key).countP (fun e => (a ≤ e.1 ∧ e.1 ≤ b) ∧ e.2.2 = .allow) =
      (trace maxCount g.windowMs none (hitsOf key stream)).countP
        (fun e => decide (a ≤ e.1 ∧ e.1 ≤ b) && decide (e.2.hits ≤ g.maxHits)) := by
  rw [history_eq g hnone, countP_map]
  apply countP_congr
  simp [verdict_eq_allow]

theorem prompt_of_sorted {before : List Hit} (hnone : g.openWindow key = none)
    (hsorted : (hitsOf key before).Pairwise (· ≤ ·)) {nowMs : ℕ} (hmax : 0 < g.maxHits)
    (hfew : (hitsOf key before).countP (fun t => nowMs - t < g.windowMs) < g.maxHits) :
    ((run step g before).2.observe key nowMs).1 = .allow := by
  obtain ⟨hopen, hwindow, hmaxHits, hmode⟩ := openWindow_run before key g
  have hstep := step_fst (run step g before).2 (key, nowMs)
  have hverdict : ∀ n, (run step g before).2.verdict n = g.verdict n := by
    intro n
    rw [verdict, verdict, hmaxHits, hmode]
  rw [hverdict, hopen, hnone] at hstep
  refine hstep.trans (verdict_eq_allow.2 ?_)
  cases hlast : last maxCount g.windowMs none (hitsOf key before) with
  | none =>
    rw [next_none]
    exact (min_le_left _ _).trans hmax
  | some w =>
    obtain ⟨start, hits⟩ := w
    obtain ⟨hcount, -⟩ := last_hits_le hsorted hlast
    rw [next_some]
    split_ifs with hreset
    · exact (min_le_left _ _).trans hmax
    · -- all that the window has counted lies in the width before the hit
      have hmono : (hitsOf key before).countP (fun t => decide (start ≤ t)) ≤
          (hitsOf key before).countP (fun t => decide (nowMs - t < g.windowMs)) := by
        apply countP_mono_left
        intro t _ ht
        simp only [decide_eq_true_eq] at ht ⊢
        omega
      simp only at hcount ⊢
      omega

theorem separate (g : TrapStormGuard) (stream : List Hit) (key : TrapStormKey) :
    g.answers stream key = g.answers (stream.filter fun hit => hit.1 = key) key := by
  rw [answers_eq, answers_eq, hitsOf_filter]

/-- What a new guard is set up with; it has no bucket yet. -/
theorem new_eq_ok {windowMs maxHits : ℕ} {mode : TrapStormMode}
    (hnew : TrapStormGuard.new windowMs maxHits mode = .ok g) :
    0 < windowMs ∧ 0 < maxHits ∧ g = ⟨windowMs, maxHits, mode, OrdMap.empty⟩ := by
  unfold TrapStormGuard.new at hnew
  split_ifs at hnew with hwindow hhits
  cases hnew
  exact ⟨Nat.pos_of_ne_zero hwindow, Nat.pos_of_ne_zero hhits, rfl⟩

/-- The guard keeps its promises unless its limit is the highest count of a bucket and more hits
than that fall in a window: the count stops at the limit then, and lets every hit through. -/
theorem limits_iff {windowMs maxHits : ℕ} {mode : TrapStormMode} {stream : List Hit}
    (hnew : TrapStormGuard.new windowMs maxHits mode = .ok g) (hmax : maxHits < 2 ^ 32)
    (hsorted : (stream.map Prod.snd).Pairwise (· ≤ ·)) :
    Limits g stream ↔
      maxHits < 2 ^ 32 - 1 ∨ ∀ key start, inWindow windowMs stream key start ≤ maxHits := by
  obtain ⟨hwidth, hpos, rfl⟩ := new_eq_ok hnew
  have hnone : ∀ key, openWindow ⟨windowMs, maxHits, mode, OrdMap.empty⟩ key = none :=
    fun key => rfl
  have hkey := fun key => hitsOf_sorted hsorted key
  constructor
  · intro hlimits
    rcases Nat.lt_or_ge maxHits (2 ^ 32 - 1) with hlt | hge
    · exact Or.inl hlt
    · refine Or.inr fun key start => ?_
      have hcap : maxHits = maxCount := by
        unfold maxCount
        omega
      have hcount := hlimits.perWindow key start
      rw [perWindow_eq (hnone key)] at hcount
      simp only [hcap, countP_low_cap, Option.map_none] at hcount
      rwa [hcap]
  · intro hcond
    have hlow : ∀ key s, (trace maxCount windowMs none (hitsOf key stream)).countP
        (low maxHits s) ≤ maxHits := by
      intro key s
      rcases Nat.lt_or_ge maxHits (2 ^ 32 - 1) with hlt | hge
      · exact countP_low_le hlt hwidth (hkey key) (by simp) (by simp)
      · have hcap : maxHits = maxCount := by
          unfold maxCount
          omega
        have hfew := (hcond.resolve_left (by omega)) key s
        rw [hcap] at hfew ⊢
        rwa [countP_low_cap]
    refine ⟨?_, ?_, ?_, separate _ stream⟩
    · intro key start
      rw [perWindow_eq (hnone key)]
      exact hlow key start
    · intro key a b hab
      rw [perInterval_eq (hnone key)]
      exact countP_between_le (hkey key) (hlow key) hab
    · intro before key nowMs after hstream hfew
      have hbefore : (hitsOf key before).Pairwise (· ≤ ·) := by
        rw [hstream, map_append, pairwise_append] at hsorted
        exact hitsOf_sorted hsorted.1 key
      exact prompt_of_sorted (hnone key) hbefore hpos hfew

/-- Two hits of two keys in one window, for a guard with a limit of one. -/
theorem limits_small : ∃ g, TrapStormGuard.new 1000 1 .failOpen = .ok g ∧
    Limits g
      [(⟨"vm", "s", 0, none⟩, 5), (⟨"vm", "s", 4096, none⟩, 7), (⟨"vm", "s", 0, none⟩, 9)] := by
  have hnew : TrapStormGuard.new 1000 1 .failOpen = .ok ⟨1000, 1, .failOpen, OrdMap.empty⟩ := rfl
  exact ⟨_, hnew, (limits_iff hnew (by decide) (by decide)).2 (Or.inl (by decide))⟩

theorem inWindow_replicate (windowMs n : ℕ) (key : TrapStormKey) (nowMs : ℕ) :
    inWindow windowMs (List.replicate (n + 1) (key, nowMs)) key nowMs = n + 1 := by
  have hhits : hitsOf key (List.replicate (n + 1) (key, nowMs)) =
      List.replicate (n + 1) nowMs := by
    simp [hitsOf]
  rw [inWindow, hhits, replicate_succ, starts]
  simp only [Option.getD_none, ite_self]
  rw [starts_replicate, ← replicate_succ, count_replicate_self]

/-- A guard with the highest limit there is lets one hit more through in one window. -/
theorem limit_passed_at_full_count : ∃ g, TrapStormGuard.new 1000 (2 ^ 32 - 1) .failOpen = .ok g ∧
    ¬ Limits g (List.replicate (2 ^ 32) (⟨"vm", "s", 0, none⟩, 5)) := by
  refine ⟨⟨1000, maxCount, .failOpen, OrdMap.empty⟩, rfl, ?_⟩
  intro hlimits
  have hcount := hlimits.perWindow ⟨"vm", "s", 0, none⟩ 5
  rw [perWindow_eq rfl] at hcount
  have hmany := inWindow_replicate 1000 maxCount ⟨"vm", "s", 0, none⟩ 5
  simp only [countP_low_cap, Option.map_none] at hcount
  rw [inWindow, show maxCount + 1 = 2 ^ 32 from rfl] at hmany
  rw [hmany] at hcount
  exact absurd hcount (by decide)

end TrapStormGuard
end AegisHV
