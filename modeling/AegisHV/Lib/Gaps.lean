import Mathlib

/-! Counting lost messages by the gaps in their numbers. A sender numbers the messages of a
session from 1 on, and a number is sent modulo `M`; the receiver takes the number 1 for the start
of a session and refuses a number that is not above the last one. -/

namespace Sys
open List

/-- The last number, how many messages are missing, and how many were refused. -/
structure Gaps where
  last : ℕ
  missing : ℕ
  refused : ℕ

namespace Gaps

def start : Gaps := ⟨0, 0, 0⟩

def receive (g : Gaps) (n : ℕ) : Gaps :=
  if n = 1 then { g with last := 1 }
  else if n ≤ g.last then { g with refused := g.refused + 1 }
  else ⟨n, g.missing + (n - g.last - 1), g.refused⟩

/-- The numbers received of a session: the first message is among them. -/
structure Session (ns : List ℕ) : Prop where
  first : ∀ n ∈ ns.head?, n = 1
  increasing : ns.Pairwise (· < ·)

/-- How many numbers are left out below the last one. -/
def lost (ns : List ℕ) : ℕ := ns.getLastD 0 - ns.length

/-- The receiver after the numbers `seen`, of which `j` is the last, when `total` are lost in all:
as long as it refuses nothing it counts at most `total`, and all of them exactly when no number
reaches the modulus. -/
structure After (M : ℕ) (g : Gaps) (seen : List ℕ) (total j : ℕ) : Prop where
  counts : g.refused = 0 → g.last = j % M ∧ g.missing ≤ total ∧
    (g.missing = total ↔ ∀ n ∈ seen, n < M)
  accepts : (∀ n ∈ seen, n < M) → g.refused = 0

variable {M : ℕ} {g : Gaps} {seen : List ℕ} {total i j : ℕ}

theorem forall_mem_snoc {p : ℕ → Prop} : (∀ n ∈ seen ++ [i], p n) ↔ (∀ n ∈ seen, p n) ∧ p i := by
  rw [forall_mem_append]
  simp

theorem after_start : After M start [] 0 0 :=
  ⟨fun _ => ⟨(Nat.zero_mod M).symm, Nat.le_refl 0, by simp [start]⟩, fun _ => rfl⟩

theorem After.first (hM : 1 < M) (h : After M g seen total j) :
    After M (g.receive (1 % M)) (seen ++ [1]) total 1 := by
  rw [Nat.mod_eq_of_lt hM, receive]
  refine ⟨fun hg => ?_, fun hall => h.accepts (forall_mem_snoc.mp hall).1⟩
  obtain ⟨-, hle, hiff⟩ := h.counts hg
  refine ⟨(Nat.mod_eq_of_lt hM).symm, hle, ?_⟩
  rw [forall_mem_snoc]
  exact hiff.trans ⟨fun hall => ⟨hall, hM⟩, fun hall => hall.1⟩

/-- Numbers that grow modulo `M` grow at least as much in fact, and more over a wrap. -/
theorem gap_le (hM : 0 < M) (hij : j < i) (hmod : j % M < i % M) :
    i % M - j % M ≤ i - j ∧ (i % M - j % M = i - j → j < M → i < M) := by
  have hi := Nat.div_add_mod i M
  have hj := Nat.div_add_mod j M
  have hlt := Nat.mod_lt i hM
  rcases Nat.lt_or_ge (i / M) (j / M) with hq | hq
  · have hmul : M * (i / M + 1) ≤ M * (j / M) := Nat.mul_le_mul_left M hq
    rw [Nat.mul_succ] at hmul
    omega
  · have hmul := Nat.mul_le_mul_left M hq
    refine ⟨by omega, fun heq hjM => ?_⟩
    have hzero : M * (j / M) = 0 := by rw [Nat.div_eq_of_lt hjM, Nat.mul_zero]
    omega

theorem After.next (hM : 1 < M) (h : After M g seen total j) (hj : j ∈ seen) (hpos : 0 < j)
    (hij : j < i) : After M (g.receive (i % M)) (seen ++ [i]) (total + (i - j - 1)) i := by
  -- What the receiver knows when no number so far reaches the modulus.
  have hsmall : (∀ n ∈ seen ++ [i], n < M) → g.refused = 0 ∧ g.last = j ∧ i % M = i := by
    intro hall
    obtain ⟨hseen, hi⟩ := forall_mem_snoc.mp hall
    have hg := h.accepts hseen
    exact ⟨hg, by rw [(h.counts hg).1, Nat.mod_eq_of_lt (hseen j hj)], Nat.mod_eq_of_lt hi⟩
  rw [receive]
  split_ifs with hone hle
  · refine ⟨fun hg => ?_, fun hall => (hsmall hall).1⟩
    obtain ⟨-, hmissing, hiff⟩ := h.counts hg
    refine ⟨hone.symm, by dsimp only; omega, fun heq => ?_, fun hall => ?_⟩
    · dsimp only at heq
      have hseen := hiff.mp (by omega)
      have hiM : i = M := by
        have hjM := hseen j hj
        by_contra hne
        rw [Nat.mod_eq_of_lt (by omega)] at hone
        omega
      rw [hiM, Nat.mod_self] at hone
      omega
    · have hi := (hsmall hall).2.2
      omega
  · refine ⟨fun hg => absurd hg (by simp), fun hall => ?_⟩
    obtain ⟨-, hlast, hi⟩ := hsmall hall
    omega
  · refine ⟨fun hg => ?_, fun hall => (hsmall hall).1⟩
    obtain ⟨hlast, hmissing, hiff⟩ := h.counts hg
    obtain ⟨hgap, hwrap⟩ := gap_le (Nat.zero_lt_of_lt hM) hij (by omega)
    refine ⟨rfl, by dsimp only; omega, fun heq => ?_, fun hall => ?_⟩
    · dsimp only at heq
      have hseen := hiff.mp (by omega)
      exact forall_mem_snoc.mpr ⟨hseen, hwrap (by omega) (hseen j hj)⟩
    · obtain ⟨-, hlast', hi⟩ := hsmall hall
      have htotal := hiff.mpr (forall_mem_snoc.mp hall).1
      dsimp only
      omega

theorem getLastD_snoc (ns : List ℕ) : (ns ++ [i]).getLastD 0 = i := by simp

variable {ns : List ℕ}

theorem Session.init (h : Session (ns ++ [i])) : Session ns := by
  obtain ⟨hfirst, hincreasing⟩ := h
  rw [pairwise_append] at hincreasing
  refine ⟨fun n hn => hfirst n ?_, hincreasing.1⟩
  rw [head?_append, Option.mem_def.mp hn]
  rfl

/-- Each number is above the last one before it. -/
theorem Session.getLastD_lt (h : Session (ns ++ [i])) : ns.getLastD 0 < i := by
  rcases eq_nil_or_concat' ns with rfl | ⟨ns', j, rfl⟩
  · have hi := h.first i rfl
    simp [hi]
  · rw [getLastD_snoc]
    exact (pairwise_append.mp h.increasing).2.2 j (by simp) i (by simp)

theorem Session.length_le (h : Session ns) : ns.length ≤ ns.getLastD 0 := by
  induction ns using List.reverseRecOn with
  | nil => exact Nat.le_refl 0
  | append_singleton ns i ih =>
    have hle := ih h.init
    have hlt := h.getLastD_lt
    rw [getLastD_snoc, length_append, length_singleton]
    omega

theorem Session.lost_snoc (h : Session (ns ++ [i])) :
    lost (ns ++ [i]) = lost ns + (i - ns.getLastD 0 - 1) := by
  have hle := h.init.length_le
  have hlt := h.getLastD_lt
  rw [lost, lost, getLastD_snoc, length_append, length_singleton]
  omega

theorem After.session (hM : 1 < M) (h : After M g seen total j) (hs : Session ns)
    (hne : ns ≠ []) : After M ((ns.map (· % M)).foldl receive g) (seen ++ ns) (total + lost ns)
      (ns.getLastD 0) := by
  induction ns using List.reverseRecOn with
  | nil => exact absurd rfl hne
  | append_singleton ns i ih =>
    rw [map_append, foldl_append, ← append_assoc, getLastD_snoc, hs.lost_snoc]
    rcases eq_nil_or_concat' ns with rfl | ⟨ns', j', rfl⟩
    · obtain rfl : i = 1 := hs.first i rfl
      have hfirst := h.first hM
      simpa [lost] using hfirst
    · have hlt := hs.getLastD_lt
      have hle := hs.init.length_le
      have hmem : (ns' ++ [j']).getLastD 0 ∈ seen ++ (ns' ++ [j']) := by simp
      rw [← Nat.add_assoc]
      refine (ih hs.init (by simp)).next hM hmem ?_ hlt
      rw [length_append, length_singleton] at hle
      omega

theorem after_sessions (hM : 1 < M) {sessions : List (List ℕ)}
    (h : ∀ ns ∈ sessions, Session ns) :
    ∃ j, After M ((sessions.flatten.map (· % M)).foldl receive start) sessions.flatten
      (sessions.map lost).sum j := by
  induction sessions using List.reverseRecOn with
  | nil => exact ⟨0, after_start⟩
  | append_singleton sessions ns ih =>
    obtain ⟨j, hafter⟩ := ih fun ns hns => h ns (by simp [hns])
    rw [flatten_append, flatten_singleton, map_append, foldl_append,
      map_append, sum_append, map_singleton]
    rcases eq_or_ne ns [] with rfl | hne
    · exact ⟨j, by simpa [lost] using hafter⟩
    · exact ⟨_, hafter.session hM (h ns (by simp)) hne⟩

/-- Nothing is refused and every lost message is counted exactly when no number reaches the
modulus. -/
theorem exact_iff (hM : 1 < M) {sessions : List (List ℕ)} (h : ∀ ns ∈ sessions, Session ns) :
    (((sessions.flatten.map (· % M)).foldl receive start).refused = 0 ∧
      ((sessions.flatten.map (· % M)).foldl receive start).missing = (sessions.map lost).sum) ↔
    ∀ n ∈ sessions.flatten, n < M := by
  obtain ⟨j, hafter⟩ := after_sessions hM h
  refine ⟨fun hexact => (hafter.counts hexact.1).2.2.mp hexact.2, fun hall => ?_⟩
  have hrefused := hafter.accepts hall
  exact ⟨hrefused, (hafter.counts hrefused).2.2.mpr hall⟩

/-! The numbers of a session of `n` messages that are received. -/

section

variable (n : ℕ) (kept : ℕ → Bool)

def received : List ℕ := (List.range' 1 n).filter kept

/-- How many messages are lost before one that is received. -/
def lostBefore : ℕ :=
  (List.range' 1 n).countP fun i => !kept i && (List.range' 1 n).any fun j => decide (i < j) && kept j

theorem session_received (hfirst : kept 1 = true) : Session (received n kept) := by
  refine ⟨fun m hm => ?_, (pairwise_lt_range' 1).filter _⟩
  rcases n with _ | n
  · simp [received] at hm
  · rw [received, range'_succ, filter_cons_of_pos hfirst] at hm
    exact (Option.some.inj hm).symm

theorem lost_received : lost (received n kept) = lostBefore n kept := by
  induction n with
  | zero => rfl
  | succ n ih =>
    have hrange : List.range' 1 (n + 1) = List.range' 1 n ++ [1 + n] := range'_1_concat
    rcases hkept : kept (1 + n) with _ | _
    · have hsame : received (n + 1) kept = received n kept := by
        simp [received, hrange, filter_append, hkept]
      have hcount : lostBefore (n + 1) kept = lostBefore n kept := by
        rw [lostBefore, hrange, countP_append, countP_singleton]
        simp only [any_append, any_cons, any_nil, hkept, Bool.and_false, Bool.or_false]
        rw [if_neg, Nat.add_zero, lostBefore]
        simp only [Bool.not_false, Bool.true_and, any_eq_true, mem_range'_1,
          Bool.and_eq_true, decide_eq_true_eq, not_exists, not_and]
        omega
      rw [hsame, hcount, ih]
    · have hsame : received (n + 1) kept = received n kept ++ [1 + n] := by
        simp [received, hrange, filter_append, hkept]
      have hcount : lostBefore (n + 1) kept = (List.range' 1 n).countP fun i => !kept i := by
        rw [lostBefore, hrange, countP_append, countP_singleton]
        simp only [hkept, Bool.not_true, Bool.false_and, Bool.false_eq_true, if_false, Nat.add_zero]
        refine countP_congr fun i hi => ?_
        have hlt : i < 1 + n := (mem_range'_1.mp hi).2
        simp [hlt, hkept]
      have hall := (List.range' 1 n).length_eq_countP_add_countP kept
      rw [length_range'] at hall
      have hkeeps : (received n kept).length = (List.range' 1 n).countP kept :=
        (countP_eq_length_filter).symm
      rw [hsame, lost, getLastD_snoc, length_append, length_singleton, hkeeps]
      simp only [Bool.not_eq_true] at hall
      have hnot : (List.range' 1 n).countP (fun i => !kept i) =
          (List.range' 1 n).countP fun i => decide (kept i = false) :=
        countP_congr fun i _ => by simp
      omega

end

end Gaps

end Sys
