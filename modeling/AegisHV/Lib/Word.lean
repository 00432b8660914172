import Mathlib.Data.Nat.Bitwise
import Mathlib.Tactic

/-! Unsigned 64-bit arithmetic on natural numbers. A machine word is a natural
number below `2 ^ 64`; the checked operations answer `none` past that bound and
the wrapping ones reduce modulo it. -/

namespace Sys

def checkedAdd (a b : ℕ) : Option ℕ := if a + b < 2 ^ 64 then some (a + b) else none

def checkedSub (a b : ℕ) : Option ℕ := if b ≤ a then some (a - b) else none

def checkedMul (a b : ℕ) : Option ℕ := if a * b < 2 ^ 64 then some (a * b) else none

def wrappingAdd (a b : ℕ) : ℕ := (a + b) % 2 ^ 64

def saturatingAdd (a b : ℕ) : ℕ := min (a + b) (2 ^ 64 - 1)

def saturatingMul (a b : ℕ) : ℕ := min (a * b) (2 ^ 64 - 1)

/-- The complement of a word of `w` bits. -/
def complementOf (w a : ℕ) : ℕ := 2 ^ w - 1 - a

def complement (a : ℕ) : ℕ := complementOf 64 a

/-- The bits of a 64-bit address above bit 47 repeat it. -/
def isSignExtended48 (address : ℕ) : Bool :=
  let high := address >>> 48
  let sign := (address >>> 47) &&& 1
  (sign == 0 && high == 0) || (sign == 1 && high == 0xffff)

theorem checkedAdd_eq_some {a b c : ℕ} : checkedAdd a b = some c ↔ a + b < 2 ^ 64 ∧ c = a + b := by
  unfold checkedAdd
  split_ifs with h
  · rw [Option.some_inj, eq_comm]
    exact ⟨fun hc => ⟨h, hc⟩, fun hc => hc.2⟩
  · exact ⟨fun hc => by simp at hc, fun hc => absurd hc.1 h⟩

theorem checkedAdd_eq_none {a b : ℕ} : checkedAdd a b = none ↔ 2 ^ 64 ≤ a + b := by
  unfold checkedAdd
  split_ifs with h
  · exact ⟨fun hc => by simp at hc, fun hc => absurd h (by omega)⟩
  · exact ⟨fun _ => by omega, fun _ => rfl⟩

theorem checkedSub_eq_some {a b c : ℕ} : checkedSub a b = some c ↔ b ≤ a ∧ c = a - b := by
  unfold checkedSub
  split_ifs with h
  · simp [h, eq_comm]
  · simp [h]

theorem testBit_complementOf {w a : ℕ} (i : ℕ) (ha : a < 2 ^ w) :
    (complementOf w a).testBit i = (decide (i < w) && !a.testBit i) := by
  rw [complementOf, show 2 ^ w - 1 - a = 2 ^ w - (a + 1) by omega, Nat.testBit_two_pow_sub_succ ha]

/-- Clearing the low `k` bits of a word rounds it down to a multiple of `2 ^ k`. -/
theorem and_complementOf_mask {w : ℕ} (v k : ℕ) (hv : v < 2 ^ w) (hk : k ≤ w) :
    v &&& complementOf w (2 ^ k - 1) = v / 2 ^ k * 2 ^ k := by
  have hm : 2 ^ k - 1 < 2 ^ w := by
    have := Nat.pow_le_pow_right (n := 2) (by norm_num) hk
    omega
  apply Nat.eq_of_testBit_eq
  intro i
  rw [Nat.testBit_and, testBit_complementOf _ hm, Nat.testBit_mul_two_pow, Nat.testBit_div_two_pow]
  by_cases hi : i < k
  · simp [hi]
  · have hki : k ≤ i := by omega
    have hsum : i - k + k = i := by omega
    by_cases hw : i < w
    · simp [hi, hw, hki, hsum]
    · have hbit : v.testBit i = false :=
        Nat.testBit_lt_two_pow (lt_of_lt_of_le hv (Nat.pow_le_pow_right (by norm_num) (by omega)))
      simp [hbit, hki, hsum]

/-- A field of a word, in place. -/
theorem and_field_mask {m n : ℕ} (v : ℕ) (h : n ≤ m) :
    v &&& (2 ^ m - 2 ^ n) = v % 2 ^ m / 2 ^ n * 2 ^ n := by
  have hmask : 2 ^ m - 2 ^ n = complementOf m (2 ^ n - 1) := by
    have := Nat.two_pow_pos n
    rw [complementOf]
    omega
  have hmod : v &&& (2 ^ m - 2 ^ n) = v % 2 ^ m &&& (2 ^ m - 2 ^ n) := by
    apply Nat.eq_of_testBit_eq
    intro i
    by_cases hi : i < m
    · simp [hi]
    · have hlt : 2 ^ m - 2 ^ n < 2 ^ i := by
        have := Nat.pow_le_pow_right (n := 2) (by norm_num) (Nat.le_of_not_lt hi)
        have := Nat.two_pow_pos n
        have := Nat.two_pow_pos m
        omega
      simp [Nat.testBit_lt_two_pow hlt]
  rw [hmod, hmask, and_complementOf_mask _ n (Nat.mod_lt _ (Nat.two_pow_pos m)) h]

/-- An offset joined to an aligned address. -/
theorem or_offset (q v n : ℕ) : q * 2 ^ n ||| v &&& (2 ^ n - 1) = q * 2 ^ n + v % 2 ^ n := by
  rw [Nat.and_two_pow_sub_one_eq_mod, Nat.mul_comm q,
    Nat.two_pow_add_eq_or_of_lt (Nat.mod_lt _ (Nat.two_pow_pos n))]

theorem and_two_pow_ne_zero (v k : ℕ) : v &&& 2 ^ k ≠ 0 ↔ v.testBit k = true := by
  rw [Nat.and_two_pow]
  cases v.testBit k <;> simp

theorem and_two_pow_eq_zero (v k : ℕ) : v &&& 2 ^ k = 0 ↔ v.testBit k = false := by
  rw [← Bool.not_eq_true, ← and_two_pow_ne_zero, not_not]

theorem and_complement_mask (v k : ℕ) (hv : v < 2 ^ 64) (hk : k ≤ 64) :
    v &&& complement (2 ^ k - 1) = v / 2 ^ k * 2 ^ k :=
  and_complementOf_mask v k hv hk

/-- The mask of a field, built from ones above and below. -/
theorem and_ones_and_complement (v : ℕ) {m n : ℕ} (hm : m ≤ 64) (hn : n ≤ 64) :
    v &&& ((2 ^ m - 1) &&& complement (2 ^ n - 1)) = v % 2 ^ m / 2 ^ n * 2 ^ n := by
  have hlt : v % 2 ^ m < 2 ^ 64 :=
    lt_of_lt_of_le (Nat.mod_lt _ (Nat.two_pow_pos m)) (Nat.pow_le_pow_right (by norm_num) hm)
  rw [← Nat.and_assoc, Nat.and_two_pow_sub_one_eq_mod, and_complement_mask _ n hlt hn]

end Sys
