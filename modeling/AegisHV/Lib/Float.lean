import AegisHV.Lib.Json

/-! Binary floating-point numbers as text: the fixed-point format of the standard library writes
the exact value, rounded to a number of decimal places with ties to even. -/

namespace Sys

/-- A double: a finite one is its mantissa times a power of two. -/
inductive F64
  | finite (neg : Bool) (mantissa : ℕ) (exponent : ℤ) (mantissa_lt : mantissa < 2 ^ 53)
      (exponent_range : -1074 ≤ exponent ∧ exponent ≤ 971)
  | infinite (neg : Bool)
  | nan

/-- The quotient, rounded to the nearest number and to the even one of two that are as near. -/
def divRoundEven (a b : ℕ) : ℕ :=
  if 2 * (a % b) < b then a / b
  else if b < 2 * (a % b) then a / b + 1
  else if a / b % 2 = 0 then a / b
  else a / b + 1

theorem divRoundEven_near (a : ℕ) {b : ℕ} (hb : 0 < b) :
    2 * (b * divRoundEven a b) ≤ 2 * a + b ∧ 2 * a ≤ 2 * (b * divRoundEven a b) + b := by
  have hdiv := Nat.div_add_mod a b
  have hlt := Nat.mod_lt a hb
  have hsucc : b * (a / b + 1) = b * (a / b) + b := by ring
  unfold divRoundEven
  split_ifs
  · omega
  · omega
  · omega
  · omega

namespace F64

def isFinite : F64 → Bool
  | finite _ _ _ _ _ => true
  | _ => false

/-- The exact value of a finite number. -/
def toRat : F64 → ℚ
  | finite neg mantissa exponent _ _ => Json.signed neg (mantissa * 2 ^ exponent)
  | _ => 0

/-- The magnitude in units of the last decimal place. -/
def scaled (places mantissa : ℕ) (exponent : ℤ) : ℕ :=
  divRoundEven (mantissa * 10 ^ places * 2 ^ exponent.toNat) (2 ^ (-exponent).toNat)

/-- The value that is written. -/
def rounded (places : ℕ) : F64 → ℚ
  | finite neg mantissa exponent _ _ =>
    Json.signed neg (scaled places mantissa exponent / 10 ^ places)
  | _ => 0

/-- The format `{:.places}`. -/
def fixed (places : ℕ) : F64 → List Char
  | finite neg mantissa exponent _ _ =>
    let n := scaled places mantissa exponent
    (if neg then ['-'] else []) ++ Nat.toDigits 10 (n / 10 ^ places) ++
      '.' :: padded 10 places (n % 10 ^ places)
  | infinite neg => if neg then "-inf".toList else "inf".toList
  | nan => "NaN".toList

theorem zpow_eq (e : ℤ) : (2 : ℚ) ^ e = 2 ^ e.toNat / 2 ^ (-e).toNat := by
  obtain ⟨n, rfl | rfl⟩ := Int.eq_nat_or_neg e
  · simp
  · simp

/-- What is written is half a unit of the last place away from the value, at most. -/
theorem rounded_near (places : ℕ) {x : F64} (hx : x.isFinite = true) :
    |x.rounded places - x.toRat| ≤ 1 / (2 * 10 ^ places) := by
  cases x with
  | infinite neg => cases hx
  | nan => cases hx
  | finite neg m e hm he =>
    have hb : 0 < 2 ^ (-e).toNat := by positivity
    obtain ⟨h1, h2⟩ := divRoundEven_near (m * 10 ^ places * 2 ^ e.toNat) hb
    have hten : (0 : ℚ) < 10 ^ places := by positivity
    have hden : (0 : ℚ) < 2 ^ (-e).toNat := by positivity
    have hdiff : |(scaled places m e : ℚ) / 10 ^ places - m * 2 ^ e| ≤ 1 / (2 * 10 ^ places) := by
      have h1' : (2 : ℚ) * (2 ^ (-e).toNat * scaled places m e) ≤
          2 * (m * 10 ^ places * 2 ^ e.toNat) + 2 ^ (-e).toNat := by exact_mod_cast h1
      have h2' : (2 : ℚ) * (m * 10 ^ places * 2 ^ e.toNat) ≤
          2 * (2 ^ (-e).toNat * scaled places m e) + 2 ^ (-e).toNat := by exact_mod_cast h2
      have hcommon : (scaled places m e : ℚ) / 10 ^ places - m * 2 ^ e =
          (2 ^ (-e).toNat * scaled places m e - m * 10 ^ places * 2 ^ e.toNat) /
            (10 ^ places * 2 ^ (-e).toNat) := by
        rw [zpow_eq]
        field_simp
      have hhalf : (1 : ℚ) / (2 * 10 ^ places) =
          (2 ^ (-e).toNat / 2) / (10 ^ places * 2 ^ (-e).toNat) := by
        field_simp
      rw [hcommon, hhalf, abs_div, abs_of_pos (mul_pos hten hden)]
      gcongr
      rw [abs_le]
      constructor
      · linarith
      · linarith
    cases neg with
    | false => exact hdiff
    | true =>
      have hneg : rounded places (finite true m e hm he) - toRat (finite true m e hm he) =
          -((scaled places m e : ℚ) / 10 ^ places - m * 2 ^ e) := by
        simp only [rounded, toRat, Json.signed, if_true]
        ring
      rw [hneg, abs_neg]
      exact hdiff

/-- A finite number is written as a JSON number with the rounded value. -/
theorem spells_fixed {places : ℕ} (hplaces : 0 < places) {x : F64} (hx : x.isFinite = true) :
    Json.Spells (x.fixed places) (.num (x.rounded places)) := by
  cases x with
  | infinite neg => cases hx
  | nan => cases hx
  | finite neg m e hm he =>
    set n := scaled places m e with hn
    have hpow : 0 < 10 ^ places := by positivity
    have hlt : n % 10 ^ places < 10 ^ places := Nat.mod_lt n hpow
    have hlen : (padded 10 places (n % 10 ^ places)).length = places :=
      length_padded (by norm_num) hplaces hlt
    have hvalue : Json.decimalValue neg (n / 10 ^ places) (padded 10 places (n % 10 ^ places)) =
        rounded places (finite neg m e hm he) := by
      rw [Json.decimalValue, Json.natOf,
        digitsValue_append_padded (by norm_num) (by norm_num) hplaces hlt, hlen,
        Nat.div_add_mod']
      rfl
    have htext : fixed places (finite neg m e hm he) =
        Json.decimal neg (n / 10 ^ places) (padded 10 places (n % 10 ^ places)) := by
      rw [Json.decimal, if_neg (padded_ne_nil _ _)]
      rfl
    rw [htext, ← hvalue]
    exact Json.spells_decimal neg _ fun c hc => isDigit_of_mem_padded hc

end F64

end Sys
