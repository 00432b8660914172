import AegisHV.Lib.Bytes

/-! Strings of bits and of bytes as numbers, the most significant digit first. -/

namespace Sys
open List

def fromBits (bits : List Bool) : ℕ := bits.foldl (fun v b => 2 * v + b.toNat) 0

/-- The low `n` bits of a number. -/
def toBits (n v : ℕ) : List Bool := (List.range n).reverse.map v.testBit

def bitsOf (bytes : List UInt8) : List Bool := bytes.flatMap fun b => toBits 8 b.toNat

/-- `from_be_bytes` -/
def fromBe (bytes : List UInt8) : ℕ := bytes.foldl (fun v b => 256 * v + b.toNat) 0

/-- `to_be_bytes`, for a number of `n` bytes. -/
def toBe (n v : ℕ) : List UInt8 := (List.range n).reverse.map fun i => UInt8.ofNat (v >>> (8 * i))

section

/-! Chunks of a string. -/

variable {α : Type*} {size : ℕ} {a b : List α}

theorem chunksExact_of_lt (h : b.length < size) : chunksExact size b = [] := by
  rw [chunksExact, Nat.div_eq_of_lt h]
  rfl

theorem chunksExact_cons (hsize : 0 < size) (h : a.length = size) :
    chunksExact size (a ++ b) = a :: chunksExact size b := by
  have hcount : (a ++ b).length / size = b.length / size + 1 := by
    rw [length_append, h, Nat.add_comm, Nat.add_div_right _ hsize]
  rw [chunksExact, hcount, range_succ_eq_map, map_cons, map_map]
  congr 1
  · rw [Nat.zero_mul, drop_zero, take_left' h]
  · refine map_congr_left fun i _ => ?_
    have hdrop : (i + 1) * size = a.length + i * size := by
      rw [h]
      ring
    simp only [Function.comp_apply, Nat.succ_eq_add_one, hdrop, drop_append]
    rw [drop_eq_nil_of_le (Nat.le_add_right _ _), nil_append, Nat.add_sub_cancel_left]

theorem chunksExact_append (hsize : 0 < size) {n : ℕ} (h : a.length = n * size) :
    chunksExact size (a ++ b) = chunksExact size a ++ chunksExact size b := by
  induction n generalizing a with
  | zero =>
    obtain rfl : a = [] := length_eq_zero_iff.1 (by simpa using h)
    rw [chunksExact_of_lt (b := []) hsize]
    rfl
  | succ n ih =>
    have hle : size ≤ a.length := by
      rw [h]
      exact Nat.le_mul_of_pos_left size (Nat.succ_pos n)
    have htake : (a.take size).length = size := length_take_of_le hle
    have hdrop : (a.drop size).length = n * size := by
      rw [length_drop, h]
      simp [Nat.add_mul]
    rw [← take_append_drop size a, append_assoc, chunksExact_cons hsize htake,
      chunksExact_cons hsize htake, ih hdrop, cons_append]

end

theorem toBits_succ (n v : ℕ) : toBits (n + 1) v = v.testBit n :: toBits n v := by
  simp [toBits, range_succ]

@[simp] theorem length_toBits (n v : ℕ) : (toBits n v).length = n := by simp [toBits]

theorem toBits_add (m n v : ℕ) : toBits (m + n) v = toBits m (v >>> n) ++ toBits n v := by
  induction m with
  | zero => simp [toBits]
  | succ m ih =>
    rw [Nat.add_right_comm, toBits_succ, toBits_succ, ih, Nat.testBit_shiftRight, cons_append,
      Nat.add_comm m n]

theorem toBits_mod (n v : ℕ) : toBits n (v % 2 ^ n) = toBits n v := by
  refine map_congr_left fun i hi => ?_
  have hlt : i < n := by simpa using hi
  simp [Nat.testBit_mod_two_pow, hlt]

theorem foldl_toBits (n v acc : ℕ) :
    (toBits n v).foldl (fun v b => 2 * v + b.toNat) acc = 2 ^ n * acc + v % 2 ^ n := by
  induction n generalizing acc with
  | zero => simp [toBits, Nat.mod_one]
  | succ n ih =>
    rw [toBits_succ, foldl_cons, ih, Nat.toNat_testBit, Nat.mod_pow_succ]
    ring

theorem fromBits_toBits (n v : ℕ) : fromBits (toBits n v) = v % 2 ^ n := by
  rw [fromBits, foldl_toBits, Nat.mul_zero, Nat.zero_add]

theorem bitsOf_append (a b : List UInt8) : bitsOf (a ++ b) = bitsOf a ++ bitsOf b :=
  flatMap_append

@[simp] theorem length_bitsOf (bytes : List UInt8) : (bitsOf bytes).length = 8 * bytes.length := by
  induction bytes with
  | nil => rfl
  | cons b bytes ih =>
    rw [bitsOf, flatMap_cons, length_append, length_toBits, length_cons]
    rw [bitsOf] at ih
    omega

theorem fromBits_bitsOf (bytes : List UInt8) : fromBits (bitsOf bytes) = fromBe bytes := by
  have main : ∀ acc, (bitsOf bytes).foldl (fun v b => 2 * v + b.toNat) acc =
      bytes.foldl (fun v b => 256 * v + b.toNat) acc := by
    induction bytes with
    | nil => exact fun _ => rfl
    | cons b bytes ih =>
      intro acc
      rw [bitsOf, flatMap_cons, foldl_append, foldl_toBits, Nat.mod_eq_of_lt b.toNat_lt]
      exact ih _
  exact main 0

theorem toBe_succ (n v : ℕ) : toBe (n + 1) v = UInt8.ofNat (v >>> (8 * n)) :: toBe n v := by
  simp [toBe, range_succ]

@[simp] theorem length_toBe (n v : ℕ) : (toBe n v).length = n := by simp [toBe]

theorem bitsOf_toBe (n v : ℕ) : bitsOf (toBe n v) = toBits (8 * n) v := by
  induction n with
  | zero => rfl
  | succ n ih =>
    have hbyte : toBits 8 (UInt8.ofNat (v >>> (8 * n))).toNat = toBits 8 (v >>> (8 * n)) :=
      toBits_mod 8 _
    rw [toBe_succ, Nat.mul_succ, Nat.add_comm, toBits_add, ← ih, bitsOf, flatMap_cons, hbyte]
    rfl

theorem bitsOf_drop (bytes : List UInt8) (k : ℕ) :
    (bitsOf bytes).drop (8 * k) = bitsOf (bytes.drop k) := by
  rcases Nat.le_total k bytes.length with hk | hk
  · conv_lhs => rw [← take_append_drop k bytes, bitsOf_append]
    exact drop_left' (by rw [length_bitsOf, length_take_of_le hk])
  · rw [drop_of_length_le hk, drop_of_length_le (by rw [length_bitsOf]; omega)]
    rfl

theorem bitsOf_take (bytes : List UInt8) (k : ℕ) :
    (bitsOf bytes).take (8 * k) = bitsOf (bytes.take k) := by
  rcases Nat.le_total k bytes.length with hk | hk
  · conv_lhs => rw [← take_append_drop k bytes, bitsOf_append]
    exact take_left' (by rw [length_bitsOf, length_take_of_le hk])
  · rw [take_of_length_le hk, take_of_length_le (by rw [length_bitsOf]; omega)]

theorem chunksExact_bitsOf (size : ℕ) (bytes : List UInt8) :
    chunksExact (8 * size) (bitsOf bytes) = (chunksExact size bytes).map bitsOf := by
  rw [chunksExact, chunksExact, length_bitsOf, Nat.mul_div_mul_left _ _ (by norm_num), map_map]
  refine map_congr_left fun i _ => ?_
  rw [Nat.mul_left_comm, bitsOf_drop, bitsOf_take]
  rfl

end Sys
