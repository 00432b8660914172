import Mathlib.Tactic

/-! Byte buffers: bounds-checked slices, the copy of one slice over another, little-endian
numbers and the division of a buffer into chunks. -/

namespace Sys
open List

universe u

variable {α : Type u}

/-- `bytes[start..stop]`, which does not exist out of bounds. -/
def slice (bytes : List α) (start stop : ℕ) : Option (List α) :=
  if start ≤ stop ∧ stop ≤ bytes.length then some ((bytes.drop start).take (stop - start)) else none

/-- The buffer with `new` copied over what stands at `start`. -/
def splice (bytes : List α) (start : ℕ) (new : List α) : List α :=
  bytes.take start ++ new ++ bytes.drop (start + new.length)

def fromLe : List UInt8 → ℕ
  | [] => 0
  | b :: rest => b.toNat + 256 * fromLe rest

def toLe : ℕ → ℕ → List UInt8
  | 0, _ => []
  | width + 1, n => UInt8.ofNat n :: toLe width (n / 256)

/-- `chunks_exact(size)` -/
def chunksExact (size : ℕ) (bytes : List α) : List (List α) :=
  (List.range (bytes.length / size)).map fun i => (bytes.drop (i * size)).take size

variable {bytes new : List α} {start stop : ℕ}

theorem slice_of_le (h : start ≤ stop) (h' : stop ≤ bytes.length) :
    slice bytes start stop = some ((bytes.drop start).take (stop - start)) :=
  if_pos ⟨h, h'⟩

theorem splice_length (h : start + new.length ≤ bytes.length) :
    (splice bytes start new).length = bytes.length := by
  simp only [splice, length_append, length_take, length_drop]
  omega

theorem getElem?_splice (h : start + new.length ≤ bytes.length) (i : ℕ) :
    (splice bytes start new)[i]? =
      if start ≤ i ∧ i < start + new.length then new[i - start]? else bytes[i]? := by
  have hstart : (bytes.take start).length = start := by
    rw [length_take]
    omega
  rw [splice, append_assoc]
  rcases Nat.lt_or_ge i start with hi | hi
  · rw [getElem?_append_left (by omega), getElem?_take_of_lt hi, if_neg (by omega)]
  · rw [getElem?_append_right (by omega), hstart]
    rcases Nat.lt_or_ge i (start + new.length) with hi' | hi'
    · rw [getElem?_append_left (by omega), if_pos ⟨hi, hi'⟩]
    · rw [getElem?_append_right (by omega), getElem?_drop, if_neg (by omega)]
      congr 1
      omega

theorem fromLe_lt (bytes : List UInt8) : fromLe bytes < 2 ^ (8 * bytes.length) := by
  induction bytes with
  | nil => decide
  | cons b rest ih =>
    have hb := b.toNat_lt
    rw [fromLe, length_cons, Nat.mul_succ, pow_add]
    omega

@[simp] theorem toLe_length (width n : ℕ) : (toLe width n).length = width := by
  induction width generalizing n with
  | zero => rfl
  | succ width ih => rw [toLe, length_cons, ih]

theorem fromLe_toLe {width n : ℕ} (h : n < 2 ^ (8 * width)) : fromLe (toLe width n) = n := by
  induction width generalizing n with
  | zero => simp at h; simp [toLe, fromLe, h]
  | succ width ih =>
    rw [Nat.mul_succ, pow_add] at h
    have hrest := ih (Nat.div_lt_of_lt_mul (by omega : n < 256 * 2 ^ (8 * width)))
    rw [toLe, fromLe, hrest]
    exact Nat.mod_add_div n 256

theorem toLe_fromLe (bytes : List UInt8) : toLe bytes.length (fromLe bytes) = bytes := by
  induction bytes with
  | nil => rfl
  | cons b rest ih =>
    have hb := b.toNat_lt
    rw [length_cons, toLe, fromLe]
    congr 1
    · rw [← UInt8.toNat_inj, UInt8.toNat_ofNat']
      omega
    · rw [show (b.toNat + 256 * fromLe rest) / 256 = fromLe rest by omega, ih]

/-- A slice within the middle part of a buffer. -/
theorem slice_middle (left mid right : List α) {k width : ℕ} (h : k + width ≤ mid.length) :
    slice (left ++ mid ++ right) (left.length + k) (left.length + k + width) =
      some ((mid.drop k).take width) := by
  rw [slice_of_le (by omega) (by rw [length_append, length_append]; omega),
    Nat.add_sub_cancel_left, append_assoc, drop_append, drop_eq_nil_of_le (by omega),
    nil_append, Nat.add_sub_cancel_left, drop_append_of_le_length (by omega),
    take_append_of_le_length (by rw [length_drop]; omega)]

theorem length_of_mem_chunksExact {size : ℕ} {chunk : List α} (h : chunk ∈ chunksExact size bytes) :
    chunk.length = size := by
  obtain ⟨i, hi, rfl⟩ := mem_map.1 h
  have hi := mem_range.1 hi
  have hle : (i + 1) * size ≤ bytes.length :=
    le_trans (Nat.mul_le_mul_right size hi) (Nat.div_mul_le_self _ _)
  rw [Nat.add_mul] at hle
  rw [length_take, length_drop]
  omega

end Sys
