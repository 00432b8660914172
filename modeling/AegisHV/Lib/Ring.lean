import Mathlib.Data.List.Rotate
import Mathlib.Tactic

/-! A ring buffer: `cap` slots, of which the `len` slots from `head` on are in use, around
the end of the array. Seen from the head, the array is the contents of the queue
followed by the spare slots. -/

namespace Sys
open List

universe u

structure Ring (α : Type u) (cap : ℕ) where
  slots : List α
  head : ℕ
  len : ℕ
  size : slots.length = cap
  head_lt : 0 < cap → head < cap
  len_le : len ≤ cap

namespace Ring

variable {α : Type u} {cap : ℕ}

def replicate (cap : ℕ) (x : α) : Ring α cap :=
  ⟨List.replicate cap x, 0, 0, length_replicate, id, Nat.zero_le _⟩

/-- `slots[(head + len) % cap] = x; len += 1`; callers test the length first. -/
def pushBack (r : Ring α cap) (x : α) : Ring α cap :=
  if h : r.len < cap then
    { r with
      slots := r.slots.set ((r.head + r.len) % cap) x
      len := r.len + 1
      size := (length_set).trans r.size
      len_le := h }
  else r

/-- `slots[head]` -/
def front (r : Ring α cap) : Option α := r.slots[r.head]?

/-- `slots[head] = x` -/
def setFront (r : Ring α cap) (x : α) : Ring α cap :=
  { r with slots := r.slots.set r.head x, size := (length_set).trans r.size }

/-- `head = (head + 1) % cap` -/
def turn (r : Ring α cap) : Ring α cap :=
  { r with head := (r.head + 1) % cap, head_lt := fun h => Nat.mod_lt _ h }

/-- `head = (head + 1) % cap; len -= 1` -/
def advance (r : Ring α cap) : Ring α cap :=
  { r.turn with len := r.len - 1, len_le := (Nat.sub_le _ _).trans r.len_le }

/-- The slot at the head, which is then given up; nothing if the ring is empty. -/
def pop (r : Ring α cap) : Option α × Ring α cap :=
  if r.len = 0 then (none, r) else (r.front, r.advance)

/-- The slots from the head on. -/
def inOrder (r : Ring α cap) : List α := r.slots.rotate r.head

/-- The contents of the queue. -/
def toList (r : Ring α cap) : List α := r.inOrder.take r.len

def spare (r : Ring α cap) : List α := r.inOrder.drop r.len

variable {r : Ring α cap} {x y : α} {rest : List α}

@[simp] theorem inOrder_length (r : Ring α cap) : r.inOrder.length = cap := by
  rw [inOrder, length_rotate, r.size]

theorem toList_append_spare (r : Ring α cap) : r.toList ++ r.spare = r.inOrder :=
  take_append_drop _ _

@[simp] theorem toList_length (r : Ring α cap) : r.toList.length = r.len := by
  simp [toList, r.len_le]

theorem mem_slots {z : α} : z ∈ r.slots ↔ z ∈ r.toList ∨ z ∈ r.spare := by
  rw [← mem_append, toList_append_spare, inOrder, mem_rotate]

@[simp] theorem toList_replicate : (replicate cap x).toList = [] := by
  simp [toList, replicate]

theorem mem_spare_replicate {z : α} (h : z ∈ (replicate cap x).spare) : z = x := by
  have hmem : z ∈ (replicate cap x).slots := mem_slots.2 (Or.inr h)
  exact eq_of_mem_replicate hmem

/-- Writing the slot `i` places after the head. -/
theorem rotate_set {l : List α} (head : ℕ) {i : ℕ} (hi : i < l.length) (x : α) :
    (l.set ((head + i) % l.length) x).rotate head = (l.rotate head).set i x := by
  have hpos : 0 < l.length := by omega
  apply ext_getElem?
  intro j
  by_cases hj : j < l.length
  · rw [getElem?_rotate (by simpa using hj), length_set, getElem?_set,
      getElem?_set, getElem?_rotate hj, length_rotate]
    have hmod : (head + i) % l.length = (j + head) % l.length ↔ i = j := by
      rw [Nat.add_comm j head]
      refine ⟨fun h => ?_, fun h => by rw [h]⟩
      have hcongr : i ≡ j [MOD l.length] := Nat.ModEq.add_left_cancel' head h
      exact Nat.ModEq.eq_of_lt_of_lt hcongr hi hj
    simp only [hmod, Nat.mod_lt _ hpos, hi, if_true]
  · rw [getElem?_eq_none (by simpa using Nat.not_lt.1 hj),
      getElem?_eq_none (by simpa using Nat.not_lt.1 hj)]

theorem inOrder_pushBack (h : r.len < cap) : (r.pushBack x).inOrder = r.inOrder.set r.len x := by
  have hlen : r.len < r.slots.length := by rwa [r.size]
  have hset := rotate_set r.head hlen x
  rw [r.size] at hset
  rw [pushBack, dif_pos h]
  exact hset

theorem toList_pushBack (h : r.len < cap) : (r.pushBack x).toList = r.toList ++ [x] := by
  have hlen : (r.pushBack x).len = r.len + 1 := by rw [pushBack, dif_pos h]
  rw [toList, inOrder_pushBack h, hlen, toList, take_succ_eq_append_getElem (by simpa using h),
    take_set_of_le le_rfl, getElem_set_self]

theorem spare_pushBack (h : r.len < cap) : (r.pushBack x).spare = r.spare.tail := by
  have hlen : (r.pushBack x).len = r.len + 1 := by rw [pushBack, dif_pos h]
  rw [spare, inOrder_pushBack h, hlen, spare, tail_drop, drop_set_of_lt (Nat.lt_succ_self _)]

theorem inOrder_turn (r : Ring α cap) : r.turn.inOrder = r.inOrder.rotate 1 := by
  have hmod : (r.head + 1) % cap = (r.head + 1) % r.slots.length := by rw [r.size]
  rw [inOrder, turn]
  simp only [hmod]
  rw [rotate_mod, inOrder, rotate_rotate]

/-- The first slot in order is the slot at the head. -/
theorem front_eq (h : r.inOrder = y :: rest) : r.front = some y := by
  have hpos : 0 < cap := by
    rw [← r.inOrder_length, h]
    simp
  have hsize : 0 < r.slots.length := by rwa [r.size]
  have hget : r.inOrder[0]? = r.slots[r.head]? := by
    rw [inOrder, getElem?_rotate hsize, Nat.zero_add, r.size, Nat.mod_eq_of_lt (r.head_lt hpos)]
  rw [front, ← hget, h]
  rfl

theorem inOrder_setFront (h : r.inOrder = y :: rest) : (r.setFront x).inOrder = x :: rest := by
  have hpos : 0 < cap := by
    rw [← r.inOrder_length, h]
    simp
  have hsize : 0 < r.slots.length := by rwa [r.size]
  have hset := rotate_set r.head hsize x
  rw [Nat.add_zero, r.size, Nat.mod_eq_of_lt (r.head_lt hpos)] at hset
  exact hset.trans (by rw [← inOrder, h, set_cons_zero])

/-- The contents of a queue that is not empty start the slots in order. -/
theorem inOrder_eq_cons (h : r.toList = y :: rest) : r.inOrder = y :: (rest ++ r.spare) := by
  rw [← toList_append_spare, h, cons_append]

theorem len_eq_of_toList (h : r.toList = y :: rest) : r.len = rest.length + 1 := by
  rw [← r.toList_length, h, length_cons]

theorem front_of_toList (h : r.toList = y :: rest) : r.front = some y :=
  front_eq (inOrder_eq_cons h)

theorem setFront_of_toList (h : r.toList = y :: rest) :
    (r.setFront x).toList = x :: rest ∧ (r.setFront x).spare = r.spare := by
  have hlen : (r.setFront x).len = rest.length + 1 := len_eq_of_toList (r := r) h
  have horder := inOrder_setFront (x := x) (inOrder_eq_cons h)
  constructor
  · rw [toList, horder, hlen, take_succ_cons, take_left]
  · rw [spare, horder, hlen, drop_succ_cons, drop_left]

theorem turn_inOrder_of_toList (h : r.toList = y :: rest) :
    r.turn.inOrder = rest ++ (r.spare ++ [y]) := by
  rw [inOrder_turn, inOrder_eq_cons h, rotate_cons_succ, rotate_zero, append_assoc]

theorem advance_of_toList (h : r.toList = y :: rest) :
    r.advance.toList = rest ∧ r.advance.spare = r.spare ++ [y] := by
  have hlen : r.advance.len = rest.length := Nat.sub_eq_of_eq_add (len_eq_of_toList h)
  have horder : r.advance.inOrder = rest ++ (r.spare ++ [y]) := turn_inOrder_of_toList h
  constructor
  · rw [toList, horder, hlen, take_left]
  · rw [spare, horder, hlen, drop_left]

theorem pop_of_toList_nil (h : r.toList = []) : r.pop = (none, r) := by
  have hlen : r.len = 0 := by rw [← r.toList_length, h, length_nil]
  rw [pop, if_pos hlen]

theorem pop_of_toList (h : r.toList = y :: rest) : r.pop = (some y, r.advance) := by
  have hlen : r.len ≠ 0 := by simp [len_eq_of_toList h]
  rw [pop, if_neg hlen, front_of_toList h]

theorem pop_fst (r : Ring α cap) : r.pop.1 = r.toList.head? := by
  cases h : r.toList with
  | nil => rw [pop_of_toList_nil h, head?_nil]
  | cons y rest => rw [pop_of_toList h, head?_cons]

theorem toList_pop (r : Ring α cap) : r.pop.2.toList = r.toList.tail := by
  cases h : r.toList with
  | nil => rw [pop_of_toList_nil h, h, tail_nil]
  | cons y rest => rw [pop_of_toList h, (advance_of_toList h).1, tail_cons]

/-- Overwriting the oldest entry of a full ring. -/
theorem overwrite_of_toList (h : r.toList = y :: rest) (hfull : r.len = cap) :
    (r.setFront x).turn.toList = rest ++ [x] := by
  have hspare : r.spare = [] := drop_of_length_le (by rw [inOrder_length, hfull])
  obtain ⟨hlist, hrest⟩ := setFront_of_toList (x := x) h
  have horder := turn_inOrder_of_toList hlist
  rw [hrest, hspare, nil_append] at horder
  have hlen : (r.setFront x).turn.len = cap := hfull
  rw [toList, take_of_length_le (by rw [inOrder_length, hlen]), horder]

end Ring
end Sys
