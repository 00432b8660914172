import Mathlib.Tactic

/-! A table of fixed capacity: an array of slots of which the first `len` are in
use. Insertion and removal move the slots one at a time with a cursor, and the
list of the slots in use sees them as `List.insertIdx` and `List.eraseIdx`. -/

namespace Sys

universe u

structure Table (α : Type u) (cap : ℕ) where
  slots : Vector α cap
  len : ℕ
  len_le : len ≤ cap

namespace Table

variable {α : Type u} {cap : ℕ}

def replicate (cap : ℕ) (x : α) : Table α cap := ⟨Vector.replicate cap x, 0, Nat.zero_le _⟩

/-- The slots in use. -/
def toList (t : Table α cap) : List α := t.slots.toList.take t.len

def get (t : Table α cap) (index : ℕ) (fill : α) : α := t.slots.toList.getD index fill

def set (t : Table α cap) (index : ℕ) (x : α) : Table α cap :=
  { t with slots := t.slots.setIfInBounds index x }

/-- `while cursor > index { slots[cursor] = slots[cursor - 1]; cursor -= 1 }` -/
def shiftUp (slots : Vector α cap) (index : ℕ) : ℕ → Vector α cap
  | 0 => slots
  | cursor + 1 =>
    if index < cursor + 1 then
      match slots[cursor]? with
      | some x => shiftUp (slots.setIfInBounds (cursor + 1) x) index cursor
      | none => slots
    else slots

/-- `while cursor + 1 < len { slots[cursor] = slots[cursor + 1]; cursor += 1 }`, where the
last argument counts the turns left. -/
def shiftDown (slots : Vector α cap) (cursor : ℕ) : ℕ → Vector α cap
  | 0 => slots
  | turns + 1 =>
    match slots[cursor + 1]? with
    | some x => shiftDown (slots.setIfInBounds cursor x) (cursor + 1) turns
    | none => slots

/-- A full table has no slot to shift into; callers test the length first. -/
def insertAt (t : Table α cap) (index : ℕ) (x : α) : Table α cap :=
  if h : t.len < cap then
    ⟨(shiftUp t.slots index t.len).setIfInBounds index x, t.len + 1, h⟩
  else t

def removeAt (t : Table α cap) (index : ℕ) (fill : α) : Table α cap :=
  ⟨(shiftDown t.slots index (t.len - 1 - index)).setIfInBounds (t.len - 1) fill, t.len - 1,
    (Nat.sub_le _ _).trans t.len_le⟩

/-- `while index > 0 && later(slots[index - 1]) { slots[index] = slots[index - 1]; index -= 1 }`
and then `slots[index] = x`. -/
def sink (later : α → Bool) (x : α) (slots : Vector α cap) : ℕ → Vector α cap
  | 0 => slots.setIfInBounds 0 x
  | index + 1 =>
    match slots[index]? with
    | some y =>
      if later y then sink later x (slots.setIfInBounds (index + 1) y) index
      else slots.setIfInBounds (index + 1) x
    | none => slots

/-- One round of an insertion sort; as for `insertAt`, callers test the length first. -/
def insertBy (t : Table α cap) (later : α → Bool) (x : α) : Table α cap :=
  if h : t.len < cap then ⟨sink later x t.slots t.len, t.len + 1, h⟩ else t

def push (t : Table α cap) (x : α) : Table α cap :=
  if h : t.len < cap then ⟨t.slots.setIfInBounds t.len x, t.len + 1, h⟩ else t

@[simp] theorem replicate_toList (x : α) : (replicate cap x).toList = [] := by
  simp [toList, replicate]

@[simp] theorem toList_length (t : Table α cap) : t.toList.length = t.len := by
  simp [toList, t.len_le]

theorem getElem?_toList (t : Table α cap) (j : ℕ) :
    t.toList[j]? = if j < t.len then t.slots[j]? else none := by
  simp only [toList, List.getElem?_take]
  split_ifs <;> simp

variable {j : ℕ}

theorem get_eq (t : Table α cap) {x fill : α} (h : t.toList[j]? = some x) :
    t.get j fill = x := by
  rw [getElem?_toList] at h
  split_ifs at h with hj
  rw [get]
  simpa using congrArg (·.getD fill) h

theorem toList_set (t : Table α cap) (j : ℕ) (x : α) : (t.set j x).toList = t.toList.set j x := by
  simp [toList, set, List.take_set]

theorem getElem?_shiftUp (index : ℕ) :
    ∀ (cursor : ℕ) (slots : Vector α cap), cursor < cap → ∀ j,
      (shiftUp slots index cursor)[j]? =
        if index < j ∧ j ≤ cursor then slots[j - 1]? else slots[j]? := by
  intro cursor
  induction cursor with
  | zero =>
    intro slots _ j
    rw [shiftUp, if_neg (by omega)]
  | succ c ih =>
    intro slots hc j
    have hc' : c < cap := by omega
    rw [shiftUp]
    by_cases h : index < c + 1
    · rw [if_pos h, Vector.getElem?_eq_getElem hc', ih _ hc' j]
      simp only [Vector.getElem?_setIfInBounds]
      rcases Nat.lt_trichotomy j (c + 1) with hj | hj | hj
      · simp only [show c + 1 ≠ j - 1 by omega, show c + 1 ≠ j by omega, if_false,
          show j ≤ c by omega, show j ≤ c + 1 by omega, and_true]
      · subst hj
        simp [hc, h, Vector.getElem?_eq_getElem hc']
      · simp only [show ¬ j ≤ c by omega, show ¬ j ≤ c + 1 by omega, show c + 1 ≠ j by omega,
          and_false, if_false]
    · rw [if_neg h, if_neg (by omega)]

theorem getElem?_shiftDown :
    ∀ (turns cursor : ℕ) (slots : Vector α cap), cursor + turns < cap → ∀ j,
      (shiftDown slots cursor turns)[j]? =
        if cursor ≤ j ∧ j < cursor + turns then slots[j + 1]? else slots[j]? := by
  intro turns
  induction turns with
  | zero =>
    intro cursor slots _ j
    rw [shiftDown, if_neg (by omega)]
  | succ n ih =>
    intro cursor slots h j
    have hc : cursor + 1 < cap := by omega
    rw [shiftDown, Vector.getElem?_eq_getElem hc, ih _ _ (by omega) j]
    simp only [Vector.getElem?_setIfInBounds]
    rcases Nat.lt_trichotomy j cursor with hj | hj | hj
    · simp only [show ¬ cursor + 1 ≤ j by omega, show ¬ cursor ≤ j by omega,
        show cursor ≠ j by omega, false_and, if_false]
    · subst hj
      simp [show j < cap by omega, Vector.getElem?_eq_getElem hc]
    · simp only [show cursor ≠ j + 1 by omega, show cursor ≠ j by omega, if_false,
        show cursor + 1 ≤ j by omega, show cursor ≤ j by omega, true_and,
        show (j < cursor + 1 + n) = (j < cursor + (n + 1)) by congr 1; omega]

theorem toList_insertAt (t : Table α cap) {index : ℕ} (x : α) (hi : index ≤ t.len)
    (hlen : t.len < cap) : (t.insertAt index x).toList = t.toList.insertIdx index x := by
  apply List.ext_getElem?
  intro j
  rw [insertAt, dif_pos hlen]
  simp only [Vector.getElem?_setIfInBounds, getElem?_shiftUp index _ _ hlen, List.getElem?_insertIdx,
    getElem?_toList, toList_length]
  rcases Nat.lt_trichotomy j index with hj | hj | hj
  · simp only [show index ≠ j by omega, if_false, show ¬ (index < j ∧ j ≤ t.len) by omega,
      show j < t.len + 1 by omega, if_true, hj, show j < t.len by omega]
  · subst hj
    simp [hi, show j < cap by omega, show j < t.len + 1 by omega]
  · simp only [show index ≠ j by omega, if_false, hj, true_and, show ¬ j < index by omega,
      show ¬ j = index by omega]
    by_cases hjl : j ≤ t.len
    · simp only [hjl, if_true, show j < t.len + 1 by omega, show j - 1 < t.len by omega]
    · simp only [hjl, if_false, show ¬ j < t.len + 1 by omega, show ¬ j - 1 < t.len by omega]

theorem toList_removeAt (t : Table α cap) {index : ℕ} (fill : α) (hi : index < t.len) :
    (t.removeAt index fill).toList = t.toList.eraseIdx index := by
  have hle := t.len_le
  apply List.ext_getElem?
  intro j
  rw [removeAt]
  simp only [Vector.getElem?_setIfInBounds,
    getElem?_shiftDown _ _ t.slots (show index + (t.len - 1 - index) < cap by omega),
    List.getElem?_eraseIdx, getElem?_toList]
  by_cases hj : j < t.len - 1
  · simp only [hj, if_true, show t.len - 1 ≠ j by omega, if_false,
      show (j < index + (t.len - 1 - index)) by omega, and_true, show j < t.len by omega,
      show j + 1 < t.len by omega]
    by_cases hji : j < index
    · simp only [show ¬ index ≤ j by omega, hji, if_true, if_false]
    · simp only [show index ≤ j by omega, hji, if_true, if_false]
  · simp only [hj, if_false, show ¬ j < index by omega, show ¬ j + 1 < t.len by omega]

theorem insertIdx_length_append (l r : List α) (x : α) :
    (l ++ r).insertIdx l.length x = l ++ x :: r := by
  induction l with
  | nil => rfl
  | cons a l ih => simpa using ih

section

/-! The operations at a split of the slots in use. -/

variable {t : Table α cap} {l r : List α} {y : α}

theorem get_append (h : t.toList = l ++ y :: r) (fill : α) : t.get l.length fill = y :=
  t.get_eq (by simp [h])

theorem set_append (h : t.toList = l ++ y :: r) (x : α) :
    (t.set l.length x).toList = l ++ x :: r := by
  rw [toList_set, h]
  simp

theorem removeAt_append (h : t.toList = l ++ y :: r) (fill : α) :
    (t.removeAt l.length fill).toList = l ++ r := by
  have hlen : l.length < t.len := by
    rw [← toList_length, h]
    simp
  rw [toList_removeAt t fill hlen, h, List.eraseIdx_append_of_length_le le_rfl]
  simp

theorem insertAt_append (h : t.toList = l ++ r) (hlen : t.len < cap) (x : α) :
    (t.insertAt l.length x).toList = l ++ x :: r := by
  have hle : l.length ≤ t.len := by
    rw [← toList_length, h]
    simp
  rw [toList_insertAt t x hle hlen, h, insertIdx_length_append]

end

/-- The slot the sinking element stops at: below it nothing sorts later, above it all does. -/
def sinkIndex (later : α → Bool) (slots : Vector α cap) : ℕ → ℕ
  | 0 => 0
  | index + 1 =>
    match slots[index]? with
    | some y => if later y then sinkIndex later slots index else index + 1
    | none => index + 1

theorem sinkIndex_le (later : α → Bool) (slots : Vector α cap) (n : ℕ) :
    sinkIndex later slots n ≤ n := by
  induction n with
  | zero => exact le_rfl
  | succ n ih =>
    rw [sinkIndex]
    split
    · split_ifs
      · exact ih.trans (Nat.le_succ n)
      · exact le_rfl
    · exact le_rfl

variable {n : ℕ}

theorem sinkIndex_congr (later : α → Bool) {slots slots' : Vector α cap}
    (h : ∀ j < n, slots[j]? = slots'[j]?) : sinkIndex later slots n = sinkIndex later slots' n := by
  induction n with
  | zero => rfl
  | succ n ih =>
    rw [sinkIndex, sinkIndex, h n (Nat.lt_succ_self n), ih fun j hj => h j (by omega)]

theorem sink_eq (later : α → Bool) (x : α) :
    ∀ (n : ℕ) (slots : Vector α cap), n < cap → sink later x slots n =
      (shiftUp slots (sinkIndex later slots n) n).setIfInBounds (sinkIndex later slots n) x := by
  intro n
  induction n with
  | zero => intro slots _; rfl
  | succ n ih =>
    intro slots hn
    have hn' : n < cap := by omega
    rw [sink, sinkIndex, shiftUp, Vector.getElem?_eq_getElem hn']
    by_cases hl : later slots[n]
    · have hle := sinkIndex_le later slots n
      have hcongr : sinkIndex later (slots.setIfInBounds (n + 1) slots[n]) n =
          sinkIndex later slots n := by
        apply sinkIndex_congr
        intro j hj
        rw [Vector.getElem?_setIfInBounds, if_neg (by omega)]
      simp only [hl, if_true]
      rw [ih _ hn', hcongr, if_pos (by omega)]
    · simp only [hl, if_false, Bool.false_eq_true]
      rw [if_neg (by omega)]

theorem sinkIndex_later (later : α → Bool) (slots : Vector α cap) {y : α} (hj : j < n)
    (hi : sinkIndex later slots n ≤ j) (hy : slots[j]? = some y) : later y = true := by
  induction n with
  | zero => omega
  | succ n ih =>
    rw [sinkIndex] at hi
    split at hi
    next z hz =>
      split_ifs at hi with hl
      · rcases Nat.lt_or_ge j n with hjn | hjn
        · exact ih hjn hi
        · obtain rfl : j = n := by omega
          rw [hz, Option.some_inj] at hy
          exact hy ▸ hl
      · omega
    next => omega

theorem sinkIndex_not_later (later : α → Bool) (slots : Vector α cap) {y : α}
    (hn : n ≤ cap) (hi : sinkIndex later slots n = j + 1) (hy : slots[j]? = some y) :
    later y = false := by
  induction n with
  | zero => simp [sinkIndex] at hi
  | succ n ih =>
    rw [sinkIndex, Vector.getElem?_eq_getElem (by omega)] at hi
    by_cases hl : later slots[n]
    · simp only [hl, if_true] at hi
      exact ih (by omega) hi
    · simp only [hl, if_false, Bool.false_eq_true] at hi
      obtain rfl : n = j := by omega
      rw [Vector.getElem?_eq_getElem (by omega), Option.some_inj] at hy
      simpa [hy] using hl

/-- The sinking element lands between the elements that do not and those that do sort later. -/
theorem toList_insertBy (t : Table α cap) (later : α → Bool) (x : α) (h : t.len < cap) :
    ∃ l r, t.toList = l ++ r ∧ (t.insertBy later x).toList = l ++ x :: r ∧
      (∀ y ∈ r, later y = true) ∧ ∀ y, l.getLast? = some y → later y = false := by
  set i := sinkIndex later t.slots t.len with hi
  have hle : i ≤ t.len := sinkIndex_le later t.slots t.len
  refine ⟨t.toList.take i, t.toList.drop i, (List.take_append_drop i _).symm, ?_, ?_, ?_⟩
  · have hins : t.insertBy later x = t.insertAt i x := by
      rw [insertBy, insertAt, dif_pos h, dif_pos h, sink_eq later x _ _ h]
    have htake : (t.toList.take i).length = i := by simpa using hle
    have := insertAt_append (List.take_append_drop i t.toList).symm h x
    rwa [htake, ← hins] at this
  · intro y hy
    obtain ⟨k, hk⟩ := List.mem_iff_getElem?.1 hy
    rw [List.getElem?_drop, getElem?_toList] at hk
    split_ifs at hk with hlt
    exact sinkIndex_later later t.slots hlt (Nat.le_add_right i k) hk
  · intro y hy
    rw [List.getLast?_eq_getElem?, List.getElem?_take, List.length_take, toList_length,
      getElem?_toList] at hy
    rcases Nat.eq_zero_or_pos i with h0 | h0
    · simp [h0] at hy
    · rw [if_pos (by omega), if_pos (by omega)] at hy
      exact sinkIndex_not_later later t.slots t.len_le (by omega) hy

@[simp] theorem removeAt_len (t : Table α cap) (index : ℕ) (fill : α) :
    (t.removeAt index fill).len = t.len - 1 := rfl

theorem push_len (t : Table α cap) (x : α) (h : t.len < cap) : (t.push x).len = t.len + 1 := by
  rw [push, dif_pos h]

theorem toList_push (t : Table α cap) (x : α) (h : t.len < cap) :
    (t.push x).toList = t.toList ++ [x] := by
  apply List.ext_getElem?
  intro j
  rw [push, dif_pos h]
  simp only [Vector.getElem?_setIfInBounds, List.getElem?_append, toList_length, getElem?_toList]
  rcases Nat.lt_trichotomy j t.len with hj | hj | hj
  · simp only [show j < t.len + 1 by omega, show t.len ≠ j by omega, hj, if_true, if_false]
  · subst hj
    simp [h]
  · simp only [show ¬ j < t.len + 1 by omega, show ¬ j < t.len by omega, if_false]
    rw [List.getElem?_eq_none (by simp; omega)]

/-- The slots that are not in use. -/
def rest (t : Table α cap) : List α := t.slots.toList.drop t.len

theorem mem_slots {t : Table α cap} {x : α} : x ∈ t.slots.toList ↔ x ∈ t.toList ∨ x ∈ t.rest := by
  rw [← List.mem_append, toList, rest, List.take_append_drop]

theorem mem_rest {t : Table α cap} {x : α} : x ∈ t.rest ↔ ∃ j, t.len ≤ j ∧ t.slots[j]? = some x := by
  rw [rest, List.mem_iff_getElem?]
  constructor
  · rintro ⟨i, hi⟩
    exact ⟨t.len + i, Nat.le_add_right _ _, by simpa using hi⟩
  · rintro ⟨j, hj, hx⟩
    refine ⟨j - t.len, ?_⟩
    rw [List.getElem?_drop, Nat.add_sub_cancel' hj]
    simpa using hx

theorem mem_rest_push {t : Table α cap} {x y : α} (h : t.len < cap) (hy : y ∈ (t.push x).rest) :
    y ∈ t.rest := by
  obtain ⟨j, hj, hget⟩ := mem_rest.1 hy
  rw [push_len t x h] at hj
  rw [push, dif_pos h] at hget
  simp only [Vector.getElem?_setIfInBounds, if_neg (Nat.ne_of_lt hj)] at hget
  exact mem_rest.2 ⟨j, Nat.le_of_succ_le hj, hget⟩

theorem mem_rest_removeAt {t : Table α cap} {index : ℕ} {fill y : α} (hi : index < t.len)
    (hy : y ∈ (t.removeAt index fill).rest) : y = fill ∨ y ∈ t.rest := by
  have hle := t.len_le
  obtain ⟨j, hj, hget⟩ := mem_rest.1 hy
  rw [removeAt_len] at hj
  simp only [removeAt, Vector.getElem?_setIfInBounds,
    getElem?_shiftDown _ _ t.slots (show index + (t.len - 1 - index) < cap by omega)] at hget
  by_cases hlast : t.len - 1 = j
  · rw [if_pos hlast, if_pos (by omega)] at hget
    exact Or.inl (Option.some_inj.1 hget).symm
  · rw [if_neg hlast, if_neg (by omega)] at hget
    exact Or.inr (mem_rest.2 ⟨j, by omega, hget⟩)

theorem mem_rest_replicate {x y : α} (h : y ∈ (replicate cap x).rest) : y = x := by
  obtain ⟨j, -, hget⟩ := mem_rest.1 h
  obtain ⟨hj, hget⟩ := Vector.getElem?_eq_some_iff.1 hget
  rw [← hget]
  exact Vector.getElem_replicate hj

/-- Every slot that is not in use holds `fill`. -/
def Tidy (fill : α) (t : Table α cap) : Prop := ∀ x ∈ t.rest, x = fill

section

variable {t : Table α cap} {fill x : α} {index : ℕ}

theorem tidy_replicate : Tidy fill (replicate cap fill) := fun _ hy => mem_rest_replicate hy

theorem Tidy.push (h : t.Tidy fill) (hlen : t.len < cap) : (t.push x).Tidy fill :=
  fun y hy => h y (mem_rest_push hlen hy)

theorem Tidy.removeAt (h : t.Tidy fill) (hi : index < t.len) : (t.removeAt index fill).Tidy fill :=
  fun y hy => (mem_rest_removeAt hi hy).elim id (h y)

theorem Tidy.set (h : t.Tidy fill) (hi : index < t.len) : (t.set index x).Tidy fill := by
  intro y hy
  obtain ⟨j, hj, hget⟩ := mem_rest.1 hy
  have hj' : t.len ≤ j := hj
  rw [Table.set, Vector.getElem?_setIfInBounds, if_neg (by omega)] at hget
  exact h y (mem_rest.2 ⟨j, hj, hget⟩)

theorem Tidy.insertAt (h : t.Tidy fill) (hi : index ≤ t.len) : (t.insertAt index x).Tidy fill := by
  intro y hy
  obtain ⟨j, hj, hget⟩ := mem_rest.1 hy
  rw [Table.insertAt] at hj hget
  split_ifs at hj hget with hlen
  · simp only [Vector.getElem?_setIfInBounds, getElem?_shiftUp index _ _ hlen] at hget
    have hj' : t.len + 1 ≤ j := hj
    rw [if_neg (by omega), if_neg (by omega)] at hget
    exact h y (mem_rest.2 ⟨j, by omega, hget⟩)
  · exact h y (mem_rest.2 ⟨j, hj, hget⟩)

/-- Tidy tables with the same slots in use are the same table. -/
theorem Tidy.ext {t' : Table α cap} (h : t.Tidy fill) (h' : t'.Tidy fill)
    (hlist : t.toList = t'.toList) : t = t' := by
  have hlen : t.len = t'.len := by rw [← toList_length, hlist, toList_length]
  have hrest : t.rest = t'.rest := by
    rw [List.eq_replicate_of_mem h, List.eq_replicate_of_mem h']
    simp [rest, hlen]
  have hslots : t.slots.toList = t'.slots.toList := by
    rw [← List.take_append_drop t.len t.slots.toList, ← List.take_append_drop t'.len t'.slots.toList]
    exact congrArg₂ (· ++ ·) hlist hrest
  cases t'
  simp only [Vector.toList_inj] at hslots
  subst hlen hslots
  rfl

/-- The slots in use are those of `l`, and the others hold `fill`. -/
structure Holds (fill : α) (t : Table α cap) (l : List α) : Prop where
  tidy : t.Tidy fill
  list : t.toList = l

variable {l r : List α} {y : α}

theorem Holds.length_lt (h : t.Holds fill (l ++ y :: r)) : l.length < t.len := by
  rw [← toList_length, h.list]
  simp

theorem Holds.set (h : t.Holds fill (l ++ y :: r)) (x : α) :
    (t.set l.length x).Holds fill (l ++ x :: r) := ⟨h.tidy.set h.length_lt, set_append h.list x⟩

theorem Holds.removeAt (h : t.Holds fill (l ++ y :: r)) :
    (t.removeAt l.length fill).Holds fill (l ++ r) :=
  ⟨h.tidy.removeAt h.length_lt, removeAt_append h.list fill⟩

theorem Holds.insertAt (h : t.Holds fill (l ++ r)) (hlen : t.len < cap) (x : α) :
    (t.insertAt l.length x).Holds fill (l ++ x :: r) := by
  refine ⟨h.tidy.insertAt ?_, insertAt_append h.list hlen x⟩
  rw [← toList_length, h.list]
  simp

theorem Holds.push (h : t.Holds fill l) (hlen : t.len < cap) (x : α) :
    (t.push x).Holds fill (l ++ [x]) := ⟨h.tidy.push hlen, h.list ▸ toList_push t x hlen⟩

end

end Table
end Sys
