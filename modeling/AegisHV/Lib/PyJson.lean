import AegisHV.Lib.Json

/-! JSON as Python's `json` module reads it: a number without fraction and exponent is an integer,
`NaN` and `Infinity` are numbers, and a hook turns the members of every object into a value or
raises an error. -/

namespace Sys
open List Json

inductive PyJson
  | null
  | bool (b : Bool)
  | int (n : ℤ)
  | float
  | str (s : List Char)
  | list (vs : List PyJson)
  | dict (ms : List (List Char × PyJson))

namespace PyJson

def number (text : List Char) : Option (PyJson × List Char) := do
  let (neg, text) := sign text
  let (whole, text) := spanDigits text
  if whole.isEmpty ∨ (1 < whole.length ∧ whole.head? = some '0') then none
  else
    let (frac, text) ← fraction text
    let (_, rest) ← exponent text
    if frac.isEmpty ∧ rest.length = text.length then
      let n : ℤ := natOf whole
      some (.int (if neg then -n else n), rest)
    else some (.float, rest)

def member (value : List Char → Option (PyJson × List Char)) (text : List Char) :
    Option ((List Char × PyJson) × List Char) :=
  match skip text with
  | [] => none
  | c :: text =>
    if c = '"' then do
      let (key, text) ← stringFrom [] .plain text
      match skip text with
      | [] => none
      | c :: text =>
        if c = ':' then do
          let (v, text) ← value text
          some ((key, v), text)
        else none
    else none

def word (w : String) (v : PyJson) (text : List Char) : Option (PyJson × List Char) :=
  (text.dropPrefix? w.toList).map fun rest => (v, rest)

section

variable (hook : List (List Char × PyJson) → Option PyJson)

/-- A value at the start of a text, and the rest. -/
def value : ℕ → List Char → Option (PyJson × List Char)
  | 0, _ => none
  | depth + 1, text =>
    match skip text with
    | [] => none
    | c :: rest =>
      if c = '"' then (stringFrom [] .plain rest).map fun r => (.str r.1, r.2)
      else if c = '[' then (group (value depth) ']' depth rest).map fun r => (.list r.1, r.2)
      else if c = '\x7b' then do
        let (ms, rest) ← group (member (value depth)) '\x7d' depth rest
        let v ← hook ms
        some (v, rest)
      else if c = 'n' then word "null" .null (c :: rest)
      else if c = 't' then word "true" (.bool true) (c :: rest)
      else if c = 'f' then word "false" (.bool false) (c :: rest)
      else if c = 'N' then word "NaN" .float (c :: rest)
      else if c = 'I' then word "Infinity" .float (c :: rest)
      else (word "-Infinity" .float (c :: rest)).or (number (c :: rest))

/-- `json.loads`; `none` is an error that it or the hook raises. -/
def loads (text : List Char) : Option PyJson := do
  let (v, rest) ← value hook (text.length + 1) text
  if (skip rest).isEmpty then some v else none

/-- The text is a value. -/
def Spells (t : List Char) (v : PyJson) : Prop := Reads (value hook) t v

/-- The text is a member of an object. -/
def SpellsMember (t : List Char) (m : List Char × PyJson) : Prop :=
  Reads (fun n => member (value hook n)) t m

variable {hook}

theorem spells_str {t s : List Char} (h : SpellsBody t s) :
    Spells hook ('"' :: (t ++ ['"'])) (.str s) := by
  refine .of_succ (by decide) fun depth rest _ _ => ?_
  rw [value, skip_cons (by decide)]
  simp [h [] rest]

theorem word_append (w : String) (v : PyJson) (rest : List Char) :
    word w v (w.toList ++ rest) = some (v, rest) := by
  rw [word, dropPrefix?_append_self]
  rfl

theorem spells_bool (b : Bool) : Spells hook (toString b).toList (.bool b) := by
  cases b with
  | false => exact .of_succ (by decide) fun _ rest _ _ => word_append "false" (.bool false) rest
  | true => exact .of_succ (by decide) fun _ rest _ _ => word_append "true" (.bool true) rest

theorem number_toDigits (n : ℕ) {rest : List Char} (hrest : Stops rest) :
    number (Nat.toDigits 10 n ++ rest) = some (.int n, rest) := by
  have hsign : sign (Nat.toDigits 10 n ++ rest) = (false, Nat.toDigits 10 n ++ rest) := by
    have hsign := sign_toDigits false n rest
    simpa using hsign
  have hspan : spanDigits (Nat.toDigits 10 n ++ rest) = (Nat.toDigits 10 n, rest) :=
    spanDigits_append (fun c hc => isDigit_of_mem_toDigits hc)
      fun c hc => (hrest.not_digit hc).1
  have hfraction : fraction rest = some ([], rest) := by
    have hnil : fraction ((if ([] : List Char) = [] then [] else ['.']) ++ rest) =
        some ([], rest) := fraction_append (by simp) hrest
    simpa using hnil
  rw [number, hsign]
  simp only [hspan, if_neg (toDigits_well_formed n), hfraction, exponent_stops hrest,
    Option.bind_eq_bind, Option.bind_some]
  simp [natOf, digitsValue_toDigits]

theorem word_ne {w : String} {d : Char} {ds : List Char} (hw : w.toList = d :: ds) {c : Char}
    (hc : c ≠ d) (v : PyJson) (rest : List Char) : word w v (c :: rest) = none := by
  have hdrop : (c :: rest).dropPrefix? (d :: ds) = none := by
    simp [List.dropPrefix?, hc]
  rw [word, hw, hdrop]
  rfl

theorem spells_nat (n : ℕ) : Spells hook (Nat.toDigits 10 n) (.int n) := by
  obtain ⟨c, ds, hds⟩ := exists_cons_of_ne_nil
    (length_pos_iff.1 (Nat.length_toDigits_pos (b := 10) (n := n)))
  have hdigit : c.isDigit = true := isDigit_of_mem_toDigits (n := n) (by rw [hds]; simp)
  have hother : ∀ d, d.isDigit = false → c ≠ d := by
    rintro d hd rfl
    rw [hd] at hdigit
    cases hdigit
  have hspace : isSpace c = false := by
    simp [isSpace, hother ' ' (by decide), hother '\t' (by decide), hother '\n' (by decide),
      hother '\r' (by decide)]
  refine ⟨⟨c, ds, hds, hspace, hother _ (by decide), hother _ (by decide)⟩, ?_⟩
  intro k rest hlen hrest
  obtain ⟨depth, rfl⟩ : ∃ m, k = m + 1 := ⟨k - 1, by omega⟩
  have hnumber := number_toDigits n hrest
  have hword : word "-Infinity" .float (c :: (ds ++ rest)) = none :=
    word_ne (by decide : "-Infinity".toList = '-' :: "Infinity".toList) (hother '-' (by decide)) _ _
  rw [hds, cons_append] at hnumber ⊢
  rw [value, skip_cons hspace]
  simp only [if_neg (hother '"' (by decide)), if_neg (hother '[' (by decide)),
    if_neg (hother '\x7b' (by decide)), if_neg (hother 'n' (by decide)),
    if_neg (hother 't' (by decide)), if_neg (hother 'f' (by decide)),
    if_neg (hother 'N' (by decide)), if_neg (hother 'I' (by decide)), hword, hnumber,
    Option.none_or]

theorem spells_member {k t : List Char} {name : List Char} {v : PyJson}
    (hk : SpellsBody k name) (ht : Spells hook t v) :
    SpellsMember hook ('"' :: (k ++ '"' :: ':' :: t)) (name, v) := by
  refine ⟨⟨_, _, rfl, by decide, by decide, by decide⟩, ?_⟩
  intro n rest hlen hrest
  simp only [length_cons, length_append] at hlen
  rw [cons_append, append_assoc, member, skip_cons (by decide)]
  simp only [if_true, cons_append, hk [] _, Option.bind_eq_bind, Option.bind_some]
  rw [skip_cons (by decide)]
  simp only [if_true, ht.reads n rest (by omega) hrest, Option.bind_some, nil_append]

/-- The text of an object is read as what the hook makes of its members. -/
theorem loads_obj {ts : List (List Char)} {ms : List (List Char × PyJson)} {tail : List Char}
    (h : List.Forall₂ (SpellsMember hook) ts ms) (htail : skip tail = []) :
    loads hook ('\x7b' :: (join ts ++ '\x7d' :: tail)) = hook ms := by
  have hgroup : group (member (value hook (join ts ++ '\x7d' :: tail).length.succ)) '\x7d'
      (join ts ++ '\x7d' :: tail).length.succ (join ts ++ '\x7d' :: tail) =
      some (ms, tail) :=
    @group_join _ (fun n => member (value hook n)) _ _ _ (Or.inr rfl) _ _ h (by
      rw [length_append]
      omega)
  rw [loads, length_cons, value, skip_cons (by decide)]
  simp only [if_neg (show '\x7b' ≠ '"' by decide), if_neg (show '\x7b' ≠ '[' by decide), if_true,
    hgroup, Option.bind_eq_bind, Option.bind_some]
  cases hook ms with
  | none => rfl
  | some v => simp [htail]

end

end PyJson

end Sys
