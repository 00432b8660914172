import AegisHV.Lib.Radix
import AegisHV.Lib.Split

/-! JSON texts (RFC 8259): values, a decoder, and the texts that it reads as a given value. A
text is put together from the texts of its parts, and what is known of the parts gives what the
whole is read as. -/

namespace Sys
open List

inductive Json
  | null
  | bool (b : Bool)
  | num (q : ℚ)
  | str (s : List Char)
  | arr (vs : List Json)
  | obj (ms : List (List Char × Json))

namespace Json

def isSpace (c : Char) : Bool := c == ' ' || c == '\t' || c == '\n' || c == '\r'

def skip (text : List Char) : List Char := text.dropWhile isSpace

/-! Strings. -/

/-- Where the decoder stands in a string: behind a backslash, in the digits of a code (of the
second one if there is a high surrogate already), or before the second code. -/
inductive Scan
  | plain
  | escape
  | hex (high : Option ℕ) (left code : ℕ)
  | lowSlash (high : ℕ)
  | lowCode (high : ℕ)

/-- The characters that stand for others behind a backslash. -/
def unescape (c : Char) : Option Char :=
  if c = '"' then some '"' else if c = '\\' then some '\\' else if c = '/' then some '/'
  else if c = 'b' then some (Char.ofNat 8) else if c = 'f' then some (Char.ofNat 12)
  else if c = 'n' then some '\n' else if c = 'r' then some '\r' else if c = 't' then some '\t'
  else none

def stringFrom (out : List Char) (scan : Scan) : List Char → Option (List Char × List Char)
  | [] => none
  | c :: cs =>
    match scan with
    | .plain =>
      if c = '"' then some (out, cs)
      else if c = '\\' then stringFrom out .escape cs
      else if c.toNat < 32 then none
      else stringFrom (out ++ [c]) .plain cs
    | .escape =>
      if c = 'u' then stringFrom out (.hex none 4 0) cs
      else match unescape c with
        | some d => stringFrom (out ++ [d]) .plain cs
        | none => none
    | .hex high left code =>
      match toDigit 16 c with
      | none => none
      | some d =>
        let code := 16 * code + d
        if 1 < left then stringFrom out (.hex high (left - 1) code) cs
        else match high with
          | none =>
            if 0xD800 ≤ code ∧ code < 0xDC00 then stringFrom out (.lowSlash code) cs
            else if 0xDC00 ≤ code ∧ code < 0xE000 then none
            else stringFrom (out ++ [Char.ofNat code]) .plain cs
          | some high =>
            if 0xDC00 ≤ code ∧ code < 0xE000 then
              let full := 0x10000 + 0x400 * (high - 0xD800) + (code - 0xDC00)
              stringFrom (out ++ [Char.ofNat full]) .plain cs
            else none
    | .lowSlash high => if c = '\\' then stringFrom out (.lowCode high) cs else none
    | .lowCode high => if c = 'u' then stringFrom out (.hex (some high) 4 0) cs else none

/-! Numbers. -/

def spanDigits (text : List Char) : List Char × List Char :=
  (text.takeWhile Char.isDigit, text.dropWhile Char.isDigit)

def natOf (digits : List Char) : ℕ := (digitsValue 10 0 digits).getD 0

/-- An optional minus sign. -/
def sign (text : List Char) : Bool × List Char :=
  match text with
  | [] => (false, [])
  | c :: rest => if c = '-' then (true, rest) else (false, c :: rest)

/-- An optional point with digits behind it. -/
def fraction (text : List Char) : Option (List Char × List Char) :=
  match text with
  | [] => some ([], [])
  | c :: rest =>
    if c = '.' then if (spanDigits rest).1.isEmpty then none else some (spanDigits rest)
    else some ([], c :: rest)

/-- An optional exponent. -/
def exponent (text : List Char) : Option (ℤ × List Char) :=
  match text with
  | [] => some (0, [])
  | c :: rest =>
    if c = 'e' ∨ c = 'E' then
      let (neg, rest) := match rest with
        | [] => (false, [])
        | d :: rest => if d = '+' then (false, rest) else sign (d :: rest)
      let (digits, rest) := spanDigits rest
      if digits.isEmpty then none
      else some (if neg then -(natOf digits : ℤ) else natOf digits, rest)
    else some (0, c :: rest)

def signed (neg : Bool) (q : ℚ) : ℚ := if neg then -q else q

def number (text : List Char) : Option (Json × List Char) := do
  let (neg, text) := sign text
  let (whole, text) := spanDigits text
  if whole.isEmpty ∨ (1 < whole.length ∧ whole.head? = some '0') then none
  else
    let (frac, text) ← fraction text
    let (exp, text) ← exponent text
    let q : ℚ := natOf (whole ++ frac) / 10 ^ frac.length
    some (.num (signed neg q * 10 ^ exp), text)

/-! Values. -/

section

variable {α : Type*} (item : List Char → Option (α × List Char)) (close : Char)

/-- The items of an array or an object up to the closing bracket. -/
def items : ℕ → List α → List Char → Option (List α × List Char)
  | 0, _, _ => none
  | turns + 1, out, text => do
    let (a, text) ← item text
    match skip text with
    | [] => none
    | c :: text =>
      if c = close then some (out ++ [a], text)
      else if c = ',' then items turns (out ++ [a]) text
      else none

def group (turns : ℕ) (text : List Char) : Option (List α × List Char) :=
  match skip text with
  | [] => none
  | c :: rest => if c = close then some ([], rest) else items item close turns [] (c :: rest)

end

def member (value : List Char → Option (Json × List Char)) (text : List Char) :
    Option ((List Char × Json) × List Char) :=
  match skip text with
  | [] => none
  | c :: text =>
    if c = '"' then do
      let (key, text) ← stringFrom [] .plain text
      match skip text with
      | [] => none
      | c :: text =>
        if c = ':' then do
          let (v, text) ← value text
          some ((key, v), text)
        else none
    else none

def word (w : String) (v : Json) (text : List Char) : Option (Json × List Char) :=
  (text.dropPrefix? w.toList).map fun rest => (v, rest)

/-- A value at the start of a text, and the rest. -/
def value : ℕ → List Char → Option (Json × List Char)
  | 0, _ => none
  | depth + 1, text =>
    match skip text with
    | [] => none
    | c :: rest =>
      if c = '"' then (stringFrom [] .plain rest).map fun r => (.str r.1, r.2)
      else if c = '[' then (group (value depth) ']' depth rest).map fun r => (.arr r.1, r.2)
      else if c = '\x7b' then
        (group (member (value depth)) '\x7d' depth rest).map fun r => (.obj r.1, r.2)
      else if c = 'n' then word "null" .null (c :: rest)
      else if c = 't' then word "true" (.bool true) (c :: rest)
      else if c = 'f' then word "false" (.bool false) (c :: rest)
      else number (c :: rest)

/-- A whole text. No value nests deeper than its text is long. -/
def decode (text : List Char) : Option Json := do
  let (v, rest) ← value (text.length + 1) text
  if (skip rest).isEmpty then some v else none

/-- No object in the value has two members of one name. -/
inductive Distinct : Json → Prop
  | null : Distinct .null
  | bool (b) : Distinct (.bool b)
  | num (q) : Distinct (.num q)
  | str (s) : Distinct (.str s)
  | arr {vs} (h : ∀ v ∈ vs, Distinct v) : Distinct (.arr vs)
  | obj {ms} (h : ∀ m ∈ ms, Distinct m.2) (hnames : (ms.map Prod.fst).Nodup) : Distinct (.obj ms)

/-! Texts that are read as a value. -/

/-- What may follow a part of an array or an object. -/
def Stops (rest : List Char) : Prop := ∀ c, rest.head? = some c → c = ',' ∨ c = ']' ∨ c = '\x7d'

theorem stops_nil : Stops [] := by simp [Stops]

variable {c : Char} {rest : List Char}

theorem stops_cons (hc : c = ',' ∨ c = ']' ∨ c = '\x7d') :
    Stops (c :: rest) := by
  intro d hd
  cases hd
  exact hc

/-- The first character of a part is neither white space nor what closes a value. -/
def Opens (t : List Char) : Prop :=
  ∃ c rest, t = c :: rest ∧ isSpace c = false ∧ c ≠ ']' ∧ c ≠ '\x7d'

/-- With a depth above its length the text is read as `a`, up to its end. -/
structure Reads {α : Type*} (item : ℕ → List Char → Option (α × List Char)) (t : List Char)
    (a : α) : Prop where
  opens : Opens t
  reads : ∀ n rest, t.length < n → Stops rest → item n (t ++ rest) = some (a, rest)

theorem Reads.of_succ {α : Type*} {item : ℕ → List Char → Option (α × List Char)} {c : Char}
    {t : List Char} {a : α} (hc : isSpace c = false ∧ c ≠ ']' ∧ c ≠ '\x7d')
    (h : ∀ depth rest, t.length < depth + 1 → Stops rest →
      item (depth + 1) (c :: (t ++ rest)) = some (a, rest)) : Reads item (c :: t) a := by
  refine ⟨⟨c, t, rfl, hc⟩, ?_⟩
  intro n rest hlen hrest
  rw [length_cons] at hlen
  obtain ⟨depth, rfl⟩ : ∃ k, n = k + 1 := ⟨n - 1, by omega⟩
  exact h depth rest (by omega) hrest

/-- The text is a value. -/
def Spells (t : List Char) (v : Json) : Prop := Reads value t v

/-- The text is a member of an object. -/
def SpellsMember (t : List Char) (m : List Char × Json) : Prop :=
  Reads (fun n => member (value n)) t m

theorem skip_cons (hc : isSpace c = false) (rest : List Char) :
    skip (c :: rest) = c :: rest := dropWhile_cons_of_neg (by simp [hc])

variable {t : List Char}

theorem decode_of_spells {v : Json} (h : Spells t v) : decode t = some v := by
  have hread := h.reads (t.length + 1) [] (Nat.lt_succ_self _) stops_nil
  rw [append_nil] at hread
  rw [decode, hread]
  rfl

/-- A comma between each two. -/
def join (ts : List (List Char)) : List Char := [','].intercalate ts

theorem join_cons_cons (t u : List Char) (ts : List (List Char)) :
    join (t :: u :: ts) = t ++ ',' :: join (u :: ts) := by
  simp [join, List.intercalate]

theorem join_singleton (t : List Char) : join [t] = t := by simp [join, List.intercalate]

section

variable {α : Type*} {item : ℕ → List Char → Option (α × List Char)} {close : Char}

variable {depth : ℕ} {rest : List Char}

theorem items_cons {turns : ℕ} {out : List α} {t : List Char} {a : α} {c : Char}
    (ht : Reads item t a) (hlen : t.length < depth) (hc : c = ',' ∨ c = ']' ∨ c = '\x7d')
    (hspace : isSpace c = false) :
    items (item depth) close (turns + 1) out (t ++ c :: rest) =
      if c = close then some (out ++ [a], rest)
      else if c = ',' then items (item depth) close turns (out ++ [a]) rest
      else none := by
  rw [items, ht.reads depth _ hlen (stops_cons hc)]
  simp only [Option.bind_eq_bind, Option.bind_some, skip_cons hspace]

/-- All items are read, one after the other. -/
theorem items_join (hclose : close = ']' ∨ close = '\x7d')
    {ts : List (List Char)} {as : List α} (h : List.Forall₂ (Reads item) ts as) : ts ≠ [] →
    ∀ turns out, ts.length ≤ turns → (join ts).length < depth →
      items (item depth) close turns out (join ts ++ close :: rest) = some (out ++ as, rest) := by
  have hcomma : ',' ≠ close := by
    rcases hclose with rfl | rfl <;> decide
  have hspace : isSpace close = false := by
    rcases hclose with rfl | rfl <;> decide
  induction h with
  | nil => exact fun hne => absurd rfl hne
  | @cons t a ts as ht hts ih =>
    intro _ turns out hturns hlen
    obtain ⟨turns, rfl⟩ : ∃ k, turns = k + 1 := ⟨turns - 1, by rw [length_cons] at hturns; omega⟩
    cases hts with
    | nil =>
      rw [join_singleton] at hlen ⊢
      rw [items_cons ht hlen (Or.inr hclose) hspace, if_pos rfl]
    | @cons u b ts as hu hts =>
      rw [join_cons_cons] at hlen ⊢
      rw [length_append, length_cons] at hlen
      rw [append_assoc, cons_append, items_cons ht (by omega) (Or.inl rfl) (by decide),
        if_neg hcomma, ih (by simp) turns _ (by simpa using hturns) (by omega)]
      simp

theorem length_le_join {ts : List (List Char)} {as : List α}
    (h : List.Forall₂ (Reads item) ts as) : ts.length ≤ (join ts).length := by
  induction h with
  | nil => exact le_rfl
  | @cons t a ts as ht hts ih =>
    obtain ⟨c, t', rfl, -⟩ := ht.opens
    cases hts with
    | nil => simp [join_singleton]
    | cons hu hts =>
      rw [join_cons_cons]
      simp only [length_cons, length_append] at ih ⊢
      omega

theorem opens_join {ts : List (List Char)} {as : List α} (h : List.Forall₂ (Reads item) ts as)
    (hne : ts ≠ []) : Opens (join ts) := by
  cases h with
  | nil => exact absurd rfl hne
  | cons ht hts =>
    obtain ⟨c, t', rfl, hc⟩ := ht.opens
    cases hts with
    | nil => exact ⟨c, t', join_singleton _, hc⟩
    | cons hu hts => exact ⟨c, _, join_cons_cons _ _ _, hc⟩

theorem group_join (hclose : close = ']' ∨ close = '\x7d')
    {ts : List (List Char)} {as : List α} (h : List.Forall₂ (Reads item) ts as)
    (hlen : (join ts).length < depth) :
    group (item depth) close depth (join ts ++ close :: rest) = some (as, rest) := by
  have hspace : isSpace close = false := by
    rcases hclose with rfl | rfl <;> decide
  by_cases hne : ts = []
  · subst hne
    cases h
    change group (item depth) close depth (close :: rest) = _
    simp [group, skip_cons hspace]
  · obtain ⟨c, t, ht, hc, h1, h2⟩ := opens_join h hne
    have hfirst : c ≠ close := by
      rcases hclose with rfl | rfl
      · exact h1
      · exact h2
    have hcount := length_le_join h
    have hitems : items (item depth) close depth [] (join ts ++ close :: rest) =
        some ([] ++ as, rest) := items_join hclose h hne depth [] (by omega) hlen
    rw [ht, cons_append] at hitems ⊢
    rw [group, skip_cons hc]
    simp only [if_neg hfirst, hitems, nil_append]

end

theorem spells_arr {ts : List (List Char)} {vs : List Json} (h : List.Forall₂ Spells ts vs) :
    Spells ('[' :: (join ts ++ [']'])) (.arr vs) := by
  refine .of_succ (by decide) fun depth rest hlen _ => ?_
  rw [length_append, length_singleton] at hlen
  have hgroup : group (value depth) ']' depth (join ts ++ ']' :: rest) = some (vs, rest) :=
    group_join (Or.inl rfl) h (by omega)
  rw [value, skip_cons (by decide)]
  simp [hgroup]

theorem spells_obj {ts : List (List Char)} {ms : List (List Char × Json)}
    (h : List.Forall₂ SpellsMember ts ms) : Spells ('\x7b' :: (join ts ++ ['\x7d'])) (.obj ms) := by
  refine .of_succ (by decide) fun depth rest hlen _ => ?_
  rw [length_append, length_singleton] at hlen
  have hgroup : group (member (value depth)) '\x7d' depth (join ts ++ '\x7d' :: rest) =
      some (ms, rest) :=
    @group_join _ (fun n => member (value n)) _ _ _ (Or.inr rfl) _ _ h (by omega)
  rw [value, skip_cons (by decide)]
  simp [hgroup]

/-- The characters between the quotes are read as `s`. -/
def SpellsBody (t s : List Char) : Prop :=
  ∀ out rest, stringFrom out .plain (t ++ '"' :: rest) = some (out ++ s, rest)

theorem spellsBody_nil : SpellsBody [] [] := by
  intro out rest
  simp [stringFrom]

variable {s : List Char}

theorem spellsBody_cons (hquote : c ≠ '"') (hslash : c ≠ '\\')
    (hc : 32 ≤ c.toNat) (h : SpellsBody t s) : SpellsBody (c :: t) (c :: s) := by
  intro out rest
  rw [cons_append, stringFrom, if_neg hquote, if_neg hslash, if_neg (by omega), h]
  simp

theorem spellsBody_escape {d : Char} (hd : unescape d = some c) (hu : d ≠ 'u')
    (h : SpellsBody t s) : SpellsBody ('\\' :: d :: t) (c :: s) := by
  intro out rest
  rw [cons_append, cons_append, stringFrom, if_pos rfl, stringFrom, if_neg hu, hd]
  change stringFrom (out ++ [c]) .plain (t ++ '"' :: rest) = _
  rw [h]
  simp

/-- Four hexadecimal digits of a code that is no surrogate. -/
theorem spellsBody_code {a b d : Char} {w x y z : ℕ}
    (ha : toDigit 16 a = some w) (hb : toDigit 16 b = some x) (hc : toDigit 16 c = some y)
    (hd : toDigit 16 d = some z) (hcode : 16 * (16 * (16 * w + x) + y) + z < 0xD800)
    (h : SpellsBody t s) : SpellsBody ('\\' :: 'u' :: a :: b :: c :: d :: t)
      (Char.ofNat (16 * (16 * (16 * w + x) + y) + z) :: s) := by
  intro out rest
  simp only [cons_append]
  rw [stringFrom, if_neg (by decide), if_pos rfl, stringFrom, if_pos rfl, stringFrom]
  simp only [ha]
  rw [if_pos (by decide), stringFrom]
  simp only [hb]
  rw [if_pos (by decide), stringFrom]
  simp only [hc]
  rw [if_pos (by decide), stringFrom]
  simp only [hd]
  rw [if_neg (by decide), if_neg (by omega), if_neg (by omega), h]
  simp

/-- A text without quotes, backslashes and control characters stands for itself. -/
theorem spellsBody_self
    (h : t.all (fun c => c != '"' && c != '\\' && decide (32 ≤ c.toNat)) = true) :
    SpellsBody t t := by
  induction t with
  | nil => exact spellsBody_nil
  | cons c t ih =>
    simp only [all_cons, Bool.and_eq_true, bne_iff_ne, decide_eq_true_eq] at h
    exact spellsBody_cons h.1.1.1 h.1.1.2 h.1.2 (ih h.2)

theorem spells_str (h : SpellsBody t s) :
    Spells ('"' :: (t ++ ['"'])) (.str s) := by
  refine .of_succ (by decide) fun depth rest _ _ => ?_
  rw [value, skip_cons (by decide)]
  simp [h [] rest]

theorem spells_member {k : List Char} {name : List Char} {v : Json} (hk : SpellsBody k name)
    (ht : Spells t v) : SpellsMember ('"' :: (k ++ '"' :: ':' :: t)) (name, v) := by
  refine ⟨⟨_, _, rfl, by decide, by decide, by decide⟩, ?_⟩
  intro n rest hlen hrest
  simp only [length_cons, length_append] at hlen
  rw [cons_append, append_assoc, member, skip_cons (by decide)]
  simp only [if_true, cons_append, hk [] _, Option.bind_eq_bind, Option.bind_some]
  rw [skip_cons (by decide)]
  simp only [if_true, ht.reads n rest (by omega) hrest, Option.bind_some, nil_append]

theorem dropPrefix?_append_self (w rest : List Char) : (w ++ rest).dropPrefix? w = some rest := by
  rw [dropPrefix?_eq_some_iff]
  exact ⟨w, rfl, by simp⟩

theorem word_append (w : String) (v : Json) (rest : List Char) :
    word w v (w.toList ++ rest) = some (v, rest) := by
  rw [word, dropPrefix?_append_self]
  rfl

theorem spells_null : Spells "null".toList .null :=
  .of_succ (by decide) fun _ rest _ _ => word_append "null" .null rest

theorem spells_bool (b : Bool) : Spells (toString b).toList (.bool b) := by
  cases b with
  | false => exact .of_succ (by decide) fun _ rest _ _ => word_append "false" (.bool false) rest
  | true => exact .of_succ (by decide) fun _ rest _ _ => word_append "true" (.bool true) rest

/-! Decimal numbers. -/

/-- A number with an optional sign and optional digits behind a point. -/
def decimal (neg : Bool) (whole : ℕ) (frac : List Char) : List Char :=
  (if neg then ['-'] else []) ++ Nat.toDigits 10 whole ++ if frac = [] then [] else '.' :: frac

theorem Stops.not_digit (h : Stops rest) (hc : rest.head? = some c) :
    c.isDigit = false ∧ c ≠ '.' ∧ c ≠ 'e' ∧ c ≠ 'E' := by
  rcases h c hc with rfl | rfl | rfl <;> decide

theorem spanDigits_append {ds : List Char} (hds : ∀ c ∈ ds, c.isDigit = true)
    (hrest : ∀ c, rest.head? = some c → c.isDigit = false) :
    spanDigits (ds ++ rest) = (ds, rest) := by
  have hnone : rest.takeWhile Char.isDigit = [] ∧ rest.dropWhile Char.isDigit = rest := by
    cases rest with
    | nil => exact ⟨rfl, rfl⟩
    | cons c rest =>
      have hc := hrest c rfl
      exact ⟨takeWhile_cons_of_neg (by simp [hc]), dropWhile_cons_of_neg (by simp [hc])⟩
  rw [spanDigits, takeWhile_append_of_pos hds, dropWhile_append_of_pos hds, hnone.1,
    hnone.2, append_nil]

theorem isDigit_of_mem_toDigits {n : ℕ} (hc : c ∈ Nat.toDigits 10 n) :
    c.isDigit = true := by
  rw [← padded_zero] at hc
  exact isDigit_of_mem_padded hc

theorem head?_toDigits {n : ℕ} (hn : 0 < n) : (Nat.toDigits 10 n).head? ≠ some '0' := by
  induction n using Nat.strong_induction_on with
  | _ n ih =>
    rw [Nat.toDigits_eq_if (by norm_num)]
    split_ifs with h
    · have hdigits : ∀ d < 10, 0 < d → [Nat.digitChar d].head? ≠ some '0' := by decide
      exact hdigits n h hn
    · have hne : Nat.toDigits 10 (n / 10) ≠ [] := length_pos_iff.1 Nat.length_toDigits_pos
      rw [head?_append_of_ne_nil _ hne]
      exact ih (n / 10) (by omega) (by omega)

/-- No digit stands before the first one, unless it is the only one. -/
theorem toDigits_well_formed (n : ℕ) : ¬((Nat.toDigits 10 n).isEmpty = true ∨
    (1 < (Nat.toDigits 10 n).length ∧ (Nat.toDigits 10 n).head? = some '0')) := by
  rintro (h | ⟨hlen, hhead⟩)
  · have hpos := Nat.length_toDigits_pos (b := 10) (n := n)
    rw [isEmpty_iff.1 h] at hpos
    cases hpos
  · by_cases hn : 0 < n
    · exact head?_toDigits hn hhead
    · obtain rfl : n = 0 := by omega
      exact absurd hlen (by decide)

theorem sign_toDigits (neg : Bool) (n : ℕ) (rest : List Char) :
    sign ((if neg then ['-'] else []) ++ (Nat.toDigits 10 n ++ rest)) =
      (neg, Nat.toDigits 10 n ++ rest) := by
  cases neg with
  | true => rfl
  | false =>
    obtain ⟨c, ds, hds⟩ := exists_cons_of_ne_nil
      (length_pos_iff.1 (Nat.length_toDigits_pos (b := 10) (n := n)))
    have hminus : c ≠ '-' := by
      rintro rfl
      have hdigit : Char.isDigit '-' = true := isDigit_of_mem_toDigits (n := n) (by rw [hds]; simp)
      exact absurd hdigit (by decide)
    rw [hds]
    simp [sign, hminus]

variable {frac : List Char}

theorem fraction_append (hfrac : ∀ c ∈ frac, c.isDigit = true) (hrest : Stops rest) :
    fraction ((if frac = [] then [] else '.' :: frac) ++ rest) = some (frac, rest) := by
  have hspan : spanDigits (frac ++ rest) = (frac, rest) :=
    spanDigits_append hfrac fun c hc => (hrest.not_digit hc).1
  by_cases h : frac = []
  · subst h
    cases rest with
    | nil => rfl
    | cons c rest => simp [fraction, (hrest.not_digit rfl).2.1]
  · rw [if_neg h, cons_append, fraction, hspan]
    simp [h]

theorem exponent_stops (hrest : Stops rest) : exponent rest = some (0, rest) := by
  cases rest with
  | nil => rfl
  | cons c rest =>
    obtain ⟨-, -, h1, h2⟩ := hrest.not_digit rfl
    simp [exponent, h1, h2]

/-- The value of the digits before and behind the point. -/
def decimalValue (neg : Bool) (whole : ℕ) (frac : List Char) : ℚ :=
  signed neg (natOf (Nat.toDigits 10 whole ++ frac) / 10 ^ frac.length)

theorem number_decimal (neg : Bool) (whole : ℕ)
    (hfrac : ∀ c ∈ frac, c.isDigit = true) (hrest : Stops rest) :
    number (decimal neg whole frac ++ rest) = some (.num (decimalValue neg whole frac), rest) := by
  set tail := (if frac = [] then [] else '.' :: frac) ++ rest with htail
  have hsplit : decimal neg whole frac ++ rest =
      (if neg then ['-'] else []) ++ (Nat.toDigits 10 whole ++ tail) := by
    simp [decimal, htail]
  have hhead : ∀ c, tail.head? = some c → c.isDigit = false := by
    intro c hc
    by_cases h : frac = []
    · rw [htail, if_pos h] at hc
      exact (hrest.not_digit hc).1
    · rw [htail, if_neg h] at hc
      cases hc
      decide
  have hspan : spanDigits (Nat.toDigits 10 whole ++ tail) = (Nat.toDigits 10 whole, tail) :=
    spanDigits_append (fun c hc => isDigit_of_mem_toDigits hc) hhead
  have hfraction : fraction tail = some (frac, rest) := fraction_append hfrac hrest
  rw [number, hsplit, sign_toDigits]
  simp only [hspan, if_neg (toDigits_well_formed whole), hfraction, exponent_stops hrest,
    Option.bind_eq_bind, Option.bind_some, zpow_zero, mul_one]
  rfl

theorem spells_decimal (neg : Bool) (whole : ℕ) (hfrac : ∀ c ∈ frac, c.isDigit = true) :
    Spells (decimal neg whole frac) (.num (decimalValue neg whole frac)) := by
  obtain ⟨c, t, ht, hc⟩ : ∃ c t, decimal neg whole frac = c :: t ∧ (c = '-' ∨ c.isDigit = true) := by
    cases neg with
    | true => exact ⟨'-', _, rfl, Or.inl rfl⟩
    | false =>
      obtain ⟨c, ds, hds⟩ := exists_cons_of_ne_nil
        (length_pos_iff.1 (Nat.length_toDigits_pos (b := 10) (n := whole)))
      refine ⟨c, _, by rw [decimal, hds]; rfl, Or.inr ?_⟩
      exact isDigit_of_mem_toDigits (n := whole) (by rw [hds]; simp)
  have hother : ∀ d, d ≠ '-' → d.isDigit = false → c ≠ d := by
    rintro d h1 h2 rfl
    rcases hc with hc | hc
    · exact h1 hc
    · rw [h2] at hc
      cases hc
  have hspace : isSpace c = false := by
    have h1 := hother ' ' (by decide) (by decide)
    have h2 := hother '\t' (by decide) (by decide)
    have h3 := hother '\n' (by decide) (by decide)
    have h4 := hother '\r' (by decide) (by decide)
    simp [isSpace, h1, h2, h3, h4]
  refine ⟨⟨c, t, ht, hspace, hother _ (by decide) (by decide), hother _ (by decide) (by decide)⟩, ?_⟩
  intro n rest hlen hrest
  obtain ⟨depth, rfl⟩ : ∃ k, n = k + 1 := ⟨n - 1, by omega⟩
  have hnumber := number_decimal neg whole hfrac hrest
  rw [ht, cons_append] at hnumber ⊢
  rw [value, skip_cons hspace]
  simp only [if_neg (hother '"' (by decide) (by decide)), if_neg (hother '[' (by decide) (by decide)),
    if_neg (hother '\x7b' (by decide) (by decide)), if_neg (hother 'n' (by decide) (by decide)),
    if_neg (hother 't' (by decide) (by decide)), if_neg (hother 'f' (by decide) (by decide)), hnumber]

end Json

end Sys
