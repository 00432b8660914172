import AegisHV.Proofs.ConfigLines

/-! Inline tables and arrays of action tables, and the law for strings in all positions: what is
written is read back, and text behind a closing quote is refused, except in a plain value. -/

namespace AegisHV.Config

open Sys List Quote

/-! The parts of a table. -/

section

variable {input : List Char} {context : String}

/-- What is left to do when the text is used up. -/
def finishParts (input : List Char) (context : String) (parts : List (List Char))
    (current : List Char) (q : Quote) : Except String (List (List Char)) :=
  splitCommaFrom input context parts current q []

/-- The loop from one comma to the next. -/
theorem splitCommaFrom_eq (text : List Char) : ∀ parts current q,
    splitCommaFrom input context parts current q text =
      match splitOutside (· == ',') q text with
      | (before, [], q') => finishParts input context parts (current ++ before) q'
      | (before, _ :: rest, q') =>
        failIf (trim (current ++ before)).isEmpty s!"empty {context} entry" >>= fun _ =>
          splitCommaFrom input context (parts ++ [trim (current ++ before)]) [] q' rest := by
  induction text with
  | nil =>
    simp [splitOutside, finishParts]
  | cons c text ih =>
    intro parts current q
    rw [splitOutside, splitCommaFrom]
    by_cases hstop : (q.outside && c == ',') = true
    · rw [if_pos hstop, if_pos hstop]
      simp
    · rw [if_neg hstop, if_neg hstop, ih]
      generalize splitOutside (· == ',') (q.next c) text = r
      obtain ⟨before, rest, q'⟩ := r
      cases rest <;> simp

variable {v : List Char}

theorem splitCommaFrom_passes (hv : Passes (· == ',') v) (parts : List (List Char))
    (current rest : List Char) :
    splitCommaFrom input context parts current start (v ++ rest) =
      splitCommaFrom input context parts (current ++ v) start rest := by
  rw [splitCommaFrom_eq, splitCommaFrom_eq rest, hv]
  generalize splitOutside (· == ',') start rest = r
  obtain ⟨before, rest, q⟩ := r
  cases rest <;> simp

/-- A part with a comma behind it. -/
theorem splitCommaFrom_part (hv : Passes (· == ',') v) (hne : v ≠ [])
    (htrim : trim v = v) (parts : List (List Char)) (rest : List Char) :
    splitCommaFrom input context parts [' '] start (v ++ (", ".toList ++ rest)) =
      splitCommaFrom input context (parts ++ [v]) [' '] start rest := by
  have hspace : trim ([' '] ++ v) = v := by
    rw [trim_white_append (by simp [isWhitespace]), htrim]
  have hfull : v.isEmpty = false := by simpa using hne
  rw [splitCommaFrom_passes hv]
  change splitCommaFrom input context parts ([' '] ++ v) start (',' :: ' ' :: rest) = _
  rw [splitCommaFrom, hspace, hfull]
  rfl

theorem splitCommaFrom_last (hv : Passes (· == ',') v) (hne : v ≠ [])
    (htrim : trim v = v) (parts : List (List Char)) :
    splitCommaFrom input context parts [' '] start (v ++ [' ']) = .ok (parts ++ [v]) := by
  have hspace : trim ([' '] ++ v ++ [' ']) = v := by
    rw [trim_append_white (by simp [isWhitespace]), trim_white_append (by simp [isWhitespace]), htrim]
  have hfull : v.isEmpty = false := by simpa using hne
  rw [splitCommaFrom_passes hv, splitCommaFrom, if_neg (by simp)]
  rw [splitCommaFrom, hspace, hfull]
  rfl

/-- The parts found so far stay. -/
theorem splitCommaFrom_extends (text : List Char) : ∀ {parts current out q},
    splitCommaFrom input context parts current q text = .ok out → ∃ more, out = parts ++ more := by
  induction text with
  | nil =>
    intro parts current out q h
    obtain ⟨_, -, h⟩ := except_bind_ok.1 h
    split_ifs at h
    · cases h
      exact ⟨[], by simp⟩
    · cases h
      exact ⟨_, rfl⟩
  | cons c text ih =>
    intro parts current out q h
    rw [splitCommaFrom] at h
    split_ifs at h
    · obtain ⟨_, -, h⟩ := except_bind_ok.1 h
      obtain ⟨more, rfl⟩ := ih h
      exact ⟨_, by rw [append_assoc]⟩
    · exact ih h

/-- A part that does not start with a comma is taken as it is, up to the next one. -/
theorem splitCommaFrom_black {c : Char} {more current : List Char} {parts out : List (List Char)}
    (hc : isWhitespace c = false) (hcomma : c ≠ ',')
    (h : splitCommaFrom input context parts current start (c :: more) = .ok out) :
    ∃ mid, trim (current ++ c :: mid) ∈ out := by
  have hne : ∀ mid, (trim (current ++ c :: mid)).isEmpty = false := by
    intro mid
    have hmem : c ∈ trim (current ++ c :: mid) := mem_trim (by simp) hc
    simpa using ne_nil_of_mem hmem
  rw [splitCommaFrom_eq, splitOutside, if_neg (by simp [hcomma])] at h
  generalize splitOutside (· == ',') (start.next c) more = r at h
  obtain ⟨mid, rest, q⟩ := r
  refine ⟨mid, ?_⟩
  cases rest with
  | nil =>
    simp only [finishParts, splitCommaFrom, hne, Bool.false_eq_true, if_false] at h
    obtain ⟨_, -, h⟩ := except_bind_ok.1 h
    cases h
    simp
  | cons d rest =>
    obtain ⟨_, -, h⟩ := except_bind_ok.1 h
    obtain ⟨more, rfl⟩ := splitCommaFrom_extends _ h
    simp

end

/-! The fields of a table. -/

def fieldText (f : Key × Quoted) : List Char := assignment f.1 f.2.text

/-- Fields with a comma and a space behind each. -/
def fieldsText (fs : List (Key × Quoted)) : List Char :=
  fs.flatMap fun f => fieldText f ++ ", ".toList

def fieldValue (f : Key × Quoted) : List Char × List Char := (f.1.text, f.2.value)

section

variable {stop : Char → Bool}

/-- The characters a table is made of outside its strings. -/
def Plain (stop : Char → Bool) : Prop :=
  (∀ c, isKeyChar c = true → stop c = false) ∧ stop ' ' = false ∧ stop '=' = false ∧
    stop '"' = false

theorem passes_assignment (h : Plain stop) (key : Key) {v : List Char} (hv : Passes stop v) :
    Passes stop (assignment key v) := by
  apply Passes.append _ hv
  apply (key.passes h.1).append
  apply passes_chars
  simp [h.2.1, h.2.2.1]

theorem passes_fieldText (h : Plain stop) (f : Key × Quoted) : Passes stop (fieldText f) :=
  passes_assignment h f.1 (passes_literal h.2.2.2 f.2.spells)

theorem passes_fieldsText (h : Plain stop) (hcomma : stop ',' = false) (fs : List (Key × Quoted)) :
    Passes stop (fieldsText fs) := by
  apply passes_flatMap
  intro f hf
  apply (passes_fieldText h f).append
  apply passes_chars
  simp [h.2.1, hcomma]

theorem plain_comma : Plain (· == ',') :=
  ⟨not_isKeyChar (by decide), by decide, by decide, by decide⟩

end

theorem fieldText_ne_nil (f : Key × Quoted) : fieldText f ≠ [] := by
  simp [fieldText, assignment, f.1.ne_nil]

theorem trim_fieldText (f : Key × Quoted) : trim (fieldText f) = fieldText f := by
  rw [fieldText, Quoted.text, literal_eq, trim_assignment f.1 quote_black, ← literal_eq, trim_literal]

theorem splitCommaFrom_fields {input : List Char} {context : String} (fs : List (Key × Quoted))
    (rest : List Char) : ∀ parts,
    splitCommaFrom input context parts [' '] start (fieldsText fs ++ rest) =
      splitCommaFrom input context (parts ++ fs.map fieldText) [' '] start rest := by
  induction fs with
  | nil =>
    simp [fieldsText]
  | cons f fs ih =>
    intro parts
    have hcons : fieldsText (f :: fs) ++ rest =
        fieldText f ++ (", ".toList ++ (fieldsText fs ++ rest)) := by
      simp [fieldsText]
    rw [hcons, splitCommaFrom_part (passes_fieldText plain_comma f) (fieldText_ne_nil f)
      (trim_fieldText f), ih]
    simp

theorem addPart_fieldText {out : List (List Char × List Char)} (f : Key × Quoted)
    (hnew : f.1.text ∉ out.map Prod.fst) :
    addPart out (fieldText f) = .ok (out ++ [fieldValue f]) := by
  have hkeep : trim (literal f.2.body ++ []) = literal f.2.body ++ [] := by
    rw [append_nil, trim_literal]
  have hvalue := parseInlineValue_literal f.2.spells hkeep
  rw [append_nil] at hvalue
  have hsplit : splitKeyValue (fieldText f) = .ok (f.1.text, literal f.2.body) := by
    rw [fieldText, Quoted.text, splitKeyValue_assignment, trim_literal]
    rw [trim_literal]
    simp [literal]
  have hseen : (out.map Prod.fst).contains f.1.text = false := by simpa using hnew
  simp only [addPart, hsplit, Except.mapError, except_ok_bind, hseen, hvalue]
  rfl

theorem foldlM_addPart (fs : List (Key × Quoted)) : ∀ {out : List (List Char × List Char)},
    (out.map Prod.fst ++ fs.map fun f => f.1.text).Nodup →
      (fs.map fieldText).foldlM addPart out = .ok (out ++ fs.map fieldValue) := by
  induction fs with
  | nil =>
    intro out h
    simp
    rfl
  | cons f fs ih =>
    intro out h
    have hnew : f.1.text ∉ out.map Prod.fst := by
      intro hmem
      exact (disjoint_of_nodup_append h) hmem (by simp)
    have hrest : ((out ++ [fieldValue f]).map Prod.fst ++ fs.map fun f => f.1.text).Nodup := by
      simpa [fieldValue] using h
    rw [map_cons, foldlM_cons, addPart_fieldText f hnew, except_ok_bind, ih hrest]
    simp

/-- A place in a table: the fields before it, and its key, which is a new one. -/
structure Slot where
  before : List (Key × Quoted)
  key : Key
  distinct : ((before.map fun f => f.1.text) ++ [key.text]).Nodup

namespace Slot

/-- The fields with a literal in the place. -/
def fields (slot : Slot) (q : Quoted) : List (Key × Quoted) := slot.before ++ [(slot.key, q)]

/-- The text of the table up to the literal. -/
def front (slot : Slot) : List Char := ' ' :: (fieldsText slot.before ++ assignment slot.key [])

theorem front_append (slot : Slot) (q : Quoted) (rest : List Char) :
    slot.front ++ (q.text ++ rest) =
      [' '] ++ (fieldsText slot.before ++ (fieldText (slot.key, q) ++ rest)) := by
  simp [front, fieldText, assignment]

theorem passes_front (slot : Slot) {stop : Char → Bool} (h : Plain stop) (hcomma : stop ',' = false) :
    Passes stop slot.front := by
  have hspace : Passes stop [' '] := passes_chars (by simp [h.2.1])
  apply hspace.append
  exact (passes_fieldsText h hcomma _).append (passes_assignment h _ passes_nil)

end Slot

theorem parseInlineTable_slot (slot : Slot) (q : Quoted) :
    parseInlineTable ('\x7b' :: (slot.front ++ (q.text ++ [' ']) ++ ['\x7d'])) =
      .ok ((slot.fields q).map fieldValue) := by
  have hspace : Passes (· == ',') [' '] := passes_chars (by simp)
  have hparts : splitCommaParts (slot.front ++ (q.text ++ [' '])) "inline table" =
      .ok ((slot.fields q).map fieldText) := by
    rw [splitCommaParts, slot.front_append, splitCommaFrom_passes hspace, nil_append,
      splitCommaFrom_fields, splitCommaFrom_last (passes_fieldText plain_comma _)
      (fieldText_ne_nil _) (trim_fieldText _)]
    simp [Slot.fields]
  have hdistinct : ((slot.fields q).map fun f => f.1.text).Nodup := by
    simpa [Slot.fields] using slot.distinct
  rw [parseInlineTable, trim_brackets (by decide) (by decide), stripBrackets_brackets]
  simp only [okOr, except_ok_bind, hparts]
  exact foldlM_addPart _ hdistinct

section

variable {gap more : List Char} {c : Char}

theorem passes_white {stop : Char → Bool} (hstop : ∀ d, isWhitespace d = true → stop d = false)
    (hgap : ∀ d ∈ gap, isWhitespace d = true) : Passes stop gap := by
  apply passes_chars
  intro d hd
  refine ⟨?_, hstop d (hgap d hd)⟩
  rintro rfl
  exact absurd (hgap _ hd) (by decide)

theorem not_white {d : Char} (hd : isWhitespace d = false) :
    ∀ c, isWhitespace c = true → (c == d) = false := by
  intro c hc
  rw [beq_eq_false_iff_ne]
  rintro rfl
  rw [hc] at hd
  cases hd

theorem addPart_junk (key : Key) (q : Quoted) (hgap : ∀ d ∈ gap, isWhitespace d = true)
    (hc : isWhitespace c = false) (t t' : List (List Char × List Char)) :
    addPart t (trim ([' '] ++ assignment key (q.text ++ gap ++ c :: more))) ≠ .ok t' := by
  intro h
  have hopen : q.text ++ gap ++ c :: more = '"' :: (q.body ++ ['"'] ++ gap ++ c :: more) := by
    simp [Quoted.text, literal]
  have hsplit : splitKeyValue (trim ([' '] ++ assignment key (q.text ++ gap ++ c :: more))) =
      .ok (key.text, trim (q.text ++ gap ++ c :: more)) := by
    have hne : trim (trim (q.text ++ gap ++ c :: more)) ≠ [] := by
      rw [trim_trim, hopen, trim_cons quote_black]
      simp
    rw [trim_white_append (by simp [isWhitespace]), hopen, trim_assignment key quote_black, ← hopen,
      splitKeyValue_assignment key hne, trim_trim]
  rw [addPart, hsplit] at h
  simp only [Except.mapError, except_ok_bind] at h
  obtain ⟨_, -, h⟩ := except_bind_ok.1 h
  obtain ⟨parsed, hparsed, -⟩ := except_bind_ok.1 h
  obtain ⟨e, herror⟩ : ∃ e, parseInlineValue (q.text ++ gap ++ c :: more) = .error e :=
    parseInlineValue_junk q hgap hc
  rw [parseInlineValue, trim_trim, ← parseInlineValue, herror] at hparsed
  cases hparsed

theorem parseInlineTable_junk (slot : Slot) (q : Quoted) (hgap : ∀ d ∈ gap, isWhitespace d = true)
    (hc : isWhitespace c = false) (hcomma : c ≠ ',')
    (hclose : c = '\x7d' → more.any (!isWhitespace ·) = true) (out : List (List Char × List Char)) :
    parseInlineTable ('\x7b' :: (slot.front ++ (q.text ++ gap) ++ c :: more)) ≠ .ok out := by
  intro h
  simp only [parseInlineTable, except_bind_ok, okOr_eq_ok] at h
  obtain ⟨inner, hstrip, parts, hparts, hfold⟩ := h
  obtain ⟨more', rfl⟩ := stripBrackets_trim (by decide) hc hclose hstrip
  have hspace : Passes (· == ',') [' '] := passes_chars (by simp)
  have hgapPass : Passes (· == ',') (fieldText (slot.key, q) ++ gap) := by
    apply (passes_fieldText plain_comma _).append
    exact passes_white (not_white (by decide)) hgap
  have hassoc : slot.front ++ (q.text ++ gap) ++ c :: more' =
      [' '] ++ (fieldsText slot.before ++ (fieldText (slot.key, q) ++ gap ++ c :: more')) := by
    rw [append_assoc, append_assoc, slot.front_append]
    simp
  rw [splitCommaParts, hassoc, splitCommaFrom_passes hspace, nil_append, splitCommaFrom_fields,
    splitCommaFrom_passes hgapPass] at hparts
  obtain ⟨mid, hmem⟩ := splitCommaFrom_black hc hcomma hparts
  have hpart : [' '] ++ (fieldText (slot.key, q) ++ gap) ++ c :: mid =
      [' '] ++ assignment slot.key (q.text ++ gap ++ c :: mid) := by
    simp [fieldText, assignment]
  rw [hpart] at hmem
  exact foldlM_ne_ok hmem (addPart_junk slot.key q hgap hc) [] out hfold

end

/-! Action tables. -/

inductive ActionKey
  | kind
  | outputPath
  | nic

namespace ActionKey

def key : ActionKey → Key
  | kind => ⟨"kind".toList, by decide, rfl⟩
  | outputPath => ⟨"output_path".toList, by decide, rfl⟩
  | nic => ⟨"nic".toList, by decide, rfl⟩

theorem key_text_injective : Function.Injective fun k : ActionKey => k.key.text := by
  intro k k' h
  cases k <;> cases k' <;> first | rfl | exact absurd h (by decide)

end ActionKey

namespace Action

def empty : Action := ⟨[], [], []⟩

def put (a : Action) (k : ActionKey) (v : List Char) : Action :=
  match k with
  | .kind => { a with kind := v }
  | .outputPath => { a with outputPath := v }
  | .nic => { a with nic := v }

end Action

theorem setAction_key (a : Action) (k : ActionKey) (v : List Char) :
    setAction a (k.key.text, v) = .ok (a.put k v) := by
  cases k <;> rfl

/-- A place in an action table. -/
structure ActionSlot where
  before : List (ActionKey × Quoted)
  key : ActionKey
  distinct : (before.map Prod.fst ++ [key]).Nodup

namespace ActionSlot

def field (f : ActionKey × Quoted) : Key × Quoted := (f.1.key, f.2)

def slot (place : ActionSlot) : Slot where
  before := place.before.map field
  key := place.key.key
  distinct := by
    have h := place.distinct.map ActionKey.key_text_injective
    simpa [field, Function.comp_def] using h

/-- The action with a string in the place. -/
def action (place : ActionSlot) (s : List Char) : Action :=
  (place.before.foldl (fun a f => a.put f.1 f.2.value) Action.empty).put place.key s

end ActionSlot

theorem foldlM_setAction (fs : List (ActionKey × Quoted)) : ∀ a : Action,
    (fs.map fun f => fieldValue (ActionSlot.field f)).foldlM setAction a =
      .ok (fs.foldl (fun a f => a.put f.1 f.2.value) a) := by
  induction fs with
  | nil =>
    intro a
    rfl
  | cons f fs ih =>
    intro a
    exact (congrArg (· >>= _) (setAction_key a f.1 f.2.value)).trans (ih _)

/-- The text of a table with a literal in the place. -/
def tableText (slot : Slot) (q : Quoted) : List Char :=
  '\x7b' :: (slot.front ++ (q.text ++ [' ']) ++ ['\x7d'])

theorem parseActionInline_slot (place : ActionSlot) (q : Quoted) :
    parseActionInline (tableText place.slot q) = .ok (place.action q.value) := by
  have hfields : (place.slot.fields q).map fieldValue =
      (place.before ++ [(place.key, q)]).map fun f => fieldValue (ActionSlot.field f) := by
    simp [Slot.fields, ActionSlot.slot, ActionSlot.field]
  rw [parseActionInline, tableText, parseInlineTable_slot, hfields]
  refine (foldlM_setAction _ _).trans ?_
  rw [foldl_append]
  rfl

theorem splitOutside_append (stop : Char → Bool) (text : List Char) : ∀ q,
    (splitOutside stop q text).1 ++ (splitOutside stop q text).2.1 = text := by
  induction text with
  | nil => exact fun _ => rfl
  | cons c text ih =>
    intro q
    rw [splitOutside]
    split_ifs
    · rfl
    · exact congrArg (c :: ·) (ih (q.next c))

theorem plain_isTableStop : Plain isTableStop := by
  refine ⟨?_, by decide, by decide, by decide⟩
  intro c hc
  simp only [isTableStop, Bool.or_eq_false_iff]
  exact ⟨⟨not_isKeyChar (by decide) c hc, not_isKeyChar (by decide) c hc⟩,
    not_isKeyChar (by decide) c hc⟩

/-- The loop passes over the table up to the closing quote. -/
theorem passes_slot (slot : Slot) (q : Quoted) : Passes isTableStop (slot.front ++ q.text) := by
  exact (slot.passes_front plain_isTableStop (by decide)).append (passes_literal (by decide) q.spells)

variable {rest : List Char}

theorem findInlineTableEnd_eq_ok {v : List Char} (hv : Passes isTableStop v)
    {n : ℕ} : findInlineTableEnd ('\x7b' :: (v ++ rest)) = .ok n ↔
      ∃ before d tail q, splitOutside isTableStop start rest = (before, d :: tail, q) ∧
        d ≠ '\x7b' ∧ d ≠ '[' ∧ n = (v ++ before).length + 2 := by
  have hnext : start.next '\x7b' = start := rfl
  rw [findInlineTableEnd, hnext, hv rest]
  generalize splitOutside isTableStop start rest = r
  obtain ⟨before, _ | ⟨d, tail⟩, q⟩ := r
  · simp [except_bind_ok]
  · by_cases h1 : d = '\x7b'
    · simp [h1]
    · by_cases h2 : d = '['
      · simp [h2]
      · simp [h1, h2, eq_comm]

theorem findInlineTableEnd_tableText (slot : Slot) (q : Quoted) (rest : List Char) :
    findInlineTableEnd (tableText slot q ++ rest) = .ok (tableText slot q).length := by
  have hpass : Passes isTableStop (slot.front ++ (q.text ++ [' '])) := by
    rw [← append_assoc]
    exact (passes_slot slot q).append (passes_chars (by simp [isTableStop]))
  have hassoc : tableText slot q ++ rest =
      '\x7b' :: (slot.front ++ (q.text ++ [' ']) ++ '\x7d' :: rest) := by
    simp [tableText]
  rw [hassoc, findInlineTableEnd_eq_ok hpass]
  refine ⟨[], '\x7d', rest, start, splitOutside_stop (by decide) rest, by decide, by decide, ?_⟩
  simp [tableText]
  omega

/-! Arrays of action tables. -/

/-- What the loop does behind a table. -/
def afterTable (out : List Action) (turns : ℕ) (rest : List Char) : Except String (List Action) :=
  if rest.isEmpty then pure out
  else do
    failIf (rest.head? != some ',') "expected comma between actions array entries"
    failIf (trimStart (rest.drop 1)).isEmpty "trailing comma in actions array"
    parseActions out turns (trimStart (rest.drop 1))

theorem parseActions_table {out : List Action} {turns : ℕ} (place : ActionSlot) (q : Quoted)
    (rest : List Char) : parseActions out (turns + 1) (tableText place.slot q ++ rest) =
      afterTable (out ++ [place.action q.value]) turns (trimStart rest) := by
  have hhead : (tableText place.slot q ++ rest).head? = some '\x7b' := rfl
  have hbrace : ((some '\x7b' : Option Char) != some '\x7b') = false := by decide
  simp only [parseActions, hhead, hbrace, failIf, Bool.false_eq_true, if_false, except_ok_bind,
    findInlineTableEnd_tableText, take_left, parseActionInline_slot, drop_left, afterTable]

/-- Tables with a comma and a space behind each. -/
def tablesText (ts : List (ActionSlot × Quoted)) : List Char :=
  ts.flatMap fun t => tableText t.1.slot t.2 ++ ", ".toList

def tableAction (t : ActionSlot × Quoted) : Action := t.1.action t.2.value

theorem tablesText_cons (t : ActionSlot × Quoted) (ts : List (ActionSlot × Quoted)) :
    tablesText (t :: ts) = tableText t.1.slot t.2 ++ (", ".toList ++ tablesText ts) := by
  simp [tablesText]

theorem head?_tablesText (ts : List (ActionSlot × Quoted))
    (hrest : rest.head? = some '\x7b') : (tablesText ts ++ rest).head? = some '\x7b' := by
  cases ts with
  | nil => exact hrest
  | cons t ts => rfl

theorem parseActions_tables (ts : List (ActionSlot × Quoted))
    (hrest : rest.head? = some '\x7b') (turns : ℕ) : ∀ out,
    parseActions out (ts.length + turns) (tablesText ts ++ rest) =
      parseActions (out ++ ts.map tableAction) turns rest := by
  induction ts with
  | nil =>
    simp [tablesText]
  | cons t ts ih =>
    intro out
    have hturns : (t :: ts).length + turns = ts.length + turns + 1 := by
      rw [length_cons]
      omega
    obtain ⟨tail, htail⟩ := head?_eq_some_iff.1 (head?_tablesText ts hrest)
    rw [tablesText_cons, hturns, append_assoc, append_assoc, parseActions_table]
    have hafter : afterTable (out ++ [t.1.action t.2.value]) (ts.length + turns)
        (trimStart (", ".toList ++ (tablesText ts ++ rest))) =
          parseActions (out ++ [t.1.action t.2.value]) (ts.length + turns) (tablesText ts ++ rest) := by
      rw [htail]
      rfl
    rw [hafter, ih]
    simp [tableAction]

theorem length_tablesText (ts : List (ActionSlot × Quoted)) : ts.length ≤ (tablesText ts).length := by
  induction ts with
  | nil => exact le_rfl
  | cons t ts ih =>
    rw [tablesText_cons]
    simp [tableText]
    omega

theorem parseActions_front (ts : List (ActionSlot × Quoted))
    (hrest : rest.head? = some '\x7b') : ∃ turns,
    parseActions [] (tablesText ts ++ rest).length (tablesText ts ++ rest) =
      parseActions (ts.map tableAction) (turns + 1) rest := by
  have hlen := length_tablesText ts
  obtain ⟨tail, rfl⟩ := head?_eq_some_iff.1 hrest
  obtain ⟨turns, hturns⟩ : ∃ turns, (tablesText ts ++ '\x7b' :: tail).length =
      ts.length + (turns + 1) :=
    ⟨(tablesText ts ++ '\x7b' :: tail).length - ts.length - 1, by
      rw [length_append, length_cons]
      omega⟩
  refine ⟨turns, ?_⟩
  rw [hturns, parseActions_tables ts rfl, nil_append]

theorem trim_tables (ts : List (ActionSlot × Quoted)) {tail : List Char} {c : Char}
    (hc : isWhitespace c = false) : trim (tablesText ts ++ '\x7b' :: (tail ++ [c])) =
      tablesText ts ++ '\x7b' :: (tail ++ [c]) := by
  have hhead : (tablesText ts ++ '\x7b' :: (tail ++ [c])).head? = some '\x7b' :=
    head?_tablesText ts rfl
  have hlast : (tablesText ts ++ '\x7b' :: (tail ++ [c])).getLast? = some c := by
    rw [← cons_append, ← append_assoc]
    exact getLast?_concat
  apply trim_of_ends
  · intro d hd
    rw [hhead] at hd
    cases hd
    decide
  · intro d hd
    rw [hlast] at hd
    cases hd
    exact hc

theorem parseActionsArray_tables (ts : List (ActionSlot × Quoted)) (place : ActionSlot)
    (q : Quoted) : parseActionsArray ('[' :: (tablesText ts ++ tableText place.slot q ++ [']'])) =
      .ok (ts.map tableAction ++ [place.action q.value]) := by
  have htrim : trim (tablesText ts ++ tableText place.slot q) =
      tablesText ts ++ tableText place.slot q := trim_tables ts (by decide)
  have hne : (tablesText ts ++ tableText place.slot q).isEmpty = false := by simp [tableText]
  obtain ⟨turns, hturns⟩ := parseActions_front ts (rfl : (tableText place.slot q).head? = some '\x7b')
  rw [parseActionsArray, trim_brackets (by decide) (by decide), stripBrackets_brackets, okOr,
    except_ok_bind]
  simp only [htrim, hne, Bool.false_eq_true, if_false]
  have hlast : parseActions (ts.map tableAction) (turns + 1) (tableText place.slot q ++ []) =
      .ok (ts.map tableAction ++ [place.action q.value]) := parseActions_table place q []
  rw [append_nil] at hlast
  rw [hturns, hlast]

section

variable {gap more : List Char} {c : Char}

/-- A table that is not closed behind a literal is not taken. -/
theorem parseActions_unclosed {turns : ℕ} {acc : List Action} (slot : Slot) (q : Quoted)
    (out : List Action) :
    parseActions acc (turns + 1) ('\x7b' :: (slot.front ++ q.text)) ≠ .ok out := by
  intro h
  simp only [parseActions, except_bind_ok] at h
  obtain ⟨_, -, n, hn, -⟩ := h
  rw [← append_nil (slot.front ++ q.text), findInlineTableEnd_eq_ok (passes_slot slot q)] at hn
  obtain ⟨before, d, tail, q', hsplit, -⟩ := hn
  cases hsplit

theorem parseActions_junk {turns : ℕ} {acc : List Action} (slot : Slot) (q : Quoted)
    (hgap : ∀ d ∈ gap, isWhitespace d = true) (hc : isWhitespace c = false) (hcomma : c ≠ ',')
    (hclose : c ≠ '\x7d') (out : List Action) :
    parseActions acc (turns + 1) ('\x7b' :: (slot.front ++ (q.text ++ gap) ++ c :: more)) ≠
      .ok out := by
  intro h
  have hpass : Passes isTableStop (slot.front ++ (q.text ++ gap)) := by
    rw [← append_assoc]
    refine (passes_slot slot q).append (passes_white ?_ hgap)
    intro d hd
    simp only [isTableStop, Bool.or_eq_false_iff]
    exact ⟨⟨not_white (by decide) d hd, not_white (by decide) d hd⟩, not_white (by decide) d hd⟩
  simp only [parseActions, except_bind_ok] at h
  obtain ⟨_, -, n, hn, action, haction, -⟩ := h
  obtain ⟨before, d, tail, q', hsplit, h1, h2, rfl⟩ := (findInlineTableEnd_eq_ok hpass).1 hn
  have htext := splitOutside_append isTableStop (c :: more) start
  rw [hsplit] at htext
  -- the loop has gone over the junk, so the table that is cut out holds it
  obtain ⟨mid, rfl⟩ : ∃ mid, before = c :: mid := by
    rcases append_eq_cons_iff.1 htext with ⟨rfl, hd⟩ | ⟨mid, hmid, -⟩
    · obtain ⟨rfl, -⟩ := List.cons.inj hd
      by_cases hstop : isTableStop d = true
      · simp [isTableStop, h1, h2, hclose] at hstop
      · rw [splitOutside, if_neg (by simp [hstop])] at hsplit
        simp at hsplit
    · exact ⟨mid, hmid⟩
  have htake : ('\x7b' :: (slot.front ++ (q.text ++ gap) ++ c :: more)).take
      ((slot.front ++ (q.text ++ gap) ++ c :: mid).length + 2) =
        '\x7b' :: (slot.front ++ (q.text ++ gap) ++ c :: (mid ++ [d])) := by
    have hcut : '\x7b' :: (slot.front ++ (q.text ++ gap) ++ c :: more) =
        ('\x7b' :: (slot.front ++ (q.text ++ gap) ++ c :: (mid ++ [d]))) ++ tail := by
      rw [← htext]
      simp
    rw [hcut]
    apply take_left'
    simp
    omega
  rw [htake, parseActionInline, except_bind_ok] at haction
  obtain ⟨fields, hfields, -⟩ := haction
  exact parseInlineTable_junk slot q hgap hc hcomma (fun h => absurd h hclose) fields hfields

theorem parseActionsArray_junk (ts : List (ActionSlot × Quoted)) (slot : Slot) (q : Quoted)
    (hgap : ∀ d ∈ gap, isWhitespace d = true) (hc : isWhitespace c = false) (hcomma : c ≠ ',')
    (hclose : c ≠ '\x7d') (out : List Action) :
    parseActionsArray ('[' :: (tablesText ts ++ '\x7b' :: (slot.front ++ (q.text ++ gap)) ++
      c :: more)) ≠ .ok out := by
  intro h
  set front := tablesText ts ++ '\x7b' :: (slot.front ++ (q.text ++ gap)) with hfront
  simp only [parseActionsArray, except_bind_ok, okOr_eq_ok] at h
  obtain ⟨inner, hstrip, h⟩ := h
  by_cases hend : c = ']' ∧ more.any (!isWhitespace ·) = false
  · -- the closing bracket stands right behind the literal
    obtain ⟨rfl, hwhite⟩ := hend
    have hnil : more.rdropWhile isWhitespace = [] := by
      rw [rdropWhile_eq_nil_iff]
      intro d hd
      simpa using any_eq_false.1 hwhite d hd
    rw [trim_cons (by decide), rdropWhile_append_cons hc, hnil, stripBrackets_brackets] at hstrip
    cases hstrip
    have htrim : trim front = tablesText ts ++ '\x7b' :: (slot.front ++ q.text) := by
      have hassoc : front = (tablesText ts ++ '\x7b' :: (slot.front ++ q.text)) ++ gap := by
        simp [hfront]
      have hquote : slot.front ++ q.text = (slot.front ++ '"' :: q.body) ++ ['"'] := by
        simp [Quoted.text, literal]
      rw [hassoc, trim_append_white hgap, hquote, trim_tables ts quote_black]
    have hne : (tablesText ts ++ '\x7b' :: (slot.front ++ q.text)).isEmpty = false := by simp
    rw [htrim] at h
    simp only [hne, Bool.false_eq_true, if_false] at h
    obtain ⟨turns, hturns⟩ := parseActions_front ts
      (rfl : ('\x7b' :: (slot.front ++ q.text)).head? = some '\x7b')
    rw [hturns] at h
    exact parseActions_unclosed slot q out h
  · have hmore : c = ']' → more.any (!isWhitespace ·) = true := by
      intro hbracket
      by_contra hno
      exact hend ⟨hbracket, by simpa using hno⟩
    obtain ⟨more₂, rfl⟩ := stripBrackets_trim (by decide) hc hmore hstrip
    have hhead : front.head? = some '\x7b' := head?_tablesText ts rfl
    obtain ⟨more₃, htrim⟩ := trim_append_cons (a := front) (b := more₂)
      (by intro d hd; rw [hhead] at hd; cases hd; decide) hc
    have hassoc : front ++ c :: more₃ =
        tablesText ts ++ '\x7b' :: (slot.front ++ (q.text ++ gap) ++ c :: more₃) := by
      simp [hfront]
    have hne : (front ++ c :: more₃).isEmpty = false := by simp
    rw [htrim] at h
    simp only [hne, Bool.false_eq_true, if_false] at h
    obtain ⟨turns, hturns⟩ := parseActions_front ts
      (rfl : ('\x7b' :: (slot.front ++ (q.text ++ gap) ++ c :: more₃)).head? = some '\x7b')
    rw [hassoc, hturns] at h
    exact parseActions_junk slot q hgap hc hcomma hclose out h

end

/-! All positions of a string. -/

inductive Value
  | text (s : List Char)
  | strings (ss : List (List Char))
  | fields (fs : List (List Char × List Char))
  | actions (as : List Action)
  deriving DecidableEq

/-- Where a string stands in the value of a key, with what stands before it. -/
inductive Place
  | plain
  | element (before : List Quoted)
  | field (slot : Slot)
  | action (before : List (ActionSlot × Quoted)) (slot : ActionSlot)

namespace Place

/-- The text of the value up to the literal. -/
def front : Place → List Char
  | plain => []
  | element before => '[' :: elements before
  | field slot => '\x7b' :: slot.front
  | action before place => '[' :: (tablesText before ++ '\x7b' :: place.slot.front)

/-- What closes the value behind the literal. -/
def back : Place → List Char
  | plain => []
  | element _ => [']']
  | field _ => [' ', '\x7d']
  | action _ _ => [' ', '\x7d', ']']

/-- The value with a string in the place. -/
def value (s : List Char) : Place → Value
  | plain => .text s
  | element before => .strings (before.map Quoted.value ++ [s])
  | field slot => .fields (slot.before.map fieldValue ++ [(slot.key.text, s)])
  | action before place => .actions (before.map tableAction ++ [place.action s])

/-- The decoder the setters use for the kind of value. -/
def parse (v : List Char) : Place → Except String Value
  | plain => pure (.text (parseStringValue v))
  | element _ => .strings <$> parseStringArrayStrict v
  | field _ => .fields <$> parseInlineTable v
  | action _ _ => .actions <$> parseActionsArray v

/-- The line with a literal in the place and any text behind it. -/
def line (place : Place) (key : Key) (q : Quoted) (tail : List Char) : List Char :=
  assignment key (place.front ++ q.text ++ tail)

/-- There is text behind the closing quote that neither separates nor closes. -/
def foreign (out : List Char) (place : Place) : Bool :=
  match trimStart out with
  | [] => false
  | c :: more =>
    match place with
    | plain => true
    | element _ => c != ',' && (c != ']' || more.any (!isWhitespace ·))
    | field _ => c != ',' && (c != '\x7d' || more.any (!isWhitespace ·))
    | action _ _ => c != ',' && c != '\x7d'

end Place

/-- A line read as the assignment of a value of the place's kind. -/
def load (place : Place) (raw : List Char) : Except String (Option (List Char × Value)) := do
  match ← readLine raw with
  | .assign key v => do
    let value ← place.parse v
    pure (some (key, value))
  | _ => pure none

namespace Place

/-- The decoders trim their text, so it matters only in the texts of errors. -/
theorem parse_trim {v : List Char} {r : Value} (place : Place) :
    place.parse (trim v) = .ok r ↔ place.parse v = .ok r := by
  cases place with
  | plain => simp [parse, parseStringValue, trim_trim]
  | element before => simp [parse, parseStringArrayStrict, trim_trim]
  | field slot =>
    simp only [parse, parseInlineTable, map_eq_pure_bind, except_bind_ok, okOr_eq_ok, trim_trim]
  | action before slot => simp [parse, parseActionsArray, trim_trim]

theorem plain_hash : Plain (· == '#') :=
  ⟨not_isKeyChar (by decide), by decide, by decide, by decide⟩

theorem passes_hash_elements (qs : List Quoted) : Passes (· == '#') (elements qs) := by
  apply passes_flatMap
  intro q hq
  apply (passes_literal (by decide) q.spells).append
  exact passes_chars (by simp)

theorem passes_hash_tables (ts : List (ActionSlot × Quoted)) :
    Passes (· == '#') (tablesText ts) := by
  have hopen : Passes (· == '#') ['\x7b'] := passes_chars (by simp)
  apply passes_flatMap
  intro t ht
  have hend : Passes (· == '#') [' ', '\x7d', ',', ' '] := passes_chars (by simp)
  have htext : tableText t.1.slot t.2 ++ ", ".toList =
      ['\x7b'] ++ (t.1.slot.front ++ (t.2.text ++ [' ', '\x7d', ',', ' '])) := by
    simp [tableText]
  rw [htext]
  apply hopen.append
  apply (t.1.slot.passes_front plain_hash (by decide)).append
  exact (passes_literal (by decide) t.2.spells).append hend

/-- A comment is not looked for before the closing quote. -/
theorem passes_hash (place : Place) (q : Quoted) : Passes (· == '#') (place.front ++ q.text) := by
  have hopen : ∀ c, c = '[' ∨ c = '\x7b' → Passes (· == '#') [c] := by
    intro c hc
    apply passes_chars
    rcases hc with rfl | rfl <;> simp
  refine Passes.append ?_ (passes_literal (by decide) q.spells)
  cases place with
  | plain => exact passes_nil
  | element before => exact (hopen _ (Or.inl rfl)).append (passes_hash_elements before)
  | field slot => exact (hopen _ (Or.inr rfl)).append (slot.passes_front plain_hash (by decide))
  | action before place =>
    apply (hopen _ (Or.inl rfl)).append
    apply (passes_hash_tables before).append
    exact (hopen _ (Or.inr rfl)).append (place.slot.passes_front plain_hash (by decide))

theorem front_text (place : Place) (q : Quoted) :
    ∃ c v, place.front ++ q.text = c :: v ∧ isWhitespace c = false := by
  cases place with
  | plain => exact ⟨_, _, rfl, quote_black⟩
  | element before => exact ⟨_, _, rfl, by decide⟩
  | field slot => exact ⟨_, _, rfl, by decide⟩
  | action before place => exact ⟨_, _, rfl, by decide⟩

theorem load_eq_ok (place : Place) (key : Key) (q : Quoted) (tail : List Char)
    (r : Option (List Char × Value)) : load place (place.line key q tail) = .ok r ↔
      ∃ out, stripComment tail = .ok out ∧
        ∃ value, place.parse (place.front ++ q.text ++ out) = .ok value ∧ r = some (key.text, value) := by
  obtain ⟨c, v, hfront, hc⟩ := place.front_text q
  have hpass := place.passes_hash q
  rw [hfront] at hpass
  rw [load, line, hfront, readLine_assignment key hc hpass]
  simp only [bind_assoc, pure_bind, except_bind_ok, parse_trim]
  simp [pure, Except.pure, eq_comm]

/-- What is read back: in a plain value the result of the plain decoder, else the string. -/
def decoded (q : Quoted) : Place → List Char
  | plain => parseStringValue q.text
  | _ => q.value

theorem parse_back (place : Place) (q : Quoted) :
    place.parse (place.front ++ q.text ++ place.back) = .ok (place.value (place.decoded q)) := by
  cases place with
  | plain =>
    rw [back, append_nil]
    rfl
  | element before =>
    have h := parseStringArrayStrict_elements before q
    rw [parse, front, back, cons_append, cons_append, h]
    rfl
  | field slot =>
    have h := parseInlineTable_slot slot q
    have htext : front (field slot) ++ q.text ++ back (field slot) =
        '\x7b' :: (slot.front ++ (q.text ++ [' ']) ++ ['\x7d']) := by
      simp [front, back]
    rw [parse, htext, h]
    simp [Slot.fields, value, decoded, fieldValue]
  | action before place =>
    have h := parseActionsArray_tables before place q
    have htext : front (action before place) ++ q.text ++ back (action before place) =
        '[' :: (tablesText before ++ tableText place.slot q ++ [']']) := by
      simp [front, back, tableText]
    rw [parse, htext, h]
    rfl

theorem stripComment_back (place : Place) (note : Option (List Char)) :
    ∃ out, stripComment (place.back ++ comment note) = .ok (place.back ++ out) ∧
      ∀ c ∈ out, isWhitespace c = true := by
  have hpass : Passes (· == '#') place.back := by
    apply passes_chars
    cases place <;> simp [back]
  obtain ⟨out, hout, hwhite⟩ := stripComment_comment note
  exact ⟨out, by rw [stripComment_passes hpass, hout]; rfl, hwhite⟩

theorem load_back (place : Place) (key : Key) (q : Quoted) (note : Option (List Char)) :
    load place (place.line key q (place.back ++ comment note)) =
      .ok (some (key.text, place.value (place.decoded q))) := by
  obtain ⟨out, hout, hwhite⟩ := place.stripComment_back note
  rw [load_eq_ok]
  refine ⟨_, hout, _, ?_, rfl⟩
  have htrim : trim (place.front ++ q.text ++ (place.back ++ out)) =
      trim (place.front ++ q.text ++ place.back) := by
    rw [← append_assoc, trim_append_white hwhite]
  rw [← parse_trim, htrim, parse_trim, parse_back]

theorem value_injective (place : Place) : Function.Injective fun s => place.value s := by
  intro s s' h
  cases place with
  | plain => simpa [value] using h
  | element before => simpa [value] using h
  | field slot => simpa [value] using h
  | action before place =>
    have haction : place.action s = place.action s' := by simpa [value] using h
    cases hkey : place.key <;> simpa [ActionSlot.action, hkey, Action.put] using haction

theorem load_back_eq_iff (place : Place) (key : Key) (q : Quoted) (note : Option (List Char))
    (s : List Char) : load place (place.line key q (place.back ++ comment note)) =
      .ok (some (key.text, place.value s)) ↔ place.decoded q = s := by
  rw [load_back]
  simp only [Except.ok.injEq, Option.some.injEq, Prod.mk.injEq, true_and]
  exact place.value_injective.eq_iff

theorem parseStringValue_eq_iff (q : Quoted) :
    parseStringValue q.text = q.value ↔ hasEscapedBackslash q.body = false := by
  rw [Quoted.text, parseStringValue_literal]
  exact (decodePlain_eq_iff q.spells).2

theorem exists_of_trimStart {out more : List Char} {c : Char} (h : trimStart out = c :: more) :
    ∃ gap, out = gap ++ c :: more ∧ (∀ d ∈ gap, isWhitespace d = true) ∧ isWhitespace c = false := by
  refine ⟨out.takeWhile isWhitespace, ?_, ?_, ?_⟩
  · rw [← h, trimStart, takeWhile_append_dropWhile]
  · exact fun d hd => mem_takeWhile_imp hd
  · have hdrop : out.dropWhile isWhitespace = c :: more := h
    have hhead := head_dropWhile_not isWhitespace (l := out) (by simp [hdrop])
    simpa only [hdrop, head_cons] using hhead

/-- Outside plain values the decoders refuse text behind the closing quote. -/
theorem parse_foreign {place : Place} (hplace : place ≠ plain) (q : Quoted) {out : List Char}
    (hout : place.foreign out = true) (r : Value) :
    place.parse (place.front ++ q.text ++ out) ≠ .ok r := by
  intro h
  unfold foreign at hout
  cases hstart : trimStart out with
  | nil => simp [hstart] at hout
  | cons c more =>
    obtain ⟨gap, rfl, hgap, hc⟩ := exists_of_trimStart hstart
    rw [hstart] at hout
    cases place with
    | plain => exact hplace rfl
    | element before =>
      simp only [Bool.and_eq_true, Bool.or_eq_true, bne_iff_ne] at hout
      obtain ⟨e, herror⟩ := parseStringArrayStrict_junk before q hgap hc hout.1
        (fun hb => hout.2.resolve_left (absurd hb))
      have htext : front (element before) ++ q.text ++ (gap ++ c :: more) =
          '[' :: (elements before ++ (q.text ++ gap) ++ c :: more) := by
        simp [front]
      rw [parse, htext, herror] at h
      cases h
    | field slot =>
      simp only [Bool.and_eq_true, Bool.or_eq_true, bne_iff_ne] at hout
      have htext : front (field slot) ++ q.text ++ (gap ++ c :: more) =
          '\x7b' :: (slot.front ++ (q.text ++ gap) ++ c :: more) := by
        simp [front]
      rw [parse, htext, map_eq_pure_bind, except_bind_ok] at h
      obtain ⟨fields, hfields, -⟩ := h
      exact parseInlineTable_junk slot q hgap hc hout.1
        (fun hb => hout.2.resolve_left (absurd hb)) fields hfields
    | action before place =>
      simp only [Bool.and_eq_true, bne_iff_ne] at hout
      have htext : front (action before place) ++ q.text ++ (gap ++ c :: more) =
          '[' :: (tablesText before ++ '\x7b' :: (place.slot.front ++ (q.text ++ gap)) ++
            c :: more) := by
        simp [front]
      rw [parse, htext, map_eq_pure_bind, except_bind_ok] at h
      obtain ⟨actions, hactions, -⟩ := h
      exact parseActionsArray_junk before place.slot q hgap hc hout.1 hout.2 actions hactions

end Place

/-- A string written as a literal is read back in every position, except one with a backslash as
a plain value; a position reads a literal as the plain decoder does exactly if it has no escaped
backslash or the position is a plain value; and text behind the closing quote is refused, except
in a plain value unless it leaves a string open. -/
theorem strings_read_back_iff (place : Place) (key : Key) :
    (∀ s note, load place (place.line key (Quoted.write s) (place.back ++ comment note)) =
        .ok (some (key.text, place.value s)) ↔ (place = .plain → '\\' ∉ s)) ∧
      (∀ q note, load place (place.line key q (place.back ++ comment note)) =
        .ok (some (key.text, place.value (parseStringValue q.text))) ↔
          (place ≠ .plain → hasEscapedBackslash q.body = false)) ∧
      ∀ q tail, (∀ out, stripComment tail = .ok out → place.foreign out = true) →
        ((∀ r, load place (place.line key q tail) ≠ .ok r) ↔
          (place = .plain → ∀ out, stripComment tail ≠ .ok out)) := by
  refine ⟨?_, ?_, ?_⟩
  · intro s note
    rw [Place.load_back_eq_iff]
    by_cases hplace : place = .plain
    · subst hplace
      have hplain := (Place.parseStringValue_eq_iff (Quoted.write s)).trans
        (hasEscapedBackslash_written s)
      exact ⟨fun h _ => hplain.1 h, fun h => hplain.2 (h rfl)⟩
    · have hvalue : place.decoded (Quoted.write s) = s := by
        cases place <;> first | exact absurd rfl hplace | rfl
      exact iff_of_true hvalue (absurd · hplace)
  · intro q note
    rw [Place.load_back_eq_iff]
    by_cases hplace : place = .plain
    · subst hplace
      exact iff_of_true rfl (absurd rfl)
    · have hvalue : place.decoded q = q.value := by
        cases place <;> first | exact absurd rfl hplace | rfl
      rw [hvalue, eq_comm, Place.parseStringValue_eq_iff]
      exact ⟨fun h _ => h, fun h => h hplace⟩
  · intro q tail hforeign
    constructor
    · intro hrefused hplace out hout
      subst hplace
      exact hrefused _ ((Place.load_eq_ok _ key q tail _).2 ⟨out, hout, _, rfl, rfl⟩)
    · intro hopen r hr
      obtain ⟨out, hout, value, hvalue, -⟩ := (Place.load_eq_ok _ key q tail r).1 hr
      by_cases hplace : place = .plain
      · exact hopen hplace out hout
      · exact Place.parse_foreign hplace q (hforeign out hout) value hvalue

/-- The key of a rule. -/
def idKey : Key := ⟨"id".toList, by decide, rfl⟩

/-- A backslash comes back doubled, and what stands behind the quote becomes part of the value. -/
theorem plain_value_not_read_back :
    load .plain (Place.line .plain idKey (Quoted.write ['\\']) []) =
        .ok (some ("id".toList, .text ['\\', '\\'])) ∧
      parseInlineValue (Quoted.write ['\\']).text = .ok ['\\'] ∧
      load .plain "id = \"a\" b".toList = .ok (some ("id".toList, .text "\"a\" b".toList)) := by
  refine ⟨?_, ?_, ?_⟩ <;> decide +kernel

end AegisHV.Config
