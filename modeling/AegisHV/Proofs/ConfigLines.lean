import AegisHV.Proofs.Config

/-! Lines of the configuration: a key with a string or an array of strings as its value, and what
may follow a closing quote. -/

namespace AegisHV.Config

open Sys List

/-- A loop that stops at some characters goes over the text and is outside strings behind it. -/
def Passes (stop : Char → Bool) (v : List Char) : Prop := ∀ rest,
  splitOutside stop Quote.start (v ++ rest) =
    (v ++ (splitOutside stop Quote.start rest).1, (splitOutside stop Quote.start rest).2)

section

variable {stop : Char → Bool} {v w : List Char}

theorem passes_nil : Passes stop [] := fun _ => rfl

theorem Passes.append (hv : Passes stop v) (hw : Passes stop w) : Passes stop (v ++ w) := by
  intro rest
  rw [append_assoc, hv, hw, append_assoc]

theorem passes_chars (h : ∀ c ∈ v, c ≠ '"' ∧ stop c = false) : Passes stop v := splitOutside_pass h

theorem passes_literal (hstop : stop '"' = false) {l s : List Char} (h : Body l s) :
    Passes stop (literal l) := splitOutside_literal hstop h

theorem passes_flatMap {α : Type*} {f : α → List Char} {l : List α}
    (h : ∀ a ∈ l, Passes stop (f a)) : Passes stop (l.flatMap f) := by
  induction l with
  | nil => exact passes_nil
  | cons a l ih =>
    exact (h a (by simp)).append (ih fun b hb => h b (by simp [hb]))

end

/-! Keys. -/

/-- A letter of the keys: A to Z, a to z or an underscore. -/
def isKeyChar (c : Char) : Bool :=
  (65 ≤ c.toNat && c.toNat ≤ 90) || (97 ≤ c.toNat && c.toNat ≤ 122) || c == '_'

/-- A key as the setters know them. -/
structure Key where
  text : List Char
  ne_nil : text ≠ []
  chars : text.all isKeyChar = true

theorem isKeyChar_black {c : Char} (h : isKeyChar c = true) : isWhitespace c = false := by
  have hrange : (65 ≤ c.toNat ∧ c.toNat ≤ 90) ∨ (97 ≤ c.toNat ∧ c.toNat ≤ 122) ∨ c = '_' := by
    simpa [isKeyChar, or_assoc] using h
  rcases hrange with h | h | rfl
  · simp [isWhitespace]
    omega
  · simp [isWhitespace]
    omega
  · decide

namespace Key

variable (key : Key)

theorem black {c : Char} (hc : c ∈ key.text) : isWhitespace c = false :=
  isKeyChar_black (all_eq_true.1 key.chars c hc)

theorem ne_of_not {c d : Char} (hc : c ∈ key.text) (hd : isKeyChar d = false) : c ≠ d := by
  rintro rfl
  rw [all_eq_true.1 key.chars c hc] at hd
  cases hd

theorem passes {stop : Char → Bool} (h : ∀ c, isKeyChar c = true → stop c = false) :
    Passes stop key.text := by
  apply passes_chars
  intro c hc
  exact ⟨key.ne_of_not hc (by decide), h c (all_eq_true.1 key.chars c hc)⟩

theorem trim_text : trim key.text = key.text := trim_eq_self fun _ hc => key.black hc

end Key

theorem not_isKeyChar {d : Char} (hd : isKeyChar d = false) :
    ∀ c, isKeyChar c = true → (c == d) = false := by
  intro c hc
  rw [beq_eq_false_iff_ne]
  rintro rfl
  rw [hc] at hd
  cases hd

/-! Reading a line. -/

/-- The key, the sign and what follows. -/
def assignment (key : Key) (value : List Char) : List Char := key.text ++ " = ".toList ++ value

theorem blank_eq : " = ".toList = [' ', '=', ' '] := rfl

theorem splitKeyValue_assignment (key : Key) {value : List Char} (hne : trim value ≠ []) :
    splitKeyValue (assignment key value) = .ok (key.text, trim value) := by
  have hkey : Passes (· == '=') (key.text ++ [' ']) := by
    apply Passes.append (key.passes (not_isKeyChar (by decide)))
    apply passes_chars
    simp
  have hsplit : splitOutside (· == '=') Quote.start (assignment key value) =
      (key.text ++ [' '], '=' :: ' ' :: value, Quote.start) := by
    have heq : assignment key value = (key.text ++ [' ']) ++ '=' :: ' ' :: value := by
      simp [assignment, blank_eq]
    rw [heq, hkey, splitOutside_stop (by simp), append_nil]
  have htrim : trim (key.text ++ [' ']) = key.text := by
    rw [trim_append_white (by simp [isWhitespace]), key.trim_text]
  have hvalue : trim (' ' :: value) = trim value :=
    trim_white_append (a := [' ']) (by simp [isWhitespace])
  simp only [splitKeyValue, hsplit, htrim, hvalue]
  have h1 : key.text.isEmpty = false := by simpa using key.ne_nil
  have h2 : (trim value).isEmpty = false := by simpa using hne
  simp [failIf, h1, h2]

theorem trim_cons {c : Char} (hc : isWhitespace c = false) (l : List Char) :
    trim (c :: l) = c :: l.rdropWhile isWhitespace := by
  rw [trim, dropWhile_cons_of_neg (by simp [hc])]
  exact rdropWhile_append_cons (a := []) hc

theorem trim_assignment (key : Key) {c : Char} {value : List Char} (hc : isWhitespace c = false) :
    trim (assignment key (c :: value)) = assignment key (trim (c :: value)) := by
  obtain ⟨k, rest, hkey⟩ := exists_cons_of_ne_nil key.ne_nil
  have hk : isWhitespace k = false := key.black (by simp [hkey])
  have hdrop : (assignment key (c :: value)).dropWhile isWhitespace = assignment key (c :: value) := by
    rw [assignment, hkey]
    exact dropWhile_cons_of_neg (by simp [hk])
  rw [trim, hdrop, assignment, rdropWhile_append_cons hc, trim_cons hc, assignment]

theorem stripComment_passes {v : List Char} (hv : Passes (· == '#') v) (tail : List Char) :
    stripComment (v ++ tail) = stripComment tail >>= fun out => pure (v ++ out) := by
  simp only [stripComment, hv tail, bind_assoc, pure_bind]

/-- A line is refused only if what follows the part that is passed over leaves a string open. -/
theorem readLine_assignment (key : Key) {c : Char} {v : List Char} (hc : isWhitespace c = false)
    (hv : Passes (· == '#') (c :: v)) (tail : List Char) :
    readLine (assignment key (c :: v ++ tail)) = stripComment tail >>= fun out =>
      pure (.assign key.text (trim (c :: v ++ out))) := by
  have hfront : Passes (· == '#') (assignment key (c :: v)) := by
    apply Passes.append _ hv
    apply (key.passes (not_isKeyChar (by decide))).append
    apply passes_chars
    simp
  have hraw : assignment key (c :: v ++ tail) = assignment key (c :: v) ++ tail := by
    simp [assignment]
  rw [readLine, hraw, stripComment_passes hfront]
  cases stripComment tail with
  | error e => rfl
  | ok out =>
    simp only [except_ok_bind, pure_bind]
    have hline : assignment key (c :: v) ++ out = assignment key (c :: (v ++ out)) := by
      simp [assignment]
    obtain ⟨k, rest, hkey⟩ := exists_cons_of_ne_nil key.ne_nil
    have hfirst : k ≠ '[' := key.ne_of_not (by simp [hkey]) (by decide)
    have hne : trim (trim (c :: (v ++ out))) ≠ [] := by
      rw [trim_trim, trim_cons hc]
      simp
    rw [hline, trim_assignment key hc, splitKeyValue_assignment key hne, trim_trim]
    simp [assignment, hkey, hfirst]
    rfl

/-- An optional comment behind the value. -/
def comment : Option (List Char) → List Char
  | none => []
  | some text => " #".toList ++ text

theorem stripComment_comment (note : Option (List Char)) :
    ∃ out, stripComment (comment note) = .ok out ∧ ∀ c ∈ out, isWhitespace c = true := by
  cases note with
  | none => exact ⟨[], rfl, by simp⟩
  | some text => exact ⟨[' '], rfl, by simp [isWhitespace]⟩

/-! Literals. -/

theorem literal_eq (l : List Char) : literal l = '"' :: (l ++ ['"']) := by simp [literal]

theorem quote_black : isWhitespace '"' = false := by decide

theorem trim_front_quote {c : Char} (hc : isWhitespace c = false) (front : List Char) :
    trim (c :: front ++ ['"']) = c :: front ++ ['"'] := by
  rw [cons_append, trim_cons hc, rdropWhile_append_cons quote_black]
  rfl

theorem trim_literal (l : List Char) : trim (literal l) = literal l := trim_front_quote quote_black l

/-- The plain decoder looks at nothing but the characters between the quotes. -/
theorem parseStringValue_literal (l : List Char) : parseStringValue (literal l) = decodePlain l := by
  have hcomma : (literal l).rdropWhile (· == ',') = literal l :=
    rdropWhile_concat_neg _ _ _ (by decide)
  have hhead : (literal l).head? = some '"' := rfl
  have hlast : (literal l).getLast? = some '"' := getLast?_concat
  have hinner : ((literal l).drop 1).dropLast = l := by simp [literal]
  have hlen : 2 ≤ (literal l).length := by simp [literal]
  rw [parseStringValue, trim_literal, hcomma, trim_literal]
  simp only [hhead, hlast, hlen, hinner, and_true, if_true]
  rfl

variable {rest : List Char}

theorem parseInlineValue_literal {l s : List Char} (h : Body l s)
    (hrest : trim (literal l ++ rest) = literal l ++ rest) :
    parseInlineValue (literal l ++ rest) =
      failIf (!(trim rest).isEmpty) "unexpected content after quoted string" >>= fun _ => pure s := by
  rw [parseInlineValue, hrest]
  simp only [literal_eq, cons_append, head?_cons, if_true]
  rw [← cons_append, ← literal_eq, parseQuotedValue_literal h]
  simp

/-! Arrays of strings. -/

theorem trimStart_cons {c : Char} (hc : isWhitespace c = false) (l : List Char) :
    trimStart (c :: l) = c :: l := dropWhile_cons_of_neg (by simp [hc])

section

variable {values : List (List Char)} {turns : ℕ} {l s : List Char}

/-- What the loop does behind an element. -/
def afterElement (values : List (List Char)) (turns : ℕ) (rest : List Char) :
    Except String (List (List Char)) :=
  if rest.isEmpty then pure values
  else do
    failIf (rest.head? != some ',') "expected comma between string array elements"
    failIf (trimStart (rest.drop 1)).isEmpty "trailing comma in string array"
    parseElements values turns (trimStart (rest.drop 1))

theorem parseElements_literal (h : Body l s) (rest : List Char) :
    parseElements values (turns + 1) (literal l ++ rest) =
      afterElement (values ++ [s]) turns (trimStart rest) := by
  have hhead : (literal l ++ rest).head? = some '"' := rfl
  have hcomma : ((some '"' : Option Char) == some ',') = false := by decide
  have hquote : ((some '"' : Option Char) != some '"') = false := by decide
  simp only [parseElements, hhead, hcomma, hquote, failIf, Bool.false_eq_true, if_false,
    except_ok_bind, parseQuotedValue_literal h, drop_left, afterElement]

theorem parseElements_last (h : Body l s) :
    parseElements values (turns + 1) (literal l) = .ok (values ++ [s]) := by
  have hlast : parseElements values (turns + 1) (literal l ++ []) = .ok (values ++ [s]) :=
    parseElements_literal h []
  rwa [append_nil] at hlast

theorem parseElements_comma (h : Body l s) {rest : List Char} (hrest : rest.head? = some '"') :
    parseElements values (turns + 1) (literal l ++ (", ".toList ++ rest)) =
      parseElements (values ++ [s]) turns rest := by
  obtain ⟨tail, rfl⟩ := head?_eq_some_iff.1 hrest
  rw [parseElements_literal h]
  rfl

/-- Something else than a comma behind a literal is refused. -/
theorem parseElements_junk (h : Body l s) {rest more : List Char} {c : Char}
    (hrest : trimStart rest = c :: more) (hc : c ≠ ',') :
    parseElements values (turns + 1) (literal l ++ rest) =
      .error "expected comma between string array elements" := by
  rw [parseElements_literal h, hrest]
  simp [afterElement, failIf, hc]
  rfl

end

/-- Elements with a comma and a space behind each. -/
def elements (qs : List Quoted) : List Char := qs.flatMap fun q => q.text ++ ", ".toList

theorem elements_cons (q : Quoted) (qs : List Quoted) :
    elements (q :: qs) = q.text ++ (", ".toList ++ elements qs) := by
  simp [elements]

theorem head?_elements (qs : List Quoted) (hrest : rest.head? = some '"') :
    (elements qs ++ rest).head? = some '"' := by
  cases qs with
  | nil => exact hrest
  | cons q qs => rfl

theorem parseElements_elements (qs : List Quoted)
    (hrest : rest.head? = some '"') (turns : ℕ) : ∀ values,
    parseElements values (qs.length + turns) (elements qs ++ rest) =
      parseElements (values ++ qs.map Quoted.value) turns rest := by
  induction qs with
  | nil =>
    simp [elements]
  | cons q qs ih =>
    intro values
    have hturns : (q :: qs).length + turns = qs.length + turns + 1 := by
      rw [length_cons]
      omega
    rw [elements_cons, hturns, append_assoc, append_assoc, Quoted.text,
      parseElements_comma q.spells (head?_elements qs hrest), ih]
    simp

theorem length_elements (qs : List Quoted) : qs.length ≤ (elements qs).length := by
  induction qs with
  | nil => exact le_rfl
  | cons q qs ih =>
    rw [elements_cons]
    simp [Quoted.text, literal]
    omega

/-- The loop gets turns enough for all elements and the literal behind them. -/
theorem parseElements_front (qs : List Quoted) (l rest : List Char) : ∃ turns,
    parseElements [] (elements qs ++ (literal l ++ rest)).length
        (elements qs ++ (literal l ++ rest)) =
      parseElements (qs.map Quoted.value) (turns + 1) (literal l ++ rest) := by
  have hlen := length_elements qs
  have hpos : 0 < (literal l ++ rest).length := by simp [literal]
  obtain ⟨turns, hturns⟩ : ∃ turns, (elements qs ++ (literal l ++ rest)).length =
      qs.length + (turns + 1) :=
    ⟨(elements qs ++ (literal l ++ rest)).length - qs.length - 1, by
      rw [length_append]
      omega⟩
  refine ⟨turns, ?_⟩
  rw [hturns, parseElements_elements qs rfl, nil_append]

theorem stripBrackets_brackets {a b : Char} (inner : List Char) :
    stripBrackets a b (a :: (inner ++ [b])) = some inner := by
  simp [stripBrackets]

theorem trim_array_inner (qs : List Quoted) (l : List Char) :
    trim (elements qs ++ literal l) = elements qs ++ literal l := by
  have hhead : (elements qs ++ literal l).head? = some '"' := head?_elements qs rfl
  have hlast : (elements qs ++ literal l).getLast? = some '"' := by
    rw [literal, ← append_assoc]
    exact getLast?_concat
  apply trim_of_ends
  · intro c hc
    rw [hhead] at hc
    cases hc
    exact quote_black
  · intro c hc
    rw [hlast] at hc
    cases hc
    exact quote_black

theorem trim_brackets {a b : Char} (ha : isWhitespace a = false) (hb : isWhitespace b = false)
    (inner : List Char) : trim (a :: (inner ++ [b])) = a :: (inner ++ [b]) := by
  rw [trim_cons ha, rdropWhile_append_cons hb]
  rfl

theorem parseStringArrayStrict_elements (qs : List Quoted) (q : Quoted) :
    parseStringArrayStrict ('[' :: (elements qs ++ q.text ++ [']'])) =
      .ok (qs.map Quoted.value ++ [q.value]) := by
  obtain ⟨turns, hturns⟩ := parseElements_front qs q.body []
  rw [append_nil] at hturns
  have hne : (elements qs ++ literal q.body).isEmpty = false := by simp [literal]
  rw [parseStringArrayStrict, trim_brackets (by decide) (by decide), stripBrackets_brackets, okOr,
    except_ok_bind, Quoted.text]
  simp only [trim_array_inner, hne, Bool.false_eq_true, if_false]
  rw [hturns, parseElements_last q.spells]

section

/-! Text behind a literal that is neither white space nor a separator. -/

variable {gap more : List Char} {c : Char}

theorem trimStart_gap (hgap : ∀ d ∈ gap, isWhitespace d = true) (hc : isWhitespace c = false) :
    trimStart (gap ++ c :: more) = c :: more := by
  rw [trimStart, dropWhile_append_of_pos hgap]
  exact trimStart_cons hc more

/-- The brackets come off without touching a character that is not the closing one at the end. -/
theorem stripBrackets_front {a b : Char} {front inner : List Char} (hc : c = b → more ≠ [])
    (h : stripBrackets a b (a :: (front ++ c :: more)) = some inner) :
    ∃ more', inner = front ++ c :: more' := by
  simp only [stripBrackets, true_and, Option.ite_none_right_eq_some, Option.some.injEq] at h
  obtain ⟨hlast, rfl⟩ := h
  rcases eq_nil_or_concat' more with rfl | ⟨more', d, rfl⟩
  · rw [getLast?_concat] at hlast
    exact absurd rfl (hc (Option.some.inj hlast))
  · refine ⟨more', ?_⟩
    rw [← cons_append, ← append_assoc, dropLast_concat]

/-- The same behind `trim`. -/
theorem stripBrackets_trim {a b : Char} {front inner : List Char} (ha : isWhitespace a = false)
    (hc : isWhitespace c = false) (hclose : c = b → more.any (!isWhitespace ·) = true)
    (h : stripBrackets a b (trim (a :: (front ++ c :: more))) = some inner) :
    ∃ more', inner = front ++ c :: more' := by
  rw [trim_cons ha, rdropWhile_append_cons hc] at h
  refine stripBrackets_front ?_ h
  intro hb hnil
  obtain ⟨d, hd, hblack⟩ := any_eq_true.1 (hclose hb)
  rw [rdropWhile_eq_nil_iff.1 hnil d hd] at hblack
  cases hblack

theorem parseStringArrayStrict_junk (qs : List Quoted) (q : Quoted)
    (hgap : ∀ d ∈ gap, isWhitespace d = true) (hc : isWhitespace c = false) (hcomma : c ≠ ',')
    (hclose : c = ']' → more.any (!isWhitespace ·) = true) :
    ∃ e, parseStringArrayStrict ('[' :: (elements qs ++ (q.text ++ gap) ++ c :: more)) =
      .error e := by
  rw [parseStringArrayStrict]
  cases hstrip : stripBrackets '[' ']'
      (trim ('[' :: (elements qs ++ (q.text ++ gap) ++ c :: more))) with
  | none => exact ⟨_, rfl⟩
  | some inner =>
    obtain ⟨more₂, rfl⟩ := stripBrackets_trim (by decide) hc hclose hstrip
    obtain ⟨rest, hhead⟩ : ∃ rest, elements qs ++ (q.text ++ gap) = '"' :: rest := by
      apply head?_eq_some_iff.1
      exact head?_elements qs rfl
    obtain ⟨more₃, htrim⟩ := trim_append_cons (a := elements qs ++ (q.text ++ gap)) (b := more₂)
      (by intro d hd; rw [hhead] at hd; cases hd; exact quote_black) hc
    have hne : (elements qs ++ (q.text ++ gap) ++ c :: more₃).isEmpty = false := by simp
    simp only [okOr, except_ok_bind, htrim, hne, Bool.false_eq_true, if_false]
    have hassoc : elements qs ++ (q.text ++ gap) ++ c :: more₃ =
        elements qs ++ (literal q.body ++ (gap ++ c :: more₃)) := by
      simp [Quoted.text]
    obtain ⟨turns, hturns⟩ := parseElements_front qs q.body (gap ++ c :: more₃)
    rw [hassoc, hturns, parseElements_junk q.spells (trimStart_gap hgap hc) hcomma]
    exact ⟨_, rfl⟩

theorem parseInlineValue_junk (q : Quoted) (hgap : ∀ d ∈ gap, isWhitespace d = true)
    (hc : isWhitespace c = false) : ∃ e, parseInlineValue (q.text ++ gap ++ c :: more) = .error e := by
  obtain ⟨more', htrim⟩ := trim_append_cons (a := q.text ++ gap) (b := more)
    (by intro d hd; cases hd; exact quote_black) hc
  have hinner : parseInlineValue (q.text ++ gap ++ c :: more) =
      parseInlineValue (q.text ++ (gap ++ c :: more')) := by
    rw [← append_assoc, parseInlineValue, parseInlineValue, ← htrim, trim_trim]
  have hkeep : trim (q.text ++ (gap ++ c :: more')) = q.text ++ (gap ++ c :: more') := by
    rw [← append_assoc, ← htrim, trim_trim]
  have hfull : (trim (gap ++ c :: more')).isEmpty = false := by
    rw [trim_white_append hgap, trim_cons hc]
    rfl
  rw [hinner, Quoted.text, parseInlineValue_literal q.spells hkeep, hfull]
  exact ⟨_, rfl⟩

end

end AegisHV.Config
