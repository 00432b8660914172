import AegisHV.Lib.Op
import AegisHV.Lib.Split
import AegisHV.Proofs.Pattern

/-! `compile` cuts the text at every `|` and `.*` it sees and undoes the escapes afterwards. A
cut inside an escape leaves a backslash at the end of a part, which is an error, so in a
pattern that compiles the cuts are those of the pieces that `scan` reads. -/

namespace AegisHV

open Sys Pattern List

namespace Regex

variable {α : Type*}

theorem splitOn_cons [DecidableEq α] (a x : α) (xs : List α) :
    (x :: xs).splitOn a =
      if x = a then [] :: xs.splitOn a else (xs.splitOn a).modifyHead (x :: ·) := by
  simp [List.splitOn, splitOnP_cons_eq_if_modifyHead]

theorem splitOn_cons_ne [DecidableEq α] {a x : α} (hne : x ≠ a) {xs first : List α}
    {rest : List (List α)} (h : xs.splitOn a = first :: rest) :
    (x :: xs).splitOn a = (x :: first) :: rest := by
  rw [splitOn_cons, if_neg hne, h]
  rfl

theorem splitOn_eq_cons [DecidableEq α] (a : α) (xs : List α) :
    ∃ first rest, xs.splitOn a = first :: rest :=
  exists_cons_of_ne_nil (splitOn_ne_nil a xs)

/-- Every backslash has its character. -/
def closed : List Char → Bool
  | [] => true
  | ['\\'] => false
  | '\\' :: _ :: rest => closed rest
  | _ :: rest => closed rest

variable {c : Char}

theorem closed_cons (hc : c ≠ '\\') (rest : List Char) :
    closed (c :: rest) = closed rest := by
  rw [closed]
  · exact fun h => absurd h hc
  · exact fun _ _ h => absurd h hc

theorem scan_cons (hescape : c ≠ '\\') (hbar : c ≠ '|') {rest : List Char}
    (hany : c = '.' → rest.head? ≠ some '*') : scan (c :: rest) = .plain c :: scan rest := by
  rw [scan]
  · rintro d rest' rfl
    exact absurd rfl hescape
  · rintro rest' rfl rfl
    exact absurd rfl (hany rfl)
  · rintro rfl
    exact absurd rfl hbar

variable {s : List Char}

theorem closed_append (hs : closed s = true) (t : List Char) :
    closed (s ++ t) = closed t := by
  induction s using closed.induct with
  | case1 => rfl
  | case2 => simp [closed] at hs
  | case3 c rest ih => exact ih (by simpa [closed] using hs)
  | case4 c rest hlast hescape ih =>
    have hc : c ≠ '\\' := by
      rintro rfl
      cases rest with
      | nil => exact hlast rfl rfl
      | cons d rest => exact hescape d rest rfl rfl
    rw [closed_cons hc] at hs
    rw [cons_append, closed_cons hc]
    exact ih hs

theorem scan_append {t : List Char} (hs : closed s = true) (ht : t.head? ≠ some '*') :
    scan (s ++ t) = scan s ++ scan t := by
  induction s using scan.induct with
  | case1 => rfl
  | case2 c rest ih =>
    have := ih (by simpa [closed] using hs)
    simp [scan, this]
  | case3 rest ih =>
    have := ih (by simpa [closed_cons] using hs)
    simp [scan, this]
  | case4 rest ih =>
    have := ih (by simpa [closed_cons] using hs)
    simp [scan, this]
  | case5 c rest hescape hany hbar ih =>
    have hc : c ≠ '\\' := by
      rintro rfl
      cases rest with
      | nil => simp [closed] at hs
      | cons d rest => exact hescape d rest rfl rfl
    rw [closed_cons hc] at hs
    have hhead (tail : List Char) (htail : tail.head? ≠ some '*') :
        c = '.' → (rest ++ tail).head? ≠ some '*' := by
      rintro rfl
      cases rest with
      | nil => exact htail
      | cons d rest =>
        intro h
        obtain rfl : d = '*' := by simpa using h
        exact hany rest rfl rfl
    rw [cons_append, scan_cons hc hbar (hhead t ht), ih hs]
    rw [scan_cons hc hbar (by simpa using hhead [] (by simp))]
    rfl

theorem getLast_cons {x y : α} {l : List α} :
    (x :: l).getLast? = some y ↔ (l = [] ∧ x = y) ∨ l.getLast? = some y := by
  cases l with
  | nil => simp
  | cons z l => simp [getLast?_cons]

theorem scan_eq_nil : scan s = [] ↔ s = [] := by
  fun_cases scan s <;> simp_all

/-- A plain last piece is the last character. -/
theorem getLast_of_scan (h : (scan s).getLast? = some (.plain c)) :
    s.getLast? = some c := by
  induction s using scan.induct with
  | case1 => simp [scan] at h
  | case2 d rest ih =>
    obtain ⟨-, hd⟩ | hrest := getLast_cons.1 h
    · cases hd
    · exact getLast_cons.2 (.inr (getLast_cons.2 (.inr (ih hrest))))
  | case3 rest ih =>
    obtain ⟨-, hd⟩ | hrest := getLast_cons.1 h
    · cases hd
    · exact getLast_cons.2 (.inr (getLast_cons.2 (.inr (ih hrest))))
  | case4 rest ih =>
    obtain ⟨-, hd⟩ | hrest := getLast_cons.1 h
    · cases hd
    · exact getLast_cons.2 (.inr (ih hrest))
  | case5 d rest hescape hany hbar ih =>
    have hscan : scan (d :: rest) = .plain d :: scan rest := by rw [scan] <;> assumption
    rw [hscan] at h
    obtain ⟨hrest, hd⟩ | hrest := getLast_cons.1 h
    · obtain rfl : d = c := by simpa using hd
      exact getLast_cons.2 (.inl ⟨scan_eq_nil.1 hrest, rfl⟩)
    · exact getLast_cons.2 (.inr (ih hrest))

theorem head_of_scan (h : (scan s).head? = some (.plain c)) :
    s.head? = some c := by
  fun_cases scan s <;> simp_all [scan]

theorem blank_ne (h : isWhitespace c = true) : c ≠ '\\' ∧ c ≠ '|' ∧ c ≠ '.' ∧ c ≠ '*' := by
  refine ⟨?_, ?_, ?_, ?_⟩ <;> rintro rfl <;> exact absurd h (by decide)

theorem scan_plain_append {front : List Char}
    (h : ∀ c ∈ front, c ≠ '\\' ∧ c ≠ '|' ∧ c ≠ '.') (rest : List Char) :
    scan (front ++ rest) = front.map .plain ++ scan rest := by
  induction front with
  | nil => rfl
  | cons c front ih =>
    obtain ⟨hescape, hbar, hdot⟩ := h c (by simp)
    rw [cons_append, scan_cons hescape hbar fun hc => absurd hc hdot]
    rw [ih fun d hd => h d (by simp [hd])]
    rfl

variable {blanks : List Char}

theorem scan_blank_append (h : ∀ c ∈ blanks, isWhitespace c = true)
    (rest : List Char) : scan (blanks ++ rest) = blanks.map .plain ++ scan rest := by
  apply scan_plain_append
  intro c hc
  obtain ⟨hescape, hbar, hdot, -⟩ := blank_ne (h c hc)
  exact ⟨hescape, hbar, hdot⟩

theorem scan_append_blank (hs : closed s = true) (h : ∀ c ∈ blanks, isWhitespace c = true) :
    scan (s ++ blanks) = scan s ++ blanks.map .plain := by
  have hhead : blanks.head? ≠ some '*' := by
    intro hstar
    exact (blank_ne (h '*' (mem_of_mem_head? hstar))).2.2.2 rfl
  have hblanks := scan_blank_append h []
  rw [append_nil] at hblanks
  rw [scan_append hs hhead, hblanks]
  simp [scan]

theorem closed_blank (h : ∀ c ∈ blanks, isWhitespace c = true) :
    closed blanks = true := by
  induction blanks with
  | nil => rfl
  | cons c blanks ih =>
    rw [closed_cons (blank_ne (h c (by simp))).1]
    exact ih fun d hd => h d (by simp [hd])

variable {text : List Char}

/-- Trimming the text trims the pieces, unless it cuts an escape. -/
theorem trimPieces_scan (hne : trim text ≠ []) (hclosed : closed (trim text) = true) :
    closed text = true ∧ trimPieces (scan text) = scan (trim text) := by
  obtain ⟨before, after, htext, hbefore, hafter, hfirst, hlast⟩ := trim_spec text
  have hscan : scan text = before.map .plain ++ (scan (trim text) ++ after.map .plain) := by
    conv_lhs => rw [htext]
    rw [scan_blank_append hbefore, scan_append_blank hclosed hafter]
  have hblank (l : List Char) (hl : ∀ c ∈ l, isWhitespace c = true) :
      ∀ p ∈ l.map Piece.plain, p.isBlank = true := by
    intro p hp
    obtain ⟨c, hc, rfl⟩ := mem_map.1 hp
    exact hl c hc
  constructor
  · rw [htext, closed_append (closed_blank hbefore), closed_append hclosed]
    exact closed_blank hafter
  · have hstart : (scan (trim text) ++ after.map Piece.plain).dropWhile Piece.isBlank =
        scan (trim text) ++ after.map Piece.plain := by
      apply dropWhile_eq_self_iff.2
      intro hlen hp
      obtain ⟨p, pieces, hpieces⟩ := exists_cons_of_ne_nil (mt scan_eq_nil.1 hne)
      simp only [hpieces, cons_append, getElem_cons_zero] at hp
      cases p with
      | plain c =>
        have := hfirst c (head_of_scan (by rw [hpieces]; rfl))
        exact absurd hp (by simp [Piece.isBlank, this])
      | _ => simp [Piece.isBlank] at hp
    have hend : (scan (trim text)).rdropWhile Piece.isBlank = scan (trim text) := by
      apply rdropWhile_eq_self_iff.2
      intro hpieces hp
      generalize hlast' : (scan (trim text)).getLast hpieces = p at hp
      have hget := getLast?_eq_some_getLast hpieces
      rw [hlast'] at hget
      cases p with
      | plain c => exact absurd hp (by simp [Piece.isBlank, hlast c (getLast_of_scan hget)])
      | _ => simp [Piece.isBlank] at hp
    rw [hscan, trimPieces, dropWhile_append_of_pos (hblank before hbefore), hstart]
    rw [List.rdropWhile, reverse_append, dropWhile_append_of_pos, ← List.rdropWhile, hend]
    intro p hp
    exact hblank after hafter p (mem_reverse.1 hp)

theorem unescape_cons (hc : c ≠ '\\') (rest : List Char) :
    unescapeRegexLiteral (c :: rest) = (unescapeRegexLiteral rest).map (c :: ·) := by
  rw [unescapeRegexLiteral]
  · exact fun h => absurd h hc
  · exact fun _ _ h => absurd h hc

theorem splitAnyText_cons {rest : List Char} (hany : c = '.' → rest.head? ≠ some '*') :
    splitAnyText (c :: rest) = (splitAnyText rest).modifyHead (c :: ·) := by
  rw [splitAnyText]
  rintro tail rfl rfl
  exact hany rfl rfl

theorem splitAnyText_eq_cons (s : List Char) : ∃ first rest, splitAnyText s = first :: rest := by
  apply exists_cons_of_ne_nil
  fun_induction splitAnyText s <;> simp_all [modifyHead_eq_nil_iff]

variable {β ε : Type*}

theorem mapM_cons_ok {α β ε : Type} {f : α → Except ε β} {a : α} {l : List α} {out : List β} :
    (a :: l).mapM f = .ok out ↔ ∃ b bs, f a = .ok b ∧ l.mapM f = .ok bs ∧ out = b :: bs := by
  rw [mapM_eq_ok_iff, List.forall₂_cons_left_iff]
  simp only [mapM_eq_ok_iff]

theorem except_map_ok {f : α → β} {x : Except ε α} {b : β} :
    x.map f = .ok b ↔ ∃ a, x = .ok a ∧ b = f a := by
  cases x with
  | error e => simp [Except.map]
  | ok a => simp [Except.map, eq_comm]

theorem literals_cons {p : Piece} (hp : p ≠ .anyText) {pieces : List Piece}
    {first : List Char} {rest : List (List Char)}
    (h : (pieces.splitOn .anyText).map (·.map Piece.char) = first :: rest) :
    ((p :: pieces).splitOn .anyText).map (·.map Piece.char) = (p.char :: first) :: rest := by
  obtain ⟨head, tail, hsplit⟩ := splitOn_eq_cons Piece.anyText pieces
  rw [hsplit, map_cons, List.cons.injEq] at h
  rw [splitOn_cons_ne hp hsplit, map_cons, map_cons, h.1, h.2]

theorem unescape_backslash (rest : List Char) :
    (['\\'] :: splitAnyText rest).mapM unescapeRegexLiteral =
      .error "invalid pattern: trailing escape" := rfl

/-- The literals of a text are what `scan` reads between two `.*`. -/
theorem scan_splitAnyText {literals : List (List Char)} (hbar : '|' ∉ text)
    (h : (splitAnyText text).mapM unescapeRegexLiteral = .ok literals) :
    closed text = true ∧
      ((scan text).splitOn .anyText).map (·.map Piece.char) = literals := by
  induction text using scan.induct generalizing literals with
  | case1 =>
    obtain rfl : [[]] = literals := by
      simpa [splitAnyText, unescapeRegexLiteral, ] using h
    exact ⟨rfl, rfl⟩
  | case2 c rest ih =>
    by_cases hcut : c = '.' ∧ rest.head? = some '*'
    · -- a cut inside the escape leaves a backslash behind
      obtain ⟨rfl, hstar⟩ := hcut
      obtain ⟨tail, rfl⟩ := head?_eq_some_iff.1 hstar
      rw [splitAnyText_cons (by simp)] at h
      cases h
    · obtain ⟨first, tail, hsplit⟩ := splitAnyText_eq_cons rest
      rw [splitAnyText_cons (by simp), splitAnyText_cons fun hc hs => hcut ⟨hc, hs⟩] at h
      rw [hsplit, ] at h
      obtain ⟨literal, others, hfirst, hothers, rfl⟩ := mapM_cons_ok.1 h
      obtain ⟨inner, hinner, rfl⟩ := except_map_ok.1 hfirst
      have hrest := ih (fun hmem => hbar (by simp [hmem]))
        (by rw [hsplit]; exact mapM_cons_ok.2 ⟨inner, others, hinner, hothers, rfl⟩)
      exact ⟨by simpa [closed] using hrest.1, literals_cons (by simp) hrest.2⟩
  | case3 rest ih =>
    obtain ⟨literal, others, hfirst, hothers, rfl⟩ := mapM_cons_ok.1 h
    obtain rfl : [] = literal := by simpa [unescapeRegexLiteral] using hfirst
    have hrest := ih (fun hmem => hbar (by simp [hmem])) hothers
    refine ⟨by simpa [closed_cons] using hrest.1, ?_⟩
    rw [scan, splitOn_cons, if_pos rfl, map_cons, hrest.2]
    rfl
  | case4 rest ih => simp at hbar
  | case5 c rest hescape hany hbar' ih =>
    have hc : c ≠ '\\' := by
      rintro rfl
      cases rest with
      | nil => cases h
      | cons d rest => exact hescape d rest rfl rfl
    have hstar : c = '.' → rest.head? ≠ some '*' := by
      rintro rfl hs
      obtain ⟨tail, rfl⟩ := head?_eq_some_iff.1 hs
      exact hany tail rfl rfl
    obtain ⟨first, tail, hsplit⟩ := splitAnyText_eq_cons rest
    rw [splitAnyText_cons hstar, hsplit] at h
    obtain ⟨literal, others, hfirst, hothers, rfl⟩ := mapM_cons_ok.1 h
    rw [unescape_cons hc] at hfirst
    obtain ⟨inner, hinner, rfl⟩ := except_map_ok.1 hfirst
    have hrest := ih (fun hmem => hbar (by simp [hmem]))
      (by rw [hsplit]; exact mapM_cons_ok.2 ⟨inner, others, hinner, hothers, rfl⟩)
    rw [closed_cons hc, scan_cons hc hbar' hstar]
    exact ⟨hrest.1, literals_cons (by simp) hrest.2⟩

theorem splitOn_head_of_head {a x : Char} {xs first : List Char} {rest : List (List Char)}
    (h : xs.splitOn a = first :: rest) (hfirst : first.head? = some x) : xs.head? = some x := by
  cases xs with
  | nil =>
    obtain ⟨rfl, -⟩ : [] = first ∧ [] = rest := by simpa using h
    simp at hfirst
  | cons y ys =>
    rw [splitOn_cons] at h
    split_ifs at h with hy
    · obtain ⟨rfl, -⟩ := List.cons.inj h
      simp at hfirst
    · obtain ⟨head, tail, hsplit⟩ := splitOn_eq_cons a ys
      rw [hsplit] at h
      obtain ⟨rfl, -⟩ := List.cons.inj h
      exact hfirst

/-- The alternatives of a text are what `scan` reads between two bars. -/
theorem scan_splitOn_bar (h : ∀ part ∈ text.splitOn '|', closed part = true) :
    closed text = true ∧ (scan text).splitOn .bar = (text.splitOn '|').map scan := by
  induction text using scan.induct with
  | case1 => exact ⟨rfl, rfl⟩
  | case2 c rest ih =>
    obtain ⟨first, tail, hsplit⟩ := splitOn_eq_cons '|' rest
    by_cases hc : c = '|'
    · -- the cut inside the escape leaves a part that is not closed
      subst hc
      have hparts : ('\\' :: '|' :: rest).splitOn '|' = ['\\'] :: rest.splitOn '|' := by
        apply splitOn_cons_ne (by decide)
        rw [splitOn_cons, if_pos rfl]
      rw [hparts] at h
      exact absurd (h ['\\'] (by simp)) (by decide)
    · rw [splitOn_cons_ne (by decide) (splitOn_cons_ne hc hsplit)] at h ⊢
      rw [hsplit] at ih
      obtain ⟨hclosed, hrest⟩ := ih (forall_mem_cons.2 (forall_mem_cons.1 h))
      exact ⟨hclosed, splitOn_cons_ne (by simp) hrest⟩
  | case3 rest ih =>
    obtain ⟨first, tail, hsplit⟩ := splitOn_eq_cons '|' rest
    rw [splitOn_cons_ne (by decide) (splitOn_cons_ne (by decide) hsplit)] at h ⊢
    rw [hsplit] at ih
    obtain ⟨hclosed, hrest⟩ := ih (forall_mem_cons.2 (forall_mem_cons.1 h))
    exact ⟨hclosed, splitOn_cons_ne (by simp) hrest⟩
  | case4 rest ih =>
    obtain ⟨hclosed, hrest⟩ := ih (forall_mem_cons.1 h).2
    rw [scan, splitOn_cons, hrest]
    exact ⟨hclosed, rfl⟩
  | case5 c rest hescape hany hbar ih =>
    obtain ⟨first, tail, hsplit⟩ := splitOn_eq_cons '|' rest
    rw [splitOn_cons_ne hbar hsplit] at h ⊢
    have hc : c ≠ '\\' := by
      rintro rfl
      cases rest with
      | nil =>
        obtain ⟨rfl, -⟩ : [] = first ∧ [] = tail := by simpa using hsplit
        exact absurd (h ['\\'] (by simp)) (by decide)
      | cons d rest => exact hescape d rest rfl rfl
    have hstar : c = '.' → rest.head? ≠ some '*' := by
      rintro rfl hs
      obtain ⟨tail', rfl⟩ := head?_eq_some_iff.1 hs
      exact hany tail' rfl rfl
    obtain ⟨hfirst, htail⟩ := forall_mem_cons.1 h
    rw [closed_cons hc] at hfirst
    rw [hsplit] at ih
    obtain ⟨hclosed, hrest⟩ := ih (forall_mem_cons.2 ⟨hfirst, htail⟩)
    rw [closed_cons hc, scan_cons hc hbar hstar, map_cons]
    rw [scan_cons hc hbar fun hdot hs => hstar hdot (splitOn_head_of_head hsplit hs)]
    exact ⟨hclosed, splitOn_cons_ne (by simp) hrest⟩

theorem takeCaret_scan (s : List Char) :
    takeCaret (scan s) = ((stripCaret s).1, scan (stripCaret s).2) := by
  by_cases hs : s.head? = some '^'
  · obtain ⟨body, rfl⟩ := head?_eq_some_iff.1 hs
    rfl
  · have hpieces : (scan s).head? ≠ some (.plain '^') := fun h => hs (head_of_scan h)
    have hcaret : stripCaret s = (false, s) := by
      unfold stripCaret
      split
      · simp at hs
      · rfl
    rw [hcaret]
    unfold takeCaret
    split
    · rename_i heq
      simp [heq] at hpieces
    · rfl

theorem takeDollar_scan (hclosed : closed (stripDollar s).2 = true) :
    closed s = true ∧ takeDollar (scan s) = ((stripDollar s).1, scan (stripDollar s).2) := by
  by_cases hs : s.getLast? = some '$'
  · obtain ⟨body, rfl⟩ := getLast?_eq_some_iff.1 hs
    have hdollar : stripDollar (body ++ ['$']) = (true, body) := by simp [stripDollar]
    rw [hdollar] at hclosed ⊢
    have hscan : scan (body ++ ['$']) = scan body ++ [.plain '$'] := scan_append hclosed (by simp)
    refine ⟨by rw [closed_append hclosed]; rfl, ?_⟩
    simp [hscan, takeDollar]
  · have hdollar : stripDollar s = (false, s) := if_neg hs
    rw [hdollar] at hclosed ⊢
    exact ⟨hclosed, if_neg fun h => hs (getLast_of_scan h)⟩

theorem closed_stripCaret (h : closed (stripCaret s).2 = true) :
    closed s = true := by
  unfold stripCaret at h
  split at h
  · exact h
  · exact h

/-- The alternative that `compile` keeps for an expression. -/
def Expr.toAlt (e : Expr) : Alt where
  anchorStart := e.atStart
  anchorEnd := e.atEnd
  parts := e.segments.map (lowerIf e.foldCase)

theorem lowerIf_false : lowerIf false = id := rfl

theorem filter_lowerIf (ci : Bool) (literals : List (List Char)) :
    (literals.map (lowerIf ci)).filter (· ≠ []) =
      (literals.filter (· ≠ [])).map (lowerIf ci) := by
  rw [filter_map]
  congr 1
  apply filter_congr
  simp [lowerIf_eq_nil]

theorem mem_stripCaret (h : c ∈ (stripCaret s).2) : c ∈ s := by
  unfold stripCaret at h
  split at h
  · exact mem_cons_of_mem _ h
  · exact h

theorem mem_stripDollar (h : c ∈ (stripDollar s).2) : c ∈ s := by
  unfold stripDollar at h
  split at h
  · exact mem_of_mem_dropLast h
  · exact h

variable {input : String} {ci : Bool}

theorem compileAlt_eq_ok {alt : Alt} (h : compileAlt input ci text = .ok alt) :
    trim text ≠ [] ∧ ∃ literals,
      (splitAnyText (stripDollar (stripCaret (trim text)).2).2).mapM unescapeRegexLiteral =
        .ok literals ∧
      alt = ⟨(stripCaret (trim text)).1, (stripDollar (stripCaret (trim text)).2).1,
        (literals.map (lowerIf ci)).filter (· ≠ [])⟩ ∧ alt.parts ≠ [] := by
  unfold compileAlt at h
  by_cases hne : trim text = []
  · simp [hne, bind, Except.bind, throw, throwThe, MonadExceptOf.throw] at h
  · simp only [hne, if_false] at h
    obtain ⟨literals, hliterals, h⟩ := except_bind_ok.1 h
    refine ⟨hne, literals, hliterals, ?_⟩
    by_cases hparts : (literals.map (lowerIf ci)).filter (· ≠ []) = []
    · rw [if_pos hparts] at h
      cases h
    · rw [if_neg hparts] at h
      obtain rfl := Except.ok.inj h
      exact ⟨rfl, hparts⟩

/-- A text that compiles to an alternative is read as that alternative. -/
theorem compileAlt_reads {alt : Alt} (hbar : '|' ∉ text) (h : compileAlt input ci text = .ok alt) :
    closed text = true ∧ alt = (Expr.ofPieces ci (trimPieces (scan text))).squeeze.toAlt ∧
      alt.parts ≠ [] := by
  obtain ⟨hne, literals, hliterals, halt, hparts⟩ := compileAlt_eq_ok h
  have hbody : '|' ∉ (stripDollar (stripCaret (trim text)).2).2 :=
    fun hmem => hbar (mem_of_mem_trim (mem_stripCaret (mem_stripDollar hmem)))
  obtain ⟨hclosed, hsegments⟩ := scan_splitAnyText hbody hliterals
  obtain ⟨hclosed, hdollar⟩ := takeDollar_scan hclosed
  obtain ⟨hclosed, htrim⟩ := trimPieces_scan hne (closed_stripCaret hclosed)
  refine ⟨hclosed, ?_, hparts⟩
  rw [htrim, halt, filter_lowerIf, ← hsegments]
  simp only [Expr.toAlt, Expr.squeeze, Expr.ofPieces, takeCaret_scan, hdollar]

theorem mem_of_mem_splitOn [DecidableEq α] {a x : α} {l part : List α}
    (h : part ∈ l.splitOn a) (hx : x ∈ part) : x ∈ l ∧ x ≠ a := by
  obtain ⟨hall, hsub⟩ := mem_splitOnP h
  exact ⟨hsub.subset hx, by simpa using hall x hx⟩

variable {p : Pattern}

theorem compile_reads (h : compile input = .ok p) :
    p.raw = input ∧ closed (stripFlag (trim input.toList)).2 = true ∧
      rejectUnsupported (stripFlag (trim input.toList)).2 = .ok () ∧
      (∀ alt ∈ p.alts, alt.parts ≠ []) ∧
      p.alts = (((scan (stripFlag (trim input.toList)).2).splitOn .bar).map fun pieces =>
        (Expr.ofPieces (stripFlag (trim input.toList)).1 (trimPieces pieces)).squeeze.toAlt) := by
  unfold compile at h
  by_cases hne : trim input.toList = []
  · simp [hne, bind, Except.bind, throw, throwThe, MonadExceptOf.throw] at h
  · simp only [hne, if_false] at h
    obtain ⟨-, -, h⟩ := except_bind_ok.1 h
    obtain ⟨⟨⟩, hsupported, h⟩ := except_bind_ok.1 h
    obtain ⟨alts, halts, h⟩ := except_bind_ok.1 h
    obtain rfl := Except.ok.inj h
    generalize stripFlag (trim input.toList) = flag at hsupported halts ⊢
    have hreads : List.Forall₂ (fun text alt => closed text = true ∧
        alt = (Expr.ofPieces flag.1 (trimPieces (scan text))).squeeze.toAlt ∧ alt.parts ≠ [])
        (flag.2.splitOn '|') alts := by
      have hbars := (List.forall₂_and_left _ _).2
        ⟨fun text htext hbar => (mem_of_mem_splitOn (a := '|') htext hbar).2 rfl, mapM_eq_ok_iff.1 halts⟩
      exact hbars.imp fun text alt h => compileAlt_reads h.1 h.2
    obtain ⟨hclosed, hreads⟩ := (List.forall₂_and_left _ _).1 hreads
    obtain ⟨hclosed, hsplit⟩ := scan_splitOn_bar hclosed
    refine ⟨rfl, hclosed, hsupported, ?_, ?_⟩
    · intro alt halt
      obtain ⟨text, htext, hok⟩ := (mem_of_mapM halts alt).1 halt
      exact (compileAlt_reads (fun hbar => (mem_of_mem_splitOn htext hbar).2 rfl) hok).2.2
    · rw [hsplit, map_map, ← List.forall₂_eq_eq_eq, List.forall₂_map_right_iff]
      exact hreads.flip.imp fun text alt h => h.1

theorem stripFlag_fst : (stripFlag s).1 = true ↔ "(?i)".toList <+: s := by
  unfold stripFlag
  split_ifs with h
  · simpa using isPrefixOf_iff_prefix.1 h
  · simpa using mt isPrefixOf_iff_prefix.2 h

theorem stripFlag_trim (h : (stripFlag s).1 = true) :
    (stripFlag (trim s)).1 = true := by
  rw [stripFlag_fst] at h ⊢
  obtain ⟨rest, hrest⟩ := h
  obtain ⟨before, after, htext, hbefore, hafter, -⟩ := trim_spec s
  rw [htext] at hrest
  obtain rfl : before = [] := by
    cases before with
    | nil => rfl
    | cons c before =>
      obtain rfl : '(' = c := (List.cons.inj hrest).1
      exact absurd (hbefore '(' (by simp)) (by decide)
  rw [nil_append] at hrest
  obtain ⟨more, hmore, -⟩ | ⟨cut, hcut, hafter'⟩ := append_eq_append_iff.1 hrest
  · exact ⟨more, hmore.symm⟩
  · -- the flag ends in a bracket, which is not white space
    cases hlast : cut.getLast? with
    | none =>
      obtain rfl : cut = [] := by simpa using hlast
      exact ⟨[], by rw [hcut]; simp⟩
    | some c =>
      have hc : "(?i)".toList.getLast? = some c := by
        rw [hcut, getLast?_append, hlast]
        rfl
      obtain rfl : ')' = c := by simpa using hc
      have hmem : ')' ∈ after := by
        rw [hafter']
        exact mem_append_left _ (mem_of_getLast? hlast)
      exact absurd (hafter _ hmem) (by decide)

variable {e : Expr}

theorem altMatches_toAlt (hsegments : e.segments ≠ []) (hay : List Char) :
    altMatches e.toAlt hay = true ↔
      PlacedFrom e.atStart e.atEnd (e.segments.map (lowerIf e.foldCase)) hay :=
  altMatches_iff (by simpa [Expr.toAlt] using hsegments) hay

/-- The alternatives `compile` reads, before case folding is settled. -/
def trimmed (input : String) : List Expr :=
  ((scan (stripFlag (trim input.toList)).2).splitOn .bar).map fun pieces =>
    (Expr.ofPieces (stripFlag (trim input.toList)).1 (trimPieces pieces)).squeeze

theorem squeezed_eq (input : String) :
    squeezed input = if (stripFlag input.toList).1 then trimmed input
      else (trimmed input).map Expr.lowered := rfl

theorem foldCase_trimmed (he : e ∈ trimmed input) :
    e.foldCase = (stripFlag (trim input.toList)).1 := by
  obtain ⟨pieces, -, rfl⟩ := mem_map.1 he
  rfl

theorem isMatch_eq (p : Pattern) (value : String) :
    p.isMatch value =
      p.alts.any (altMatches · (lowerIf (stripFlag p.raw.toList).1 value.toList)) := by
  unfold isMatch stripFlag lowerIf
  by_cases hflag : "(?i)".toList.isPrefixOf p.raw.toList
  · simp only [hflag, if_true]
  · simp only [hflag, if_false, Bool.false_eq_true]

theorem compile_trimmed (h : compile input = .ok p) :
    p.raw = input ∧ p.alts = (trimmed input).map Expr.toAlt ∧
      ∀ e ∈ trimmed input, e.segments ≠ [] := by
  obtain ⟨hraw, -, -, hparts, halts⟩ := compile_reads h
  have halts' : p.alts = (trimmed input).map Expr.toAlt := by
    rw [halts, trimmed, map_map]
    rfl
  refine ⟨hraw, halts', fun e he => ?_⟩
  have := hparts e.toAlt (by rw [halts']; exact mem_map_of_mem he)
  simpa [Expr.toAlt] using this

variable {value : String}

/-- What a compiled pattern matches is what its squeezed text says. -/
theorem isMatch_iff_squeezed (h : compile input = .ok p) (hline : '\n' ∉ value.toList) :
    p.isMatch value = true ↔ Matches (squeezed input) value := by
  obtain ⟨hraw, halts, hsegments⟩ := compile_trimmed h
  rw [isMatch_eq, hraw, halts, any_map, any_eq_true, squeezed_eq, Matches]
  cases hflag : (stripFlag input.toList).1 with
  | true =>
    refine exists_congr fun e => and_congr_right fun he => ?_
    have hfold : e.foldCase = true := by rw [foldCase_trimmed he, stripFlag_trim hflag]
    rw [mem_language (hsegments e he) hline, Function.comp_apply, altMatches_toAlt (hsegments e he)]
    rw [hfold]
  | false =>
    simp only [Bool.false_eq_true, if_false, mem_map, exists_exists_and_eq_and]
    refine exists_congr fun e => and_congr_right fun he => ?_
    have hlowered : e.lowered.segments ≠ [] := by simpa [Expr.lowered] using hsegments e he
    rw [mem_language hlowered hline, Function.comp_apply, altMatches_toAlt (hsegments e he)]
    simp [Expr.lowered, lowerIf_false]

theorem segments_ofPieces_ne_nil (ci : Bool) (pieces : List Piece) :
    (Expr.ofPieces ci pieces).segments ≠ [] := by
  simp [Expr.ofPieces, splitOn_ne_nil]

theorem head_lowerIf {segments : List (List Char)}
    (h : segments.head? ≠ some []) : (segments.map (lowerIf ci)).head? ≠ some [] := by
  cases segments with
  | nil => simp
  | cons first rest => simpa [lowerIf_eq_nil] using h

theorem getLast_lowerIf {segments : List (List Char)}
    (h : segments.getLast? ≠ some []) : (segments.map (lowerIf ci)).getLast? ≠ some [] := by
  intro hlast
  rw [getLast?_map, Option.map_eq_some_iff] at hlast
  obtain ⟨segment, hsegment, hnil⟩ := hlast
  exact h (by rw [hsegment, lowerIf_eq_nil.1 hnil])

/-- Squeezing an expression that it keeps takes no text from its language. -/
theorem mem_language_keptAs {squeezed : Expr} (hkept : e.KeptAs squeezed)
    (hsegments : e.segments ≠ []) (hsqueezed : squeezed.segments ≠ []) (hline : '\n' ∉ s) :
    s ∈ squeezed.language ↔ s ∈ e.language := by
  obtain ⟨rfl, hfirst, hlast⟩ := hkept
  rw [mem_language hsqueezed hline, mem_language hsegments hline]
  simp only [Expr.squeeze, ← filter_lowerIf]
  exact placedFrom_filter (fun hstart => head_lowerIf (hfirst hstart))
    (fun hend => getLast_lowerIf (hlast hend))

theorem length_splitOn [DecidableEq α] (a : α) (l : List α) :
    (l.splitOn a).length = l.count a + 1 := by
  induction l with
  | nil => rfl
  | cons x l ih =>
    rw [splitOn_cons]
    split_ifs with h <;> simp_all

theorem count_plain (front : List Char) : (front.map Piece.plain).count .bar = 0 := by
  apply count_eq_zero.2
  simp

theorem stripFlag_front (s : List Char) : ∃ front, s = front ++ (stripFlag s).2 ∧
    ∀ c ∈ front, c ≠ '\\' ∧ c ≠ '|' ∧ c ≠ '.' := by
  unfold stripFlag
  split_ifs with h
  · obtain ⟨rest, rfl⟩ := isPrefixOf_iff_prefix.1 h
    exact ⟨"(?i)".toList, rfl, by simp⟩
  · exact ⟨[], rfl, by simp⟩

theorem count_bar_stripFlag (s : List Char) :
    (scan (stripFlag s).2).count .bar = (scan s).count .bar := by
  obtain ⟨front, hs, hfront⟩ := stripFlag_front s
  conv_rhs => rw [hs, scan_plain_append hfront, count_append, count_plain, zero_add]

/-- Trimming takes no bar away. -/
theorem count_bar_trim (hclosed : closed (stripFlag (trim s)).2 = true) :
    (scan s).count .bar = (scan (trim s)).count .bar := by
  obtain ⟨before, after, hs, hbefore, hafter, -⟩ := trim_spec s
  obtain ⟨front, htrim, hfront⟩ := stripFlag_front (trim s)
  rw [← count_bar_stripFlag (trim s)]
  generalize (stripFlag (trim s)).2 = rest at *
  rw [hs, htrim, append_assoc, scan_blank_append hbefore, scan_plain_append hfront]
  rw [scan_append_blank hclosed hafter]
  simp [count_plain]

theorem length_written (h : compile input = .ok p) :
    (written input).length = (squeezed input).length := by
  obtain ⟨-, hclosed, -⟩ := compile_reads h
  have htrimmed : (squeezed input).length = (trimmed input).length := by
    rw [squeezed_eq]
    split_ifs <;> simp
  rw [htrimmed]
  simp only [written, trimmed, length_map, length_splitOn, count_bar_stripFlag]
  rw [count_bar_trim hclosed]

theorem segments_written (he : e ∈ written input) :
    e.segments ≠ [] := by
  obtain ⟨pieces, -, rfl⟩ := mem_map.1 he
  exact segments_ofPieces_ne_nil _ pieces

theorem segments_squeezed (h : compile input = .ok p)
    (he : e ∈ squeezed input) : e.segments ≠ [] := by
  obtain ⟨-, -, hsegments⟩ := compile_trimmed h
  rw [squeezed_eq] at he
  split_ifs at he
  · exact hsegments e he
  · obtain ⟨inner, hinner, rfl⟩ := mem_map.1 he
    simpa [Expr.lowered] using hsegments inner hinner

theorem matches_written (h : compile input = .ok p) :
    Matches (written input) value ↔
      ∃ reading ∈ readings input, value.toList ∈ reading.1.language := by
  have hfst : (readings input).map Prod.fst = written input :=
    map_fst_zip (length_written h).le
  rw [Matches, ← hfst]
  simp only [mem_map, exists_exists_and_eq_and]

theorem matches_squeezed (h : compile input = .ok p) :
    Matches (squeezed input) value ↔
      ∃ reading ∈ readings input, value.toList ∈ reading.2.language := by
  have hsnd : (readings input).map Prod.snd = squeezed input :=
    map_snd_zip (length_written h).ge
  rw [Matches, ← hsnd]
  simp only [mem_map, exists_exists_and_eq_and]

theorem exists_mem_split {l : List α} {P K : α → Prop} :
    (∃ a ∈ l, P a) ↔ (∃ a ∈ l, K a ∧ P a) ∨ ∃ a ∈ l, ¬K a ∧ P a := by
  rw [← exists_or]
  refine exists_congr fun a => ?_
  tauto

theorem or_iff_or {p q r : Prop} : (p ∨ q ↔ p ∨ r) ↔ p ∨ (q ↔ r) := by
  tauto

theorem agrees_iff (h : compile input = .ok p) (hline : '\n' ∉ value.toList) :
    (Matches (squeezed input) value ↔ Matches (written input) value) ↔ Agrees input value := by
  have hkept : (∃ reading ∈ readings input, reading.1.KeptAs reading.2 ∧
        value.toList ∈ reading.2.language) ↔
      ∃ reading ∈ readings input, reading.1.KeptAs reading.2 ∧
        value.toList ∈ reading.1.language := by
    refine exists_congr fun reading => and_congr_right fun hmem => and_congr_right fun hkept => ?_
    obtain ⟨hfst, hsnd⟩ := of_mem_zip hmem
    exact mem_language_keptAs hkept (segments_written hfst) (segments_squeezed h hsnd) hline
  rw [matches_written h, matches_squeezed h]
  -- both sides split into the alternatives kept, which agree, and the ones changed
  rw [exists_mem_split (K := fun reading : Expr × Expr => reading.1.KeptAs reading.2)]
  rw [exists_mem_split (P := fun reading : Expr × Expr => value.toList ∈ reading.1.language)
    (K := fun reading => reading.1.KeptAs reading.2)]
  rw [hkept, or_iff_or, Agrees]

/-- A pattern that compiles matches what it says as a regular expression exactly on the values
where the alternatives that squeezing changes make no difference. A tight pattern has none. -/
theorem isMatch_iff_regex {input value : String} {p : Pattern} (h : compile input = .ok p)
    (hline : '\n' ∉ value.toList) :
    ((p.isMatch value = true ↔ Matches (written input) value) ↔ Agrees input value) ∧
      (Tight input → (p.isMatch value = true ↔ Matches (written input) value)) := by
  rw [isMatch_iff_squeezed h hline, agrees_iff h hline]
  refine ⟨Iff.rfl, fun htight => ?_⟩
  right
  exact iff_of_false (fun ⟨reading, hmem, hloose, _⟩ => hloose (htight reading hmem))
    fun ⟨reading, hmem, hloose, _⟩ => hloose (htight reading hmem)

theorem isMatch_iff_regex_alternation :
    ∃ p, compile "(?i)^npf|a\\.b.*c$" = .ok p ∧
      (p.isMatch "XA.B-C" = true ↔ Matches (written "(?i)^npf|a\\.b.*c$") "XA.B-C") := by
  refine ⟨⟨"(?i)^npf|a\\.b.*c$", _⟩, rfl, ?_⟩
  exact (isMatch_iff_regex rfl (by decide)).2 (by decide)

/-- `^.*foo` finds `foo` anywhere, but compiles to `^foo`. -/
theorem anchored_anyText_misses : ∃ p, compile "^.*foo" = .ok p ∧ p.isMatch "xfoo" = false ∧
    Matches (written "^.*foo") "xfoo" := by
  refine ⟨⟨"^.*foo", _⟩, rfl, by decide, ⟨false, true, false, [[], "foo".toList]⟩, ?_, ?_⟩
  · decide
  · rw [mem_language (by simp) (by decide)]
    exact ⟨[], "xfoo".toList, fun _ => rfl, rfl, "x".toList, [], rfl, by simp [Placed]⟩

end Regex
end AegisHV
