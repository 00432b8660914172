import Mathlib.Tactic
import Mathlib.Data.List.DropRight

/-! Text as the sources handle it: Unicode white space, trimming, the `{:#x}` format and the
bytes of a string. -/

namespace Sys
open List

/-- The characters `char::is_whitespace` accepts. -/
def isWhitespace (c : Char) : Bool :=
  let n := c.toNat
  (9 ≤ n && n ≤ 13) || n == 32 || n == 0x85 || n == 0xA0 || n == 0x1680 ||
    (0x2000 ≤ n && n ≤ 0x200A) || n == 0x2028 || n == 0x2029 || n == 0x202F || n == 0x205F ||
    n == 0x3000

/-- `s.trim()` -/
def trim (s : List Char) : List Char := (s.dropWhile isWhitespace).rdropWhile isWhitespace

theorem trim_spec (s : List Char) : ∃ before after, s = before ++ (trim s ++ after) ∧
    (∀ c ∈ before, isWhitespace c = true) ∧ (∀ c ∈ after, isWhitespace c = true) ∧
    (∀ c, (trim s).head? = some c → isWhitespace c = false) ∧
    ∀ c, (trim s).getLast? = some c → isWhitespace c = false := by
  refine ⟨s.takeWhile isWhitespace, (s.dropWhile isWhitespace).rtakeWhile isWhitespace,
    ?_, ?_, ?_, ?_, ?_⟩
  · rw [trim, rdropWhile_append_rtakeWhile, takeWhile_append_dropWhile]
  · exact fun c hc => mem_takeWhile_imp hc
  · intro c hc
    exact mem_takeWhile_imp (mem_reverse.1 hc)
  · intro c hc
    have hstarts : trim s <+: s.dropWhile isWhitespace := rdropWhile_prefix _ _
    have hhead : (s.dropWhile isWhitespace).head? = some c := by
      obtain ⟨rest, hrest⟩ := head?_eq_some_iff.1 hc
      rw [hrest] at hstarts
      obtain ⟨tail, htail⟩ := hstarts
      rw [← htail]
      rfl
    simpa [hhead] using head?_dropWhile_not isWhitespace s
  · intro c hc
    have hne : trim s ≠ [] := by
      intro h
      simp [h] at hc
    have hlast := rdropWhile_last_not isWhitespace (s.dropWhile isWhitespace) hne
    rw [getLast?_eq_some_getLast hne, Option.some.injEq] at hc
    rw [← hc]
    exact eq_false_of_ne_true hlast

/-- A character outside the class shields what stands in front of it. -/
theorem rdropWhile_append_cons {α : Type*} {p : α → Bool} {a b : List α} {c : α}
    (hc : p c = false) : (a ++ c :: b).rdropWhile p = a ++ c :: b.rdropWhile p := by
  induction b using List.reverseRecOn with
  | nil => simp [hc]
  | append_singleton b d ih =>
    have hassoc : a ++ c :: (b ++ [d]) = (a ++ c :: b) ++ [d] := by simp
    rw [hassoc, rdropWhile_concat, rdropWhile_concat]
    split_ifs with hd
    · exact ih
    · exact hassoc.symm

variable {c : Char}

/-- Between its first and a later black character a text is not trimmed. -/
theorem trim_append_cons {a b : List Char}
    (ha : ∀ d, a.head? = some d → isWhitespace d = false) (hc : isWhitespace c = false) :
    ∃ b', trim (a ++ c :: b) = a ++ c :: b' := by
  have hdrop : (a ++ c :: b).dropWhile isWhitespace = a ++ c :: b := by
    cases a with
    | nil => exact dropWhile_cons_of_neg (by simp [hc])
    | cons d a => exact dropWhile_cons_of_neg (by simp [ha d rfl])
  exact ⟨_, by rw [trim, hdrop, rdropWhile_append_cons hc]⟩

variable {s : List Char}

theorem mem_trim (hc : c ∈ s) (hblack : isWhitespace c = false) :
    c ∈ trim s := by
  obtain ⟨before, after, hs, hbefore, hafter, -⟩ := trim_spec s
  rw [hs, mem_append, mem_append] at hc
  rcases hc with hc | hc | hc
  · rw [hbefore c hc] at hblack
    cases hblack
  · exact hc
  · rw [hafter c hc] at hblack
    cases hblack

theorem mem_of_mem_trim (hc : c ∈ trim s) : c ∈ s := by
  obtain ⟨before, after, hs, -⟩ := trim_spec s
  rw [hs]
  simp [hc]

/-- A text that starts and ends in black characters is not trimmed. -/
theorem trim_of_ends (hhead : ∀ c, s.head? = some c → isWhitespace c = false)
    (hlast : ∀ c, s.getLast? = some c → isWhitespace c = false) : trim s = s := by
  obtain ⟨before, after, hs, hbefore, hafter, -⟩ := trim_spec s
  have hb : before = [] := by
    cases before with
    | nil => rfl
    | cons c rest =>
      have := hhead c (by rw [hs]; rfl)
      simp [hbefore c (by simp)] at this
  have ha : after = [] := by
    rcases eq_nil_or_concat' after with rfl | ⟨rest, c, rfl⟩
    · rfl
    · have := hlast c (by rw [hs]; simp)
      simp [hafter c (by simp)] at this
  rw [hb, ha] at hs
  simpa using hs.symm

theorem trim_eq_self (h : ∀ c ∈ s, isWhitespace c = false) : trim s = s :=
  trim_of_ends (fun c hc => h c (mem_of_mem_head? hc)) fun c hc =>
    h c (mem_of_getLast? hc)

theorem trim_trim (s : List Char) : trim (trim s) = trim s := by
  obtain ⟨before, after, -, -, -, hhead, hlast⟩ := trim_spec s
  exact trim_of_ends hhead hlast

theorem trim_white_append {a : List Char} (h : ∀ c ∈ a, isWhitespace c = true) :
    trim (a ++ s) = trim s := by
  rw [trim, dropWhile_append_of_pos h, trim]

theorem trim_append_white {b : List Char} (h : ∀ c ∈ b, isWhitespace c = true) :
    trim (s ++ b) = trim s := by
  rw [trim, dropWhile_append]
  split_ifs with hs
  · have hnil : s.dropWhile isWhitespace = [] := by simpa using hs
    have hb : b.dropWhile isWhitespace = [] := dropWhile_eq_nil_iff.2 h
    rw [hb, trim, hnil]
  · rw [List.rdropWhile, reverse_append, dropWhile_append_of_pos fun c hc => h c (mem_reverse.1 hc)]
    rfl

theorem trim_eq_nil : trim s = [] ↔ ∀ c ∈ s, isWhitespace c = true := by
  constructor
  · intro h c hc
    by_contra hblack
    have := mem_trim hc (eq_false_of_ne_true hblack)
    simp [h] at this
  · intro h
    have hdrop : s.dropWhile isWhitespace = [] := dropWhile_eq_nil_iff.2 h
    rw [trim, hdrop]
    rfl

def trimText (s : String) : String := String.ofList (trim s.toList)

/-- What `str::lines` makes of a line that ends in a line feed. -/
def stripCr (line : List Char) : List Char :=
  if line.getLast? = some '\r' then line.dropLast else line

/-- `str::lines`: the text behind the last line feed is a line only if there is some. -/
def lines (text : List Char) : List (List Char) :=
  let parts := text.splitOn '\n'
  parts.dropLast.map stripCr ++ if parts.getLastD [] = [] then [] else [parts.getLastD []]

theorem splitOn_lines {ls : List (List Char)} (h : ∀ l ∈ ls, '\n' ∉ l) :
    (ls.flatMap fun l => l ++ ['\n']).splitOn '\n' = ls ++ [[]] := by
  induction ls with
  | nil => rfl
  | cons l ls ih =>
    have hl : ∀ c ∈ l, (c == '\n') = false := fun c hc => by
      have hne : c ≠ '\n' := fun heq => h l (by simp) (heq ▸ hc)
      simpa using hne
    have hcons : ((l :: ls).flatMap fun l => l ++ ['\n']) =
        l ++ '\n' :: ls.flatMap fun l => l ++ ['\n'] := by simp
    have hrest := ih fun m hm => h m (by simp [hm])
    rw [splitOn_eq_splitOnP] at hrest ⊢
    rw [hcons, splitOnP_append_cons_of_forall_mem hl '\n' (by simp), hrest]
    rfl

/-- Lines written with a line feed behind each are read back. -/
theorem lines_flatMap {ls : List (List Char)} (h : ∀ l ∈ ls, '\n' ∉ l ∧ '\r' ∉ l) :
    lines (ls.flatMap fun l => l ++ ['\n']) = ls := by
  have hstrip : ∀ l ∈ ls, stripCr l = l := fun l hl =>
    if_neg fun hlast => (h l hl).2 (mem_of_getLast? hlast)
  rw [lines, splitOn_lines fun l hl => (h l hl).1]
  simpa using map_congr_left hstrip

/-- `a <= b` for strings: the first different character decides. -/
def strLe : List Char → List Char → Bool
  | [], _ => true
  | _ :: _, [] => false
  | a :: as, b :: bs => if a = b then strLe as bs else decide (a.toNat < b.toNat)

theorem strLe_total (s : List Char) : ∀ t, strLe s t = true ∨ strLe t s = true := by
  induction s with
  | nil => exact fun t => .inl (by simp [strLe])
  | cons a s ih =>
    intro t
    rcases t with _ | ⟨b, t⟩
    · exact .inr (by simp [strLe])
    · by_cases hab : a = b
      · simpa [strLe, hab] using ih t
      · have hne : a.toNat ≠ b.toNat := fun h => hab (Char.toNat_inj.mp h)
        simp only [strLe, hab, Ne.symm hab, if_false, decide_eq_true_eq]
        omega

theorem strLe_trans {t : List Char} : ∀ {s u}, strLe s t = true → strLe t u = true →
    strLe s u = true := by
  induction t with
  | nil =>
    intro s u hst _
    rcases s with _ | ⟨a, s⟩
    · simp [strLe]
    · cases hst
  | cons b t ih =>
    intro s u hst htu
    rcases s with _ | ⟨a, s⟩
    · simp [strLe]
    rcases u with _ | ⟨c, u⟩
    · cases htu
    by_cases hab : a = b
    · subst hab
      by_cases hac : a = c
      · subst hac
        rw [strLe, if_pos rfl] at hst htu ⊢
        exact ih hst htu
      · rw [strLe, if_neg hac] at htu ⊢
        exact htu
    · by_cases hbc : b = c
      · subst hbc
        rw [strLe, if_neg hab] at hst ⊢
        exact hst
      · rw [strLe, if_neg hab, decide_eq_true_eq] at hst
        rw [strLe, if_neg hbc, decide_eq_true_eq] at htu
        have hac : a ≠ c := fun h => by subst h; omega
        rw [strLe, if_neg hac, decide_eq_true_eq]
        exact lt_trans hst htu

theorem strLe_antisymm : ∀ {t}, strLe s t = true → strLe t s = true → s = t := by
  induction s with
  | nil =>
    intro t _ hts
    rcases t with _ | ⟨b, t⟩
    · rfl
    · cases hts
  | cons a s ih =>
    intro t hst hts
    rcases t with _ | ⟨b, t⟩
    · cases hst
    · by_cases hab : a = b
      · subst hab
        rw [strLe, if_pos rfl] at hst hts
        rw [ih hst hts]
      · rw [strLe, if_neg hab, decide_eq_true_eq] at hst
        rw [strLe, if_neg (Ne.symm hab), decide_eq_true_eq] at hts
        omega

/-- `s.trim().is_empty()` -/
def isBlank (s : String) : Bool := s.toList.all isWhitespace

/-- `format!("{:#x}", n)` -/
def hex (n : ℕ) : String := "0x" ++ String.ofList (Nat.toDigits 16 n)

/-- `s.as_bytes()` -/
def utf8 (s : String) : List UInt8 := s.toUTF8.data.toList

/-- `std::str::from_utf8` -/
def fromUtf8 (bytes : List UInt8) : Option String := String.fromUTF8? ⟨bytes.toArray⟩

theorem fromUtf8_utf8 (s : String) : fromUtf8 (utf8 s) = some s := by
  have hvalid : (ByteArray.mk (utf8 s).toArray).IsValidUTF8 := s.isValidUTF8
  unfold fromUtf8 String.fromUTF8?
  rw [dif_pos hvalid]
  rfl

theorem utf8_ofList (cs : List Char) :
    utf8 (String.ofList cs) = cs.flatMap String.utf8EncodeChar := by
  rw [utf8, String.toUTF8, String.toByteArray_ofList, List.utf8Encode, data_toByteArray]

/-- One byte for each character of plain ASCII text. -/
theorem utf8_of_ascii (cs : List Char) (h : ∀ c ∈ cs, c.val ≤ 127) :
    utf8 (String.ofList cs) = cs.map fun c => c.val.toUInt8 := by
  rw [utf8_ofList]
  induction cs with
  | nil => rfl
  | cons c cs ih =>
    have hc := Char.utf8Size_eq_one_iff.2 (h c mem_cons_self)
    rw [flatMap_cons, String.utf8EncodeChar_eq_singleton hc, ih fun d hd => h d (mem_cons_of_mem c hd)]
    rfl

end Sys
