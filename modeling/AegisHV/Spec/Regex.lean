import Mathlib.Computability.Language
import AegisHV.Spec.Pattern

/-! The regular expressions `pattern.rs` documents, read from the text as regular expressions
are: an escaped character stands for itself, `.*` for any text, `|` separates alternatives,
`^` and `$` anchor one, and a leading `(?i)` ignores ASCII case. A value matches when some
stretch of it is in the language of the expression. -/

namespace AegisHV
namespace Regex

open Sys Pattern

/-- A piece of pattern text. -/
inductive Piece where
  | plain (c : Char)
  | escaped (c : Char)
  | anyText
  | bar
  deriving DecidableEq

def Piece.char : Piece → Char
  | plain c | escaped c => c
  | anyText => '*'
  | bar => '|'

def scan : List Char → List Piece
  | [] => []
  | '\\' :: c :: rest => .escaped c :: scan rest
  | '.' :: '*' :: rest => .anyText :: scan rest
  | '|' :: rest => .bar :: scan rest
  | c :: rest => .plain c :: scan rest

/-- One alternative: literal segments with any text between them. -/
structure Expr where
  foldCase : Bool
  atStart : Bool
  atEnd : Bool
  segments : List (List Char)
  deriving DecidableEq

def takeCaret : List Piece → Bool × List Piece
  | .plain '^' :: body => (true, body)
  | pieces => (false, pieces)

def takeDollar (body : List Piece) : Bool × List Piece :=
  if body.getLast? = some (.plain '$') then (true, body.dropLast) else (false, body)

def Expr.ofPieces (foldCase : Bool) (pieces : List Piece) : Expr :=
  let start := takeCaret pieces
  let stop := takeDollar start.2
  { foldCase := foldCase
    atStart := start.1
    atEnd := stop.1
    segments := (stop.2.splitOn .anyText).map (·.map Piece.char) }

/-- The pattern as it is written. -/
def written (input : String) : List Expr :=
  let flag := stripFlag input.toList
  ((scan flag.2).splitOn .bar).map (Expr.ofPieces flag.1)

/-- Text without a line break, which is what `.*` stands for. -/
def anyText : Language Char := {s | '\n' ∉ s}

def literal (foldCase : Bool) (segment : List Char) : Language Char :=
  {s | lowerIf foldCase s = lowerIf foldCase segment}

/-- Searched, not matched whole: only an anchor ties the expression to an end of the value. -/
def Expr.language (e : Expr) : Language Char :=
  (if e.atStart then 1 else ⊤) *
    ((e.segments.map (literal e.foldCase)).intersperse anyText).prod *
      (if e.atEnd then 1 else ⊤)

def Matches (exprs : List Expr) (value : String) : Prop :=
  ∃ e ∈ exprs, value.toList ∈ e.language

/-- An unescaped white space character. -/
def Piece.isBlank : Piece → Bool
  | plain c => isWhitespace c
  | _ => false

def trimPieces (pieces : List Piece) : List Piece :=
  (pieces.dropWhile Piece.isBlank).rdropWhile Piece.isBlank

/-- What `|` separates, without the white space around it. -/
def alternatives (input : String) : List (List Piece) :=
  ((scan (stripFlag (trim input.toList)).2).splitOn .bar).map trimPieces

/-- An alternative without its anchors. -/
def unanchored (pieces : List Piece) : List Piece := (takeDollar (takeCaret pieces).2).2

def metacharacters : List Char :=
  ['\\', '^', '$', '.', '|', '?', '*', '+', '(', ')', '[', ']', '\x7b', '\x7d']

/-- Every unescaped metacharacter is an operator `compile` documents, in its place: what is left
without the flag, the bars, the anchors and the `.*` has none. -/
def Documented (input : String) : Prop :=
  ∀ pieces ∈ alternatives input, pieces ≠ [] ∧
    ∀ c ∈ metacharacters, Piece.plain c ∉ unanchored pieces

/-- No dot or star stands alone, and no caret or dollar inside an alternative. -/
def Unstrayed (input : String) : Prop :=
  ∀ pieces ∈ alternatives input, ∀ c ∈ ['.', '*', '^', '$'], Piece.plain c ∉ unanchored pieces

/-- Without the empty segments, so without a `.*` next to an anchor. -/
def Expr.squeeze (e : Expr) : Expr := { e with segments := e.segments.filter (· ≠ []) }

/-- With its letters in lower case and compared as they are. -/
def Expr.lowered (e : Expr) : Expr :=
  { e with foldCase := false, segments := e.segments.map (lowerIf e.foldCase) }

/-- The pattern with the white space around it and around its alternatives taken away and no
`.*` next to an anchor. White space before `(?i)` leaves the pattern in lower case but the
value as it is. -/
def squeezed (input : String) : List Expr :=
  let flag := stripFlag (trim input.toList)
  let exprs := ((scan flag.2).splitOn .bar).map fun pieces =>
    (Expr.ofPieces flag.1 (trimPieces pieces)).squeeze
  if (stripFlag input.toList).1 then exprs else exprs.map Expr.lowered

/-- Squeezing keeps the expression as it is, but for empty segments away from the anchors. -/
def Expr.KeptAs (e squeezed : Expr) : Prop :=
  squeezed = e.squeeze ∧ (e.atStart = true → e.segments.head? ≠ some []) ∧
    (e.atEnd = true → e.segments.getLast? ≠ some [])

instance (e squeezed : Expr) : Decidable (e.KeptAs squeezed) :=
  inferInstanceAs (Decidable (_ ∧ _))

/-- Each alternative as it is written and as it is squeezed. -/
def readings (input : String) : List (Expr × Expr) := (written input).zip (squeezed input)

/-- No alternative has white space at an end or `.*` next to an anchor. -/
def Tight (input : String) : Prop := ∀ reading ∈ readings input, reading.1.KeptAs reading.2

instance (input : String) : Decidable (Tight input) := List.decidableBAll _ _

/-- The value is matched by an alternative that squeezing keeps, or the alternatives it changes
match the value as they are written exactly when they match it squeezed. -/
def Agrees (input value : String) : Prop :=
  (∃ reading ∈ readings input, reading.1.KeptAs reading.2 ∧ value.toList ∈ reading.1.language) ∨
    ((∃ reading ∈ readings input, ¬reading.1.KeptAs reading.2 ∧
        value.toList ∈ reading.2.language) ↔
      ∃ reading ∈ readings input, ¬reading.1.KeptAs reading.2 ∧
        value.toList ∈ reading.1.language)

end Regex
end AegisHV
