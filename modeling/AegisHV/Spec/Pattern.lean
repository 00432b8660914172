import Mathlib.Tactic
import AegisHV.Lib.Text

/-! Patterns (`pattern.rs`): compiled from text, and matched as alternatives of literal parts
with anything between them. A position in the text is modelled by what follows it. -/

namespace AegisHV

open Sys

structure Alt where
  anchorStart : Bool
  anchorEnd : Bool
  parts : List (List Char)

structure Pattern where
  raw : String
  alts : List Alt

namespace Pattern

/-- What follows the first occurrence of `part`, which `find` looks for. -/
def afterFirst (part : List Char) : List Char → Option (List Char)
  | [] => if part = [] then some [] else none
  | c :: rest =>
    if part.isPrefixOf (c :: rest) then some ((c :: rest).drop part.length)
    else afterFirst part rest

/-- The loop over the parts; only the first one can be anchored. -/
def walkParts (anchored : Bool) : List (List Char) → List Char → Bool
  | [], _ => true
  | part :: parts, hay =>
    if anchored then
      if part.isPrefixOf hay then walkParts false parts (hay.drop part.length) else false
    else
      match afterFirst part hay with
      | none => false
      | some rest => walkParts false parts rest

def altMatches (alt : Alt) (hay : List Char) : Bool :=
  match alt.parts with
  | [needle] =>
    match alt.anchorStart, alt.anchorEnd with
    | true, true => hay == needle
    | true, false => needle.isPrefixOf hay
    | false, true => needle.isSuffixOf hay
    | false, false => (afterFirst needle hay).isSome
  | parts =>
    walkParts alt.anchorStart parts hay &&
      (!alt.anchorEnd || (parts.getLast?.getD []).isSuffixOf hay)

def isMatch (self : Pattern) (value : String) : Bool :=
  let hay := if "(?i)".toList.isPrefixOf self.raw.toList then value.toList.map Char.toLower
    else value.toList
  self.alts.any (altMatches · hay)

/-- Where a scan over the pattern text stands: open brackets, and whether the last character
was a backslash. -/
structure Balance where
  paren : ℤ
  bracket : ℤ
  escape : Bool

def Balance.step (b : Balance) (c : Char) : Except String Balance :=
  if b.escape then .ok { b with escape := false }
  else if c = '\\' then .ok { b with escape := true }
  else if c = '(' then .ok { b with paren := b.paren + 1 }
  else if c = ')' then
    if b.paren - 1 < 0 then .error "invalid pattern: unmatched ')'"
    else .ok { b with paren := b.paren - 1 }
  else if c = '[' then .ok { b with bracket := b.bracket + 1 }
  else if c = ']' then
    if b.bracket - 1 < 0 then .error "invalid pattern: unmatched ']'"
    else .ok { b with bracket := b.bracket - 1 }
  else .ok b

def validateBalanced (s : List Char) : Except String Unit := do
  let b ← s.foldlM Balance.step ⟨0, 0, false⟩
  if b.escape then throw "invalid pattern: trailing escape"
  if b.paren ≠ 0 then throw "invalid pattern: unmatched '('"
  if b.bracket ≠ 0 then throw "invalid pattern: unmatched '['"

def isUnsupported (c : Char) : Bool := c ∈ ['+', '?', '\x7b', '\x7d', '[', ']', '(', ')']

def rejectUnsupported : List Char → Except String Unit
  | [] => .ok ()
  | ['\\'] => .ok ()
  | '\\' :: _ :: rest => rejectUnsupported rest
  | c :: rest =>
    if isUnsupported c then
      .error ("invalid pattern: unsupported regex operator '" ++ c.toString ++ "'")
    else rejectUnsupported rest

def unescapeRegexLiteral : List Char → Except String (List Char)
  | [] => .ok []
  | ['\\'] => .error "invalid pattern: trailing escape"
  | '\\' :: c :: rest => (unescapeRegexLiteral rest).map (c :: ·)
  | c :: rest => (unescapeRegexLiteral rest).map (c :: ·)

/-- `body.split(".*")` -/
def splitAnyText : List Char → List (List Char)
  | [] => [[]]
  | '.' :: '*' :: rest => [] :: splitAnyText rest
  | c :: rest => (splitAnyText rest).modifyHead (c :: ·)

def stripCaret : List Char → Bool × List Char
  | '^' :: body => (true, body)
  | alt => (false, alt)

def stripDollar (body : List Char) : Bool × List Char :=
  if body.getLast? = some '$' then (true, body.dropLast) else (false, body)

def lowerIf (caseInsensitive : Bool) (s : List Char) : List Char :=
  if caseInsensitive then s.map Char.toLower else s

def compileAlt (input : String) (caseInsensitive : Bool) (text : List Char) :
    Except String Alt := do
  let alt := trim text
  if alt = [] then throw ("invalid pattern '" ++ input ++ "': empty alternation")
  let start := stripCaret alt
  let stop := stripDollar start.2
  let literals ← (splitAnyText stop.2).mapM unescapeRegexLiteral
  let parts := (literals.map (lowerIf caseInsensitive)).filter (· ≠ [])
  if parts = [] then throw ("invalid pattern '" ++ input ++ "': empty expression")
  return { anchorStart := start.1, anchorEnd := stop.1, parts := parts }

def stripFlag (raw : List Char) : Bool × List Char :=
  if "(?i)".toList.isPrefixOf raw then (true, raw.drop 4) else (false, raw)

def compile (input : String) : Except String Pattern := do
  let trimmed := trim input.toList
  if trimmed = [] then throw "empty pattern"
  let flag := stripFlag trimmed
  validateBalanced flag.2
  rejectUnsupported flag.2
  let alts ← (flag.2.splitOn '|').mapM (compileAlt input flag.1)
  return { raw := input, alts := alts }

end Pattern
end AegisHV
