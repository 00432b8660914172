import AegisHV.Lib.Op
import AegisHV.Lib.Text

/-! How the configuration reader (`config.rs`, `util.rs`) finds and decodes strings: one line at
a time, with the comment cut off, as a plain value, as an array of strings, as an inline table
or as an array of action tables. Texts are lists of characters, and a position in a text counts
characters. -/

namespace AegisHV.Config

open Sys

/-! Where a scan stands with respect to the quotes. -/

structure Quote where
  inStr : Bool
  escape : Bool

namespace Quote

def start : Quote := ⟨false, false⟩

/-- What all the loops do with `in_str` and `escape` at a character. -/
def next (q : Quote) (c : Char) : Quote :=
  if q.escape then { q with escape := false }
  else if c = '\\' ∧ q.inStr then { q with escape := true }
  else if c = '"' then { q with inStr := !q.inStr }
  else q

/-- A character has its special meaning only outside strings. -/
def outside (q : Quote) : Bool := !q.inStr && !q.escape

end Quote

/-- The text before the first character outside strings at which the loop stops, the text from
there on, and the state of the loop. -/
def splitOutside (stop : Char → Bool) (q : Quote) : List Char → List Char × List Char × Quote
  | [] => ([], [], q)
  | c :: cs =>
    if q.outside && stop c then ([], c :: cs, q)
    else
      let (before, rest, q') := splitOutside stop (q.next c) cs
      (c :: before, rest, q')

/-- The checks behind the loops. -/
def rejectOpen (q : Quote) (escapeError stringError : String) : Except String Unit := do
  failIf q.escape escapeError
  failIf q.inStr stringError

def stripComment (s : List Char) : Except String (List Char) := do
  let (out, _, q) := splitOutside (· == '#') Quote.start s
  rejectOpen q "unterminated escape in string" "unterminated string"
  pure out

def splitKeyValue (line : List Char) : Except String (List Char × List Char) :=
  match splitOutside (· == '=') Quote.start line with
  | (before, _ :: after, _) => do
    let key := trim before
    let value := trim after
    let name := String.ofList key
    failIf key.isEmpty "empty config key"
    failIf value.isEmpty s!"missing value for key '{name}'"
    pure (key, value)
  | (_, [], _) => .error "expected key = value assignment"

/-- What a character stands for behind a backslash. -/
def unescape (c : Char) : List Char :=
  if c = '"' then ['"'] else if c = 'n' then ['\n'] else if c = '\\' then ['\\'] else ['\\', c]

/-- The loop of `parse_quoted_value`, at position `idx`. -/
def parseQuotedFrom (out : List Char) (escape : Bool) (idx : ℕ) :
    List Char → Except String (List Char × ℕ)
  | [] => .error (if escape then "unterminated escape in string" else "unterminated string")
  | c :: cs =>
    if escape then parseQuotedFrom (out ++ unescape c) false (idx + 1) cs
    else if c = '\\' then parseQuotedFrom out true (idx + 1) cs
    else if c = '"' then .ok (out, idx + 1)
    else parseQuotedFrom (out ++ [c]) false (idx + 1) cs

def parseQuotedValue (value : List Char) : Except String (List Char × ℕ) :=
  parseQuotedFrom [] false 1 (value.drop 1)

/-- `str::replace` for a pattern of two different characters. -/
def replacePair (a b : Char) (new : List Char) : List Char → List Char
  | x :: y :: rest =>
    if x = a ∧ y = b then new ++ replacePair a b new rest else x :: replacePair a b new (y :: rest)
  | rest => rest

/-- `strip_prefix(open)` and `strip_suffix(close)` -/
def stripBrackets (opening closing : Char) (t : List Char) : Option (List Char) :=
  match t with
  | [] => none
  | c :: rest =>
    if c = opening ∧ rest.getLast? = some closing then some rest.dropLast else none

def trimStart (s : List Char) : List Char := s.dropWhile isWhitespace

/-- The decoder of plain values (`util.rs`). -/
def parseStringValue (s : List Char) : List Char :=
  let t := trim ((trim s).rdropWhile (· == ','))
  if t.head? = some '"' ∧ t.getLast? = some '"' ∧ 2 ≤ t.length then
    replacePair '\\' 'n' ['\n'] (replacePair '\\' '"' ['"'] (t.drop 1).dropLast)
  else t

/-- The loop of `parse_string_array_strict`. A turn takes a character at least, so the length of
the text is turns enough. -/
def parseElements (values : List (List Char)) : ℕ → List Char → Except String (List (List Char))
  | 0, _ => pure values
  | turns + 1, rest => do
    failIf (rest.head? == some ',') "empty string array element"
    failIf (rest.head? != some '"') "string array elements must be quoted"
    let (value, consumed) ← parseQuotedValue rest
    let rest := trimStart (rest.drop consumed)
    if rest.isEmpty then pure (values ++ [value])
    else
      failIf (rest.head? != some ',') "expected comma between string array elements"
      let rest := trimStart (rest.drop 1)
      failIf rest.isEmpty "trailing comma in string array"
      parseElements (values ++ [value]) turns rest

def parseStringArrayStrict (value : List Char) : Except String (List (List Char)) := do
  let rest ← okOr (stripBrackets '[' ']' (trim value)) "expected string array"
  let rest := trim rest
  if rest.isEmpty then pure [] else parseElements [] rest.length rest

def parseInlineValue (value : List Char) : Except String (List Char) :=
  let t := trim value
  if t.head? = some '"' then do
    let (parsed, consumed) ← parseQuotedValue t
    failIf (!(trim (t.drop consumed)).isEmpty) "unexpected content after quoted string"
    pure parsed
  else do
    failIf t.isEmpty "empty inline value"
    failIf (t.any fun c => c == '[' || c == ']' || c == '{' || c == '}')
      "nested inline syntax is not supported"
    pure (parseStringValue t)

/-- The loop of `split_comma_parts`. -/
def splitCommaFrom (input : List Char) (context : String) (parts : List (List Char))
    (current : List Char) (q : Quote) : List Char → Except String (List (List Char))
  | [] => do
    rejectOpen q s!"unterminated escape in {context}" s!"unterminated string in {context}"
    if (trim current).isEmpty then
      if (trim input).isEmpty then pure parts
      else .error s!"trailing comma in {context}"
    else pure (parts ++ [trim current])
  | c :: cs =>
    if q.outside && c == ',' then do
      failIf (trim current).isEmpty s!"empty {context} entry"
      splitCommaFrom input context (parts ++ [trim current]) [] q cs
    else splitCommaFrom input context parts (current ++ [c]) (q.next c) cs

def splitCommaParts (input : List Char) (context : String) : Except String (List (List Char)) :=
  splitCommaFrom input context [] [] Quote.start input

/-- The loop over the parts of an inline table; the keys of `out` are the ones seen. -/
def addPart (out : List (List Char × List Char)) (part : List Char) :
    Except String (List (List Char × List Char)) := do
  let text := String.ofList part
  let (k, v) ← (splitKeyValue part).mapError fun e => s!"invalid inline table part '{text}': {e}"
  let name := String.ofList k
  failIf ((out.map Prod.fst).contains k) s!"duplicate inline key '{name}'"
  let parsed ← parseInlineValue v
  pure (out ++ [(k, parsed)])

def parseInlineTable (value : List Char) : Except String (List (List Char × List Char)) := do
  let text := String.ofList value
  let inner ← okOr (stripBrackets '\x7b' '\x7d' (trim value)) s!"expected inline table, got {text}"
  let parts ← splitCommaParts inner "inline table"
  parts.foldlM addPart []

structure Action where
  kind : List Char
  outputPath : List Char
  nic : List Char
  deriving DecidableEq

/-- One field of `parse_action_inline`. -/
def setAction (a : Action) (field : List Char × List Char) : Except String Action :=
  let name := String.ofList field.1
  if field.1 = "kind".toList then pure { a with kind := field.2 }
  else if field.1 = "output_path".toList then pure { a with outputPath := field.2 }
  else if field.1 = "nic".toList then pure { a with nic := field.2 }
  else .error s!"unknown action key '{name}'"

def parseActionInline (value : List Char) : Except String Action := do
  let fields ← parseInlineTable value
  fields.foldlM setAction ⟨[], [], []⟩

/-- Where `find_inline_table_end` stops outside strings. -/
def isTableStop (c : Char) : Bool := c == '\x7b' || c == '[' || c == '\x7d'

/-- The position behind the first table. At index 0 an opening brace is not a nested one. -/
def findInlineTableEnd : List Char → Except String ℕ
  | [] => .error "unterminated action table"
  | c :: cs =>
    if c = '[' then .error "nested arrays are not supported"
    else if c = '\x7d' then .ok 1
    else
      match splitOutside isTableStop (Quote.start.next c) cs with
      | (before, d :: _, _) =>
        if d = '\x7b' then .error "nested inline tables are not supported"
        else if d = '[' then .error "nested arrays are not supported"
        else .ok (before.length + 2)
      | (_, [], q) => do
        rejectOpen q "unterminated escape in action table" "unterminated string in action table"
        .error "unterminated action table"

/-- The loop of `parse_actions_array`. -/
def parseActions (out : List Action) : ℕ → List Char → Except String (List Action)
  | 0, _ => pure out
  | turns + 1, rest => do
    failIf (rest.head? != some '\x7b') "actions array entries must be inline action tables"
    let consumed ← findInlineTableEnd rest
    let action ← parseActionInline (rest.take consumed)
    let rest := trimStart (rest.drop consumed)
    if rest.isEmpty then pure (out ++ [action])
    else
      failIf (rest.head? != some ',') "expected comma between actions array entries"
      let rest := trimStart (rest.drop 1)
      failIf rest.isEmpty "trailing comma in actions array"
      parseActions (out ++ [action]) turns rest

def parseActionsArray (value : List Char) : Except String (List Action) := do
  let rest ← okOr (stripBrackets '[' ']' (trim value)) "actions must be an array"
  let rest := trim rest
  if rest.isEmpty then pure [] else parseActions [] rest.length rest

/-- What `parse_config` makes of a line before it looks at the section. -/
inductive Line
  | blank
  | header (text : List Char)
  | assign (key value : List Char)

def readLine (raw : List Char) : Except String Line := do
  let line := trim (← stripComment raw)
  if line.isEmpty then pure .blank
  else if line.head? = some '[' then pure (.header line)
  else do
    let (key, value) ← splitKeyValue line
    pure (.assign key value)

end AegisHV.Config
