import AegisHV.Lib.Json
import AegisHV.Lib.Op
import AegisHV.Lib.Text

/-! The QMP client of `actions.rs`: a command is answered by the first line that has a word in
quotes, wherever it stands in the line. The lines are those that come before the timeout. -/

namespace AegisHV.Qmp

open Sys

def readOneJson (line : List Char) : Except String (List Char) := do
  let trimmed := trim line
  let text := String.ofList trimmed
  failIf trimmed.isEmpty "empty QMP line"
  failIf (!(trimmed.head? == some '\x7b' && trimmed.getLast? == some '\x7d'))
    s!"invalid QMP json frame: {text}"
  pure trimmed

/-- `msg.contains("\"word\"")` -/
def hasQuoted (word : String) (msg : List Char) : Bool :=
  (splitFirst ('"' :: (word.toList ++ ['"'])) msg).isSome

/-- The loop of `exec`. -/
def exec (cmd : String) : List (List Char) → Except String Unit
  | [] => .error "QMP EOF"
  | line :: lines => do
    let msg ← readOneJson line
    let text := String.ofList msg
    if hasQuoted "return" msg then pure ()
    else if hasQuoted "error" msg then .error s!"QMP error for {cmd}: {text}"
    else exec cmd lines

/-! What a line says as a JSON text. -/

inductive Kind
  | event
  | ret
  | error
  deriving DecidableEq

def kindOf (ms : List (List Char × Json)) : Option Kind :=
  let keys := ms.map Prod.fst
  if "event".toList ∈ keys then some .event
  else if "return".toList ∈ keys then some .ret
  else if "error".toList ∈ keys then some .error
  else none

/-- A message is an object, with the braces at the ends of its line. -/
def kind (line : List Char) : Option Kind :=
  match readOneJson line, Json.decode line with
  | .ok _, some (.obj ms) => kindOf ms
  | _, _ => none

/-- A line with one of the words in quotes. -/
def isMarked (line : List Char) : Bool :=
  hasQuoted "return" (trim line) || hasQuoted "error" (trim line)

/-- Whatever comes later, the command succeeds or fails as the response says. -/
def Answers (cmd : String) (events : List (List Char)) (response : List Char) : Prop :=
  ∀ later, (exec cmd (events ++ [response] ++ later) = .ok () ↔ kind response = some .ret) ∧
    ((∃ e, exec cmd (events ++ [response] ++ later) = .error e) ↔ kind response = some .error)

end AegisHV.Qmp
