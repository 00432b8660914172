import AegisHV.Lib.Radix
import AegisHV.Lib.Split
import AegisHV.Lib.Text

/-! What `identity.rs` reads from the cgroup text of a task: the name of its domain and its unit,
with the escapes of systemd undone. The decoder goes over the bytes of the text and cuts it at
byte positions; a cut inside a character is a panic. -/

namespace AegisHV.Cgroup

open Sys

inductive Panic
  | notCharBoundary
  deriving DecidableEq

/-- The text is cut before these bytes. -/
def isCharBoundary (rest : List UInt8) : Bool := rest.head?.all fun b => b < 0x80 || 0xc0 ≤ b

/-- `b as char` -/
def asChar (b : UInt8) : Char := Char.ofNat b.toNat

/-- The loop sees a backslash, an `x` and two more bytes, or goes on by one byte. -/
def decodeSystemdEscape : List UInt8 → Except Panic (List Char)
  | b :: x :: h₁ :: h₂ :: rest =>
    if b = 0x5c ∧ x = 0x78 then
      if isCharBoundary (h₁ :: h₂ :: rest) && isCharBoundary rest then
        match fromStrRadix 256 16 [asChar h₁, asChar h₂] with
        | some v => (Char.ofNat v :: ·) <$> decodeSystemdEscape rest
        | none => (asChar b :: ·) <$> decodeSystemdEscape (x :: h₁ :: h₂ :: rest)
      else .error .notCharBoundary
    else (asChar b :: ·) <$> decodeSystemdEscape (x :: h₁ :: h₂ :: rest)
  | b :: rest => (asChar b :: ·) <$> decodeSystemdEscape rest
  | [] => pure []

def decode (text : List Char) : Except Panic (List Char) :=
  decodeSystemdEscape (utf8 (String.ofList text))

/-- `line.rsplit(':').next()` -/
def pathOf (line : List Char) : List Char := (line.splitOn ':').getLastD line

/-- `path.split("/libvirt/qemu/").nth(1)` -/
def libvirtPart (path : List Char) : Option (List Char) :=
  (splitFirst "/libvirt/qemu/".toList path).map fun r =>
    ((splitFirst "/libvirt/qemu/".toList r.2).map Prod.fst).getD r.2

/-- The loop of `trim_start_matches`; the length of the text is turns enough. -/
def trimStartFrom (pat : List Char) : ℕ → List Char → List Char
  | 0, s => s
  | turns + 1, s =>
    match s.dropPrefix? pat with
    | some rest => trimStartFrom pat turns rest
    | none => s

def trimStartMatches (pat : String) (s : List Char) : List Char :=
  trimStartFrom pat.toList s.length s

def trimEndMatches (pat : String) (s : List Char) : List Char :=
  (trimStartFrom pat.toList.reverse s.length s.reverse).reverse

def endsWith (pat : String) (s : List Char) : Bool := pat.toList.isSuffixOf s

/-- The text of a path that the domain name is decoded from. -/
def scopeText (path : List Char) : Option (List Char) :=
  ((path.splitOn '/').find? fun part =>
    (splitFirst "qemu".toList part).isSome && endsWith ".scope" part).map (trimEndMatches ".scope")

/-- The name a decoded scope leaves. -/
def scopeName (decoded : List Char) : List Char :=
  trimStartMatches "qemu-" (trimStartMatches "machine-qemu-" decoded)

/-- The loop of `parse_cgroup_domain_name` over the lines. -/
def domainName : List (List Char) → Except Panic (Option (List Char))
  | [] => pure none
  | line :: rest =>
    match libvirtPart (pathOf line) with
    | some part =>
      let name := (part.dropWhile (· == '/')).rdropWhile (· == '/')
      pure (if name = [] then none else some name)
    | none =>
      match scopeText (pathOf line) with
      | some text => do
        let decoded ← decode text
        if scopeName decoded = [] then domainName rest else pure (some (scopeName decoded))
      | none => domainName rest

/-- The unit of the first line that has one. -/
def unitText (lines : List (List Char)) : Option (List Char) :=
  lines.findSome? fun line =>
    ((pathOf line).splitOn '/').find? fun part => endsWith ".scope" part || endsWith ".service" part

def parseCgroupDomainName (cgroup : List Char) : Except Panic (Option (List Char)) :=
  domainName (lines cgroup)

def parseCgroupUnit (cgroup : List Char) : Except Panic (Option (List Char)) :=
  (unitText (lines cgroup)).mapM decode

/-- What the identity of a task takes from the text. -/
def parseCgroup (cgroup : List Char) :
    Except Panic (Option (List Char) × Option (List Char)) := do
  let name ← parseCgroupDomainName cgroup
  let unit ← parseCgroupUnit cgroup
  pure (name, unit)

/-! How systemd writes a name, and what the decoder needs. -/

/-- Every byte outside the plain set is written as a backslash, an `x` and two hex digits. -/
def escapeByte (plain : UInt8 → Bool) (b : UInt8) : List UInt8 :=
  if plain b then [b]
  else 0x5c :: 0x78 :: (padded 16 2 b.toNat).map fun c => c.val.toUInt8

def escape (plain : UInt8 → Bool) (name : String) : List UInt8 :=
  (utf8 name).flatMap (escapeByte plain)

/-- The two bytes behind a backslash and an `x` begin and end at a character. -/
def Uncut (bytes : List UInt8) : Prop :=
  ∀ h₁ h₂ rest, 0x5c :: 0x78 :: h₁ :: h₂ :: rest <:+ bytes →
    (isCharBoundary (h₁ :: h₂ :: rest) && isCharBoundary rest) = true

/-- The scopes of the lines, up to the line that gives the name. -/
def scopeTexts : List (List Char) → List (List Char)
  | [] => []
  | line :: rest =>
    if (libvirtPart (pathOf line)).isSome then []
    else
      match scopeText (pathOf line) with
      | some text =>
        text :: if scopeName <$> decode text = .ok [] then scopeTexts rest else []
      | none => scopeTexts rest

/-- The texts the parser decodes. -/
def decodedTexts (cgroup : List Char) : List (List Char) :=
  scopeTexts (lines cgroup) ++ (unitText (lines cgroup)).toList

end AegisHV.Cgroup
