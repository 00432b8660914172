import AegisHV.Lib.Op
import AegisHV.Lib.Text

/-! The search for the slide of a randomised kernel (`vmi_linux_profile.rs`): every multiple of
the smallest step up to the largest slide is tried against all anchors. -/

namespace AegisHV.Kaslr

open Sys

/-- An anchor as the profile parser lets it through. -/
structure LinuxKaslrAnchor where
  symbolName : String
  bytes : List UInt8
  maxSlide : ℕ
  step : ℕ
  step_pow : 2 ^ step.log2 = step
  aligned : maxSlide % step = 0
  maxSlide_lt : maxSlide < 2 ^ 64

inductive VmiErrorKind
  | unmapped
  | missingMemory
  | other (name : String)

inductive ProfileError
  | unsupported (backend operation : String)
  | malformed (detail : String)
  | inconsistentSnapshot (detail : String)
  | missingProfileIdentity (os arch kernelOrBuild : String)
  | read (kind : VmiErrorKind)

/-- `parse_kaslr_anchor` behind the parsers of its four fields. -/
def parseKaslrAnchor (line : ℕ) (anchors : List LinuxKaslrAnchor) (symbolName : String)
    (bytes : List UInt8) (maxSlide : Fin (2 ^ 64)) (step : ℕ) :
    Except ProfileError (List LinuxKaslrAnchor) :=
  if anchors.any (·.symbolName == symbolName) then
    .error (.malformed s!"line {line}: duplicate KASLR anchor for symbol '{symbolName}'")
  else if hpow : 2 ^ step.log2 = step then
    if haligned : maxSlide.val % step = 0 then
      .ok (anchors ++ [⟨symbolName, bytes, maxSlide, step, hpow, haligned, maxSlide.isLt⟩])
    else .error (.malformed s!"line {line}: kaslr_anchor.max_slide must be aligned to step")
  else .error (.malformed s!"line {line}: kaslr_anchor.step must be a non-zero power of two")

inductive LinuxKaslrMode
  | fixed
  | slideKnown (slide : ℕ)
  | unknownUnsupported

structure LinuxProfile where
  kaslr : LinuxKaslrMode
  kaslrAnchors : List LinuxKaslrAnchor
  /-- The virtual address of a symbol. -/
  symbols : String → Option ℕ

inductive LinuxKaslrResolutionSource
  | fixedProfile
  | knownProfileSlide
  | anchorScan

structure LinuxKaslrResolution where
  slide : ℕ
  source : LinuxKaslrResolutionSource
  anchorsChecked : ℕ

/-- What the scan has found so far. -/
structure Scan where
  matchedSlide : Option ℕ
  anchorsChecked : ℕ

section

variable (profile : LinuxProfile) (readVirtual : ℕ → ℕ → Except VmiErrorKind (List UInt8))

/-- One anchor at one slide: whether all have matched, and how many were checked. -/
def checkAnchor (slide : ℕ) (found : Bool × ℕ) (anchor : LinuxKaslrAnchor) :
    Except ProfileError (Bool × ℕ) :=
  let name := anchor.symbolName
  if slide > anchor.maxSlide ∨ slide % anchor.step ≠ 0 then .ok (false, found.2)
  else do
    let symbol ← okOr (profile.symbols name)
      (.malformed s!"KASLR anchor references missing symbol '{name}'")
    let text := hex slide
    failIf (2 ^ 64 ≤ symbol + slide)
      (.malformed s!"KASLR candidate slide {text} overflows symbol '{name}'")
    match readVirtual (symbol + slide) anchor.bytes.length with
    | .ok buf => .ok (found.1 && buf == anchor.bytes, found.2 + 1)
    | .error .unmapped | .error .missingMemory => .ok (false, found.2 + 1)
    | .error e => .error (.read e)

/-- What a slide does to the match. -/
def Scan.record (scan : Scan) (slide : ℕ) (found : Bool × ℕ) : Except ProfileError Scan :=
  match found.1, scan.matchedSlide with
  | false, matched => .ok ⟨matched, found.2⟩
  | true, none => .ok ⟨some slide, found.2⟩
  | true, some previous =>
    let first := hex previous
    let second := hex slide
    .error (.inconsistentSnapshot
      s!"KASLR anchor scan matched more than one slide: {first} and {second}")

/-- The loop over the slides. -/
def scanFrom (maxSlide : ℕ) {step : ℕ} (hstep : 0 < step) (slide : ℕ) (scan : Scan) :
    Except ProfileError Scan :=
  if slide ≤ maxSlide then do
    let found ← profile.kaslrAnchors.foldlM (checkAnchor profile readVirtual slide)
      (true, scan.anchorsChecked)
    let scan ← scan.record slide found
    if slide + step < 2 ^ 64 then scanFrom maxSlide hstep (slide + step) scan else pure scan
  else pure scan
termination_by maxSlide + 1 - slide

def resolveLinuxKaslr : Except ProfileError LinuxKaslrResolution :=
  match profile.kaslr with
  | .fixed => .ok ⟨0, .fixedProfile, 0⟩
  | .slideKnown slide => .ok ⟨slide, .knownProfileSlide, 0⟩
  | .unknownUnsupported =>
    if profile.kaslrAnchors = [] then .error (.unsupported "linux-profile" "resolve_kaslr_slide")
    else
      let maxSlide := (profile.kaslrAnchors.map (·.maxSlide)).max?.getD 0
      let step := (profile.kaslrAnchors.map (·.step)).min?.getD 0
      if hstep : step = 0 then .error (.malformed "KASLR anchor step must be non-zero")
      else do
        let scan ← scanFrom profile readVirtual maxSlide (Nat.pos_of_ne_zero hstep) 0 ⟨none, 0⟩
        match scan.matchedSlide with
        | some slide => pure ⟨slide, .anchorScan, scan.anchorsChecked⟩
        | none => .error (.missingProfileIdentity "linux" "x86_64" "kaslr-anchor-match")

/-- A slide the anchor allows and at which its bytes are found. -/
def FoundAt (slide : ℕ) (anchor : LinuxKaslrAnchor) : Prop :=
  slide ≤ anchor.maxSlide ∧ anchor.step ∣ slide ∧ ∃ symbol,
    profile.symbols anchor.symbolName = some symbol ∧
      readVirtual (symbol + slide) anchor.bytes.length = .ok anchor.bytes

/-- A slide that fits all anchors. -/
def Fits (slide : ℕ) : Prop := ∀ anchor ∈ profile.kaslrAnchors, FoundAt profile readVirtual slide anchor

end

end AegisHV.Kaslr
