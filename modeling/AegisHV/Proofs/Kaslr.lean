import AegisHV.Spec.Kaslr

/-! The scan finds the slide that fits all anchors exactly if there is one: a slide that fits is a
multiple of the smallest step and at most the largest slide, so the scan comes to it. -/

namespace AegisHV.Kaslr

open Sys List

variable {profile : LinuxProfile} {readVirtual : ℕ → ℕ → Except VmiErrorKind (List UInt8)}

/-- Every read succeeds or is of memory that is not there. -/
def Answered (readVirtual : ℕ → ℕ → Except VmiErrorKind (List UInt8)) : Prop :=
  ∀ address length e, readVirtual address length = .error e → e = .unmapped ∨ e = .missingMemory

/-- No candidate address of an anchor overflows. -/
def NoOverflow (profile : LinuxProfile) : Prop :=
  ∀ anchor ∈ profile.kaslrAnchors, ∀ symbol, profile.symbols anchor.symbolName = some symbol →
    ∀ slide ≤ anchor.maxSlide, anchor.step ∣ slide → symbol + slide < 2 ^ 64

/-- An anchor is checked, or its symbol is missing and no slide fits. -/
theorem checkAnchor_cases (hread : Answered readVirtual) (hover : NoOverflow profile)
    {anchor : LinuxKaslrAnchor} (hanchor : anchor ∈ profile.kaslrAnchors) (slide : ℕ)
    (found : Bool × ℕ) :
    (∃ out, checkAnchor profile readVirtual slide found anchor = .ok out ∧
      (out.1 = true ↔ found.1 = true ∧ FoundAt profile readVirtual slide anchor)) ∨
    (∃ e, checkAnchor profile readVirtual slide found anchor = .error e) ∧
      profile.symbols anchor.symbolName = none := by
  unfold checkAnchor FoundAt
  by_cases hcand : slide > anchor.maxSlide ∨ slide % anchor.step ≠ 0
  · left
    refine ⟨_, if_pos hcand, ?_⟩
    simp
    omega
  · obtain ⟨hle, hdvd⟩ : slide ≤ anchor.maxSlide ∧ anchor.step ∣ slide := by
      omega
    simp only [hcand, if_false, hle, hdvd, true_and]
    cases hsymbol : profile.symbols anchor.symbolName with
    | none => exact Or.inr ⟨⟨_, rfl⟩, rfl⟩
    | some symbol =>
      left
      have hfits := hover anchor hanchor symbol hsymbol slide hle hdvd
      simp only [okOr, except_ok_bind, failIf, decide_eq_true_eq, Nat.not_le.2 hfits, if_false,
        Option.some.injEq, exists_eq_left']
      cases hmem : readVirtual (symbol + slide) anchor.bytes.length with
      | ok buf => exact ⟨_, rfl, by simp⟩
      | error e =>
        rcases hread _ _ _ hmem with rfl | rfl
        · exact ⟨_, rfl, by simp⟩
        · exact ⟨_, rfl, by simp⟩

theorem foldlM_checkAnchor (hread : Answered readVirtual) (hover : NoOverflow profile) (slide : ℕ)
    {anchors : List LinuxKaslrAnchor} (hanchors : anchors ⊆ profile.kaslrAnchors)
    (found : Bool × ℕ) :
    (∃ out, anchors.foldlM (checkAnchor profile readVirtual slide) found = .ok out ∧
      (out.1 = true ↔ found.1 = true ∧ ∀ a ∈ anchors, FoundAt profile readVirtual slide a)) ∨
    (∃ e, anchors.foldlM (checkAnchor profile readVirtual slide) found = .error e) ∧
      ∃ a ∈ anchors, profile.symbols a.symbolName = none := by
  induction anchors generalizing found with
  | nil => exact Or.inl ⟨found, rfl, by simp⟩
  | cons a anchors ih =>
    obtain ⟨ha, hrest⟩ := cons_subset.1 hanchors
    rw [foldlM_cons]
    rcases checkAnchor_cases hread hover ha slide found with ⟨out, hout, hiff⟩ | ⟨⟨e, he⟩, hnone⟩
    · rw [hout]
      rcases ih hrest out with ⟨last, hlast, hall⟩ | ⟨herror, b, hb, hnone⟩
      · refine Or.inl ⟨last, hlast, ?_⟩
        rw [hall, hiff, forall_mem_cons, and_assoc]
      · exact Or.inr ⟨herror, b, mem_cons_of_mem a hb, hnone⟩
    · rw [he]
      exact Or.inr ⟨⟨e, rfl⟩, a, mem_cons_self, hnone⟩

/-- The scan knows what fits below a slide. -/
structure Knows (profile : LinuxProfile)
    (readVirtual : ℕ → ℕ → Except VmiErrorKind (List UInt8)) (slide : ℕ) (scan : Scan) : Prop where
  below : ∀ s < slide, Fits profile readVirtual s ↔ scan.matchedSlide = some s
  lt : ∀ s, scan.matchedSlide = some s → s < slide

theorem Knows.done {slide : ℕ} {scan : Scan} (h : Knows profile readVirtual slide scan)
    (hall : ∀ s, Fits profile readVirtual s → s < slide) (s : ℕ) :
    scan.matchedSlide = some s ↔
      Fits profile readVirtual s ∧ ∀ t, Fits profile readVirtual t → t = s := by
  constructor
  · intro hs
    refine ⟨(h.below s (h.lt s hs)).2 hs, ?_⟩
    intro t ht
    have hmatched := (h.below t (hall t ht)).1 ht
    rw [hs] at hmatched
    exact (Option.some.inj hmatched).symm
  · rintro ⟨hs, -⟩
    exact (h.below s (hall s hs)).1 hs

/-- Between two slides of the scan nothing fits. -/
theorem Knows.next {slide step : ℕ} {scan scan' : Scan} (h : Knows profile readVirtual slide scan)
    (hdvd : ∀ s, Fits profile readVirtual s → step ∣ s) (hstep : 0 < step) (hslide : step ∣ slide)
    (hnew : ∀ s, scan'.matchedSlide = some s ↔
      scan.matchedSlide = some s ∨ s = slide ∧ Fits profile readVirtual slide) :
    Knows profile readVirtual (slide + step) scan' := by
  constructor
  · intro s hs
    rw [hnew]
    rcases Nat.lt_trichotomy s slide with hlt | rfl | hgt
    · rw [h.below s hlt]
      simp [hlt.ne]
    · have hnone : scan.matchedSlide ≠ some s := fun heq => absurd (h.lt s heq) (lt_irrefl s)
      simp [hnone]
    · refine iff_of_false ?_ ?_
      · intro hfits
        have hle := Nat.le_of_dvd (Nat.sub_pos_of_lt hgt) (Nat.dvd_sub (hdvd s hfits) hslide)
        omega
      · rintro (heq | ⟨rfl, -⟩)
        · exact absurd (h.lt s heq) (by omega)
        · omega
  · intro s hs
    rcases (hnew s).1 hs with heq | ⟨rfl, -⟩
    · exact Nat.lt_add_right step (h.lt s heq)
    · omega

theorem Scan.record_cases (scan : Scan) (slide : ℕ) (found : Bool × ℕ) :
    (∃ scan', scan.record slide found = .ok scan' ∧ ∀ s,
      scan'.matchedSlide = some s ↔ scan.matchedSlide = some s ∨ s = slide ∧ found.1 = true) ∨
    (∃ e, scan.record slide found = .error e) ∧ found.1 = true ∧
      ∃ previous, scan.matchedSlide = some previous := by
  unfold Scan.record
  cases found.1 with
  | false => exact Or.inl ⟨_, rfl, by simp⟩
  | true =>
    cases hmatched : scan.matchedSlide with
    | none => exact Or.inl ⟨_, rfl, by simp [eq_comm]⟩
    | some previous => exact Or.inr ⟨⟨_, rfl⟩, rfl, previous, rfl⟩

theorem scanFrom_iff (hread : Answered readVirtual) (hover : NoOverflow profile)
    {maxSlide step : ℕ} (hstep : 0 < step) (hmax : maxSlide < 2 ^ 64)
    (hbound : ∀ s, Fits profile readVirtual s → s ≤ maxSlide ∧ step ∣ s) (s : ℕ) (n : ℕ) :
    ∀ slide scan, maxSlide + 1 - slide = n → step ∣ slide → Knows profile readVirtual slide scan →
      ((∃ out, scanFrom profile readVirtual maxSlide hstep slide scan = .ok out ∧
        out.matchedSlide = some s) ↔
      Fits profile readVirtual s ∧ ∀ t, Fits profile readVirtual t → t = s) := by
  induction n using Nat.strong_induction_on with
  | _ n ih =>
    rintro slide scan rfl hslide hknows
    have hfinish (slide : ℕ) (hend : maxSlide < slide) {scan : Scan}
        (h : Knows profile readVirtual slide scan) :
        (∃ out, pure scan = Except.ok (ε := ProfileError) out ∧ out.matchedSlide = some s) ↔
          Fits profile readVirtual s ∧ ∀ t, Fits profile readVirtual t → t = s := by
      rw [← h.done (fun t ht => Nat.lt_of_le_of_lt (hbound t ht).1 hend)]
      simp [pure, Except.pure]
    rw [scanFrom]
    by_cases hle : slide ≤ maxSlide
    · rw [if_pos hle]
      rcases foldlM_checkAnchor hread hover slide (List.Subset.refl _) (true, scan.anchorsChecked)
        with ⟨found, hout, hiff⟩ | ⟨⟨e, he⟩, a, ha, hnone⟩
      · have hmatch : found.1 = true ↔ Fits profile readVirtual slide := hiff.trans (by simp [Fits])
        rw [hout, except_ok_bind]
        rcases scan.record_cases slide found with
          ⟨scan', hscan, hnew⟩ | ⟨⟨e, he⟩, hsame, previous, hprevious⟩
        · have hknows' : Knows profile readVirtual (slide + step) scan' :=
            hknows.next (fun t ht => (hbound t ht).2) hstep hslide (by simpa [hmatch] using hnew)
          rw [hscan, except_ok_bind]
          by_cases hlt : slide + step < 2 ^ 64
          · rw [if_pos hlt]
            exact ih _ (by omega) _ _ rfl (Dvd.dvd.add hslide (dvd_refl step)) hknows'
          · rw [if_neg hlt]
            exact hfinish _ (by omega) hknows'
        · -- a second slide fits
          rw [he]
          refine iff_of_false (fun ⟨out, hout, _⟩ => by cases hout) ?_
          rintro ⟨-, hunique⟩
          have hlt := hknows.lt previous hprevious
          have hfirst := hunique previous ((hknows.below previous hlt).2 hprevious)
          have hsecond := hunique slide (hmatch.1 hsame)
          omega
      · rw [he]
        refine iff_of_false (fun ⟨out, hout, _⟩ => by cases hout) ?_
        rintro ⟨hfits, -⟩
        obtain ⟨-, -, symbol, hsymbol, -⟩ := hfits a ha
        rw [hnone] at hsymbol
        cases hsymbol
    · rw [if_neg hle]
      exact hfinish slide (by omega) hknows

theorem LinuxKaslrAnchor.step_pos (anchor : LinuxKaslrAnchor) : 0 < anchor.step := by
  rw [← anchor.step_pow]
  exact Nat.two_pow_pos _

/-- If every read succeeds or is of memory that is not there and no candidate overflows, the scan
returns a slide exactly if it is the only one that fits all anchors. -/
theorem resolveLinuxKaslr_iff {profile : LinuxProfile}
    {readVirtual : ℕ → ℕ → Except VmiErrorKind (List UInt8)}
    (hmode : profile.kaslr = .unknownUnsupported) (hanchors : profile.kaslrAnchors ≠ [])
    (hread : Answered readVirtual) (hover : NoOverflow profile) (s : ℕ) :
    (∃ r, resolveLinuxKaslr profile readVirtual = .ok r ∧ r.slide = s) ↔
      Fits profile readVirtual s ∧ ∀ t, Fits profile readVirtual t → t = s := by
  obtain ⟨maxSlide, hmax⟩ : ∃ m, (profile.kaslrAnchors.map (·.maxSlide)).max? = some m :=
    Option.isSome_iff_exists.1 (by simpa using hanchors)
  obtain ⟨step, hmin⟩ : ∃ m, (profile.kaslrAnchors.map (·.step)).min? = some m :=
    Option.isSome_iff_exists.1 (by simpa using hanchors)
  obtain ⟨widest, hwidest, hwidest'⟩ := mem_map.1 (max?_mem hmax)
  obtain ⟨finest, hfinest, hfinest'⟩ := mem_map.1 (min?_mem hmin)
  have hstep : step ≠ 0 := hfinest' ▸ finest.step_pos.ne'
  have hlt : maxSlide < 2 ^ 64 := hwidest' ▸ widest.maxSlide_lt
  have hbound : ∀ t, Fits profile readVirtual t → t ≤ maxSlide ∧ step ∣ t := by
    intro t ht
    refine ⟨?_, hfinest' ▸ (ht finest hfinest).2.1⟩
    exact (ht widest hwidest).1.trans hwidest'.le
  have hscan := scanFrom_iff hread hover (Nat.pos_of_ne_zero hstep) hlt hbound s _ 0 ⟨none, 0⟩ rfl
    (dvd_zero step) ⟨fun t ht => absurd ht (Nat.not_lt_zero t), fun t ht => by cases ht⟩
  rw [← hscan]
  simp only [resolveLinuxKaslr, hmode, hanchors, if_false, hmax, hmin, Option.getD_some, hstep,
    dite_false, except_bind_ok]
  constructor
  · rintro ⟨r, ⟨out, hout, hr⟩, rfl⟩
    refine ⟨out, hout, ?_⟩
    cases hmatched : out.matchedSlide with
    | none => simp [hmatched] at hr
    | some slide =>
      rw [hmatched] at hr
      cases hr
      rfl
  · rintro ⟨out, hout, hmatched⟩
    exact ⟨⟨s, .anchorScan, out.anchorsChecked⟩, ⟨out, hout, by rw [hmatched]; rfl⟩, rfl⟩

/-- One anchor with two candidates. -/
def smallAnchor : LinuxKaslrAnchor :=
  ⟨"init_task", [0x90], 16, 16, by decide +kernel, by decide, by decide⟩

def smallProfile : LinuxProfile := ⟨.unknownUnsupported, [smallAnchor], fun _ => some 0x1000⟩

def smallMemory (address _length : ℕ) : Except VmiErrorKind (List UInt8) :=
  if address = 0x1010 then .ok [0x90] else .error .unmapped

theorem fits_small {t : ℕ} : Fits smallProfile smallMemory t ↔ t = 16 := by
  simp only [Fits, smallProfile, mem_singleton, forall_eq, FoundAt, smallMemory,
    Option.some.injEq, exists_eq_left']
  constructor
  · rintro ⟨-, -, hread⟩
    split_ifs at hread with haddress
    omega
  · rintro rfl
    exact ⟨le_rfl, dvd_rfl, rfl⟩

theorem resolveLinuxKaslr_small :
    ∃ r, resolveLinuxKaslr smallProfile smallMemory = .ok r ∧ r.slide = 16 := by
  refine (resolveLinuxKaslr_iff rfl (by simp [smallProfile]) ?_ ?_ 16).2
    ⟨fits_small.2 rfl, fun t ht => fits_small.1 ht⟩
  · intro address length e h
    unfold smallMemory at h
    split_ifs at h
    cases h
    exact Or.inl rfl
  · intro anchor hanchor symbol hsymbol slide hle _
    cases hsymbol
    obtain rfl : anchor = smallAnchor := by simpa [smallProfile] using hanchor
    have : slide ≤ 16 := hle
    omega

end AegisHV.Kaslr
