import AegisHV.Spec.Ownership

/-! In a table of valid ranges no page has two owners, and a guest mapping is accepted exactly
when the VM owns every page of it. -/

namespace AegisHV
open Sys PageOwnershipTable PageRange

namespace PageRange

/-- What `new` accepts. -/
structure Valid (r : PageRange) : Prop where
  nonempty : 0 < r.length
  start : r.start.raw % 4096 = 0
  length : r.length % 4096 = 0
  fits : r.start.raw + r.length < 2 ^ 64

def Has (r : PageRange) (address : ℕ) : Prop :=
  r.start.raw ≤ address ∧ address < r.start.raw + r.length

theorem checkedAdd_ok {start : HostPhysical} {length : ℕ} (h : start.raw + length < 2 ^ 64 - 1) :
    start.checkedAdd length = .ok ⟨start.raw + length, h⟩ := dif_pos h

variable {r : PageRange}

/-- An aligned end is not the reserved last address. -/
theorem Valid.below (h : r.Valid) : r.start.raw + r.length < 2 ^ 64 - 1 := by
  have hstart := h.start
  have hlength := h.length
  have hfits := h.fits
  omega

theorem new_eq_ok {start : HostPhysical} {length : ℕ} :
    new start length = .ok r ↔ r = ⟨start, length⟩ ∧ Valid ⟨start, length⟩ := by
  rw [new]
  simp only [failIf_eq_ok, except_bind_ok, OWNER_PAGE_SIZE]
  constructor
  · rintro ⟨-, hguard, stop, hstop, hr⟩
    simp only [Bool.or_eq_false_iff, decide_eq_false_iff_not, bne_eq_false_iff_eq] at hguard
    obtain ⟨⟨hne, hstart⟩, hlength⟩ := hguard
    rw [HostPhysical.checkedAdd] at hstop
    split_ifs at hstop with hfits
    exact ⟨(Except.ok.inj hr).symm, Nat.pos_of_ne_zero hne, hstart, hlength, by dsimp only; omega⟩
  · rintro ⟨rfl, hvalid⟩
    refine ⟨⟨⟩, ?_, _, checkedAdd_ok hvalid.below, rfl⟩
    simp only [Bool.or_eq_false_iff, decide_eq_false_iff_not, bne_eq_false_iff_eq]
    exact ⟨⟨hvalid.nonempty.ne', hvalid.start⟩, hvalid.length⟩

theorem stop_ok (h : r.Valid) : r.stop = .ok (r.start.raw + r.length) := by
  rw [stop, checkedAdd_ok h.below]
  rfl

theorem contains_ok (h : r.Valid) (address : ℕ) :
    ∃ b, r.contains address = .ok b ∧ (b = true ↔ r.Has address) := by
  rw [contains, stop_ok h]
  split_ifs with hle
  · exact ⟨_, rfl, by simp [Has, hle]⟩
  · exact ⟨_, rfl, by simp [Has, hle]⟩

theorem overlaps_ok {other : PageRange} (h : r.Valid) (hother : other.Valid) :
    ∃ b, r.overlaps other = .ok b ∧ (b = false → ∀ address, ¬(r.Has address ∧ other.Has address)) := by
  rw [overlaps, stop_ok h, stop_ok hother]
  simp only [except_ok_bind]
  split_ifs with hlt
  · refine ⟨_, rfl, fun hb address ⟨h₁, h₂⟩ => ?_⟩
    rw [decide_eq_false_iff_not] at hb
    exact hb (lt_of_le_of_lt h₂.1 h₁.2)
  · exact ⟨_, rfl, fun _ address ⟨h₁, h₂⟩ => hlt (lt_of_le_of_lt h₁.1 h₂.2)⟩

/-- An aligned range has all of a page or nothing of it. -/
theorem Valid.has_page (h : r.Valid) {page : ℕ} (hpage : page % 4096 = 0)
    (hhas : r.Has page) : page + 4096 ≤ r.start.raw + r.length := by
  have hstart := h.start
  have hlength := h.length
  have hlt := hhas.2
  omega

end PageRange

namespace PageOwnershipTable

variable {N : ℕ}

/-- The table gives the page to the owner. -/
def Owns (table : PageOwnershipTable N) (page : ℕ) (owner : PageOwner) : Prop :=
  ∃ entry ∈ table.entries, entry.owner = owner ∧ entry.range.start.raw ≤ page ∧
    page + 4096 ≤ entry.range.start.raw + entry.range.length

def Disjoint (a b : PageOwnership) : Prop := ∀ address, ¬(a.range.Has address ∧ b.range.Has address)

/-- The ranges of the table are valid and disjoint. -/
structure Good (table : PageOwnershipTable N) : Prop where
  valid : ∀ entry ∈ table.entries, entry.range.Valid
  disjoint : table.entries.Pairwise Disjoint

variable {table : PageOwnershipTable N}

theorem Good.eq_of_has (h : table.Good) {a b : PageOwnership}
    (ha : a ∈ table.entries) (hb : b ∈ table.entries) {address : ℕ} (hha : a.range.Has address)
    (hhb : b.range.Has address) : a = b := by
  by_contra hne
  have hsymm : Std.Symm Disjoint := ⟨fun a b hab address hboth => hab address hboth.symm⟩
  exact h.disjoint.forall ha hb hne address ⟨hha, hhb⟩

/-- An assignment leaves a good table good. -/
theorem Good.step (h : table.Good) {call : PageRange × PageOwner}
    (hcall : call.1.Valid) : (step table call).2.Good := by
  rw [PageOwnershipTable.step, assign, Op.run_read_bind]
  split_ifs with hfull
  · exact h
  · rcases hoverlap : table.entries.forM (rejectOverlap call.1) with e | ⟨⟩
    · exact h
    · rw [forM_ok] at hoverlap
      refine ⟨forall_mem_concat h.valid hcall, pairwise_concat h.disjoint fun entry hentry => ?_⟩
      obtain ⟨b, hb, hfree⟩ := overlaps_ok (h.valid entry hentry) hcall
      have hfree' := hoverlap entry hentry
      rw [rejectOverlap, hb] at hfree'
      exact hfree (failIf_eq_ok.mp hfree')

theorem good_run {calls : List (PageRange × PageOwner)} (hcalls : ∀ call ∈ calls, call.1.Valid) :
    (run step (new N) calls).2.Good := by
  induction calls using List.reverseRecOn with
  | nil => exact ⟨by simp [run, new], List.Pairwise.nil⟩
  | append_singleton calls call ih =>
    rw [run_concat]
    exact (ih fun c hc => hcalls c (by simp [hc])).step (hcalls call (by simp))

theorem find_ok {entries : List PageOwnership} (h : ∀ entry ∈ entries, entry.range.Valid)
    (address : ℕ) :
    (∃ entry ∈ entries, find address entries = .ok (some entry) ∧ entry.range.Has address) ∨
    (find address entries = .ok none ∧ ∀ entry ∈ entries, ¬entry.range.Has address) := by
  induction entries with
  | nil => exact Or.inr ⟨rfl, by simp⟩
  | cons entry entries ih =>
    obtain ⟨b, hb, hiff⟩ := contains_ok (h entry (by simp)) address
    rw [find, hb]
    rcases b with _ | _
    · have hnot : ¬entry.range.Has address := fun hhas => by simpa using hiff.mpr hhas
      rcases ih fun e he => h e (by simp [he]) with ⟨e, he, hfind, hhas⟩ | ⟨hfind, hnone⟩
      · exact Or.inl ⟨e, by simp [he], hfind, hhas⟩
      · exact Or.inr ⟨hfind, by simpa [hnot] using hnone⟩
    · exact Or.inl ⟨entry, by simp, rfl, hiff.mp rfl⟩

/-- The loop succeeds exactly when every page from the cursor on is the VM's. -/
theorem coverFrom_ok (h : table.Good) (vmId : VmId) {stop : ℕ}
    (hstop : stop % 4096 = 0) (turns : ℕ) :
    ∀ cursor, cursor % 4096 = 0 → stop - cursor ≤ turns →
      (coverFrom table vmId stop turns cursor = .ok () ↔
        ∀ page, page % 4096 = 0 → cursor ≤ page → page < stop → table.Owns page (.vm vmId)) := by
  induction turns with
  | zero =>
    intro cursor _ hturns
    exact ⟨fun _ page _ hle hlt => by omega, fun _ => rfl⟩
  | succ turns ih =>
    intro cursor hcursor hturns
    rw [coverFrom]
    split_ifs with hlt
    · rcases find_ok h.valid cursor with ⟨entry, hentry, hfind, hhas⟩ | ⟨hfind, hnone⟩
      · have hvalid := h.valid entry hentry
        have hend := hvalid.has_page hcursor hhas
        have hlength : (entry.range.start.raw + entry.range.length) % 4096 = 0 := by
          have hs := hvalid.start
          have hl := hvalid.length
          omega
        simp only [hfind, except_ok_bind, okOr, stop_ok hvalid]
        by_cases howner : entry.owner = .vm vmId
        · have hnext : cursor < min (entry.range.start.raw + entry.range.length) stop := by omega
          simp only [howner, bne_self_eq_false, failIf, Bool.false_eq_true, if_false, if_pos hnext]
          refine (ih (min (entry.range.start.raw + entry.range.length) stop) (by omega)
            (by omega)).trans ⟨fun hall page hpage hle hpstop => ?_,
              fun hall page hpage hle => hall page hpage (by omega)⟩
          rcases Nat.lt_or_ge page (entry.range.start.raw + entry.range.length) with hin | hout
          · have hfit := hvalid.has_page hpage ⟨by have := hhas.1; omega, hin⟩
            exact ⟨entry, hentry, howner, by have := hhas.1; omega, hfit⟩
          · exact hall page hpage (by omega) hpstop
        · -- Another entry with the cursor in it would be this one.
          have hfail : (entry.owner != .vm vmId) = true := by simpa using howner
          simp only [hfail, failIf, if_true]
          refine ⟨fun hbad => (by cases hbad), fun hall => ?_⟩
          obtain ⟨other, hother, hvm, hle, hfit⟩ := hall cursor hcursor le_rfl hlt
          have hsame := h.eq_of_has hentry hother hhas ⟨hle, by omega⟩
          exact absurd (hsame ▸ hvm) howner
      · simp only [hfind, except_ok_bind, okOr]
        refine ⟨fun hbad => (by cases hbad), fun hall => ?_⟩
        obtain ⟨other, hother, -, hle, hfit⟩ := hall cursor hcursor le_rfl hlt
        exact absurd ⟨hle, by omega⟩ (hnone other hother)
    · exact ⟨fun _ page _ hle hpage => by omega, fun _ => rfl⟩

/-- A page that the range touches. -/
def PageOf (start length page : ℕ) : Prop :=
  page % 4096 = 0 ∧ page < start + length ∧ start < page + 4096

theorem validate_ok (h : table.Good) (vmId : VmId) (hostStart : HostPhysical) (length : ℕ) :
    table.validateGuestHostMapping vmId hostStart length = .ok () ↔
      Valid ⟨hostStart, length⟩ ∧
        ∀ page, PageOf hostStart.raw length page → table.Owns page (.vm vmId) := by
  rw [validateGuestHostMapping, except_bind_ok]
  by_cases hvalid : Valid ⟨hostStart, length⟩
  · have hstart : hostStart.raw % 4096 = 0 := hvalid.start
    have hlength : length % 4096 = 0 := hvalid.length
    have haligned : (hostStart.raw + length) % 4096 = 0 := by omega
    have hloop := coverFrom_ok h vmId haligned length hostStart.raw hstart (by omega)
    have hpages : (∀ page, PageOf hostStart.raw length page → table.Owns page (.vm vmId)) ↔
        ∀ page, page % 4096 = 0 → hostStart.raw ≤ page → page < hostStart.raw + length →
          table.Owns page (.vm vmId) :=
      ⟨fun hall page hpage hle hlt => hall page ⟨hpage, hlt, by omega⟩,
        fun hall page hpage => hall page hpage.1 (by have := hpage.1; have := hpage.2.2; omega)
          hpage.2.1⟩
    simp only [new_eq_ok, hvalid, and_true, exists_eq_left, stop_ok hvalid,
      except_ok_bind, true_and, hpages]
    exact hloop
  · simp only [new_eq_ok, hvalid, and_false, false_and, exists_false]

/-- Two pages of a VM in two extents, next to a page of the hypervisor. -/
def threePages : List (PageRange × PageOwner) := [
  (⟨⟨0x1000, by norm_num⟩, 0x1000⟩, .vm .one), (⟨⟨0x2000, by norm_num⟩, 0x1000⟩, .vm .one),
  (⟨⟨0x3000, by norm_num⟩, 0x1000⟩, .hypervisor)]

end PageOwnershipTable

end AegisHV
