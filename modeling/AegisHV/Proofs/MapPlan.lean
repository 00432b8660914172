import AegisHV.Lib.Run
import AegisHV.Spec.MapPlan

/-! The second-stage map plans. A plan stays exact, and its lookups with it, as long as every
mapping it accepts ends below the last address; an accepted mapping that wraps breaks it. -/

namespace AegisHV
open Sys List PlanKind

namespace PlanKind

variable {μ π ε : Type} {N : ℕ} {k : PlanKind μ π ε} {s s' : MapPlan μ N}

/-- The tests of `map` that a mapping passes. -/
structure Admits (k : PlanKind μ π ε) (check : μ → Except ε Unit) (s : MapPlan μ N) (m : μ) : Prop where
  room : s.mappings.length < N
  free : k.rejectOverlap s m = .ok ()
  checked : check m = .ok ()

/-- All `map` can do. -/
theorem map_run (k : PlanKind μ π ε) (check : μ → Except ε Unit) (m : μ) (s : MapPlan μ N) :
    (¬ k.Admits check s m ∧ ∃ e, (k.map check m).run s = (.error e, s)) ∨
    (k.Admits check s m ∧
      ∃ s', (k.map check m).run s = (.ok (), s') ∧ s'.mappings = s.mappings ++ [m]) := by
  unfold map
  rw [Op.run_read_bind]
  by_cases hfull : N ≤ s.mappings.length
  · rw [dif_pos hfull]
    exact Or.inl ⟨fun h => absurd h.room (Nat.not_lt.2 hfull), _, rfl⟩
  rw [dif_neg hfull]
  cases hoverlap : k.rejectOverlap s m with
  | error e =>
    refine Or.inl ⟨fun h => ?_, e, rfl⟩
    rw [h.free] at hoverlap
    cases hoverlap
  | ok =>
    cases hcheck : check m with
    | error e =>
      refine Or.inl ⟨fun h => ?_, e, rfl⟩
      rw [h.checked] at hcheck
      cases hcheck
    | ok => exact Or.inr ⟨⟨Nat.not_le.1 hfull, hoverlap, hcheck⟩, _, rfl, rfl⟩

/-- All `set_permissions` can do. -/
theorem setPermissions_run (k : PlanKind μ π ε) (address : GuestPhysical) (p : π)
    (s : MapPlan μ N) :
    (∃ e, (k.setPermissions address p).run s = (.error e, s)) ∨
    ∃ s' i m, (k.setPermissions address p).run s = (.ok (k.permissions m), s') ∧
      s.mappings[i]? = some m ∧ s'.mappings = s.mappings.set i (k.withPermissions p m) := by
  unfold setPermissions
  rw [Op.run_read_bind]
  cases s.mappings.findIdx? (k.contains · address) with
  | none => exact Or.inl ⟨_, rfl⟩
  | some i =>
    cases hi : s.mappings[i]? with
    | none => exact Or.inl ⟨k.missing, by simp [hi]⟩
    | some m =>
      refine Or.inr ⟨⟨s.mappings.set i (k.withPermissions p m), by simpa using s.fits⟩, i, m, ?_, hi, rfl⟩
      simp [hi]

/-- The guest ranges of a list of mappings. -/
def ranges (k : PlanKind μ π ε) (l : List μ) : List (ℕ × ℕ) := l.map fun m => (k.lo m, k.size m)

theorem ranges_set {l : List μ} {i : ℕ} {m : μ} (p : π) (h : l[i]? = some m) :
    k.ranges (l.set i (k.withPermissions p m)) = k.ranges l := by
  have hrange : (k.lo (k.withPermissions p m), k.size (k.withPermissions p m)) =
      (k.lo m, k.size m) := by
    rw [lo, k.start_withPermissions, k.size_withPermissions, lo]
  obtain ⟨hi, hget⟩ := List.getElem?_eq_some_iff.1 h
  have hset : l.set i m = l := by rw [← hget, set_getElem_self]
  rw [ranges, map_set, hrange, ← map_set (f := fun m => (k.lo m, k.size m)), hset, ranges]

/-- What one call does to the mappings: none of them moves, or one without a computed overlap
comes last. -/
inductive Change (k : PlanKind μ π ε) (s s' : MapPlan μ N) : Option μ → Prop
  | kept (h : k.ranges s'.mappings = k.ranges s.mappings) : Change k s s' none
  | added {m : μ} (h : s'.mappings = s.mappings ++ [m]) (hfree : k.rejectOverlap s m = .ok ()) :
      Change k s s' (some m)

/-- Accepted mappings are pairwise disjoint, and a lookup returns the one that contains the
address, at every address that exactly one contains. -/
def Correct (k : PlanKind μ π ε) (s : MapPlan μ N) : Prop :=
  s.mappings.Pairwise (Separate k.lo k.size) ∧
    ∀ address m, k.lookup s address = some m ↔ OnlyAt k.lo k.size s.mappings m address.raw

theorem correct_iff : k.Correct s ↔
    (∀ m ∈ s.mappings, k.lo m + k.size m < 2 ^ 64) ∧ s.mappings.Pairwise (Separate k.lo k.size) := by
  have hlo : ∀ m, k.lo m < 2 ^ 64 - 1 := fun m => (k.start m).raw_lt
  rw [← exact_iff (X := { x | x < 2 ^ 64 - 1 })
    fun m _ => ⟨hlo m, (hlo m).trans (by norm_num), k.size_lt m⟩]
  refine and_congr_right fun _ => ⟨fun h x hx m => h ⟨x, hx⟩ m, fun h address m => ?_⟩
  exact h address.raw address.raw_lt m

theorem correct_of_ranges_eq (h : k.ranges s'.mappings = k.ranges s.mappings) :
    k.Correct s' ↔ k.Correct s := by
  have key : ∀ t : MapPlan μ N, k.Correct t ↔ (∀ r ∈ k.ranges t.mappings, r.1 + r.2 < 2 ^ 64) ∧
      (k.ranges t.mappings).Pairwise (Separate Prod.fst Prod.snd) := by
    intro t
    rw [correct_iff, ranges, pairwise_map]
    simp only [mem_map, forall_exists_index, and_imp, forall_apply_eq_imp_iff₂]
    exact Iff.rfl
  rw [key, key, h]

theorem rejectOverlap_ok {m a : μ} (h : k.rejectOverlap s m = .ok ()) (ha : a ∈ s.mappings) :
    ¬ (k.lo m < k.stop a ∧ k.lo a < k.stop m) := by
  have hstep := forM_ok.1 h a ha
  rw [failIf_eq_ok, Bool.and_eq_false_iff, decide_eq_false_iff_not, decide_eq_false_iff_not] at hstep
  tauto

theorem Change.correct {o : Option μ} (h : Change k s s' o) (hs : k.Correct s) :
    k.Correct s' ↔ ∀ m, o = some m → k.lo m + k.size m < 2 ^ 64 := by
  cases h with
  | kept h =>
    rw [correct_of_ranges_eq h]
    exact iff_of_true hs fun m hm => nomatch hm
  | @added m h hfree =>
    obtain ⟨hbelow, hpair⟩ := correct_iff.1 hs
    rw [correct_iff, h]
    constructor
    · rintro ⟨hall, -⟩ m' hm'
      cases hm'
      exact hall m (by simp)
    · intro hm
      have hend := hm m rfl
      exact ⟨forall_mem_concat hbelow hend, pairwise_concat hpair fun a ha =>
        separate_of_not_wrapped (hbelow a ha) hend (rejectOverlap_ok hfree ha)⟩

theorem correct_new : k.Correct (MapPlan.new μ N) := by
  rw [correct_iff]
  simp [MapPlan.new]

end PlanKind

/-- The mapping a call has added to the plan. -/
def PlanCall.accepted {μ π ε : Type} : PlanCall μ π → PlanReply π ε → Option μ
  | .map m, .done => some m
  | _, _ => none

/-- Every mapping the call adds to the plan ends below the last address. -/
def PlanKind.Below {μ π ε : Type} (k : PlanKind μ π ε) (o : Option μ) : Prop :=
  ∀ m, o = some m → k.lo m + k.size m < 2 ^ 64

def PlanReply.IsFailed {π ε : Type} (r : PlanReply π ε) : Prop := ∃ e, r = .failed e

/-- The plan inside a machine is correct after every call of a run exactly if every mapping the
run adds ends below the last address, and a call that fails changes no lookup. -/
structure ExactRuns {μ π ε σ κ : Type} {N : ℕ} (k : PlanKind μ π ε) (plan : σ → MapPlan μ N)
    (step : σ → κ → PlanReply π ε × σ) (accepted : κ → PlanReply π ε → Option μ) (s₀ : σ) : Prop where
  correct_iff : ∀ calls, AllStates (fun s => k.Correct (plan s)) step s₀ calls ↔
    AllSteps (fun s c => k.Below (accepted c (step s c).1)) step s₀ calls
  failed : ∀ s c, (step s c).1.IsFailed →
    ∀ address, k.lookup (plan (step s c).2) address = k.lookup (plan s) address

namespace PlanKind

variable {μ π ε : Type} {N : ℕ} {k : PlanKind μ π ε}

theorem exactRuns {σ κ : Type} {plan : σ → MapPlan μ N} {step : σ → κ → PlanReply π ε × σ}
    {accepted : κ → PlanReply π ε → Option μ} {s₀ : σ} (h₀ : k.Correct (plan s₀))
    (hchange : ∀ s c, Change k (plan s) (plan (step s c).2) (accepted c (step s c).1))
    (hfailed : ∀ s c, (step s c).1.IsFailed → plan (step s c).2 = plan s) :
    ExactRuns k plan step accepted s₀ := by
  refine ⟨fun calls => ?_, fun s c h address => by rw [hfailed s c h]⟩
  exact allStates_iff_allSteps (I := fun _ => True) (fun _ _ _ => trivial)
    (fun s c _ hs => (hchange s c).correct hs) calls s₀ trivial h₀

/-- A call on a plan that is a state of its own. -/
theorem stepWith_change (s : MapPlan μ N) (c : PlanCall μ π) (check : μ → Except ε Unit) :
    let r := stepWith (k.map check) k.setPermissions s c
    Change k s r.2 (c.accepted r.1) ∧ (r.1.IsFailed → r.2 = s) := by
  cases c with
  | map m =>
    rcases k.map_run check m s with ⟨-, e, he⟩ | ⟨hadmits, s', hok, hadd⟩
    · rw [stepWith, Op.reply_error he]
      exact ⟨.kept rfl, fun _ => rfl⟩
    · rw [stepWith, Op.reply_ok hok]
      exact ⟨.added hadd hadmits.free, fun ⟨e, he⟩ => nomatch he⟩
  | setPermissions address p =>
    rcases k.setPermissions_run address p s with ⟨e, he⟩ | ⟨s', i, m, hok, hi, hset⟩
    · rw [stepWith, Op.reply_error he]
      exact ⟨.kept rfl, fun _ => rfl⟩
    · rw [stepWith, Op.reply_ok hok]
      refine ⟨.kept ?_, fun ⟨e, he⟩ => nomatch he⟩
      rw [hset, ranges_set p hi]

end PlanKind

namespace Svm.NptMapPlan

variable {N P : ℕ}

def Call.accepted : Call → PlanReply NptPermissions SvmError → Option NptMapping
  | .protectHypervisorRange _, _ => none
  | .plan call, reply => call.accepted reply

theorem onPlan_run {α : Type} (op : Op (MapPlan NptMapping N) SvmError α) (s : NptMapPlan N P) :
    (onPlan op).run s = ((op.run s.plan).1, { s with plan := (op.run s.plan).2 }) := rfl

theorem reply_onPlan {α : Type} (op : Op (MapPlan NptMapping N) SvmError α)
    (done : α → PlanReply NptPermissions SvmError) (s : NptMapPlan N P) :
    (onPlan op).reply done .failed s = ((op.reply done .failed s.plan).1,
      { s with plan := (op.reply done .failed s.plan).2 }) := by
  unfold Op.reply
  rw [onPlan_run]
  rcases op.run s.plan with ⟨_ | _, t⟩ <;> rfl

/-- A call on the plan does what the plan alone would do, with the protected ranges as its check. -/
theorem step_plan (s : NptMapPlan N P) (c : PlanCall NptMapping NptPermissions) :
    let r := stepWith (nptKind.map s.rejectHypervisorOverlap) nptKind.setPermissions s.plan c
    step s (.plan c) = (r.1, { s with plan := r.2 }) := by
  cases c with
  | map m => exact reply_onPlan (nptKind.map s.rejectHypervisorOverlap m) _ s
  | setPermissions gpa p => exact reply_onPlan (nptKind.setPermissions gpa p) _ s

/-- All `protect_hypervisor_range` can do. -/
theorem protect_step (s : NptMapPlan N P) (r : ProtectedRange) :
    (P ≤ s.protectedRanges.length ∧ ∃ e, step s (.protectHypervisorRange r) = (.failed e, s)) ∨
    (s.protectedRanges.length < P ∧ ∃ s', step s (.protectHypervisorRange r) = (.done, s') ∧
      s'.plan = s.plan ∧ s'.protectedRanges = s.protectedRanges ++ [r]) := by
  simp only [step, Op.reply, protectHypervisorRange, Op.run_read_bind]
  by_cases hfull : P ≤ s.protectedRanges.length
  · rw [dif_pos hfull]
    exact Or.inl ⟨hfull, _, rfl⟩
  · rw [dif_neg hfull]
    exact Or.inr ⟨Nat.not_le.1 hfull, _, rfl, rfl, rfl⟩

theorem step_change (s : NptMapPlan N P) (c : Call) :
    Change nptKind s.plan (step s c).2.plan (c.accepted (step s c).1) ∧
      ((step s c).1.IsFailed → (step s c).2 = s) := by
  cases c with
  | protectHypervisorRange r =>
    rcases protect_step s r with ⟨-, e, he⟩ | ⟨-, s', hok, hplan, -⟩
    · rw [he]
      exact ⟨.kept rfl, fun _ => rfl⟩
    · rw [hok]
      exact ⟨.kept (by rw [hplan]), fun ⟨e, he⟩ => nomatch he⟩
  | plan c =>
    have h := stepWith_change (k := nptKind) s.plan c s.rejectHypervisorOverlap
    rw [step_plan]
    exact ⟨h.1, fun hf => by simp only [h.2 hf]⟩

end Svm.NptMapPlan

theorem plans_exact_runs (N P : ℕ) :
    ExactRuns Vmx.eptKind id Vmx.EptMapPlan.step PlanCall.accepted (Vmx.EptMapPlan.new N) ∧
      ExactRuns Svm.nptKind Svm.NptMapPlan.plan Svm.NptMapPlan.step Svm.NptMapPlan.Call.accepted
        (Svm.NptMapPlan.new N P) ∧
      ExactRuns Arm64.stage2Kind id Arm64.Stage2MapPlan.step PlanCall.accepted
        (Arm64.Stage2MapPlan.new N) :=
  ⟨exactRuns correct_new
      (fun s c => (stepWith_change s c _).1) fun s c => (stepWith_change s c _).2,
    exactRuns correct_new (fun s c => (Svm.NptMapPlan.step_change s c).1)
      fun s c h => by rw [(Svm.NptMapPlan.step_change s c).2 h],
    exactRuns correct_new
      (fun s c => (stepWith_change s c _).1) fun s c => (stepWith_change s c _).2⟩

/-- The last page of the guest-physical address space. -/
theorem lastPage_lt : 0xfffffffffffff000 < 2 ^ 64 - 1 := by norm_num

theorem pageLength_lt : 4096 < 2 ^ 64 := by norm_num

def lastPage : GuestPhysical := ⟨0xfffffffffffff000, lastPage_lt⟩

/-- Each plan accepts the last page twice and then does not find it. -/
theorem plans_lose_last_page :
    (∃ m, Vmx.EptMapping.new lastPage HostPhysical.zero .size4K ⟨true, true, false⟩ .writeBack = .ok m ∧
      let s := (run Vmx.EptMapPlan.step (Vmx.EptMapPlan.new 2) [.map m, .map m]).2
      s.mappings = [m, m] ∧ InRange Vmx.eptKind.lo Vmx.eptKind.size m lastPage.raw ∧
        s.lookup lastPage = none) ∧
    (∃ m, Svm.NptMapping.new lastPage HostPhysical.zero .size4K ⟨true, true, false⟩ = .ok m ∧
      let s := (run Svm.NptMapPlan.step (Svm.NptMapPlan.new 2 0) [.plan (.map m), .plan (.map m)]).2
      s.plan.mappings = [m, m] ∧ InRange Svm.nptKind.lo Svm.nptKind.size m lastPage.raw ∧
        s.lookup lastPage = none) ∧
    ∃ m, Arm64.Stage2Mapping.new lastPage HostPhysical.zero 4096 pageLength_lt .size4K
        ⟨true, true, false⟩ .normalWriteBack .innerShareable = .ok m ∧
      let s := (run Arm64.Stage2MapPlan.step (Arm64.Stage2MapPlan.new 2) [.map m, .map m]).2
      s.mappings = [m, m] ∧ InRange Arm64.stage2Kind.lo Arm64.stage2Kind.size m lastPage.raw ∧
        Arm64.Stage2MapPlan.lookup s lastPage = none :=
  ⟨⟨_, rfl, rfl, ⟨le_rfl, by decide⟩, rfl⟩, ⟨_, rfl, rfl, ⟨le_rfl, by decide⟩, rfl⟩,
    ⟨_, rfl, rfl, ⟨le_rfl, by decide⟩, rfl⟩⟩

/-! Protected hypervisor memory in the NPT plan. -/

namespace Svm

def NptMapping.InHost (m : NptMapping) (x : ℕ) : Prop :=
  m.hostPhysical.raw ≤ x ∧ x < m.hostPhysical.raw + m.pageSize.bytes

def ProtectedRange.Contains (r : ProtectedRange) (x : ℕ) : Prop :=
  r.start.raw ≤ x ∧ x < r.start.raw + r.length

/-- No host address lies in both. -/
def ProtectedRange.Apart (r : ProtectedRange) (m : NptMapping) : Prop :=
  ∀ x, ¬ (m.InHost x ∧ r.Contains x)

/-- The two ranges as the comparison of the wrapped ends sees them: each starts below the end of
the other, and an end that wraps leaves enough to see it. -/
def ProtectedRange.Seen (r : ProtectedRange) (m : NptMapping) : Prop :=
  let rangeEnd := r.start.raw + r.length
  let hostEnd := m.hostPhysical.raw + m.pageSize.bytes
  m.hostPhysical.raw < rangeEnd ∧ r.start.raw < hostEnd ∧
    (rangeEnd < 2 ^ 64 ∨ m.hostPhysical.raw + 2 ^ 64 < rangeEnd) ∧
    (hostEnd < 2 ^ 64 ∨ r.start.raw + 2 ^ 64 < hostEnd)

theorem ProtectedRange.overlapsMapping_iff (r : ProtectedRange) (m : NptMapping) :
    r.overlapsMapping m = true ↔ r.Seen m := by
  have hlength := r.length_lt
  have hsize := nptKind.size_lt m
  simp only [nptKind] at hsize
  rw [overlapsMapping, Bool.and_eq_true, decide_eq_true_iff, decide_eq_true_iff]
  simp only [Seen, stop, NptMapping.hostEnd, wrappingAdd]
  omega

namespace NptMapPlan

variable {N P : ℕ} {s : NptMapPlan N P}

/-- No mapping reaches protected memory. -/
def Isolated (s : NptMapPlan N P) : Prop :=
  ∀ m ∈ s.plan.mappings, ∀ r ∈ s.protectedRanges, r.Apart m

/-- A range is protected only where nothing is mapped, and a mapping that reaches protected memory
and would otherwise be accepted is seen to overlap some protected range. -/
def Guarded (s : NptMapPlan N P) : Call → Prop
  | .protectHypervisorRange r => s.protectedRanges.length < P → ∀ m ∈ s.plan.mappings, r.Apart m
  | .plan (.map m) => s.plan.mappings.length < N → nptKind.rejectOverlap s.plan m = .ok () →
      (∃ r ∈ s.protectedRanges, ¬ r.Apart m) → ∃ r ∈ s.protectedRanges, r.Seen m
  | .plan (.setPermissions _ _) => True

theorem rejectHypervisorOverlap_ok {m : NptMapping} :
    s.rejectHypervisorOverlap m = .ok () ↔ ∀ r ∈ s.protectedRanges, ¬ r.Seen m := by
  simp only [rejectHypervisorOverlap, forM_ok, failIf_eq_ok, ← ProtectedRange.overlapsMapping_iff,
    Bool.not_eq_true]

theorem isolated_protect (hs : s.Isolated) (r : ProtectedRange) :
    (step s (.protectHypervisorRange r)).2.Isolated ↔ s.Guarded (.protectHypervisorRange r) := by
  rcases protect_step s r with ⟨hfull, e, he⟩ | ⟨hroom, s', hok, hplan, hranges⟩
  · rw [he]
    exact iff_of_true hs fun hroom => absurd hroom (Nat.not_lt.2 hfull)
  · rw [hok]
    simp only [Isolated, Guarded, hplan, hranges, mem_append, mem_singleton]
    constructor
    · intro h _ m hm
      exact h m hm r (Or.inr rfl)
    · rintro h m hm r' (hold | rfl)
      · exact hs m hm r' hold
      · exact h hroom m hm

theorem isolated_map (hs : s.Isolated) (m : NptMapping) :
    (step s (.plan (.map m))).2.Isolated ↔ s.Guarded (.plan (.map m)) := by
  rw [step_plan]
  rcases nptKind.map_run s.rejectHypervisorOverlap m s.plan with
    ⟨hrefused, e, he⟩ | ⟨hadmits, t, hok, hadd⟩
  · simp only [stepWith, Op.reply_error he]
    refine iff_of_true hs fun hroom hfree _ => ?_
    have hcheck : ¬ s.rejectHypervisorOverlap m = .ok () := fun h => hrefused ⟨hroom, hfree, h⟩
    rw [rejectHypervisorOverlap_ok] at hcheck
    push Not at hcheck
    exact hcheck
  · simp only [stepWith, Op.reply_ok hok]
    have hunseen := rejectHypervisorOverlap_ok.1 hadmits.checked
    simp only [Isolated, Guarded, hadd, mem_append, mem_singleton]
    constructor
    · rintro h - - ⟨r, hr, hmeets⟩
      exact absurd (h m (Or.inr rfl) r hr) hmeets
    · rintro h m' (hold | rfl) r hr
      · exact hs m' hold r hr
      · by_contra hmeets
        obtain ⟨r', hr', hseen⟩ := h hadmits.room hadmits.free ⟨r, hr, hmeets⟩
        exact hunseen r' hr' hseen

theorem isolated_setPermissions (hs : s.Isolated) (gpa : GuestPhysical) (p : NptPermissions) :
    (step s (.plan (.setPermissions gpa p))).2.Isolated := by
  rw [step_plan]
  rcases nptKind.setPermissions_run gpa p s.plan with ⟨e, he⟩ | ⟨t, i, m, hok, hi, hset⟩
  · simp only [stepWith, Op.reply_error he]
    exact hs
  · simp only [stepWith, Op.reply_ok hok]
    intro m' hm' r hr
    simp only [hset] at hm'
    rcases mem_or_eq_of_mem_set hm' with hold | rfl
    · exact hs m' hold r hr
    · exact hs m (mem_of_getElem? hi) r hr

theorem isolated_run_iff (N P : ℕ) (calls : List Call) :
    AllStates Isolated step (new N P) calls ↔ AllSteps Guarded step (new N P) calls := by
  refine allStates_iff_allSteps (I := fun _ => True) (fun _ _ _ => trivial) (fun s c _ hs => ?_)
    calls _ trivial (fun m hm => by cases hm)
  match c with
  | .protectHypervisorRange r => exact isolated_protect hs r
  | .plan (.map m) => exact isolated_map hs m
  | .plan (.setPermissions gpa p) => exact iff_of_true (isolated_setPermissions hs gpa p) trivial

/-- A page of host memory mapped at guest address zero. -/
theorem pageAt_lt : 0 < 2 ^ 64 - 1 := by norm_num

def pageAt (host : HostPhysical) : NptMapping :=
  ⟨⟨0, pageAt_lt⟩, host, .size4K, ⟨true, true, false⟩⟩

theorem lowPage_lt : 0x1000 < 2 ^ 64 - 1 := by norm_num

theorem lastLength_lt : 0xfff < 2 ^ 64 := by norm_num

/-- Two runs that expose protected memory: the range is protected after the page was mapped, and
the page is the last one, whose end wraps to zero. -/
theorem exposed_runs :
    (let r : ProtectedRange := ⟨⟨0x1000, lowPage_lt⟩, 0x1000, pageLength_lt⟩
      let m := pageAt ⟨0x1000, lowPage_lt⟩
      let s := (run step (new 1 1) [.plan (.map m), .protectHypervisorRange r]).2
      s.plan.mappings = [m] ∧ s.protectedRanges = [r] ∧ m.InHost 0x1000 ∧ r.Contains 0x1000) ∧
    (let r : ProtectedRange := ⟨⟨0xfffffffffffff000, lastPage_lt⟩, 0xfff, lastLength_lt⟩
      let m := pageAt ⟨0xfffffffffffff000, lastPage_lt⟩
      let s := (run step (new 1 1) [.protectHypervisorRange r, .plan (.map m)]).2
      s.plan.mappings = [m] ∧ s.protectedRanges = [r] ∧ m.InHost 0xfffffffffffff000 ∧
        r.Contains 0xfffffffffffff000) := by
  refine ⟨⟨rfl, rfl, ?_, ?_⟩, rfl, rfl, ?_, ?_⟩
  · exact ⟨le_rfl, by decide⟩
  · exact ⟨le_rfl, by decide⟩
  · exact ⟨le_rfl, by decide⟩
  · exact ⟨le_rfl, by decide⟩

end NptMapPlan
end Svm

end AegisHV
