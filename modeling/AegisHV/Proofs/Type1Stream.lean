import AegisHV.Proofs.Type1Events

/-! The collector's counters over a stream of lines from several boots of several backends, of
which lines may be lost. -/

namespace AegisHV.Type1

open Sys Collector List Metrics

namespace Collector.Metrics

theorem counters_add (m : Metrics) (key key' : Key) (n : ℕ) :
    (m.add key n).counters key' = m.counters key' + if key' = key then n else 0 := by
  simp only [add]
  split_ifs with h
  · rw [h, Function.update_self]
  · rw [Function.update_of_ne h, Nat.add_zero]

theorem counters_add_of_ne (m : Metrics) {key key' : Key} (n : ℕ) (h : key'.1 ≠ key.1) :
    (m.add key n).counters key' = m.counters key' := by
  rw [counters_add, if_neg fun heq => h (congrArg Prod.fst heq), Nat.add_zero]

/-- The counters that the kind of an event leaves alone. -/
theorem counters_countKind (m : Metrics) (event : Dict) {key : Key}
    (h : key.1 ∈ ["invalid_events_total", "missing_events_total", "events_total"]) :
    (m.countKind event).counters key = m.counters key := by
  have hne : ∀ a ∈ ["invalid_events_total", "missing_events_total", "events_total"],
      a ≠ "page_accesses_total" ∧ a ≠ "denied_accesses_total" ∧ a ≠ "syscall_checks_total" ∧
      a ≠ "pmu_cycles_total" ∧ a ≠ "vcpu_pmu_cycles_total" ∧ a ≠ "vector_checks_total" := by decide
  obtain ⟨h1, h2, h3, h4, h5, h6⟩ := hne _ h
  simp only [countKind]
  split_ifs
  · rw [counters_add_of_ne _ _ h2, counters_add_of_ne _ _ h1]
  · rw [counters_add_of_ne _ _ h1]
  · rw [counters_add_of_ne _ _ h3]
  · rw [counters_add_of_ne _ _ h5, counters_add_of_ne _ _ h4]
  all_goals first
    | exact counters_add_of_ne _ _ h6
    | rfl

theorem last_countKind (m : Metrics) (event : Dict) : (m.countKind event).last = m.last := by
  simp only [countKind]
  split_ifs <;> rfl

end Collector.Metrics

/-! Keys of the counters that the claims about losses need. -/

def invalidKey : Key := ("invalid_events_total", [])

def missingKey (backend : Backend) : Key :=
  ("missing_events_total", [("backend", backend.name.toList)])

def eventsKey (backend : Backend) (kind : List Char) : Key :=
  ("events_total", [("backend", backend.name.toList), ("kind", kind)])

@[simp] theorem invalidKey_fst : invalidKey.1 = "invalid_events_total" := rfl

@[simp] theorem missingKey_fst (b : Backend) : (missingKey b).1 = "missing_events_total" := rfl

@[simp] theorem eventsKey_fst (b : Backend) (kind : List Char) :
    (eventsKey b kind).1 = "events_total" := rfl

variable {b b' : Backend}

theorem name_inj : b.name.toList = b'.name.toList ↔ b = b' := by
  cases b <;> cases b' <;> decide

theorem missingKey_inj : missingKey b = missingKey b' ↔ b = b' := by
  simp [missingKey, name_inj]

theorem eventsKey_inj {k k' : List Char} :
    eventsKey b k = eventsKey b' k' ↔ b = b' ∧ k = k' := by
  simp [eventsKey, name_inj]

section

variable {r : Record} (backend : Backend) (number : ℕ)

theorem text_backend : text (dictOf (r.allFields backend number)) "backend" =
    backend.name.toList := by
  rw [text, get_dictOf]
  rfl

theorem text_kind : text (dictOf (r.allFields backend number)) "kind" = r.kind.toList := by
  rw [text, get_dictOf]
  rfl

theorem nat_sequence : nat (dictOf (r.allFields backend number)) "sequence" = number := by
  rw [nat, get_dictOf]
  rfl

/-- What counting an event does to the counters of losses and events. -/
theorem count_spec (m : Metrics) (previous : ℕ) :
    let m' := m.count (dictOf (r.allFields backend number)) previous
    m'.last = Function.update m.last backend.name.toList (some number) ∧
    m'.counters invalidKey = m.counters invalidKey ∧
    (∀ b, m'.counters (missingKey b) =
      m.counters (missingKey b) + if b = backend then number - previous - 1 else 0) ∧
    ∀ b k, m'.counters (eventsKey b k) =
      m.counters (eventsKey b k) + if b = backend ∧ k = r.kind.toList then 1 else 0 := by
  have hmissing : ("missing_events_total", [("backend", backend.name.toList)]) = missingKey backend :=
    rfl
  have hevents : ("events_total", [("backend", backend.name.toList)] ++ [("kind", r.kind.toList)]) =
    eventsKey backend r.kind.toList := rfl
  intro m'
  simp only [m', Metrics.count, text_backend, text_kind, nat_sequence, Metrics.last_countKind,
    hmissing, hevents]
  refine ⟨rfl, ?_, fun b => ?_, fun b k => ?_⟩
  · rw [Metrics.counters_countKind _ _ (by simp), ]
    have hinvalid : (m.add (missingKey backend) (number - previous - 1)).counters invalidKey =
      m.counters invalidKey := counters_add_of_ne m _ (by simp)
    exact hinvalid
  · rw [counters_countKind _ _ (by simp), counters_add_of_ne _ _ (by simp),
      counters_add_of_ne _ _ (by simp)]
    refine (counters_add m _ _ _).trans ?_
    simp only [missingKey_inj]
  · rw [counters_countKind _ _ (by simp), counters_add_of_ne _ _ (by simp), counters_add]
    have hother : (m.add (missingKey backend) (number - previous - 1)).counters (eventsKey b k) =
      m.counters (eventsKey b k) := counters_add_of_ne m _ (by simp)
    simp only [eventsKey_inj, hother]

end

/-! Deliveries. -/

/-- A line that arrives at the collector: where it comes from, its number in its boot, the kind of
its event and its text. -/
structure Delivery where
  backend : Backend
  number : ℕ
  kind : String
  line : List Char

/-- A boot of a backend and what is received of it. The first line is never lost. -/
structure Boot where
  calls : List Call
  kept : ℕ → Bool
  first : kept 1 = true
  vcpus : ∀ vcpu, .cpu vcpu ∈ calls → vcpu < 256

namespace Boot

def received (boot : Boot) (backend : Backend) : List Delivery :=
  ((((lines backend boot.calls).zip (records 0 boot.calls)).zipIdx 1).filter
    fun p => boot.kept p.2).map fun p => ⟨backend, p.2, p.1.2.kind, p.1.1⟩

/-- How many lines are lost before a line that is received. -/
def lost (boot : Boot) (backend : Backend) : ℕ :=
  Gaps.lostBefore (lines backend boot.calls).length boot.kept

theorem length_lines (backend : Backend) (calls : List Call) :
    (lines backend calls).length = (records 0 calls).length := by
  rw [lines_eq, length_map, length_zipIdx]

theorem numbers_received (boot : Boot) (backend : Backend) :
    (boot.received backend).map Delivery.number =
      Gaps.received (lines backend boot.calls).length boot.kept := by
  have hzip : ((lines backend boot.calls).zip (records 0 boot.calls)).length =
      (lines backend boot.calls).length := by
    rw [length_zip, length_lines, Nat.min_self]
  have hsnd : (((lines backend boot.calls).zip (records 0 boot.calls)).zipIdx 1).map Prod.snd =
      List.range' 1 (lines backend boot.calls).length := by
    rw [zipIdx_map_snd, hzip]
  rw [received, map_map, Gaps.received, ← hsnd, filter_map]
  rfl

end Boot

/-- A line that stands for an event, with a sequence number that may have wrapped. -/
def Delivery.Stands (d : Delivery) : Prop :=
  ∃ r : Record, WellFormed r.kind r.fields ∧ r.vcpu < 256 ∧ d.kind = r.kind ∧
    d.line = r.line d.backend (d.number % 2 ^ 64)

theorem Boot.stands (boot : Boot) (backend : Backend) :
    ∀ d ∈ boot.received backend, d.backend = backend ∧ d.Stands := by
  intro d hd
  obtain ⟨⟨⟨line, r⟩, i⟩, hp, rfl⟩ := mem_map.mp hd
  have hmem := (mem_filter.mp hp).1
  obtain ⟨hle, hget⟩ := mk_mem_zipIdx_iff_le_and_getElem?_sub.mp hmem
  obtain ⟨hline, hr⟩ := getElem?_zip_eq_some.mp hget
  obtain ⟨hform, hvcpu⟩ := wellFormed_records (by norm_num : 0 < 256) boot.vcpus r
    (mem_of_getElem? hr)
  refine ⟨rfl, r, hform, hvcpu, rfl, ?_⟩
  rw [lines_eq, getElem?_map, getElem?_zipIdx, hr] at hline
  have hnumber : 1 + (i - 1) = i := by omega
  simpa [hnumber] using hline.symm

/-- What the numbers of a backend's lines amount to. -/
def gapsOf (ds : List Delivery) (b : Backend) : Gaps :=
  (((ds.filter fun d => d.backend = b).map Delivery.number).map (· % 2 ^ 64)).foldl Gaps.receive
    Gaps.start

theorem gapsOf_snoc (ds : List Delivery) (d : Delivery) (b : Backend) :
    gapsOf (ds ++ [d]) b =
      if d.backend = b then (gapsOf ds b).receive (d.number % 2 ^ 64) else gapsOf ds b := by
  split_ifs with h <;> simp [h, gapsOf]

/-- The metrics after the lines `ds`. -/
structure Tally (ds : List Delivery) (m : Metrics) : Prop where
  last : ∀ b : Backend, (m.last b.name.toList).getD 0 = (gapsOf ds b).last
  missing : ∀ b, m.counters (missingKey b) = (gapsOf ds b).missing
  invalid : m.counters invalidKey = (gapsOf ds .vmx).refused + (gapsOf ds .svm).refused +
    (gapsOf ds .el2).refused
  counted : m.counters invalidKey = 0 → ∀ b k,
    m.counters (eventsKey b k) = ds.countP fun d => d.backend = b ∧ d.kind.toList = k

theorem tally_new : Tally [] new :=
  ⟨fun _ => rfl, fun _ => rfl, rfl, fun _ _ _ => rfl⟩

section

variable {ds : List Delivery} {d : Delivery} {m : Metrics}

theorem Tally.refuse (h : Tally ds m) (hone : d.number % 2 ^ 64 ≠ 1)
    (hle : d.number % 2 ^ 64 ≤ (gapsOf ds d.backend).last) : Tally (ds ++ [d]) m.reject := by
  have hreceive : (gapsOf ds d.backend).receive (d.number % 2 ^ 64) =
      { gapsOf ds d.backend with refused := (gapsOf ds d.backend).refused + 1 } := by
    rw [Gaps.receive, if_neg hone, if_pos hle]
  have hcounters (key : Key) (hkey : key.1 ≠ "invalid_events_total") :
      m.reject.counters key = m.counters key := counters_add_of_ne _ _ hkey
  have hinvalid : m.reject.counters invalidKey = m.counters invalidKey + 1 := by
    rfl
  refine ⟨fun b => ?_, fun b => ?_, ?_, fun hzero => ?_⟩
  · rw [gapsOf_snoc]
    split_ifs with hb
    · rw [← hb, hreceive]
      exact h.last d.backend
    · exact h.last b
  · rw [gapsOf_snoc]
    split_ifs with hb
    · rw [← hb, hreceive]
      exact h.missing d.backend
    · exact h.missing b
  · rw [hinvalid, h.invalid]
    simp only [gapsOf_snoc]
    rcases hb : d.backend <;> rw [hb] at hreceive <;>
      simp only [hreceive, if_true, reduceCtorEq, if_false] <;> omega
  · omega

theorem Tally.count {r : Record} (h : Tally ds m) (hkind : d.kind = r.kind) {previous : ℕ}
    (hreceive : (gapsOf ds d.backend).receive (d.number % 2 ^ 64) = ⟨d.number % 2 ^ 64,
      (gapsOf ds d.backend).missing + (d.number % 2 ^ 64 - previous - 1),
      (gapsOf ds d.backend).refused⟩) :
    Tally (ds ++ [d]) (m.count (dictOf (r.allFields d.backend (d.number % 2 ^ 64))) previous) := by
  obtain ⟨hlast, hinvalid, hmissing, hevents⟩ :=
    @count_spec r d.backend (d.number % 2 ^ 64) m previous
  refine ⟨fun b => ?_, fun b => ?_, ?_, fun hzero b k => ?_⟩
  · rw [gapsOf_snoc, hlast]
    split_ifs with hb
    · rw [← hb, hreceive, Function.update_self]
      rfl
    · rw [Function.update_of_ne (fun heq => hb (name_inj.mp heq).symm)]
      exact h.last b
  · rw [gapsOf_snoc, hmissing, h.missing b]
    by_cases hb : d.backend = b
    · rw [if_pos hb.symm, if_pos hb, ← hb, hreceive]
    · rw [if_neg (Ne.symm hb), if_neg hb, Nat.add_zero]
  · rw [hinvalid, h.invalid]
    simp only [gapsOf_snoc]
    rcases hb : d.backend <;> rw [hb] at hreceive <;>
      simp only [hreceive, if_true, reduceCtorEq, if_false]
  · rw [hinvalid] at hzero
    rw [hevents, h.counted hzero b k, countP_append, countP_singleton, hkind]
    have hsame : (d.backend = b ∧ r.kind.toList = k) ↔ (b = d.backend ∧ k = r.kind.toList) := by
      rw [eq_comm, @eq_comm _ k]
    simp only [decide_eq_true_eq, hsame]

/-- The counter of boots and the table of PMUs are not looked at. -/
theorem Tally.boot (h : Tally ds m) (labels : List (String × List Char))
    {pmu : List Char × ℕ → Option ℕ} :
    Tally ds { m.add ("boots_total", labels) 1 with pmu } := by
  have hcounters (key : Key) (hkey : key.1 ≠ "boots_total") :
      (m.add ("boots_total", labels) 1).counters key = m.counters key :=
    counters_add_of_ne _ _ hkey
  refine ⟨h.last, fun b => ?_, ?_, fun hzero b k => ?_⟩
  · exact (hcounters _ (by simp)).trans (h.missing b)
  · exact (hcounters _ (by simp)).trans h.invalid
  · refine (hcounters _ (by simp)).trans (h.counted ?_ b k)
    exact (hcounters invalidKey (by simp)).symm.trans hzero

theorem Tally.step (h : Tally ds m) (hd : d.Stands) (out : List Dict) :
    Tally (ds ++ [d]) (collectLine (m, out) d.line).1 := by
  obtain ⟨r, hform, hvcpu, hkind, hline⟩ := hd
  have hdecode := decode_line d.backend hform hvcpu (Nat.mod_lt d.number (by norm_num))
  have hopen : ((r.line d.backend (d.number % 2 ^ 64)).dropWhile Collector.isBlank).head? = some '\x7b' := rfl
  rw [hline, collectLine, if_pos hopen, hdecode]
  by_cases hzero : d.number % 2 ^ 64 = 0
  · rw [if_pos hzero]
    exact h.refuse (by omega) (by omega)
  · rw [if_neg hzero]
    dsimp only
    rw [accept]
    simp only [text_backend, nat_sequence, h.last d.backend]
    split_ifs with hone hle
    · refine (h.boot _).count hkind ?_
      rw [Gaps.receive, hone]
      rfl
    · exact h.refuse hone hle
    · refine h.count hkind ?_
      rw [Gaps.receive, if_neg hone, if_neg hle]

end

theorem tally_foldl {ds : List Delivery} (hds : ∀ d ∈ ds, d.Stands) :
    Tally ds ((ds.map Delivery.line).foldl collectLine (new, [])).1 := by
  induction ds using List.reverseRecOn with
  | nil => exact tally_new
  | append_singleton ds d ih =>
    rw [map_append, foldl_append]
    exact (ih fun d hd => hds d (by simp [hd])).step (hds d (by simp)) _

/-- The stream interleaves what is received of the boots of each backend. -/
def Interleaves (boots : Backend → List Boot) (stream : List Delivery) : Prop :=
  ∀ b, stream.filter (fun d => d.backend = b) = (boots b).flatMap fun boot => boot.received b

/-- Nothing is rejected, every line is counted once, and so is every line that is lost before one
that is received. -/
structure Exact (boots : Backend → List Boot) (stream : List Delivery) (m : Metrics) : Prop where
  accepted : m.counters invalidKey = 0
  counted : ∀ b kind, m.counters (eventsKey b kind) =
    stream.countP fun d => d.backend = b ∧ d.kind.toList = kind
  missing : ∀ b, m.counters (missingKey b) = ((boots b).map fun boot => boot.lost b).sum

section

variable {boots : Backend → List Boot} {stream : List Delivery}

theorem Interleaves.mem (h : Interleaves boots stream) {d : Delivery} (hd : d ∈ stream) :
    ∃ boot ∈ boots d.backend, d ∈ boot.received d.backend := by
  have hmem : d ∈ stream.filter fun e => e.backend = d.backend :=
    mem_filter.mpr ⟨hd, by simp⟩
  rw [h] at hmem
  exact mem_flatMap.mp hmem

theorem Interleaves.stands (h : Interleaves boots stream) : ∀ d ∈ stream, d.Stands := by
  intro d hd
  obtain ⟨boot, -, hreceived⟩ := h.mem hd
  exact (boot.stands d.backend d hreceived).2

/-- What the collector counts for a backend is exact when no number of its lines wraps. -/
theorem Interleaves.gaps_iff (h : Interleaves boots stream) (b : Backend) :
    ((gapsOf stream b).refused = 0 ∧
      (gapsOf stream b).missing = ((boots b).map fun boot => boot.lost b).sum) ↔
    ∀ d ∈ stream, d.backend = b → d.number < 2 ^ 64 := by
  set sessions := (boots b).map fun boot => (boot.received b).map Delivery.number with hsessions
  have hnumbers : (stream.filter fun d => d.backend = b).map Delivery.number = sessions.flatten := by
    rw [h b, map_flatMap, flatMap_def]
  have hlost : (sessions.map Gaps.lost).sum = ((boots b).map fun boot => boot.lost b).sum := by
    rw [map_map]
    refine congrArg List.sum (map_congr_left fun boot _ => ?_)
    rw [Function.comp_apply, boot.numbers_received b, Gaps.lost_received]
    rfl
  have hexact := @Gaps.exact_iff (2 ^ 64) (by norm_num) sessions (by
    intro ns hns
    obtain ⟨boot, -, rfl⟩ := mem_map.mp hns
    rw [boot.numbers_received b]
    exact Gaps.session_received _ _ boot.first)
  rw [← hnumbers, hlost] at hexact
  refine hexact.trans ⟨fun hall d hd hb => ?_, fun hall n hn => ?_⟩
  · exact hall d.number (mem_map_of_mem (mem_filter.mpr ⟨hd, by simpa using hb⟩))
  · obtain ⟨d, hd, rfl⟩ := mem_map.mp hn
    obtain ⟨hd, hb⟩ := mem_filter.mp hd
    exact hall d hd (by simpa using hb)

theorem exact_iff_numbers (h : Interleaves boots stream) :
    Exact boots stream (collect (stream.map Delivery.line).flatten new).1 ↔
      ∀ d ∈ stream, d.number < 2 ^ 64 := by
  have hlines : ∀ line ∈ stream.map Delivery.line, IsLine line := by
    intro line hline
    obtain ⟨d, hd, rfl⟩ := mem_map.mp hline
    obtain ⟨r, hform, hvcpu, -, hd⟩ := h.stands d hd
    rw [hd]
    exact isLine_line _ hform hvcpu (Nat.mod_lt _ (by norm_num))
  have htally := tally_foldl h.stands
  rw [← collect_lines hlines] at htally
  constructor
  · intro hexact d hd
    have hinvalid := htally.invalid
    rw [hexact.accepted] at hinvalid
    have hmissing := hexact.missing d.backend
    rw [htally.missing] at hmissing
    refine (h.gaps_iff d.backend).mp ⟨?_, hmissing⟩ d hd rfl
    rcases d.backend <;> omega
  · intro hall
    have hgaps (b : Backend) := (h.gaps_iff b).mpr fun d hd _ => hall d hd
    have haccepted : (collect (stream.map Delivery.line).flatten new).1.counters invalidKey = 0 := by
      rw [htally.invalid, (hgaps .vmx).1, (hgaps .svm).1, (hgaps .el2).1]
    refine ⟨haccepted, htally.counted haccepted, fun b => ?_⟩
    rw [htally.missing, (hgaps b).2]

end

/-- The lines of a boot are decoded with the values of its events exactly when there are fewer
than `2 ^ 64`, and the counters over a stream are exact when no number in it reaches `2 ^ 64`. -/
theorem collector_exact_iff (backend : Backend) (calls : List Call)
    (hcpu : ∀ vcpu, .cpu vcpu ∈ calls → vcpu < 256) (boots : Backend → List Boot)
    (stream : List Delivery) (hstream : Interleaves boots stream) :
    (Decoded backend calls ↔ (records 0 calls).length < 2 ^ 64) ∧
    (Exact boots stream (collect (stream.map Delivery.line).flatten new).1 ↔
      ∀ d ∈ stream, d.number < 2 ^ 64) :=
  ⟨decoded_iff_length backend hcpu, exact_iff_numbers hstream⟩

theorem length_records_status (vcpu n : ℕ) :
    (records vcpu (List.replicate n (.pmuStatus true))).length = n := by
  induction n with
  | zero => rfl
  | succ n ih =>
    rw [replicate_succ, records_event rfl, length_cons, ih]

/-- The event with number `2 ^ 64` is printed with the sequence number 0. -/
theorem wrapped_event_rejected : ∃ backend calls,
    (∀ vcpu, .cpu vcpu ∈ calls → vcpu < 256) ∧ ¬Decoded backend calls := by
  have hcpu : ∀ vcpu, .cpu vcpu ∈ List.replicate (2 ^ 64) (Call.pmuStatus true) → vcpu < 256 := by
    intro vcpu hmem
    cases eq_of_mem_replicate hmem
  refine ⟨.el2, List.replicate (2 ^ 64) (.pmuStatus true), hcpu, fun h => ?_⟩
  have hlt := (decoded_iff_length .el2 hcpu).mp h
  rw [length_records_status] at hlt
  exact lt_irrefl _ hlt

/-- A boot of three events, of which the second is lost. -/
def lossyBoot : Boot where
  calls := [.cpu 3, .pmuStatus true, .pmuCycles 7, .stopped 1 2 true]
  kept i := i != 2
  first := rfl
  vcpus := by simp

def lossyBoots (b : Backend) : List Boot := if b = .vmx then [lossyBoot] else []

theorem interleaves_lossyBoot : Interleaves lossyBoots (lossyBoot.received .vmx) := by
  intro b
  have hbackend := fun d hd => (lossyBoot.stands .vmx d hd).1
  by_cases hb : b = .vmx
  · subst hb
    have hall : (lossyBoot.received .vmx).filter (fun d => d.backend = .vmx) =
        lossyBoot.received .vmx := by
      rw [filter_eq_self]
      exact fun d hd => by simp [hbackend d hd]
    rw [hall, lossyBoots, if_pos rfl, flatMap_singleton]
  · have hnone : (lossyBoot.received .vmx).filter (fun d => d.backend = b) = [] := by
      rw [filter_eq_nil_iff]
      intro d hd
      rw [hbackend d hd]
      simpa using Ne.symm hb
    rw [hnone, lossyBoots, if_neg hb, flatMap_nil]

theorem collector_exact_iff_lossyBoot :
    Decoded .vmx lossyBoot.calls ∧
    Exact lossyBoots (lossyBoot.received .vmx)
      (collect ((lossyBoot.received .vmx).map Delivery.line).flatten new).1 := by
  obtain ⟨hdecoded, hexact⟩ := collector_exact_iff .vmx _ lossyBoot.vcpus _ _ interleaves_lossyBoot
  refine ⟨hdecoded.mpr (by decide), hexact.mpr fun d hd => ?_⟩
  have hnumber := mem_map_of_mem (f := Delivery.number) hd
  rw [lossyBoot.numbers_received] at hnumber
  have hrange := (mem_range'_1.mp (mem_filter.mp hnumber).1).2
  exact lt_trans hrange (by decide)

end AegisHV.Type1
