import AegisHV.Spec.Event

/-! What a line of the event log is decoded as. -/

namespace AegisHV.Export

open Sys List Json

/-! The object an event stands for. -/

def optString (v : Option (List Char)) : Json := v.elim .null .str

def optNat (v : Option ℕ) : Json := v.elim .null fun n => .num n

def optInt (v : Option ℤ) : Json := v.elim .null fun n => .num n

def stringArray (texts : List (List Char)) : Json := .arr (texts.map .str)

def identityValue (v : Option IdentityInfo) : Json :=
  v.elim .null fun identity => .obj [
    ("sources".toList, stringArray identity.sources),
    ("confidence".toList, .str identity.confidence.asStr),
    ("start_time_verified".toList, .bool identity.startTimeVerified),
    ("ambiguous".toList, .bool identity.ambiguous)]

def addrValue (v : Option AddrInfo) : Json :=
  v.elim .null fun a => .obj [
    ("rip".toList, optString a.rip),
    ("gva".toList, optString a.gva),
    ("gpa".toList, optString a.gpa),
    ("qual".toList, optString a.qual)]

def bitsValue (v : Option ViolationBits) : Json :=
  v.elim .null fun b => .obj [
    ("read".toList, .bool b.read),
    ("write".toList, .bool b.write),
    ("exec".toList, .bool b.exec)]

def wxValue (round : F64 → ℚ) (v : Option WxInfo) : Json :=
  v.elim .null fun w => .obj [
    ("writer_rip".toList, optString w.writerRip),
    ("executor_rip".toList, optString w.executorRip),
    ("delta_ms".toList, .num w.deltaMs),
    ("page_size".toList, optNat w.pageSize),
    ("confidence".toList, .num (round w.confidence))]

def trapValue (v : Option TrapInfo) : Json :=
  v.elim .null fun t => .obj [
    ("trap_id".toList, .str t.trapId),
    ("trap_kind".toList, .str t.trapKind),
    ("backend".toList, .str t.backend),
    ("page".toList, .str t.page),
    ("permissions_before".toList, bitsValue t.permissionsBefore),
    ("permissions_after".toList, bitsValue t.permissionsAfter),
    ("decision".toList, .str t.decision),
    ("invalidation_status".toList, .str t.invalidationStatus)]

def pmuValue (v : Option PmuInfo) : Json :=
  v.elim .null fun p => .obj [
    ("pid".toList, .num p.pid),
    ("tid".toList, .num p.tid),
    ("thread".toList, .str p.thread),
    ("cycles_delta".toList, optNat p.cyclesDelta),
    ("instr_delta".toList, optNat p.instrDelta),
    ("cache_ref_delta".toList, optNat p.cacheRefDelta),
    ("cache_miss_delta".toList, optNat p.cacheMissDelta),
    ("branch_delta".toList, optNat p.branchDelta),
    ("branch_miss_delta".toList, optNat p.branchMissDelta),
    ("sample_ms".toList, .num p.sampleMs),
    ("source".toList, .str p.source),
    ("grouped".toList, .bool p.grouped)]

def actionValue (v : Option ActionInfo) : Json :=
  v.elim .null fun a => .obj [
    ("rule".toList, optString a.rule),
    ("kind".toList, .str a.kind),
    ("ok".toList, .bool a.ok),
    ("status".toList, .str a.status),
    ("decision".toList, .str a.decision),
    ("result".toList, .str a.result),
    ("detail".toList, optString a.detail),
    ("latency_ms".toList, optNat a.latencyMs),
    ("target_vm_id".toList, optString a.targetVmId),
    ("attempt".toList, .num a.attempt),
    ("max_attempts".toList, .num a.maxAttempts),
    ("retry_count".toList, .num a.retryCount),
    ("timeout_ms".toList, .num a.timeoutMs),
    ("timed_out".toList, .bool a.timedOut),
    ("refused".toList, .bool a.refused),
    ("failure_class".toList, optString a.failureClass)]

def lossValue (v : Option LossInfo) : Json :=
  v.elim .null fun l => .obj [
    ("dropped_since_last_event".toList, .num l.droppedSinceLastEvent),
    ("dropped_total".toList, .num l.droppedTotal),
    ("reason".toList, .str l.reason),
    ("range_kind".toList, .str l.rangeKind.asStr),
    ("sequence_gap_start".toList, optNat l.sequenceGapStart),
    ("sequence_gap_end".toList, optNat l.sequenceGapEnd)]

/-- The members of the object that an event stands for; the parameter says what becomes of the
number that is not an integer. -/
def Event.record (round : F64 → ℚ) (e : Event) : List (List Char × Json) := [
    ("version".toList, .num e.version),
    ("schema_version".toList, .num e.schemaVersion),
    ("ts".toList, .str e.ts),
    ("monotonic_ms".toList, .num e.monotonicMs),
    ("sequence".toList, .num e.sequence),
    ("event_id".toList, .str e.eventId),
    ("host_id".toList, optString e.hostId),
    ("sensor_id".toList, optString e.sensorId),
    ("category".toList, .str e.category.asStr),
    ("severity".toList, .str e.severity.asStr),
    ("vm".toList, .str e.vm),
    ("vm_id".toList, optString e.vmId),
    ("vm_name".toList, optString e.vmName),
    ("tenant_id".toList, optString e.tenantId),
    ("raw_comm".toList, optString e.rawComm),
    ("host_pid".toList, optInt e.hostPid),
    ("host_tid".toList, optInt e.hostTid),
    ("host_start_time_ticks".toList, optNat e.hostStartTimeTicks),
    ("identity".toList, identityValue e.identity),
    ("host_cpu".toList, optInt e.hostCpu),
    ("vcpu_id".toList, optInt e.vcpuId),
    ("vcpu".toList, optInt e.vcpu),
    ("arch".toList, optString e.arch),
    ("cr3".toList, optString e.cr3),
    ("asid".toList, optString e.asid),
    ("vmid".toList, optString e.vmid),
    ("vpid".toList, optString e.vpid),
    ("privilege_level".toList, optString e.privilegeLevel),
    ("guest_os".toList, optString e.guestOs),
    ("guest_process".toList, optString e.guestProcess),
    ("guest_thread".toList, optString e.guestThread),
    ("guest_module".toList, optString e.guestModule),
    ("guest_symbol".toList, optString e.guestSymbol),
    ("reason".toList, optString e.reason),
    ("trap_type".toList, optString e.trapType),
    ("message".toList, optString e.message),
    ("tags".toList, stringArray e.tags),
    ("correlation_id".toList, optString e.correlationId),
    ("rule_id".toList, optString e.ruleId),
    ("decision".toList, optString e.decision),
    ("action_id".toList, optString e.actionId),
    ("action_status".toList, optString e.actionStatus),
    ("data_loss".toList, .bool e.dataLoss),
    ("loss".toList, lossValue e.loss),
    ("addr".toList, addrValue e.addr),
    ("violation".toList, bitsValue e.violation),
    ("page_permissions_before".toList, bitsValue e.pagePermissionsBefore),
    ("page_permissions_after".toList, bitsValue e.pagePermissionsAfter),
    ("wx".toList, wxValue round e.wx)] ++
  (if e.trap.isSome then [("trap".toList, trapValue e.trap)] else []) ++ [
    ("pmu".toList, pmuValue e.pmu),
    ("action".toList, actionValue e.action)]

/-! The escapers. -/

theorem padded_control : ∀ n < 160,
    padded 16 4 n = ['0', '0', (n / 16).digitChar, (n % 16).digitChar] := by
  decide +kernel

theorem isControl_lt {c : Char} (hc : isControl c = true) : c.toNat < 160 := by
  simp only [isControl, Bool.or_eq_true, Bool.and_eq_true, decide_eq_true_eq] at hc
  omega

variable {t : List Char}

theorem spellsBody_pushEscaped (c : Char) {s : List Char} (h : SpellsBody t s) :
    SpellsBody (pushEscaped c ++ t) (c :: s) := by
  unfold pushEscaped
  split_ifs with h1 h2 h3 h4 h5 h6
  · subst h1
    exact spellsBody_escape rfl (by decide) h
  · subst h2
    exact spellsBody_escape rfl (by decide) h
  · subst h3
    exact spellsBody_escape rfl (by decide) h
  · subst h4
    exact spellsBody_escape rfl (by decide) h
  · subst h5
    exact spellsBody_escape rfl (by decide) h
  · have hlt := isControl_lt h6
    have hcode : 16 * (16 * (16 * 0 + 0) + c.toNat / 16) + c.toNat % 16 = c.toNat := by omega
    have hzero : toDigit 16 '0' = some 0 := rfl
    have hbody := spellsBody_code hzero hzero
      (toDigit_digitChar le_rfl (show c.toNat / 16 < 16 by omega))
      (toDigit_digitChar le_rfl (Nat.mod_lt c.toNat (by norm_num))) (by omega) h
    rw [hcode, Char.ofNat_toNat] at hbody
    rw [padded_control c.toNat hlt]
    exact hbody
  · refine spellsBody_cons h1 h2 ?_ h
    by_contra hlow
    exact h6 (by simp [isControl]; omega)

theorem jsonEscape_eq (s : List Char) : jsonEscape s = s.flatMap pushEscaped :=
  flatMap_eq_foldl.symm

theorem mainJsonEscape_eq (s : List Char) : mainJsonEscape s = s.flatMap pushEscaped :=
  flatMap_eq_foldl.symm

theorem spellsBody_flatMap (s : List Char) : SpellsBody (s.flatMap pushEscaped) s := by
  induction s with
  | nil => exact spellsBody_nil
  | cons c s ih =>
    exact spellsBody_pushEscaped c ih

/-! Texts without control characters. -/

def Clean (t : List Char) : Prop := ∀ c ∈ t, isControl c = false

theorem Clean.append {u : List Char} (ht : Clean t) (hu : Clean u) : Clean (t ++ u) :=
  forall_mem_append.2 ⟨ht, hu⟩

theorem Clean.cons {c : Char} (hc : isControl c = false) (ht : Clean t) :
    Clean (c :: t) :=
  forall_mem_cons.2 ⟨hc, ht⟩

theorem clean_of_all (h : t.all (!isControl ·) = true) : Clean t := by
  intro c hc
  simpa using all_eq_true.1 h c hc

theorem clean_nil : Clean [] := clean_of_all rfl

theorem digitChar_clean {radix d : ℕ} (hradix : radix ≤ 16) (hd : d < radix) :
    isControl d.digitChar = false := by
  have hdigits : ∀ d < 16, isControl (Nat.digitChar d) = false := by decide
  exact hdigits d (hd.trans_le hradix)

theorem clean_padded {radix : ℕ} (h1 : 1 < radix) (hradix : radix ≤ 16) (width n : ℕ) :
    Clean (padded radix width n) := by
  intro c hc
  obtain ⟨d, hd, rfl⟩ := exists_digitChar_of_mem_padded h1 hc
  exact digitChar_clean hradix hd

theorem clean_toDigits (n : ℕ) : Clean (Nat.toDigits 10 n) := by
  rw [← padded_zero]
  exact clean_padded (by norm_num) (by norm_num) 0 n

theorem clean_pushEscaped (c : Char) : Clean (pushEscaped c) := by
  unfold pushEscaped
  split_ifs with h1 h2 h3 h4 h5 h6
  · exact clean_of_all rfl
  · exact clean_of_all rfl
  · exact clean_of_all rfl
  · exact clean_of_all rfl
  · exact clean_of_all rfl
  · exact (clean_padded (by norm_num) le_rfl 4 _).cons rfl |>.cons rfl
  · exact clean_nil.cons (by simpa using h6)

theorem clean_escaped (s : List Char) : Clean (s.flatMap pushEscaped) := by
  intro c hc
  obtain ⟨d, -, hd⟩ := mem_flatMap.1 hc
  exact clean_pushEscaped d c hd

theorem clean_join {ts : List (List Char)} (h : ∀ t ∈ ts, Clean t) : Clean (join ts) := by
  intro c hc
  rcases mem_intercalate hc with rfl | ⟨t, ht, hc⟩
  · rfl
  · exact h t ht c hc

/-! The parts of a line. -/

/-- The text is a value, without control characters and with one member of a name at most. -/
structure Line (t : List Char) (v : Json) : Prop where
  spells : Spells t v
  clean : Clean t
  distinct : v.Distinct

structure LineField (t : List Char) (m : List Char × Json) : Prop where
  spells : SpellsMember t m
  clean : Clean t
  distinct : m.2.Distinct

theorem line_null : Line jsonNull .null := ⟨spells_null, clean_of_all rfl, .null⟩

theorem line_bool (b : Bool) : Line (showBool b) (.bool b) := by
  refine ⟨spells_bool b, ?_, .bool b⟩
  cases b with
  | false => exact clean_of_all rfl
  | true => exact clean_of_all rfl

theorem line_str (s : List Char) : Line (jsonStr s) (.str s) := by
  rw [jsonStr, jsonEscape_eq]
  refine ⟨spells_str (spellsBody_flatMap s), ?_, .str s⟩
  exact ((clean_escaped s).append (clean_of_all rfl)).cons rfl

theorem spells_signed (neg : Bool) (n : ℕ) :
    Spells (decimal neg n []) (.num (signed neg n)) := by
  have hvalue : decimalValue neg n [] = signed neg n := by
    rw [decimalValue, append_nil, natOf, digitsValue_toDigits (by norm_num) (by norm_num)]
    simp
  rw [← hvalue]
  exact spells_decimal neg n (by simp)

theorem line_nat (n : ℕ) : Line (showNat n) (.num n) := by
  have htext : showNat n = decimal false n [] := by simp [showNat, decimal]
  refine ⟨?_, clean_toDigits n, .num n⟩
  rw [htext]
  exact spells_signed false n

theorem line_int (n : ℤ) : Line (showInt n) (.num n) := by
  have htext : showInt n = decimal (decide (n < 0)) n.natAbs [] := by
    unfold showInt
    split_ifs with h <;> simp [decimal, h]
  have hvalue : signed (decide (n < 0)) n.natAbs = n := by
    by_cases h : n < 0
    · have habs : ((n.natAbs : ℤ) : ℚ) = ((-n : ℤ) : ℚ) := by
        congr 1
        omega
      simp only [signed, h, decide_true, if_true]
      rw [← Int.cast_natCast, habs]
      simp
    · have habs : ((n.natAbs : ℤ) : ℚ) = (n : ℚ) := by
        congr 1
        omega
      simp only [signed, h, decide_false, Bool.false_eq_true, if_false]
      rw [← Int.cast_natCast, habs]
  refine ⟨?_, ?_, .num n⟩
  · rw [htext, ← hvalue]
    exact spells_signed _ _
  · unfold showInt
    split_ifs
    · exact (clean_toDigits _).cons rfl
    · exact clean_toDigits _

theorem line_opt {α : Type} {text : α → List Char} {value : α → Json}
    (h : ∀ a, Line (text a) (value a)) (v : Option α) : Line (jsonOpt text v) (v.elim .null value) := by
  cases v with
  | none => exact line_null
  | some a => exact h a

theorem line_optString (v : Option (List Char)) : Line (jsonOptString v) (optString v) :=
  line_opt line_str v

theorem line_optNat (v : Option ℕ) : Line (jsonOptU64 v) (optNat v) := line_opt line_nat v

theorem line_optInt (v : Option ℤ) : Line (jsonOptI32 v) (optInt v) := line_opt line_int v

theorem line_f64 {x : F64} (hx : x.isFinite = true) :
    Line (jsonOptF64 (some x)) (.num (x.rounded 6)) := by
  refine ⟨F64.spells_fixed (by norm_num) hx, ?_, .num _⟩
  cases x with
  | infinite neg => cases hx
  | nan => cases hx
  | finite neg m e hm he =>
    refine Clean.append (Clean.append ?_ (clean_toDigits _)) ?_
    · cases neg with
      | false => exact clean_nil
      | true => exact clean_of_all rfl
    · exact (clean_padded (by norm_num) (by norm_num) 6 _).cons rfl

theorem line_strings (texts : List (List Char)) : Line (strings texts) (stringArray texts) := by
  have hlines : List.Forall₂ Spells (texts.map jsonStr) (texts.map str) := by
    rw [List.forall₂_map_left_iff, List.forall₂_map_right_iff]
    exact List.forall₂_same.2 fun s _ => (line_str s).spells
  refine ⟨spells_arr hlines, ?_, ?_⟩
  · refine ((clean_join ?_).append (clean_of_all rfl)).cons rfl
    intro t ht
    obtain ⟨s, -, rfl⟩ := mem_map.1 ht
    exact (line_str s).clean
  · refine .arr ?_
    intro v hv
    obtain ⟨s, -, rfl⟩ := mem_map.1 hv
    exact .str s

/-- The names in the source need no escapes. -/
theorem line_field {name : String} {v : Json} (hname : name.toList.all
      (fun c => c != '"' && c != '\\' && decide (32 ≤ c.toNat) && !isControl c) = true)
    (ht : Line t v) : LineField (field name t) (name.toList, v) := by
  have hbody : name.toList.all
      (fun c => c != '"' && c != '\\' && decide (32 ≤ c.toNat)) = true := by
    rw [all_eq_true] at hname ⊢
    intro c hc
    exact (Bool.and_eq_true_iff.1 (hname c hc)).1
  have hclean : Clean name.toList := by
    intro c hc
    simpa using (Bool.and_eq_true_iff.1 (all_eq_true.1 hname c hc)).2
  refine ⟨spells_member (spellsBody_self hbody) ht.spells, ?_, ht.distinct⟩
  exact (hclean.append ((ht.clean.cons rfl).cons rfl)).cons rfl

theorem line_object {ts : List (List Char)} {ms : List (List Char × Json)}
    (h : List.Forall₂ LineField ts ms) (hnames : (ms.map Prod.fst).Nodup) :
    Line (object ts) (.obj ms) := by
  refine ⟨spells_obj (h.imp fun _ _ hm => hm.spells), ?_, ?_⟩
  · refine ((clean_join ?_).append (clean_of_all rfl)).cons rfl
    intro t ht
    obtain ⟨i, hi, rfl⟩ := getElem_of_mem ht
    exact ((List.forall₂_iff_get.1 h).2 i hi (by rw [← h.length_eq]; exact hi)).clean
  · refine .obj ?_ hnames
    intro m hm
    obtain ⟨i, hi, rfl⟩ := getElem_of_mem hm
    exact ((List.forall₂_iff_get.1 h).2 i (by rw [h.length_eq]; exact hi) hi).distinct

/-! The objects. -/

theorem line_bits (v : Option ViolationBits) : Line (bitsJson v) (bitsValue v) := by
  cases v with
  | none => exact line_null
  | some b =>
    refine line_object ?_ (of_decide_eq_true rfl)
    repeat' refine List.Forall₂.cons (line_field rfl (line_bool _)) ?_
    exact .nil

theorem line_addr (v : Option AddrInfo) : Line (addrJson v) (addrValue v) := by
  cases v with
  | none => exact line_null
  | some a =>
    refine line_object ?_ (of_decide_eq_true rfl)
    repeat' refine List.Forall₂.cons (line_field rfl (line_optString _)) ?_
    exact .nil

theorem line_identity (v : Option IdentityInfo) : Line (identityJson v) (identityValue v) := by
  cases v with
  | none => exact line_null
  | some identity =>
    refine line_object ?_ (of_decide_eq_true rfl)
    refine .cons (line_field rfl (line_strings _)) ?_
    refine .cons (line_field rfl (line_str _)) ?_
    repeat' refine List.Forall₂.cons (line_field rfl (line_bool _)) ?_
    exact .nil

theorem line_wx {v : Option WxInfo} (hv : ∀ w, v = some w → w.confidence.isFinite = true) :
    Line (wxJson v) (wxValue (F64.rounded 6) v) := by
  cases v with
  | none => exact line_null
  | some w =>
    refine line_object ?_ (of_decide_eq_true rfl)
    refine .cons (line_field rfl (line_optString _)) ?_
    refine .cons (line_field rfl (line_optString _)) ?_
    refine .cons (line_field rfl (line_nat _)) ?_
    refine .cons (line_field rfl (line_optNat _)) ?_
    exact .cons (line_field rfl (line_f64 (hv w rfl))) .nil

theorem line_trap (v : Option TrapInfo) : Line (trapJson v) (trapValue v) := by
  cases v with
  | none => exact line_null
  | some t =>
    refine line_object ?_ (of_decide_eq_true rfl)
    repeat' refine List.Forall₂.cons (line_field rfl ?_) ?_
    all_goals
      first
        | exact .nil
        | exact line_str _
        | exact line_bits _

theorem line_pmu (v : Option PmuInfo) : Line (pmuJson v) (pmuValue v) := by
  cases v with
  | none => exact line_null
  | some p =>
    refine line_object ?_ (of_decide_eq_true rfl)
    repeat' refine List.Forall₂.cons (line_field rfl ?_) ?_
    all_goals
      first
        | exact .nil
        | exact line_str _
        | exact line_int _
        | exact line_nat _
        | exact line_optNat _
        | exact line_bool _

theorem line_action (v : Option ActionInfo) : Line (actionJson v) (actionValue v) := by
  cases v with
  | none => exact line_null
  | some a =>
    refine line_object ?_ (of_decide_eq_true rfl)
    repeat' refine List.Forall₂.cons (line_field rfl ?_) ?_
    all_goals
      first
        | exact .nil
        | exact line_str _
        | exact line_optString _
        | exact line_nat _
        | exact line_optNat _
        | exact line_bool _

theorem line_loss (v : Option LossInfo) : Line (lossJson v) (lossValue v) := by
  cases v with
  | none => exact line_null
  | some l =>
    refine line_object ?_ (of_decide_eq_true rfl)
    repeat' refine List.Forall₂.cons (line_field rfl ?_) ?_
    all_goals
      first
        | exact .nil
        | exact line_str _
        | exact line_nat _
        | exact line_optNat _

namespace Event

/-- The confidence of a write-execute finding is a number. -/
def FiniteConfidence (e : Event) : Prop := ∀ w, e.wx = some w → w.confidence.isFinite = true

theorem names_nodup (round : F64 → ℚ) (e : Event) : ((e.record round).map Prod.fst).Nodup := by
  have htrap : (if e.trap.isSome then [("trap".toList, trapValue e.trap)] else []).Sublist
      [("trap".toList, trapValue e.trap)] := by
    split_ifs
    · exact .refl _
    · exact nil_sublist _
  refine ((((Sublist.refl _).append htrap).append (.refl _)).map Prod.fst).nodup ?_
  simp only [map_append, map_cons, map_nil]
  decide +kernel

theorem line_toJson {e : Event} (he : e.FiniteConfidence) :
    Line e.toJson (.obj (e.record (F64.rounded 6))) := by
  refine line_object (rel_append (rel_append ?_ ?_) ?_) (names_nodup _ e)
  · repeat' refine List.Forall₂.cons (line_field rfl ?_) ?_
    all_goals
      first
        | exact .nil
        | exact line_optString _
        | exact line_str _
        | exact line_nat _
        | exact line_optNat _
        | exact line_optInt _
        | exact line_bool _
        | exact line_strings _
        | exact line_identity _
        | exact line_loss _
        | exact line_addr _
        | exact line_bits _
        | exact line_wx he
  · cases e.trap with
    | none => exact .nil
    | some t => exact .cons (line_field rfl (line_trap _)) .nil
  · exact .cons (line_field rfl (line_pmu _)) (.cons (line_field rfl (line_action _)) .nil)

/-- An event is one line, a JSON object that is decoded as its record, with the confidence
rounded to six places; both escapers are undone by decoding. -/
theorem toJson_decodes {e : Event} (he : e.FiniteConfidence) :
    (∀ c ∈ e.toJson, isControl c = false) ∧
      decode e.toJson = some (.obj (e.record (F64.rounded 6))) ∧
      (obj (e.record (F64.rounded 6))).Distinct ∧
      (∀ w, e.wx = some w →
        |w.confidence.rounded 6 - w.confidence.toRat| ≤ 1 / (2 * 10 ^ 6)) ∧
      ∀ s, decode ('"' :: (jsonEscape s ++ ['"'])) = some (.str s) ∧
        decode ('"' :: (mainJsonEscape s ++ ['"'])) = some (.str s) := by
  have hline := line_toJson he
  refine ⟨hline.clean, decode_of_spells hline.spells, hline.distinct, ?_, ?_⟩
  · intro w hw
    exact F64.rounded_near 6 (he w hw)
  · intro s
    have hstr := decode_of_spells (spells_str (spellsBody_flatMap s))
    rw [jsonEscape_eq, mainJsonEscape_eq]
    exact ⟨hstr, hstr⟩

/-- The double next to five sixths. -/
def fiveSixths : F64 := .finite false 7505999378950827 (-53) (by norm_num) (by norm_num)

/-- A write-execute finding with a loss report attached. -/
def sample : Event := withLossReport {
    version := 1, schemaVersion := 2, ts := "2026-01-01".toList, monotonicMs := 7, sequence := 3
    eventId := "evt-1".toList, hostId := none, sensorId := none, category := .wx
    severity := .critical, vm := "a\"b".toList, vmId := none, vmName := none, tenantId := none
    rawComm := none, hostPid := some (-1), hostTid := none, hostStartTimeTicks := none
    identity := none, hostCpu := none, vcpuId := none, vcpu := none, arch := none, cr3 := none
    asid := none, vmid := none, vpid := none, privilegeLevel := none, guestOs := none
    guestProcess := none, guestThread := none, guestModule := none, guestSymbol := none
    reason := none, trapType := none, message := none, tags := ["wx".toList]
    correlationId := none, ruleId := none, decision := none, actionId := none
    actionStatus := none, dataLoss := false, loss := none, addr := none, violation := none
    pagePermissionsBefore := none, pagePermissionsAfter := none
    wx := some ⟨none, none, 1, some 4096, fiveSixths⟩, trap := none, pmu := none, action := none }
  2 5 "ring".toList (some (4, 6))

theorem sample_finite : sample.FiniteConfidence := by
  intro w hw
  obtain rfl := Option.some.inj hw
  rfl

theorem toJson_decodes_sample : sample.FiniteConfidence ∧
    decode sample.toJson = some (.obj (sample.record (F64.rounded 6))) :=
  ⟨sample_finite, (toJson_decodes sample_finite).2.1⟩

theorem fiveSixths_rounded : fiveSixths.rounded 6 ≠ fiveSixths.toRat := by
  decide +kernel

/-- The sample without a number as its confidence. -/
def nanSample : Event := { sample with wx := some ⟨none, none, 1, some 4096, .nan⟩ }

/-- The confidence does not come back with its value, and a confidence that is no number makes
the line no JSON text. -/
theorem confidence_not_decoded :
    decode sample.toJson ≠ some (.obj (sample.record F64.toRat)) ∧
      (decode nanSample.toJson).isNone = true := by
  refine ⟨?_, by decide +kernel⟩
  rw [decode_of_spells (line_toJson sample_finite).spells]
  intro h
  have hrecord := obj.inj (Option.some.inj h)
  have hwx : wxValue (F64.rounded 6) sample.wx = wxValue F64.toRat sample.wx :=
    congrArg (fun ms => (ms.getD 48 ([], .null)).2) hrecord
  have hconfidence := congrArg (fun ms => (ms.getD 4 ([], .null)).2) (obj.inj hwx)
  exact fiveSixths_rounded (num.inj hconfidence)

end Event

end AegisHV.Export
