import AegisHV.Lib.Gaps
import AegisHV.Spec.Type1Events

/-! What the kernel prints is what the collector decodes, and the collector's counters of lost and
received events are exact as long as no sequence number wraps. -/

namespace AegisHV.Type1

open Sys List Collector

/-! The lines of the writer. -/

/-- The kind of an event and the fields of that kind. -/
def Call.payload : Call → Option (String × Fields)
  | .cpu _ => none
  | .denied rip address access => some ("page_access", [("rip", .number rip.toNat),
      ("gpa", .number address.toNat), ("access", .text access.name), ("action", .text "deny")])
  | .page rip address access action => some ("page_access", [("rip", .number rip.toNat),
      ("gpa", .number address.toNat), ("access", .text access.name), ("action", .text action.name)])
  | .syscall rip register target allowed => some ("syscall_entry", [("rip", .number rip.toNat),
      ("register", .number register.toNat), ("target", .number target.toNat),
      ("action", .text (if allowed then "allow" else "deny"))])
  | .pmuCycles cycles => some ("pmu_sample", [("counter", .text "cycles"),
      ("value", .number cycles.toNat)])
  | .pmuStatus available => some ("pmu_status", [("available", .flag available)])
  | .vectors rip target address valid changed => some ("vector_sample",
      [("rip", .number rip.toNat), ("target", .number target.toNat), ("gpa", .number address.toNat),
        ("valid", .flag valid), ("changed", .flag changed)])
  | .stopped rip result budget => some (if budget then "vcpu_budget" else "guest_halt",
      [("rip", .number rip.toNat), ("result", .number result.toNat)])
  | .exception rip vector address => some ("guest_exception", [("rip", .number rip.toNat),
      ("vector", .number vector.toNat), ("address", .number address.toNat)])

/-- An event, up to its backend and its number. -/
structure Record where
  vcpu : ℕ
  kind : String
  fields : Fields

/-- The events of a list of calls. -/
def records (vcpu : ℕ) : List Call → List Record
  | [] => []
  | .cpu vcpu :: calls => records vcpu calls
  | call :: calls => (call.payload.map fun p => ⟨vcpu, p.1, p.2⟩).toList ++ records vcpu calls

def Record.common (r : Record) (backend : Backend) (number : ℕ) : Fields := [
  ("source", .text "aegishv-type1"), ("backend", .text backend.name), ("sequence", .number number),
  ("vcpu", .number r.vcpu), ("kind", .text r.kind)]

/-- All field values of an event. -/
def Record.allFields (r : Record) (backend : Backend) (number : ℕ) : Fields :=
  r.common backend number ++ r.fields

def Record.line (r : Record) (backend : Backend) (number : ℕ) : List Char :=
  '\x7b' :: (printFields (r.allFields backend number) ++ ['\x7d', '\n'])

variable {ts : List (List Char)}

theorem join_append {us : List (List Char)} (ht : ts ≠ []) (hu : us ≠ []) :
    Json.join (ts ++ us) = Json.join ts ++ ',' :: Json.join us := by
  induction ts with
  | nil => exact absurd rfl ht
  | cons t ts ih =>
    rcases ts with _ | ⟨t', ts⟩
    · obtain ⟨u, us, rfl⟩ := exists_cons_of_ne_nil hu
      rw [singleton_append, Json.join_cons_cons, Json.join_singleton]
    · rw [cons_append, cons_append, Json.join_cons_cons, Json.join_cons_cons,
        ← cons_append, ih (by simp), append_assoc, cons_append]

theorem printFields_append {fs gs : Fields} (hf : fs ≠ []) (hg : gs ≠ []) :
    printFields (fs ++ gs) = printFields fs ++ ',' :: printFields gs := by
  rw [printFields, map_append, join_append (by simpa using hf) (by simpa using hg)]
  rfl

variable {call : Call}

theorem Call.eq_cpu (h : call.payload = none) : ∃ vcpu, call = .cpu vcpu := by
  cases call <;> simp [payload] at h ⊢

variable {kind : String} {fields : Fields}

theorem Call.payload_ne_nil (h : call.payload = some (kind, fields)) : fields ≠ [] := by
  cases call <;> simp only [payload, Option.some.injEq, Prod.mk.injEq, reduceCtorEq] at h <;>
    · obtain ⟨-, rfl⟩ := h
      simp

theorem Events.call_payload (h : call.payload = some (kind, fields)) (self : Events) :
    self.call call = self.event kind fields := by
  cases call <;> simp only [Call.payload, Option.some.injEq, Prod.mk.injEq, reduceCtorEq] at h <;>
    · obtain ⟨rfl, rfl⟩ := h
      rfl

theorem Events.event_eq (self : Events) (kind : String) (h : fields ≠ []) :
    self.event kind fields = { self with
      sequence := (self.sequence + 1) % 2 ^ 64
      written := self.written ++
        [Record.line ⟨self.vcpu, kind, fields⟩ self.backend ((self.sequence + 1) % 2 ^ 64)] } := by
  have happend (number : ℕ) := printFields_append
    (by simp [Record.common] : Record.common ⟨self.vcpu, kind, fields⟩ self.backend number ≠ []) h
  simp only [event, Record.line, Record.allFields, happend, append_assoc, cons_append]
  rfl

theorem records_cpu (vcpu vcpu' : ℕ) (calls : List Call) :
    records vcpu (.cpu vcpu' :: calls) = records vcpu' calls := rfl

theorem records_event (h : call.payload = some (kind, fields)) (vcpu : ℕ) (calls : List Call) :
    records vcpu (call :: calls) = ⟨vcpu, kind, fields⟩ :: records vcpu calls := by
  cases call <;> simp_all [records, Call.payload]

/-- The lines stand for the events in order, numbered from the start of the counter on. -/
theorem written_run (backend : Backend) (calls : List Call) :
    ∀ number vcpu written,
      (calls.foldl Events.call ⟨backend, number % 2 ^ 64, vcpu, written⟩).written =
        written ++ ((records vcpu calls).zipIdx (number + 1)).map
          fun p => p.1.line backend (p.2 % 2 ^ 64) := by
  induction calls with
  | nil => simp [records]
  | cons call calls ih =>
    intro number vcpu written
    rw [foldl_cons]
    rcases hpayload : call.payload with _ | ⟨kind, fields⟩
    · obtain ⟨vcpu', rfl⟩ := Call.eq_cpu hpayload
      exact ih number vcpu' written
    · rw [Events.call_payload hpayload, Events.event_eq _ _ (Call.payload_ne_nil hpayload),
        records_event hpayload, zipIdx_cons]
      have hnext := ih (number + 1) vcpu
        (written ++ [Record.line ⟨vcpu, kind, fields⟩ backend ((number + 1) % 2 ^ 64)])
      rw [append_assoc] at hnext
      simp only [Nat.mod_add_mod]
      exact hnext

/-! What the collector makes of a line. -/

def Scalar.toPy : Scalar → PyJson
  | .text s => .str s.toList
  | .number n => .int n
  | .flag b => .bool b

/-- The event as the collector holds it. -/
def dictOf (fields : Fields) : Dict :=
  fields.map fun field => (field.1.toList, field.2.toPy)

/-- A text that is printed as it is, and is not long. -/
def isPlain (s : String) : Bool :=
  (s.toList.all fun c => c != '"' && c != '\\' && decide (32 ≤ c.toNat)) && decide (s.toList.length ≤ 20)

/-- The collector takes the value for a field of this name. -/
def Fits (name : String) : Scalar → Prop
  | .text s => isPlain s = true ∧ name ∉ NUMBERS ∧ name ∉ FLAGS
  | .number n => n < 2 ^ 64 ∧ name ∉ FLAGS
  | .flag _ => name ∉ NUMBERS

/-- What `validate` asks of the fields of a kind. -/
structure WellFormed (kind : String) (fields : Fields) : Prop where
  layout : (kind, fields.map Prod.fst) ∈ FIELDS
  fits : fields.Forall fun field => Fits field.1 field.2
  page : kind = "page_access" → (∃ access : Access, fields.lookup "access" = some (.text access.name)) ∧
    ∃ action : Action, fields.lookup "action" = some (.text action.name)
  syscall : kind = "syscall_entry" →
    ∃ allowed : Bool, fields.lookup "action" = some (.text (if allowed then "allow" else "deny"))
  sample : kind = "pmu_sample" → fields.lookup "counter" = some (.text "cycles")

theorem get_dictOf (fields : Fields) (key : String) :
    get (dictOf fields) key = (fields.lookup key).map Scalar.toPy := by
  induction fields with
  | nil => rfl
  | cons field fields ih =>
    rw [Collector.get, dictOf, map_cons, lookup_cons, lookup_cons]
    by_cases h : key = field.1
    · simp [h]
    · have hne : key.toList ≠ field.1.toList := fun heq => h (String.toList_inj.mp heq)
      rw [beq_eq_false_iff_ne.mpr h, beq_eq_false_iff_ne.mpr hne]
      exact ih

variable {key : String} {value : Scalar}

theorem mem_of_lookup (h : fields.lookup key = some value) : (key, value) ∈ fields := by
  obtain ⟨before, after, rfl, -⟩ := lookup_eq_some_iff.mp h
  simp

variable {s : String}

theorem isOneOf_text {texts : List String} (h : s ∈ texts) :
    isOneOf (some (Scalar.toPy (.text s))) texts = true :=
  any_eq_true.mpr ⟨s, h, beq_self_eq_true _⟩

theorem lookup_isSome (h : key ∈ fields.map Prod.fst) :
    (fields.lookup key).isSome = true := by
  obtain ⟨field, hfield, rfl⟩ := mem_map.mp h
  exact lookup_isSome_iff.mpr ⟨field, hfield, beq_self_eq_true _⟩

theorem lookup_none (h : key ∉ fields.map Prod.fst) :
    fields.lookup key = none := by
  refine lookup_eq_none_iff.mpr fun field hfield => bne_iff_ne.mpr ?_
  rintro rfl
  exact h (mem_map_of_mem hfield)

theorem sameKeys_dictOf (fields : Fields) :
    sameKeys (dictOf fields) (fields.map Prod.fst) = true := by
  rw [sameKeys, Bool.and_eq_true, all_eq_true, all_eq_true]
  refine ⟨fun name hname => ?_, fun pair hpair => ?_⟩
  · rw [get_dictOf, Option.isSome_map]
    exact lookup_isSome hname
  · obtain ⟨field, hfield, rfl⟩ := mem_map.mp hpair
    exact any_eq_true.mpr ⟨field.1, mem_map_of_mem hfield, beq_self_eq_true _⟩

/-- A check of all fields of some names passes if it passes for each field. -/
theorem any_keys_false {keys : List String} {check : Option PyJson → Bool}
    (h : ∀ field ∈ fields, field.1 ∈ keys → check (some field.2.toPy) = true) :
    (keys.any fun key => (get (dictOf fields) key).isSome &&
      !check (get (dictOf fields) key)) = false := by
  rw [any_eq_false]
  intro key hkey
  rw [get_dictOf]
  rcases hlookup : fields.lookup key with _ | value
  · simp
  · simp [h _ (mem_of_lookup hlookup) hkey]

section

variable {r : Record} (backend : Backend) (number : ℕ)

theorem fits_allFields (h : WellFormed r.kind r.fields) (hvcpu : r.vcpu < 256)
    (hlt : number < 2 ^ 64) : ∀ field ∈ r.allFields backend number, Fits field.1 field.2 := by
  have hkinds : ∀ layout ∈ FIELDS, isPlain layout.1 = true := by decide +kernel
  intro field hfield
  rcases mem_append.mp hfield with hcommon | hrest
  · simp only [Record.common, mem_cons, not_mem_nil, or_false] at hcommon
    rcases hcommon with rfl | rfl | rfl | rfl | rfl
    · exact ⟨by decide +kernel, by decide, by decide⟩
    · exact ⟨by cases backend <;> decide +kernel, (by decide : "backend" ∉ NUMBERS),
        (by decide : "backend" ∉ FLAGS)⟩
    · exact ⟨hlt, (by decide : "sequence" ∉ FLAGS)⟩
    · exact ⟨lt_trans hvcpu (by norm_num), (by decide : "vcpu" ∉ FLAGS)⟩
    · exact ⟨hkinds _ h.layout, (by decide : "kind" ∉ NUMBERS),
        (by decide : "kind" ∉ FLAGS)⟩
  · exact List.forall_iff_forall_mem.mp h.fits field hrest

theorem names_allFields : (r.allFields backend number).map Prod.fst =
    COMMON ++ r.fields.map Prod.fst := by
  rfl

theorem nodup_names (h : WellFormed r.kind r.fields) :
    ((r.allFields backend number).map Prod.fst).Nodup := by
  have hall : ∀ layout ∈ FIELDS, (COMMON ++ layout.2).Nodup := by decide
  exact hall _ h.layout

theorem find_layout (h : WellFormed r.kind r.fields) :
    (FIELDS.find? fun layout => layout.1.toList == r.kind.toList) =
      some (r.kind, r.fields.map Prod.fst) := by
  have hall : ∀ layout ∈ FIELDS,
      (FIELDS.find? fun other => other.1.toList == layout.1.toList) = some layout := by
    decide +kernel
  exact hall _ h.layout

/-- A field that is not common to all kinds. -/
theorem lookup_allFields {key : String} (hkey : key ∉ COMMON) :
    (r.allFields backend number).lookup key = r.fields.lookup key := by
  have hcommon : (r.common backend number).lookup key = none := lookup_none hkey
  rw [Record.allFields, lookup_append, hcommon, Option.none_or]

/-- The origin of an event is checked by its number alone. -/
theorem validate_eq (h : WellFormed r.kind r.fields) (hvcpu : r.vcpu < 256)
    (hlt : number < 2 ^ 64) : validate (dictOf (r.allFields backend number)) =
      if number = 0 then .error "invalid event origin" else .ok () := by
  have hfits := fits_allFields backend number h hvcpu hlt
  set event := dictOf (r.allFields backend number) with hevent
  have hget (key : String) (hkey : key ∉ COMMON) :
      get event key = (r.fields.lookup key).map Scalar.toPy := by
    rw [get_dictOf, lookup_allFields _ _ hkey]
  have hkind : get event "kind" = some (.str r.kind.toList) := get_dictOf _ _
  have hsame : sameKeys event (COMMON ++ r.fields.map Prod.fst) = true := by
    exact sameKeys_dictOf _
  have hbackend : isOneOf (get event "backend") BACKENDS = true := by
    rw [get_dictOf]
    exact isOneOf_text (by cases backend <;> decide)
  have hvcpu' : isVcpu (get event "vcpu") = true := by
    rw [get_dictOf]
    change (decide (0 ≤ (r.vcpu : ℤ)) && decide ((r.vcpu : ℤ) < 256)) = true
    rw [Bool.and_eq_true, decide_eq_true_eq, decide_eq_true_eq]
    omega
  have hzero : isZero (get event "sequence") = decide (number = 0) := by
    rw [get_dictOf]
    change ((number : ℤ) == 0) = _
    rw [Bool.eq_iff_iff]
    simp
  have hnumbers : (NUMBERS.any fun key => (get event key).isSome &&
      !isU64 (get event key)) = false := by
    refine any_keys_false fun field hfield hkey => ?_
    have hfield := hfits field hfield
    rcases field with ⟨name, s | n | b⟩
    · exact absurd hkey hfield.2.1
    · simp only [Scalar.toPy, isU64, Bool.and_eq_true, decide_eq_true_eq]
      exact ⟨Int.natCast_nonneg n, mod_cast hfield.1⟩
    · exact absurd hkey hfield
  have hflags : (FLAGS.any fun key => (get event key).isSome &&
      !isBool (get event key)) = false := by
    refine any_keys_false fun field hfield hkey => ?_
    have hfield := hfits field hfield
    rcases field with ⟨name, s | n | b⟩
    · exact absurd hkey hfield.2.2
    · exact absurd hkey hfield.2
    · rfl
  have hpage : (r.kind == "page_access" &&
      (!isOneOf (get event "access") ["read", "write", "execute"] ||
        !isOneOf (get event "action") ["allow", "deny", "emulate"])) = false := by
    by_cases hk : r.kind = "page_access"
    · obtain ⟨⟨access, haccess⟩, action, haction⟩ := h.page hk
      rw [hget _ (by decide), hget _ (by decide), haccess, haction, Option.map_some, Option.map_some,
        isOneOf_text (by cases access <;> decide), isOneOf_text (by cases action <;> decide)]
      simp
    · rw [beq_eq_false_iff_ne.mpr hk, Bool.false_and]
  have hsyscall : (r.kind == "syscall_entry" &&
      !isOneOf (get event "action") ["allow", "deny"]) = false := by
    by_cases hk : r.kind = "syscall_entry"
    · obtain ⟨allowed, haction⟩ := h.syscall hk
      rw [hget _ (by decide), haction, Option.map_some, isOneOf_text (by cases allowed <;> decide)]
      simp
    · rw [beq_eq_false_iff_ne.mpr hk, Bool.false_and]
  have hsample : (r.kind == "pmu_sample" &&
      !isOneOf (get event "counter") ["cycles"]) = false := by
    by_cases hk : r.kind = "pmu_sample"
    · rw [hget _ (by decide), h.sample hk, Option.map_some, isOneOf_text (by decide)]
      simp
    · rw [beq_eq_false_iff_ne.mpr hk, Bool.false_and]
  simp only [validate, hkind, find_layout h, hsame, hbackend, hvcpu', hzero, hnumbers,
    hflags, hpage, hsyscall, hsample]
  by_cases hnumber : number = 0 <;> simp [hnumber, failIf] <;> rfl

end

variable {name : String}

theorem fits_u64 (h : name ∉ FLAGS) (n : UInt64) :
    Fits name (.number n.toNat) := ⟨n.toNat_lt, h⟩

theorem Call.payload_wellFormed
    (h : call.payload = some (kind, fields)) : WellFormed kind fields := by
  have haction : "action" ∉ NUMBERS ∧ "action" ∉ FLAGS := by decide
  have haccess : "access" ∉ NUMBERS ∧ "access" ∉ FLAGS := by decide
  have hplain (access : Access) : isPlain access.name = true := by cases access <;> decide +kernel
  have hplain' (action : Action) : isPlain action.name = true := by cases action <;> decide +kernel
  have hpage (rip address : UInt64) (access : Access) (action : Action) : WellFormed "page_access"
      [("rip", .number rip.toNat), ("gpa", .number address.toNat), ("access", .text access.name),
        ("action", .text action.name)] := by
    refine ⟨by simp [FIELDS], ?_, fun _ => ⟨⟨access, rfl⟩, action, rfl⟩,
      fun hk => absurd hk (by decide), fun hk => absurd hk (by decide)⟩
    dsimp only [List.Forall]
    exact ⟨fits_u64 (by decide) rip, fits_u64 (by decide) address, ⟨hplain access, haccess⟩,
      hplain' action, haction⟩
  cases call with
  | cpu vcpu => cases h
  | denied rip address access =>
    cases h
    exact hpage rip address access .deny
  | page rip address access action =>
    cases h
    exact hpage rip address access action
  | syscall rip register target allowed =>
    cases h
    refine ⟨by simp [FIELDS], ?_, fun hk => absurd hk (by decide), fun _ => ⟨allowed, rfl⟩,
      fun hk => absurd hk (by decide)⟩
    dsimp only [List.Forall]
    exact ⟨fits_u64 (by decide) rip, ⟨lt_trans register.toNat_lt (by norm_num), by decide⟩,
      fits_u64 (by decide) target, by cases allowed <;> decide +kernel, haction⟩
  | pmuCycles cycles =>
    cases h
    refine ⟨by simp [FIELDS], ?_, fun hk => absurd hk (by decide),
      fun hk => absurd hk (by decide), fun _ => rfl⟩
    dsimp only [List.Forall]
    exact ⟨⟨by decide +kernel, by decide, by decide⟩, fits_u64 (by decide) cycles⟩
  | pmuStatus available =>
    cases h
    refine ⟨by simp [FIELDS], ?_, fun hk => absurd hk (by decide),
      fun hk => absurd hk (by decide), fun hk => absurd hk (by decide)⟩
    exact (by decide : "available" ∉ NUMBERS)
  | vectors rip target address valid changed =>
    cases h
    refine ⟨by simp [FIELDS], ?_, fun hk => absurd hk (by decide),
      fun hk => absurd hk (by decide), fun hk => absurd hk (by decide)⟩
    dsimp only [List.Forall]
    exact ⟨fits_u64 (by decide) rip, fits_u64 (by decide) target, fits_u64 (by decide) address,
      (by decide : "valid" ∉ NUMBERS), (by decide : "changed" ∉ NUMBERS)⟩
  | stopped rip result budget =>
    cases h
    refine ⟨by cases budget <;> simp [FIELDS], ?_, ?_, ?_, ?_⟩
    · dsimp only [List.Forall]
      exact ⟨fits_u64 (by decide) rip, fits_u64 (by decide) result⟩
    all_goals cases budget <;> exact fun hk => absurd hk (by decide)
  | exception rip vector address =>
    cases h
    refine ⟨by simp [FIELDS], ?_, fun hk => absurd hk (by decide),
      fun hk => absurd hk (by decide), fun hk => absurd hk (by decide)⟩
    dsimp only [List.Forall]
    exact ⟨fits_u64 (by decide) rip, fits_u64 (by decide) vector, fits_u64 (by decide) address⟩

theorem isPlain_spells (h : isPlain s = true) :
    Json.SpellsBody s.toList s.toList :=
  Json.spellsBody_self (Bool.and_eq_true_iff.mp h).1

theorem spells_print (h : Fits name value)
    (hook : Dict → Option PyJson) : PyJson.Spells hook value.print value.toPy := by
  rcases value with s | n | b
  · exact PyJson.spells_str (isPlain_spells h.1)
  · exact PyJson.spells_nat n
  · exact PyJson.spells_bool b

/-- The texts of the fields are the members that the collector holds. -/
theorem spells_fields (hook : Dict → Option PyJson)
    (hnames : ∀ field ∈ fields, isPlain field.1 = true)
    (hfits : ∀ field ∈ fields, Fits field.1 field.2) :
    List.Forall₂ (PyJson.SpellsMember hook)
      (fields.map fun field => '"' :: (field.1.toList ++ '"' :: ':' :: field.2.print))
      (dictOf fields) := by
  rw [dictOf, List.forall₂_map_left_iff, List.forall₂_map_right_iff, List.forall₂_same]
  intro field hfield
  exact PyJson.spells_member (isPlain_spells (hnames field hfield))
    (spells_print (hfits field hfield) hook)

/-- An object without duplicate names passes the hook. -/
theorem uniqueObject_dictOf (h : (fields.map Prod.fst).Nodup) :
    uniqueObject (dictOf fields) = some (.dict (dictOf fields)) := by
  have hfold : ∀ (rest done : Fields), ((done ++ rest).map Prod.fst).Nodup →
      (dictOf rest).foldlM (fun (result : Dict) pair =>
        if result.any fun old => old.1 == pair.1 then none else some (result ++ [pair]))
        (dictOf done) = some (dictOf (done ++ rest)) := by
    intro rest
    induction rest with
    | nil => simp [dictOf]
    | cons field rest ih =>
      intro done hnodup
      have hnew : ((dictOf done).any fun old => old.1 == field.1.toList) = false := by
        rw [any_eq_false]
        intro pair hpair
        obtain ⟨old, hold, rfl⟩ := mem_map.mp hpair
        rw [beq_iff_eq, String.toList_inj]
        rw [map_append] at hnodup
        intro heq
        exact (nodup_append.mp hnodup).2.2 old.1 (mem_map_of_mem hold) field.1 (by simp) heq
      have hnext := ih (done ++ [field]) (by simpa using hnodup)
      have hdone : dictOf (done ++ [field]) = dictOf done ++ [(field.1.toList, field.2.toPy)] := by
        simp [dictOf]
      rw [hdone, append_assoc, singleton_append] at hnext
      rw [← hnext]
      simp only [dictOf, map_cons, foldlM_cons] at hnew ⊢
      rw [hnew]
      rfl
  have hall := hfold fields [] h
  exact congrArg (Option.map PyJson.dict) hall

section

variable {r : Record} (backend : Backend) {number : ℕ}

theorem plain_names (number : ℕ) (h : WellFormed r.kind r.fields) :
    ∀ field ∈ r.allFields backend number, isPlain field.1 = true := by
  have hall : ∀ layout ∈ FIELDS, ∀ name ∈ COMMON ++ layout.2,
      isPlain name = true := by decide +kernel
  intro field hfield
  refine hall _ h.layout field.1 ?_
  exact mem_map_of_mem hfield

theorem decode_line (h : WellFormed r.kind r.fields) (hvcpu : r.vcpu < 256)
    (hlt : number < 2 ^ 64) : decode (r.line backend number) =
      if number = 0 then .error "invalid event origin"
      else .ok (some (dictOf (r.allFields backend number))) := by
  have hloads : PyJson.loads uniqueObject (r.line backend number) =
      some (.dict (dictOf (r.allFields backend number))) := by
    rw [← uniqueObject_dictOf (nodup_names backend number h)]
    exact PyJson.loads_obj (spells_fields _ (plain_names backend number h)
      (fits_allFields backend number h hvcpu hlt)) rfl
  have hsource : isOneOf
      (get (dictOf (r.allFields backend number)) "source") ["aegishv-type1"] = true := by
    exact isOneOf_text (by decide)
  simp only [decode, hloads, hsource, if_true, validate_eq backend number h hvcpu hlt]
  split_ifs <;> rfl

end

theorem wellFormed_records {calls : List Call} {vcpu : ℕ} (hvcpu : vcpu < 256)
    (h : ∀ vcpu, .cpu vcpu ∈ calls → vcpu < 256) :
    ∀ r ∈ records vcpu calls, WellFormed r.kind r.fields ∧ r.vcpu < 256 := by
  induction calls generalizing vcpu with
  | nil => simp [records]
  | cons call calls ih =>
    have hrest : ∀ vcpu, .cpu vcpu ∈ calls → vcpu < 256 :=
      fun vcpu hmem => h vcpu (mem_cons_of_mem _ hmem)
    rcases hpayload : call.payload with _ | ⟨kind, fields⟩
    · obtain ⟨vcpu', rfl⟩ := Call.eq_cpu hpayload
      exact ih (h vcpu' (by simp)) hrest
    · rw [records_event hpayload, forall_mem_cons]
      exact ⟨⟨Call.payload_wellFormed hpayload, hvcpu⟩, ih hvcpu hrest⟩

/-- The lines of a boot, in the order in which they are printed. -/
def lines (backend : Backend) (calls : List Call) : List (List Char) :=
  (calls.foldl Events.call (Events.new backend)).written

theorem lines_eq (backend : Backend) (calls : List Call) : lines backend calls =
    ((records 0 calls).zipIdx 1).map fun p => p.1.line backend (p.2 % 2 ^ 64) := by
  have hrun := written_run backend calls 0 0 []
  rwa [] at hrun

/-- Each line is decoded with the values of the event that it stands for. -/
def Decoded (backend : Backend) (calls : List Call) : Prop :=
  List.Forall₂ (fun line p =>
    decode line = .ok (some (dictOf (p.1.allFields backend p.2))))
    (lines backend calls) ((records 0 calls).zipIdx 1)

theorem decoded_iff_length (backend : Backend) {calls : List Call}
    (h : ∀ vcpu, .cpu vcpu ∈ calls → vcpu < 256) :
    Decoded backend calls ↔ (records 0 calls).length < 2 ^ 64 := by
  have hrecords := wellFormed_records (by norm_num : 0 < 256) h
  rw [Decoded, lines_eq, List.forall₂_map_left_iff, List.forall₂_same]
  refine ⟨fun hall => ?_, fun hlt p hp => ?_⟩
  · by_contra hge
    have hlast : 2 ^ 64 - 1 < (records 0 calls).length := by omega
    obtain ⟨r, hr⟩ : ∃ r, (records 0 calls)[2 ^ 64 - 1]? = some r :=
      ⟨_, getElem?_eq_getElem hlast⟩
    obtain ⟨hform, hvcpu⟩ := hrecords r (mem_of_getElem? hr)
    have hdecode := hall (r, 2 ^ 64)
      (mk_mem_zipIdx_iff_le_and_getElem?_sub.mpr ⟨by norm_num, hr⟩)
    -- The counter has wrapped to 0, which is no sequence number.
    rw [Nat.mod_self, decode_line backend hform hvcpu (by norm_num)] at hdecode
    cases hdecode
  · obtain ⟨hform, hvcpu⟩ := hrecords p.1 (fst_mem_of_mem_zipIdx hp)
    have hpos := le_snd_of_mem_zipIdx hp
    have hbound := snd_lt_of_mem_zipIdx hp
    rw [Nat.mod_eq_of_lt (by omega), decode_line backend hform hvcpu (by omega), if_neg (by omega)]

/-! The collector reads the lines one by one. -/

/-- A line that the collector takes as a whole. -/
structure IsLine (line : List Char) : Prop where
  ends : ∃ body, line = body ++ ['\n'] ∧ '\n' ∉ body
  short : line.length ≤ 8192

theorem readline_append {body rest : List Char} {limit : ℕ} (hbody : '\n' ∉ body)
    (hlimit : body.length < limit) :
    readline limit (body ++ '\n' :: rest) = (body ++ ['\n'], rest) := by
  induction body generalizing limit with
  | nil =>
    obtain ⟨k, rfl⟩ : ∃ k, limit = k + 1 := ⟨limit - 1, by omega⟩
    simp [readline]
  | cons c body ih =>
    rw [length_cons] at hlimit
    obtain ⟨k, rfl⟩ : ∃ k, limit = k + 1 := ⟨limit - 1, by omega⟩
    rw [mem_cons, not_or] at hbody
    rw [cons_append, readline, if_neg (Ne.symm hbody.1), ih hbody.2 (by omega)]
    rfl

variable {lines : List (List Char)}

theorem collectFrom_lines (h : ∀ line ∈ lines, IsLine line) :
    ∀ turns state, lines.length < turns →
      collectFrom turns lines.flatten state = lines.foldl collectLine state := by
  induction lines with
  | nil =>
    intro turns state hturns
    obtain ⟨turns, rfl⟩ : ∃ k, turns = k + 1 := ⟨turns - 1, by omega⟩
    rfl
  | cons line lines ih =>
    intro turns state hturns
    rw [length_cons] at hturns
    obtain ⟨turns, rfl⟩ : ∃ k, turns = k + 1 := ⟨turns - 1, by omega⟩
    obtain ⟨⟨body, rfl, hbody⟩, hshort⟩ := h line (by simp)
    have hread : readline 8193 (body ++ '\n' :: lines.flatten) =
        (body ++ ['\n'], lines.flatten) :=
      readline_append hbody (by simp at hshort; omega)
    have hempty : ¬(body ++ ['\n']).isEmpty = true := by simp
    rw [flatten_cons, append_assoc, singleton_append, collectFrom, hread]
    simp only [if_neg hempty, if_neg (Nat.not_lt.mpr hshort)]
    exact ih (fun line hline => h line (by simp [hline])) turns _ (by omega)

theorem length_le_flatten (h : ∀ line ∈ lines, IsLine line) :
    lines.length ≤ lines.flatten.length := by
  induction lines with
  | nil => simp
  | cons line lines ih =>
    obtain ⟨⟨body, rfl, -⟩, -⟩ := h line (by simp)
    have hrest := ih fun line hline => h line (by simp [hline])
    simp only [flatten_cons, length_append, length_cons]
    omega

theorem collect_lines (h : ∀ line ∈ lines, IsLine line) (metrics : Metrics) :
    collect lines.flatten metrics =
      lines.foldl collectLine (metrics, []) := by
  have hle := length_le_flatten h
  exact collectFrom_lines h _ _ (by omega)

theorem length_join_le {n : ℕ} (h : ∀ t ∈ ts, t.length ≤ n) :
    (Json.join ts).length ≤ ts.length * (n + 1) := by
  induction ts with
  | nil => simp [Json.join, List.intercalate]
  | cons t ts ih =>
    have ht := h t (by simp)
    have hts := ih fun t ht => h t (by simp [ht])
    rcases ts with _ | ⟨u, ts⟩
    · rw [Json.join_singleton]
      simp
      omega
    · rw [Json.join_cons_cons]
      simp only [length_append, length_cons, Nat.succ_mul] at hts ⊢
      omega

theorem mem_join {c : Char} (h : c ∈ Json.join ts) :
    c = ',' ∨ ∃ t ∈ ts, c ∈ t := by
  induction ts with
  | nil => simp [Json.join, List.intercalate] at h
  | cons t ts ih =>
    rcases ts with _ | ⟨u, ts⟩
    · rw [Json.join_singleton] at h
      exact Or.inr ⟨t, by simp, h⟩
    · rw [Json.join_cons_cons, mem_append, mem_cons] at h
      rcases h with h | rfl | h
      · exact Or.inr ⟨t, by simp, h⟩
      · exact Or.inl rfl
      · rcases ih h with rfl | ⟨v, hv, hc⟩
        · exact Or.inl rfl
        · exact Or.inr ⟨v, mem_cons_of_mem _ hv, hc⟩

theorem isPlain_length (h : isPlain s = true) : s.toList.length ≤ 20 :=
  of_decide_eq_true (Bool.and_eq_true_iff.mp h).2

theorem isPlain_newline (h : isPlain s = true) : '\n' ∉ s.toList := by
  intro hmem
  have hc := all_eq_true.mp (Bool.and_eq_true_iff.mp h).1 _ hmem
  exact absurd hc (by decide)

/-- A value is printed without a line break, in few characters. -/
theorem print_tidy (h : Fits name value) :
    value.print.length ≤ 22 ∧ '\n' ∉ value.print := by
  rcases value with s | n | b
  · have hlen := isPlain_length h.1
    have hline := isPlain_newline h.1
    simp only [Scalar.print, length_cons, length_append, length_nil, mem_cons,
      mem_append, not_mem_nil, or_false, not_or]
    exact ⟨by omega, by decide, hline, by decide⟩
  · refine ⟨?_, fun hmem => ?_⟩
    · have hlen := (Nat.length_toDigits_le_iff (b := 10) (n := n) (k := 20) (by norm_num)
        (by norm_num)).mpr (lt_trans h.1 (by norm_num))
      exact le_trans hlen (by norm_num)
    · exact absurd (Json.isDigit_of_mem_toDigits hmem) (by decide)
  · cases b <;> decide +kernel

theorem isLine_line {r : Record} (backend : Backend) {number : ℕ} (h : WellFormed r.kind r.fields)
    (hvcpu : r.vcpu < 256) (hlt : number < 2 ^ 64) : IsLine (r.line backend number) := by
  have hfits := fits_allFields backend number h hvcpu hlt
  have hnames := plain_names backend number h
  have hcount : (r.allFields backend number).length ≤ 10 := by
    have hall : ∀ layout ∈ FIELDS, layout.2.length ≤ 5 := by decide
    have hfew := hall _ h.layout
    simp only [length_map] at hfew
    simp only [Record.allFields, Record.common, length_append, length_cons, length_nil]
    omega
  have hbody : '\n' ∉ '\x7b' :: (printFields (r.allFields backend number) ++ ['\x7d']) := by
    simp only [mem_cons, mem_append, not_mem_nil, or_false, not_or]
    refine ⟨by decide, fun hmem => ?_, by decide⟩
    rcases mem_join hmem with hcomma | ⟨t, ht, hc⟩
    · exact absurd hcomma (by decide)
    · obtain ⟨field, hfield, rfl⟩ := mem_map.mp ht
      simp only [mem_cons, mem_append] at hc
      rcases hc with hc | hc | hc | hc | hc
      · exact absurd hc (by decide)
      · exact isPlain_newline (hnames field hfield) hc
      · exact absurd hc (by decide)
      · exact absurd hc (by decide)
      · exact (print_tidy (hfits field hfield)).2 hc
  refine ⟨⟨_, ?_, hbody⟩, ?_⟩
  · simp [Record.line]
  · have hjoin : (printFields (r.allFields backend number)).length ≤
        (r.allFields backend number).length * 46 := by
      have hshort : ∀ t ∈ (r.allFields backend number).map fun field =>
          '"' :: (field.1.toList ++ '"' :: ':' :: field.2.print), t.length ≤ 45 := by
        intro t ht
        obtain ⟨field, hfield, rfl⟩ := mem_map.mp ht
        have hname := isPlain_length (hnames field hfield)
        have hvalue := (print_tidy (hfits field hfield)).1
        simp only [length_cons, length_append]
        omega
      have hle := length_join_le hshort
      rwa [length_map] at hle
    simp only [Record.line, length_cons, length_append, length_nil]
    omega

end AegisHV.Type1
