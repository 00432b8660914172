import AegisHV.Lib.Split
import AegisHV.Spec.DetectorState

/-! Which detector states the state file gives back: those whose texts are plain, neither
empty nor the mark of an absent value, and without the characters that the writer replaces. -/

namespace AegisHV.Detectors

open Sys List DetectorState DetectionAggregator

/-- A text that its field of the state file holds as it is. -/
structure Plain (t : List Char) : Prop where
  ne_nil : t ≠ []
  ne_dash : t ≠ ['-']
  clean : ∀ c ∈ t, c ≠ '|' ∧ c ≠ '\n' ∧ c ≠ '\r'

def PlainOpt (o : Option (List Char)) : Prop := ∀ t, o = some t → Plain t

structure PlainKey (key : DetectionDedupeKey) : Prop where
  detectorId : Plain key.detectorId
  vmId : PlainOpt key.vmId
  entity : PlainOpt key.entity
  symbol : PlainOpt key.symbol

namespace DetectorState

/-! Fields. -/

theorem sanitizeField_clean (t : List Char) :
    ∀ c ∈ sanitizeField t, c ≠ '|' ∧ c ≠ '\n' ∧ c ≠ '\r' := by
  intro c hc
  obtain ⟨d, -, rfl⟩ := mem_map.1 hc
  split_ifs with h
  · decide
  · rw [not_or, not_or] at h
    exact h

variable {t : List Char}

theorem sanitizeField_eq_self :
    sanitizeField t = t ↔ ∀ c ∈ t, c ≠ '|' ∧ c ≠ '\n' ∧ c ≠ '\r' := by
  constructor
  · intro h
    rw [← h]
    exact sanitizeField_clean t
  · intro h
    conv_rhs => rw [← map_id t]
    refine map_congr_left fun c hc => ?_
    obtain ⟨h1, h2, h3⟩ := h c hc
    simp [h1, h2, h3]

variable {line : ℕ} {field : String}

theorem parseText_eq_ok {v u : List Char} :
    parseText line field v = .ok u ↔
      u = v ∧ v ≠ [] ∧ v ≠ ['-'] ∧ '\n' ∉ v ∧ '|' ∉ v := by
  simp only [parseText, except_bind_ok, failIf_eq_ok, exists_const, Bool.or_eq_false_iff,
    isEmpty_eq_false_iff, beq_eq_false_iff_ne, contains_eq_mem, decide_eq_false_iff_not]
  constructor
  · rintro ⟨⟨⟨⟨h1, h2⟩, h3⟩, h4⟩, h⟩
    cases h
    exact ⟨rfl, h1, h2, h3, h4⟩
  · rintro ⟨rfl, h1, h2, h3, h4⟩
    exact ⟨⟨⟨⟨h1, h2⟩, h3⟩, h4⟩, rfl⟩

theorem parseText_sanitized :
    parseText line field (sanitizeField t) = .ok t ↔ Plain t := by
  rw [parseText_eq_ok]
  constructor
  · rintro ⟨heq, h1, h2, -, -⟩
    rw [← heq] at h1 h2
    exact ⟨h1, h2, sanitizeField_eq_self.1 heq.symm⟩
  · intro h
    have heq := sanitizeField_eq_self.2 h.clean
    rw [heq]
    exact ⟨rfl, h.ne_nil, h.ne_dash, fun hc => (h.clean _ hc).2.1 rfl, fun hc => (h.clean _ hc).1 rfl⟩

theorem eq_dash_of_sanitizeField (h : sanitizeField t = ['-']) : t = ['-'] := by
  rw [sanitizeField, map_eq_singleton_iff] at h
  obtain ⟨c, rfl, hc⟩ := h
  split_ifs at hc
  · exact absurd hc (by decide)
  · rw [hc]

theorem parseOptText_sanitized {o : Option (List Char)} :
    parseOptText line field (sanitizeField (encodeOpt o)) = .ok o ↔ PlainOpt o := by
  cases o with
  | none => exact iff_of_true rfl (by simp [PlainOpt])
  | some t =>
    have hplain : PlainOpt (some t) ↔ Plain t := by simp [PlainOpt]
    rw [hplain, parseOptText]
    split_ifs with hdash
    · have ht := eq_dash_of_sanitizeField hdash
      exact iff_of_false (by simp [pure, Except.pure]) fun h => h.ne_dash ht
    · rw [except_bind_ok]
      constructor
      · rintro ⟨u, hu, h⟩
        cases h
        exact parseText_sanitized.1 hu
      · intro h
        exact ⟨t, parseText_sanitized.2 h, rfl⟩

theorem sanitizeField_showU64 (n : UInt64) : sanitizeField (showU64 n) = showU64 n := by
  apply sanitizeField_eq_self.2
  intro c hc
  rw [showU64, ← padded_zero] at hc
  have := isDigit_of_mem_padded hc
  refine ⟨?_, ?_, ?_⟩ <;> rintro rfl <;> exact absurd this (by decide)

theorem parseU64_showU64 (n : UInt64) :
    parseU64 line field (showU64 n) = .ok n := by
  have h : fromStrRadix (2 ^ 64) 10 (padded 10 0 n.toNat) = some n.toNat :=
    fromStrRadix_padded (by norm_num) (by norm_num) n.toNat_lt
  rw [padded_zero] at h
  simp only [parseU64, showU64, h, okOr, except_ok_bind, UInt64.ofNat_toNat]
  rfl

theorem showU64_ne_dash (n : UInt64) : showU64 n ≠ ['-'] := by
  intro h
  have hmem : '-' ∈ padded 10 0 n.toNat := by
    rw [padded_zero, ← showU64, h]
    simp
  exact absurd (isDigit_of_mem_padded hmem) (by decide)

theorem parseOptU64_sanitized (o : Option UInt64) :
    parseOptU64 line field (sanitizeField (encodeOptU64 o)) = .ok o := by
  cases o with
  | none => rfl
  | some n =>
    change parseOptU64 line field (sanitizeField (showU64 n)) = _
    rw [sanitizeField_showU64, parseOptU64, if_neg (showU64_ne_dash n), parseU64_showU64]
    rfl

theorem sanitizeField_kind (kind : DetectionKind) :
    sanitizeField kind.asStr.toList = kind.asStr.toList := by
  cases kind <;> rfl

theorem parseKind_asStr (line : ℕ) (kind : DetectionKind) :
    parseKind line kind.asStr.toList = .ok kind := by
  cases kind <;> rfl

theorem kind_letters (kind : DetectionKind) :
    ∀ c ∈ kind.asStr.toList, isWhitespace c = false ∧ c ≠ ',' ∧ c ≠ '|' := by
  have hall : kind.asStr.toList.all (fun c => !isWhitespace c && c != ',' && c != '|') = true := by
    cases kind <;> rfl
  intro c hc
  simpa [and_assoc] using all_eq_true.1 hall c hc

theorem kind_ne_nil (kind : DetectionKind) : kind.asStr.toList ≠ [] := by
  cases kind <;> decide

variable {kinds : List DetectionKind}

theorem kindsText_black : ∀ c ∈ kindsText kinds, isWhitespace c = false ∧ c ≠ '|' := by
  intro c hc
  rcases mem_intercalate hc with rfl | ⟨l, hl, hc'⟩
  · decide
  · obtain ⟨kind, -, rfl⟩ := mem_map.1 hl
    exact ⟨(kind_letters kind c hc').1, (kind_letters kind c hc').2.2⟩

theorem sanitizeField_kindsText (kinds : List DetectionKind) :
    sanitizeField (kindsText kinds) = kindsText kinds := by
  apply sanitizeField_eq_self.2
  intro c hc
  obtain ⟨hblack, hbar⟩ := kindsText_black c hc
  refine ⟨hbar, ?_, ?_⟩ <;> rintro rfl <;> exact absurd hblack (by decide)

theorem splitOn_kindsText (hne : kinds ≠ []) :
    (kindsText kinds).splitOn ',' = kinds.map fun kind => kind.asStr.toList := by
  apply splitOn_intercalate
  · intro l hl
    obtain ⟨kind, -, rfl⟩ := mem_map.1 hl
    exact fun hc => (kind_letters kind _ hc).2.1 rfl
  · simpa using hne

theorem kindsText_ne_nil (hne : kinds ≠ []) : kindsText kinds ≠ [] := by
  intro hnil
  have hsplit := splitOn_kindsText hne
  rw [hnil] at hsplit
  cases kinds with
  | nil => exact hne rfl
  | cons kind rest =>
    have hhead := congrArg List.head? hsplit
    exact kind_ne_nil kind (by simpa using hhead.symm)

theorem parseKinds_kindsText (hne : kinds ≠ []) :
    parseKinds line (kindsText kinds) = .ok kinds := by
  have hmap : (kinds.map fun kind => kind.asStr.toList).mapM (parseKind line) = .ok kinds := by
    rw [mapM_map]
    have hall := (mapM_eq_ok_map (g := id)).2
      fun kind (_ : kind ∈ kinds) => parseKind_asStr line kind
    rw [map_id] at hall
    exact hall
  rw [parseKinds, trim_eq_self fun c hc => (kindsText_black c hc).1, splitOn_kindsText hne, hmap]
  cases htext : kindsText kinds with
  | nil => exact absurd htext (kindsText_ne_nil hne)
  | cons c rest => rfl

/-! Records. -/

variable {head : List Char}

theorem parseDedupe_sanitized {entry : PersistedDedupeEntry} :
    parseDedupe line (head :: (dedupeFields entry).map sanitizeField) = .ok entry ↔
      PlainKey entry.key := by
  simp only [dedupeFields, map_cons, map_nil, parseDedupe, parseOptU64_sanitized,
    sanitizeField_kind, parseKind_asStr, sanitizeField_showU64, parseU64_showU64, except_ok_bind,
    except_bind_ok]
  constructor
  · rintro ⟨d, hd, v, hv, e, he, y, hy, h⟩
    obtain rfl := congrArg (·.key.detectorId) (Except.ok.inj h)
    obtain rfl := congrArg (·.key.vmId) (Except.ok.inj h)
    obtain rfl := congrArg (·.key.entity) (Except.ok.inj h)
    obtain rfl := congrArg (·.key.symbol) (Except.ok.inj h)
    exact ⟨parseText_sanitized.1 hd, parseOptText_sanitized.1 hv, parseOptText_sanitized.1 he,
      parseOptText_sanitized.1 hy⟩
  · intro h
    exact ⟨_, parseText_sanitized.2 h.detectorId, _, parseOptText_sanitized.2 h.vmId, _,
      parseOptText_sanitized.2 h.entity, _, parseOptText_sanitized.2 h.symbol, rfl⟩

theorem parseStatus_asStr (status : IncidentStatus) :
    parseStatus line (sanitizeField status.asStr.toList) = .ok status := by
  cases status <;> rfl

theorem fromStr_asStr (severity : Severity) :
    Severity.fromStr (sanitizeField severity.asStr.toList) = some severity := by
  cases severity <;> rfl

theorem parseIncident_sanitized {incident : PersistedIncidentEntry} (hne : incident.kinds ≠ []) :
    parseIncident line (head :: (incidentFields incident).map sanitizeField) = .ok incident ↔
      Plain incident.incidentId ∧ Plain incident.vmId := by
  simp only [incidentFields, map_cons, map_nil, parseIncident, parseStatus_asStr,
    fromStr_asStr, sanitizeField_showU64, parseU64_showU64, sanitizeField_kindsText,
    parseKinds_kindsText hne, okOr, except_ok_bind, except_bind_ok]
  constructor
  · rintro ⟨d, hd, v, hv, h⟩
    obtain rfl := congrArg (·.incidentId) (Except.ok.inj h)
    obtain rfl := congrArg (·.vmId) (Except.ok.inj h)
    exact ⟨parseText_sanitized.1 hd, parseText_sanitized.1 hv⟩
  · rintro ⟨hid, hvm⟩
    exact ⟨_, parseText_sanitized.2 hid, _, parseText_sanitized.2 hvm, rfl⟩

/-! Lines. -/

/-- A line of the state file. -/
def record (head : List Char) (fields : List (List Char)) : List Char :=
  ['|'].intercalate (head :: fields.map sanitizeField)

theorem splitOn_record (hhead : '|' ∉ head) (fields : List (List Char)) :
    (record head fields).splitOn '|' = head :: fields.map sanitizeField := by
  apply splitOn_intercalate _ _ (by simp)
  intro l hl
  rcases mem_cons.1 hl with rfl | hl
  · exact hhead
  · obtain ⟨t, -, rfl⟩ := mem_map.1 hl
    exact fun hc => (sanitizeField_clean t _ hc).1 rfl

theorem record_clean (hhead : ∀ c ∈ head, c ≠ '\n' ∧ c ≠ '\r') (fields : List (List Char)) :
    '\n' ∉ record head fields ∧ '\r' ∉ record head fields := by
  have hclean : ∀ c ∈ record head fields, c ≠ '\n' ∧ c ≠ '\r' := by
    intro c hc
    rcases mem_intercalate hc with rfl | ⟨l, hl, hcl⟩
    · decide
    · rcases mem_cons.1 hl with rfl | hl
      · exact hhead c hcl
      · obtain ⟨t, -, rfl⟩ := mem_map.1 hl
        exact (sanitizeField_clean t c hcl).2
  exact ⟨fun hc => (hclean _ hc).1 rfl, fun hc => (hclean _ hc).2 rfl⟩

/-- A record whose last field has no white space is not trimmed. -/
theorem trim_record {c : Char} {last : List Char} (fields : List (List Char))
    (hc : isWhitespace c = false) (hlast : last ≠ []) (hblack : ∀ d ∈ last, isWhitespace d = false)
    (hclean : sanitizeField last = last) :
    trim (record (c :: head) (fields ++ [last])) = record (c :: head) (fields ++ [last]) := by
  have heq : record (c :: head) (fields ++ [last]) =
      record (c :: head) fields ++ '|' :: last := by
    rw [record, map_append, map_singleton, hclean, ← cons_append, intercalate_concat _ (by simp)]
    rfl
  rw [heq]
  apply trim_of_ends
  · intro d hd
    have hfirst : ∃ rest, record (c :: head) fields = c :: rest := by
      cases fields with
      | nil => exact ⟨head, by simp [record, List.intercalate]⟩
      | cons f fields => exact ⟨_, by rw [record]; rfl⟩
    obtain ⟨rest, hrest⟩ := hfirst
    rw [hrest] at hd
    cases hd
    exact hc
  · intro d hd
    rw [getLast?_append_of_ne_nil _ (by simp), getLast?_cons, getLast?_eq_some_getLast hlast] at hd
    simp only [Option.getD_some, Option.some.injEq] at hd
    exact hblack d (hd ▸ getLast_mem hlast)

def dedupeLine (entry : PersistedDedupeEntry) : List Char :=
  record "dedupe".toList (dedupeFields entry)

def incidentLine (incident : PersistedIncidentEntry) : List Char :=
  record "incident".toList (incidentFields incident)

theorem showU64_black (n : UInt64) : ∀ c ∈ showU64 n, isWhitespace c = false := by
  intro c hc
  rw [showU64, ← padded_zero] at hc
  obtain ⟨d, hd, rfl⟩ := exists_digitChar_of_mem_padded (by norm_num) hc
  have hall : ∀ d < 10, isWhitespace (Nat.digitChar d) = false := by decide
  exact hall d hd

theorem showU64_ne_nil (n : UInt64) : showU64 n ≠ [] := by
  rw [showU64, ← padded_zero]
  exact padded_ne_nil _ _

theorem trim_dedupeLine (entry : PersistedDedupeEntry) :
    trim (dedupeLine entry) = dedupeLine entry :=
  trim_record (c := 'd') (dedupeFields entry).dropLast (by decide)
    (showU64_ne_nil entry.lastSeenMs) (showU64_black _) (sanitizeField_showU64 _)

theorem trim_incidentLine {incident : PersistedIncidentEntry} (hne : incident.kinds ≠ []) :
    trim (incidentLine incident) = incidentLine incident :=
  trim_record (c := 'i') (incidentFields incident).dropLast (by decide)
    (kindsText_ne_nil hne) (fun c hc => (kindsText_black c hc).1) (sanitizeField_kindsText _)

/-- The lines behind the header. -/
def records (state : DetectorState) : List (List Char) :=
  state.dedupe.map dedupeLine ++ state.incidents.map incidentLine

theorem render_eq (state : DetectorState) :
    render state = (VERSION.toList :: records state).flatMap fun l => l ++ ['\n'] := by
  have hd : ∀ entry, "dedupe|".toList ++ joinFields (dedupeFields entry) = dedupeLine entry :=
    fun _ => rfl
  have hi : ∀ incident,
      "incident|".toList ++ joinFields (incidentFields incident) = incidentLine incident :=
    fun _ => rfl
  simp only [render, hd, hi, records, flatMap_cons, flatMap_append, flatMap_map, append_assoc]

theorem numberedLines_render {state : DetectorState}
    (hne : ∀ incident ∈ state.incidents, incident.kinds ≠ []) :
    numberedLines (render state) = (1, VERSION.toList) ::
      ((records state).zipIdx 1).map fun p => (p.2 + 1, p.1) := by
  have hclean : ∀ l ∈ VERSION.toList :: records state, '\n' ∉ l ∧ '\r' ∉ l := by
    intro l hl
    rcases mem_cons.1 hl with rfl | hl
    · decide
    rcases mem_append.1 hl with hl | hl
    · obtain ⟨entry, -, rfl⟩ := mem_map.1 hl
      exact record_clean (@of_decide_eq_true _ (List.decidableBAll _ _) rfl) _
    · obtain ⟨incident, -, rfl⟩ := mem_map.1 hl
      exact record_clean (@of_decide_eq_true _ (List.decidableBAll _ _) rfl) _
  have htrim : ∀ l ∈ VERSION.toList :: records state, trim l = l ∧ l ≠ [] := by
    intro l hl
    rcases mem_cons.1 hl with rfl | hl
    · exact ⟨by decide, by decide⟩
    rcases mem_append.1 hl with hl | hl
    · obtain ⟨entry, -, rfl⟩ := mem_map.1 hl
      exact ⟨trim_dedupeLine entry, by simp [dedupeLine, dedupeFields, record, List.intercalate]⟩
    · obtain ⟨incident, hmem, rfl⟩ := mem_map.1 hl
      exact ⟨trim_incidentLine (hne incident hmem),
        by simp [incidentLine, incidentFields, record, List.intercalate]⟩
  have hkeep : numberedLines (render state) =
      (VERSION.toList :: records state).zipIdx.map fun p => (p.2 + 1, p.1) := by
    rw [numberedLines, render_eq, lines_flatMap hclean, ← filterMap_eq_map]
    refine filterMap_congr fun p hp => ?_
    obtain ⟨h1, h2⟩ := htrim p.1 (fst_mem_of_mem_zipIdx hp)
    simp [h1, h2]
  rw [hkeep, zipIdx_cons, map_cons]

/-! The loop over the records. -/

theorem parseRecord_dedupe (state : DetectorState) (line : ℕ) (entry : PersistedDedupeEntry) :
    parseRecord state (line, dedupeLine entry) =
      parseDedupe line ("dedupe".toList :: (dedupeFields entry).map sanitizeField) >>= fun out =>
        pure { state with dedupe := state.dedupe ++ [out] } := by
  rw [parseRecord, dedupeLine, splitOn_record (by decide)]
  rfl

theorem parseRecord_incident (state : DetectorState) (line : ℕ) (incident : PersistedIncidentEntry) :
    parseRecord state (line, incidentLine incident) =
      parseIncident line ("incident".toList :: (incidentFields incident).map sanitizeField) >>=
        fun out => pure { state with incidents := state.incidents ++ [out] } := by
  rw [parseRecord, incidentLine, splitOn_record (by decide)]
  rfl

theorem foldlM_dedupe (l : List (PersistedDedupeEntry × ℕ)) (state : DetectorState) :
    (l.map fun p => (p.2 + 1, dedupeLine p.1)).foldlM parseRecord state =
      (l.mapM fun p => parseDedupe (p.2 + 1)
        ("dedupe".toList :: (dedupeFields p.1).map sanitizeField)) >>= fun out =>
          pure { state with dedupe := state.dedupe ++ out } := by
  rw [foldlM_map]
  exact foldlM_collect (fun s out => { s with dedupe := s.dedupe ++ out }) (by simp) (by simp)
    (fun s p => parseRecord_dedupe s (p.2 + 1) p.1) l state

theorem foldlM_incident (l : List (PersistedIncidentEntry × ℕ)) (state : DetectorState) :
    (l.map fun p => (p.2 + 1, incidentLine p.1)).foldlM parseRecord state =
      (l.mapM fun p => parseIncident (p.2 + 1)
        ("incident".toList :: (incidentFields p.1).map sanitizeField)) >>= fun out =>
          pure { state with incidents := state.incidents ++ out } := by
  rw [foldlM_map]
  exact foldlM_collect (fun s out => { s with incidents := s.incidents ++ out }) (by simp) (by simp)
    (fun s p => parseRecord_incident s (p.2 + 1) p.1) l state

theorem mapM_zipIdx {α : Type} {P : α → Prop} {f : α × ℕ → Except DetectorError α} {l : List α}
    (k : ℕ) (hf : ∀ a ∈ l, ∀ n, f (a, n) = .ok a ↔ P a) :
    (l.zipIdx k).mapM f = .ok l ↔ ∀ a ∈ l, P a := by
  have hall := mapM_eq_ok_map (l := l.zipIdx k) (f := f) (g := Prod.fst)
  rw [zipIdx_map_fst] at hall
  rw [hall]
  constructor
  · intro h a ha
    rw [← zipIdx_map_fst k l] at ha
    obtain ⟨p, hp, rfl⟩ := mem_map.1 ha
    exact (hf p.1 (fst_mem_of_mem_zipIdx hp) p.2).1 (h p hp)
  · intro h p hp
    have hmem := fst_mem_of_mem_zipIdx hp
    exact (hf p.1 hmem p.2).2 (h p.1 hmem)

theorem parse_render {state : DetectorState}
    (hne : ∀ incident ∈ state.incidents, incident.kinds ≠ []) :
    parse (render state) = .ok state ↔ (∀ entry ∈ state.dedupe, PlainKey entry.key) ∧
      ∀ incident ∈ state.incidents, Plain incident.incidentId ∧ Plain incident.vmId := by
  have hsplit : ((records state).zipIdx 1).map (fun p => (p.2 + 1, p.1)) =
      ((state.dedupe.zipIdx 1).map fun p => (p.2 + 1, dedupeLine p.1)) ++
        (state.incidents.zipIdx (1 + state.dedupe.length)).map
          fun p => (p.2 + 1, incidentLine p.1) := by
    simp only [records, zipIdx_append, zipIdx_map, map_append, map_map, length_map]
    rfl
  rw [parse, numberedLines_render hne]
  simp only [ne_eq, not_true_eq_false, if_false]
  rw [hsplit, foldlM_append, foldlM_dedupe]
  simp only [bind_assoc, pure_bind, foldlM_incident, nil_append]
  have hd := mapM_zipIdx (l := state.dedupe) (P := fun entry => PlainKey entry.key)
    (f := fun p => parseDedupe (p.2 + 1) ("dedupe".toList :: (dedupeFields p.1).map sanitizeField))
    1 fun _ _ _ => parseDedupe_sanitized
  have hi := mapM_zipIdx (l := state.incidents)
    (P := fun incident => Plain incident.incidentId ∧ Plain incident.vmId)
    (f := fun p => parseIncident (p.2 + 1)
      ("incident".toList :: (incidentFields p.1).map sanitizeField))
    (1 + state.dedupe.length) fun incident hmem _ => parseIncident_sanitized (hne incident hmem)
  rw [← hd, ← hi]
  constructor
  · intro h
    obtain ⟨out, hout, h⟩ := except_bind_ok.1 h
    obtain ⟨out', hout', h⟩ := except_bind_ok.1 h
    cases h
    exact ⟨hout, hout'⟩
  · rintro ⟨hout, hout'⟩
    exact except_bind_ok.2 ⟨_, hout, except_bind_ok.2 ⟨_, hout', rfl⟩⟩

end DetectorState

/-! The states of a running sensor. -/

/-- What an observed record leaves in the state file as text. -/
structure PlainRecord (record : DetectionRecord) : Prop where
  detectorId : Plain record.detectorId
  vmId : PlainOpt record.vmId
  entity : PlainOpt record.entity
  symbol : PlainOpt record.symbol

theorem plainKey_fromRecord {record : DetectionRecord} :
    PlainKey (DetectionDedupeKey.fromRecord record) ↔ PlainRecord record :=
  ⟨fun h => ⟨h.detectorId, h.vmId, h.entity, h.symbol⟩,
    fun h => ⟨h.detectorId, h.vmId, h.entity, h.symbol⟩⟩

namespace DetectionAggregator

/-- The aggregator has one entry for every key observed at a time other than zero. -/
structure Tracks (a : DetectionAggregator) (observations : List (DetectionRecord × UInt64)) :
    Prop where
  key : ∀ k v, a.entries.get k = some v → v.key = k
  keys : ∀ k, (∃ v, a.entries.get k = some v) ↔
    ∃ o ∈ observations, o.2 ≠ 0 ∧ DetectionDedupeKey.fromRecord o.1 = k

theorem Tracks.observe {a : DetectionAggregator} {seen : List (DetectionRecord × UInt64)}
    (h : Tracks a seen) (o : DetectionRecord × UInt64) :
    Tracks ((observe o.1 o.2).run a).2 (seen ++ [o]) := by
  unfold DetectionAggregator.observe
  by_cases hms : o.2 = 0
  · rw [if_pos hms]
    refine ⟨h.key, fun k => (h.keys k).trans ?_⟩
    simp [hms]
  rw [if_neg hms]
  simp only [Op.run_read_bind, Op.run_write_bind, Op.run_pure]
  set key := DetectionDedupeKey.fromRecord o.1 with hkey
  refine ⟨fun k v hv => ?_, fun k => ?_⟩
  · rw [OrdMap.get_insert] at hv
    split_ifs at hv with hk
    · cases hv
      rw [hk]
      cases hfound : a.entries.get key with
      | none => rfl
      | some w => exact h.key key w hfound
    · exact h.key k v hv
  · rw [OrdMap.get_insert]
    split_ifs with hk
    · exact iff_of_true ⟨_, rfl⟩ ⟨o, by simp, hms, hk.symm⟩
    · rw [h.keys k]
      have hne : key ≠ k := Ne.symm hk
      simp [hms, ← hkey, hne]

theorem observeAll_tracks (observations : List (DetectionRecord × UInt64)) :
    Tracks (observeAll observations) observations := by
  induction observations using List.reverseRecOn with
  | nil =>
    refine ⟨fun k v hv => ?_, fun k => ?_⟩
    · cases hv
    · exact iff_of_false (fun ⟨v, hv⟩ => by cases hv) (by simp)
  | append_singleton seen o ih =>
    rw [observeAll, foldl_append]
    exact ih.observe o

/-- The keys of the aggregated detections are those of the observed records. -/
theorem plainKey_detections (observations : List (DetectionRecord × UInt64)) :
    (∀ d ∈ (observeAll observations).detections, PlainKey d.key) ↔
      ∀ o ∈ observations, o.2 ≠ 0 → PlainRecord o.1 := by
  have h := observeAll_tracks observations
  constructor
  · intro hall o ho hms
    obtain ⟨v, hv⟩ := (h.keys _).2 ⟨o, ho, hms, rfl⟩
    have hplain := hall v (OrdMap.mem_values.2 ⟨_, hv⟩)
    rw [h.key _ v hv] at hplain
    exact plainKey_fromRecord.1 hplain
  · intro hall d hd
    obtain ⟨k, hk⟩ := OrdMap.mem_values.1 hd
    obtain ⟨o, ho, hms, rfl⟩ := (h.keys k).1 ⟨d, hk⟩
    rw [h.key _ d hk]
    exact plainKey_fromRecord.2 (hall o ho hms)

end DetectionAggregator

theorem incidentOf_eq_some {vmId : List Char} {items : List AggregatedDetection}
    {incident : IncidentRecord} (h : incidentOf vmId items = some incident) :
    incident.kinds ≠ [] ∧ incident.incidentId = "incident:".toList ++ incident.vmId ++ ":".toList ++
      showU64 incident.firstSeenMs ++ ":wx-syscall-text".toList := by
  unfold incidentOf at h
  simp only [Option.ite_none_right_eq_some, Option.some.injEq] at h
  obtain ⟨hchain, rfl⟩ := h
  refine ⟨?_, rfl⟩
  intro hnil
  simp only at hnil
  rw [hnil] at hchain
  cases hchain

/-- The identifier of an incident is plain if the VM's is. -/
theorem plain_incidentId {vmId : List Char} (n : UInt64) (h : Plain vmId) :
    Plain ("incident:".toList ++ vmId ++ ":".toList ++ showU64 n ++ ":wx-syscall-text".toList) := by
  have hstart := sanitizeField_eq_self (t := "incident:".toList).1 rfl
  have hcolon := sanitizeField_eq_self (t := ":".toList).1 rfl
  have hend := sanitizeField_eq_self (t := ":wx-syscall-text".toList).1 rfl
  have hdigits := sanitizeField_eq_self.1 (sanitizeField_showU64 n)
  refine ⟨by simp, fun heq => ?_, fun c hc => ?_⟩
  · have hlen := congrArg List.length heq
    simp at hlen
  · simp only [mem_append] at hc
    rcases hc with (((hc | hc) | hc) | hc) | hc
    · exact hstart c hc
    · exact h.clean c hc
    · exact hcolon c hc
    · exact hdigits c hc
    · exact hend c hc

/-- The state that is saved after some observations, with the incidents of others. -/
def stateAfter (observations correlated : List (DetectionRecord × UInt64)) : DetectorState :=
  fromRuntime (observeAll observations).detections
    (correlateIncidents (observeAll correlated).detections)

theorem state_restored_iff_plain (observations correlated : List (DetectionRecord × UInt64)) :
    parse (stateAfter observations correlated).render =
        .ok (stateAfter observations correlated) ↔
      (∀ o ∈ observations, o.2 ≠ 0 → PlainRecord o.1) ∧
        ∀ incident ∈ (stateAfter observations correlated).incidents, Plain incident.vmId := by
  have hincident : ∀ incident ∈ (stateAfter observations correlated).incidents,
      incident.kinds ≠ [] ∧ incident.incidentId = "incident:".toList ++ incident.vmId ++
        ":".toList ++ showU64 incident.firstSeenMs ++ ":wx-syscall-text".toList := by
    intro incident hmem
    obtain ⟨e, -, he⟩ := mem_filterMap.1 hmem
    exact incidentOf_eq_some he
  rw [parse_render fun incident hmem => (hincident incident hmem).1, ← plainKey_detections]
  refine and_congr ?_ (forall₂_congr fun incident hmem => ?_)
  · simp only [stateAfter, fromRuntime, forall_mem_map]
  · rw [(hincident incident hmem).2]
    exact ⟨fun h => h.2, fun h => ⟨plain_incidentId _ h, h⟩⟩

/-- A finding about an entity whose name is a dash. -/
def dashRecord : DetectionRecord where
  detectorId := "hidden_module".toList
  kind := .hiddenModule
  vmId := none
  entity := some ['-']
  rangeStart := none
  rangeEnd := none
  symbol := none
  severity := .high

theorem dash_entity_not_restored :
    parse (stateAfter [(dashRecord, 1)] []).render ≠
      .ok (stateAfter [(dashRecord, 1)] []) := by
  decide +kernel

end AegisHV.Detectors
