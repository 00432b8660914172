import AegisHV.Spec.Acpi

/-! The DMAR and IVRS parsers find exactly the hardware units of a well-formed table, refuse a
table with a malformed structure, and read within the table. -/

namespace AegisHV.Acpi
open Sys List

/-- The parse ends in `r`, whatever was read before, and reads offsets of `P` only. -/
def Ends {α : Type} (P : ℕ → Prop) (x : Parse α) (r : Except Stop α) : Prop :=
  ∀ s, ∃ reads, x.run s = (r, s ++ reads) ∧ ∀ i ∈ reads, P i

section

variable {α β : Type} {P : ℕ → Prop}

theorem ends_pure (a : α) : Ends P (pure a) (.ok a) :=
  fun s => ⟨[], by rw [Op.run_pure, append_nil], fun _ h => absurd h not_mem_nil⟩

theorem ends_stop (stop : Stop) : Ends P (Op.fail stop : Parse α) (.error stop) :=
  fun s => ⟨[], by rw [append_nil]; rfl, fun _ h => absurd h not_mem_nil⟩

theorem ends_fail (kind : CoreErrorKind) (message : String) :
    Ends P (fail kind message : Parse α) (.error (.error ⟨kind, message⟩)) :=
  ends_stop _

theorem Ends.bind {x : Parse α} {f : α → Parse β} {a : α} {r : Except Stop β}
    (hx : Ends P x (.ok a)) (hf : Ends P (f a) r) : Ends P (x >>= f) r := by
  intro s
  obtain ⟨reads, hrun, hreads⟩ := hx s
  obtain ⟨more, hrun', hmore⟩ := hf (s ++ reads)
  refine ⟨reads ++ more, by rw [Op.run_bind_ok hrun, hrun', append_assoc], ?_⟩
  exact fun i hi => (mem_append.mp hi).elim (hreads i) (hmore i)

theorem Ends.bind_error {x : Parse α} {f : α → Parse β} {stop : Stop}
    (hx : Ends P x (.error stop)) : Ends P (x >>= f) (.error stop) := by
  intro s
  obtain ⟨reads, hrun, hreads⟩ := hx s
  exact ⟨reads, Op.run_bind_error hrun, hreads⟩

theorem Ends.map {x : Parse α} {r : Except Stop α} (h : Ends P x r) (f : α → β) :
    Ends P (x >>= fun a => pure (f a)) (r.map f) := by
  cases r with
  | ok a => exact h.bind (ends_pure _)
  | error stop => exact h.bind_error

theorem ends_log {reads : List ℕ} (h : ∀ i ∈ reads, P i) : Ends P (log reads) (.ok ⟨⟩) :=
  fun _ => ⟨reads, rfl, h⟩

theorem ends_byteAt {bytes : List UInt8} {offset : ℕ} {byte : UInt8}
    (h : bytes[offset]? = some byte) (hP : P offset) : Ends P (byteAt bytes offset) (.ok byte) := by
  rw [byteAt, h]
  exact (ends_log (by simpa using hP)).bind (ends_pure byte)

theorem ends_sliceAt {bytes part : List UInt8} {start stop : ℕ}
    (h : slice bytes start stop = some part) (hP : ∀ i, start ≤ i → i < stop → P i) :
    Ends P (sliceAt bytes start stop) (.ok part) := by
  rw [sliceAt, h]
  refine (ends_log fun i hi => ?_).bind (ends_pure part)
  have hi := mem_range'_1.mp hi
  exact hP i hi.1 (by omega)

theorem ends_leAt {width offset : ℕ} {message : String} {bytes part : List UInt8}
    (h : slice bytes offset (offset + width) = some part)
    (hP : ∀ i, offset ≤ i → i < offset + width → P i) :
    Ends P (leAt width message bytes offset) (.ok (fromLe part)) := by
  rw [leAt, h]
  refine (ends_log fun i hi => ?_).bind (ends_pure (fromLe part))
  have hi := mem_range'_1.mp hi
  exact hP i hi.1 hi.2

end

section

variable {P : ℕ → Prop} {left mid right : List UInt8}

/-- A field of the part of a buffer that may be read. -/
theorem ends_leAt_middle {k width value : ℕ} {message : String}
    (hP : ∀ i, left.length ≤ i → i < left.length + mid.length → P i)
    (hlen : k + width ≤ mid.length) (hvalue : fromLe ((mid.drop k).take width) = value) :
    Ends P (leAt width message (left ++ mid ++ right) (left.length + k)) (.ok value) := by
  subst hvalue
  exact ends_leAt (slice_middle left mid right hlen) fun i hi hi' => hP i (by omega) (by omega)

theorem ends_byteAt_middle {k : ℕ} {byte : UInt8}
    (hP : ∀ i, left.length ≤ i → i < left.length + mid.length → P i)
    (hbyte : mid[k]? = some byte) :
    Ends P (byteAt (left ++ mid ++ right) (left.length + k)) (.ok byte) := by
  have hk := (List.getElem?_eq_some_iff.mp hbyte).1
  refine ends_byteAt ?_ (hP _ (by omega) (by omega))
  rw [List.append_assoc, List.getElem?_append_right (by omega), Nat.add_sub_cancel_left,
    getElem?_append_left hk, hbyte]

end

/-- A kind of structure: how one is laid out, which unit it holds, and what starts like a
structure without being one. -/
structure Format (Unit : Type) where
  Structure : Type
  encode : Structure → List UInt8
  unit? : Structure → Option Unit
  Malformed : List UInt8 → Prop
  encode_ne_nil : ∀ s, encode s ≠ []
  malformed_ne_nil : ∀ bytes, Malformed bytes → bytes ≠ []
  malformed_or_encode : ∀ bytes, bytes ≠ [] →
    Malformed bytes ∨ ∃ s rest, bytes = encode s ++ rest

namespace Format

variable {Unit : Type} (F : Format Unit)

def encodeAll (ss : List F.Structure) : List UInt8 := ss.flatMap F.encode

def units (ss : List F.Structure) : List Unit := ss.filterMap F.unit?

/-- Any bytes are structures and then nothing, or something malformed. -/
theorem exists_decomposition (bytes : List UInt8) :
    ∃ ss bad, bytes = F.encodeAll ss ++ bad ∧ (bad = [] ∨ F.Malformed bad) := by
  induction hn : bytes.length using Nat.strong_induction_on generalizing bytes with
  | _ n ih =>
    rcases eq_or_ne bytes [] with rfl | hne
    · exact ⟨[], [], rfl, .inl rfl⟩
    rcases F.malformed_or_encode bytes hne with hbad | ⟨s, rest, rfl⟩
    · exact ⟨[], bytes, rfl, .inr hbad⟩
    · have hpos := length_pos_of_ne_nil (F.encode_ne_nil s)
      rw [length_append] at hn
      obtain ⟨ss, bad, hrest, hbad⟩ := ih rest.length (by omega) rest rfl
      refine ⟨s :: ss, bad, ?_, hbad⟩
      rw [encodeAll, flatMap_cons, append_assoc, ← encodeAll, ← hrest]

/-- What the body of a loop does at a structure and at malformed bytes, for a table that stands
between `left` and `right`. -/
structure Reads (capacity : ℕ) (full : CoreError)
    (step : List UInt8 → ℕ → ℕ → List Unit → Parse (ℕ × List Unit)) : Prop where
  sound : ∀ {P : ℕ → Prop} (left right rest : List UInt8) (s : F.Structure) (units : List Unit),
    (∀ i, left.length ≤ i → i < left.length + (F.encode s ++ rest).length → P i) →
    units.length ≤ capacity →
    Ends P (step (left ++ (F.encode s ++ rest) ++ right)
        (left.length + (F.encode s ++ rest).length) left.length units)
      (if (units ++ (F.unit? s).toList).length ≤ capacity then
        .ok (left.length + (F.encode s).length, units ++ (F.unit? s).toList)
      else .error (.error full))
  malformed : ∀ {P : ℕ → Prop} (left right bad : List UInt8) (units : List Unit),
    (∀ i, left.length ≤ i → i < left.length + bad.length → P i) → F.Malformed bad →
    ∃ e, Ends P (step (left ++ bad ++ right) (left.length + bad.length) left.length units)
      (.error (.error e))

/-- How the loop ends on structures with these units that are followed by `bad`, which is nothing
or something malformed. -/
def loopEnd (capacity : ℕ) (full e : CoreError) (bad : List UInt8) (units : List Unit) :
    Except Stop (List Unit) :=
  if units.length ≤ capacity then if bad = [] then .ok units else .error (.error e)
  else .error (.error full)

theorem loopEnd_ok_or_error (capacity : ℕ) (full e : CoreError) (bad : List UInt8)
    (units : List Unit) : (∃ found, loopEnd capacity full e bad units = .ok found) ∨
      ∃ e', loopEnd capacity full e bad units = .error (.error e') := by
  rw [loopEnd]
  split_ifs
  · exact .inl ⟨_, rfl⟩
  · exact .inr ⟨_, rfl⟩
  · exact .inr ⟨_, rfl⟩

variable {F}

theorem structures_done {step : ℕ → List Unit → Parse (ℕ × List Unit)} {total offset : ℕ}
    (rounds : ℕ) (units : List Unit) (h : ¬ offset < total) :
    structures step total rounds offset units = pure units := by
  cases rounds with
  | zero => rw [structures, if_neg h]
  | succ rounds => rw [structures, if_neg h]

theorem structures_next (step : ℕ → List Unit → Parse (ℕ × List Unit)) {total offset rounds : ℕ}
    (units : List Unit) (h : offset < total) (hrounds : total - offset ≤ rounds) :
    ∃ less, rounds = less + 1 ∧ structures step total rounds offset units =
      step offset units >>= fun next => structures step total less next.1 next.2 := by
  cases rounds with
  | zero => omega
  | succ less => exact ⟨less, rfl, by rw [structures, if_pos h]⟩

theorem structures_ends {capacity : ℕ} {full : CoreError}
    {step : List UInt8 → ℕ → ℕ → List Unit → Parse (ℕ × List Unit)}
    (h : F.Reads capacity full step) {P : ℕ → Prop} {bytes right bad : List UInt8} {total : ℕ}
    (hbad : bad = [] ∨ F.Malformed bad) (ss : List F.Structure) :
    ∀ (left : List UInt8) (offset rounds : ℕ) (units : List Unit),
      bytes = left ++ (F.encodeAll ss ++ bad) ++ right → offset = left.length →
      total = left.length + (F.encodeAll ss ++ bad).length → total - offset ≤ rounds →
      (∀ i, offset ≤ i → i < total → P i) → units.length ≤ capacity →
      ∃ e, Ends P (structures (step bytes total) total rounds offset units)
        (loopEnd capacity full e bad (units ++ F.units ss)) := by
  induction ss with
  | nil =>
    intro left offset rounds units hbytes hoffset htotal hrounds hP hcap
    rw [show F.encodeAll [] ++ bad = bad from rfl] at hbytes htotal
    rw [show units ++ F.units [] = units from append_nil units]
    simp only [loopEnd, if_pos hcap]
    rcases hbad with rfl | hbad
    · rw [length_nil] at htotal
      rw [structures_done rounds units (by omega)]
      exact ⟨full, ends_pure units⟩
    · have hne := F.malformed_ne_nil bad hbad
      have hpos := length_pos_of_ne_nil hne
      obtain ⟨less, -, hnext⟩ := structures_next (step bytes total) units
        (by omega : offset < total) hrounds
      subst hbytes hoffset htotal
      obtain ⟨e, he⟩ := h.malformed left right bad units hP hbad
      rw [hnext]
      exact ⟨e, by rw [if_neg hne]; exact he.bind_error⟩
  | cons s ss ih =>
    intro left offset rounds units hbytes hoffset htotal hrounds hP hcap
    have hpos := length_pos_of_ne_nil (F.encode_ne_nil s)
    have hall : F.encodeAll (s :: ss) ++ bad = F.encode s ++ (F.encodeAll ss ++ bad) := by
      rw [encodeAll, flatMap_cons, append_assoc, ← encodeAll]
    rw [hall] at hbytes htotal
    have htotal' := htotal
    rw [length_append] at htotal'
    obtain ⟨less, hless, hnext⟩ := structures_next (step bytes total) units
      (by omega : offset < total) hrounds
    have hunits : F.units (s :: ss) = (F.unit? s).toList ++ F.units ss := by
      cases hs : F.unit? s <;> simp [Format.units, hs]
    subst hoffset
    have hstep := h.sound left right (F.encodeAll ss ++ bad) s units (by rwa [← htotal]) hcap
    rw [← hbytes, ← htotal] at hstep
    rw [hnext, hunits, ← append_assoc]
    by_cases hroom : (units ++ (F.unit? s).toList).length ≤ capacity
    · rw [if_pos hroom] at hstep
      obtain ⟨e, he⟩ := ih (left ++ F.encode s) (left.length + (F.encode s).length) less
        (units ++ (F.unit? s).toList) (by rw [hbytes]; simp only [append_assoc])
        (by rw [length_append]) (by rw [length_append]; omega) (by omega)
        (fun i hi => hP i (by omega)) hroom
      exact ⟨e, hstep.bind he⟩
    · rw [if_neg hroom] at hstep
      refine ⟨full, ?_⟩
      rw [loopEnd, if_neg (by rw [length_append]; omega)]
      exact hstep.bind_error

end Format

/-- The length field of a structure of either table. -/
def structureLen (bytes : List UInt8) : ℕ := fromLe ((bytes.drop 2).take 2)

/-- Bytes that end before a structure's header or before its end, or whose length field is
shorter than its header. -/
def Broken (headerLen : List UInt8 → ℕ) (bytes : List UInt8) : Prop :=
  bytes ≠ [] ∧ (bytes.length < 4 ∨ structureLen bytes < headerLen bytes ∨
    bytes.length < structureLen bytes)

theorem exists_append {bytes : List UInt8} {width : ℕ} (h : width ≤ bytes.length) :
    ∃ field rest, bytes = field ++ rest ∧ field.length = width :=
  ⟨bytes.take width, bytes.drop width, (take_append_drop width bytes).symm,
    length_take_of_le h⟩

theorem toLe_fromLe_of_length {field : List UInt8} {width : ℕ} (h : field.length = width) :
    toLe width (fromLe field) = field := by
  rw [← h, toLe_fromLe]

theorem fromLe_lt_of_length {field : List UInt8} {width : ℕ} (h : field.length = width) :
    fromLe field < 2 ^ (8 * width) := by
  rw [← h]
  exact fromLe_lt field

theorem fromLe_toLe_two {n : ℕ} (h : n < 2 ^ 16) : fromLe (toLe 2 n) = n := fromLe_toLe h

theorem fromLe_toLe_eight {n : ℕ} (h : n < 2 ^ 64) : fromLe (toLe 8 n) = n := fromLe_toLe h

/-- A remapping structure of a DMAR table: a hardware unit, or anything of another type. -/
inductive DmarStructure
  | drhd (unit : DmarHardwareUnit) (size : UInt8) (scopes : List UInt8)
    (fits : unit.segment < 2 ^ 16 ∧ unit.registerBase < 2 ^ 64 ∧ 16 + scopes.length < 2 ^ 16)
  | other (structureType : ℕ) (payload : List UInt8)
    (fits : structureType ≠ 0 ∧ structureType < 2 ^ 16 ∧ 4 + payload.length < 2 ^ 16)

namespace DmarStructure

def encode : DmarStructure → List UInt8
  | drhd unit size scopes _ => toLe 2 0 ++ toLe 2 (16 + scopes.length) ++ [unit.flags, size] ++
    toLe 2 unit.segment ++ toLe 8 unit.registerBase ++ scopes
  | other structureType payload _ =>
    toLe 2 structureType ++ toLe 2 (4 + payload.length) ++ payload

def unit? : DmarStructure → Option DmarHardwareUnit
  | drhd unit _ _ _ => some unit
  | other _ _ _ => none

/-- A hardware unit has 16 bytes before its device scopes, any other structure type and length. -/
def headerLen (bytes : List UInt8) : ℕ := if fromLe (bytes.take 2) = 0 then 16 else 4

theorem encode_ne_nil (s : DmarStructure) : s.encode ≠ [] := by
  cases s <;> exact cons_ne_nil _ _

theorem broken_or_encode (bytes : List UInt8) (hne : bytes ≠ []) :
    Broken headerLen bytes ∨ ∃ s rest, bytes = encode s ++ rest := by
  by_cases hbroken : Broken headerLen bytes
  · exact .inl hbroken
  refine .inr ?_
  simp only [Broken, not_and, not_or, Nat.not_lt] at hbroken
  obtain ⟨hfour, hheader, hend⟩ := hbroken hne
  obtain ⟨kind, bytes, rfl, hkind⟩ := exists_append (by omega : 2 ≤ bytes.length)
  rw [length_append] at hfour
  obtain ⟨len, bytes, rfl, hlen⟩ := exists_append (by omega : 2 ≤ bytes.length)
  have hlt := fromLe_lt_of_length hlen
  rw [structureLen, drop_left' hkind, take_left' hlen] at hheader hend
  rw [headerLen, take_left' hkind] at hheader
  simp only [length_append, hkind, hlen] at hend
  by_cases hzero : fromLe kind = 0
  · rw [if_pos hzero] at hheader
    obtain ⟨flags, bytes, rfl⟩ := exists_cons_of_length_pos (by omega : 0 < bytes.length)
    rw [length_cons] at hend
    obtain ⟨size, bytes, rfl⟩ := exists_cons_of_length_pos (by omega : 0 < bytes.length)
    rw [length_cons] at hend
    obtain ⟨segment, bytes, rfl, hsegment⟩ := exists_append (by omega : 2 ≤ bytes.length)
    rw [length_append] at hend
    obtain ⟨base, bytes, rfl, hbase⟩ := exists_append (by omega : 8 ≤ bytes.length)
    rw [length_append] at hend
    obtain ⟨scopes, rest, rfl, hscopes⟩ :=
      exists_append (by omega : fromLe len - 16 ≤ bytes.length)
    refine ⟨drhd ⟨flags, fromLe segment, fromLe base⟩ size scopes
      ⟨fromLe_lt_of_length hsegment, fromLe_lt_of_length hbase, by omega⟩, rest, ?_⟩
    rw [encode, toLe_fromLe_of_length hsegment, toLe_fromLe_of_length hbase, ← hzero,
      toLe_fromLe_of_length hkind, hscopes, Nat.add_sub_cancel' hheader,
      toLe_fromLe_of_length hlen]
    simp only [append_assoc, cons_append, nil_append]
  · rw [if_neg hzero] at hheader
    obtain ⟨payload, rest, rfl, hpayload⟩ :=
      exists_append (by omega : fromLe len - 4 ≤ bytes.length)
    refine ⟨other (fromLe kind) payload ⟨hzero, fromLe_lt_of_length hkind, by omega⟩, rest, ?_⟩
    rw [encode, toLe_fromLe_of_length hkind, hpayload, Nat.add_sub_cancel' hheader,
      toLe_fromLe_of_length hlen]
    simp only [append_assoc]

def format : Format DmarHardwareUnit where
  Structure := DmarStructure
  encode := encode
  unit? := unit?
  Malformed := Broken headerLen
  encode_ne_nil := encode_ne_nil
  malformed_ne_nil := fun _ h => h.1
  malformed_or_encode := broken_or_encode

theorem encode_length (s : DmarStructure) (rest : List UInt8) :
    structureLen (s.encode ++ rest) = s.encode.length ∧
      (if s.unit?.isSome then 16 else 4) ≤ s.encode.length := by
  cases s with
  | drhd unit size scopes fits =>
    have hlen : (drhd unit size scopes fits).encode.length = 16 + scopes.length := by
      simp [encode]
      omega
    exact ⟨hlen ▸ fromLe_toLe_two fits.2.2, hlen ▸ Nat.le_add_right 16 _⟩
  | other structureType payload fits =>
    have hlen : (other structureType payload fits).encode.length = 4 + payload.length := by
      simp [encode]
      omega
    exact ⟨hlen ▸ fromLe_toLe_two fits.2.2, hlen ▸ Nat.le_add_right 4 _⟩

theorem ends_type {P : ℕ → Prop} {left mid : List UInt8} (right : List UInt8)
    (hP : ∀ i, left.length ≤ i → i < left.length + mid.length → P i) (hfour : 4 ≤ mid.length) :
    Ends P (leU16 (left ++ mid ++ right) left.length) (.ok (fromLe (mid.take 2))) :=
  @ends_leAt_middle P left mid right 0 2 _ _ hP (by omega) rfl

theorem reads (capacity : ℕ) :
    format.Reads capacity ⟨.capacityExceeded, "DMAR hardware unit table is full"⟩
      (dmarStructure capacity) where
  sound := by
    intro P left right rest s units hP hcap
    obtain ⟨hlen, hheader⟩ := encode_length s rest
    have hle : (s.encode ++ rest).length = s.encode.length + rest.length := length_append
    change ∀ i, _ → _ < _ + (s.encode ++ rest).length → _ at hP
    change Ends P (dmarStructure capacity (left ++ (s.encode ++ rest) ++ right)
      (left.length + (s.encode ++ rest).length) left.length units)
      (if (units ++ s.unit?.toList).length ≤ capacity then
        .ok (left.length + s.encode.length, units ++ s.unit?.toList) else _)
    cases s with
    | drhd unit size scopes fits =>
      have h16 : 16 ≤ (drhd unit size scopes fits).encode.length := hheader
      have htype : fromLe ((encode (drhd unit size scopes fits) ++ rest).take 2) = 0 :=
        fromLe_toLe_two (by decide)
      rw [dmarStructure, if_neg (by omega)]
      refine (ends_type right hP (by omega)).bind ?_
      refine (ends_leAt_middle hP (by omega) hlen).bind ?_
      rw [if_neg (by omega), if_pos htype, if_neg (by omega)]
      by_cases hfull : units.length ≥ capacity
      · rw [if_pos hfull, if_neg (by simp [unit?]; omega)]
        exact ends_fail _ _
      rw [if_neg hfull, if_pos (by simp [unit?]; omega)]
      refine (ends_byteAt_middle hP rfl).bind ?_
      refine (ends_leAt_middle hP (by omega) (by exact fromLe_toLe_two fits.1)).bind ?_
      refine (ends_leAt_middle hP (by omega) (by exact fromLe_toLe_eight fits.2.1)).bind ?_
      exact ends_pure _
    | other structureType payload fits =>
      have h4 : 4 ≤ (other structureType payload fits).encode.length := hheader
      have htype : fromLe ((encode (other structureType payload fits) ++ rest).take 2) =
          structureType := fromLe_toLe_two fits.2.1
      rw [dmarStructure, if_neg (by omega), if_pos (by simpa [unit?] using hcap)]
      refine (ends_type right hP (by omega)).bind ?_
      refine (ends_leAt_middle hP (by omega) hlen).bind ?_
      rw [if_neg (by omega), htype, if_neg fits.1]
      exact (append_nil units).symm ▸ ends_pure _
  malformed := by
    intro P left right bad units hP hbad
    obtain ⟨hne, hbad⟩ := hbad
    by_cases hfour : bad.length < 4
    · exact ⟨_, by rw [dmarStructure, if_pos (by omega)]; exact ends_fail _ _⟩
    have hlen : Ends P (leU16 (left ++ bad ++ right) (left.length + 2)) (.ok (structureLen bad)) :=
      ends_leAt_middle hP (by omega) rfl
    rw [dmarStructure, if_neg (by omega)]
    by_cases hshort : structureLen bad < 4 ∨
        left.length + structureLen bad > left.length + bad.length
    · refine ⟨⟨.invalidArgument, "DMAR remapping structure length is invalid"⟩,
        (ends_type right hP (by omega)).bind (hlen.bind ?_)⟩
      rw [if_pos hshort]
      exact ends_fail _ _
    have hzero : fromLe (bad.take 2) = 0 := by
      by_contra hzero
      rw [headerLen, if_neg hzero] at hbad
      omega
    rw [headerLen, if_pos hzero] at hbad
    refine ⟨⟨.invalidArgument, "DMAR DRHD structure is truncated"⟩,
      (ends_type right hP (by omega)).bind (hlen.bind ?_)⟩
    rw [if_neg hshort, if_pos hzero, if_pos (by omega)]
    exact ends_fail _ _

end DmarStructure

/-- A block of an IVRS table: a hardware unit, or anything of another type. -/
inductive IvrsStructure
  | hardware (unit : IvrsHardwareUnit) (devices : List UInt8)
    (kind : isHardwareBlock unit.entryType = true)
    (fits : unit.deviceId < 2 ^ 16 ∧ unit.capabilityOffset < 2 ^ 16 ∧ unit.baseAddress < 2 ^ 64 ∧
      16 + devices.length < 2 ^ 16)
  | other (entryType flags : UInt8) (payload : List UInt8) (kind : isHardwareBlock entryType = false)
    (fits : 12 ≤ payload.length ∧ 4 + payload.length < 2 ^ 16)

namespace IvrsStructure

def encode : IvrsStructure → List UInt8
  | hardware unit devices _ _ => [unit.entryType, unit.flags] ++ toLe 2 (16 + devices.length) ++
    toLe 2 unit.deviceId ++ toLe 2 unit.capabilityOffset ++ toLe 8 unit.baseAddress ++ devices
  | other entryType flags payload _ _ =>
    [entryType, flags] ++ toLe 2 (4 + payload.length) ++ payload

def unit? : IvrsStructure → Option IvrsHardwareUnit
  | hardware unit _ _ _ => some unit
  | other _ _ _ _ _ => none

/-- Every block has the 16 bytes up to the base address of a hardware unit. -/
def headerLen (_ : List UInt8) : ℕ := 16

theorem encode_ne_nil (s : IvrsStructure) : s.encode ≠ [] := by
  cases s <;> exact cons_ne_nil _ _

theorem encode_length (s : IvrsStructure) (rest : List UInt8) :
    structureLen (s.encode ++ rest) = s.encode.length ∧ 16 ≤ s.encode.length := by
  cases s with
  | hardware unit devices kind fits =>
    have hlen : (hardware unit devices kind fits).encode.length = 16 + devices.length := by
      simp [encode]
      omega
    exact ⟨hlen ▸ fromLe_toLe_two fits.2.2.2, by omega⟩
  | other entryType flags payload kind fits =>
    have hlen : (other entryType flags payload kind fits).encode.length = 4 + payload.length := by
      simp [encode]
      omega
    exact ⟨hlen ▸ fromLe_toLe_two fits.2, by omega⟩

theorem broken_or_encode (bytes : List UInt8) (hne : bytes ≠ []) :
    Broken headerLen bytes ∨ ∃ s rest, bytes = encode s ++ rest := by
  by_cases hbroken : Broken headerLen bytes
  · exact .inl hbroken
  refine .inr ?_
  simp only [Broken, not_and, not_or, Nat.not_lt, headerLen] at hbroken
  obtain ⟨hfour, hheader, hend⟩ := hbroken hne
  obtain ⟨entryType, bytes, rfl⟩ := exists_cons_of_length_pos (by omega : 0 < bytes.length)
  rw [length_cons] at hfour
  obtain ⟨flags, bytes, rfl⟩ := exists_cons_of_length_pos (by omega : 0 < bytes.length)
  rw [length_cons] at hfour
  obtain ⟨len, bytes, rfl, hlen⟩ := exists_append (by omega : 2 ≤ bytes.length)
  have hlt := fromLe_lt_of_length hlen
  rw [structureLen, drop_succ_cons, drop_succ_cons, drop_zero, take_left' hlen] at hheader hend
  simp only [length_cons, length_append, hlen] at hend
  cases hkind : isHardwareBlock entryType with
  | true =>
    obtain ⟨device, bytes, rfl, hdevice⟩ := exists_append (by omega : 2 ≤ bytes.length)
    rw [length_append] at hend
    obtain ⟨capability, bytes, rfl, hcapability⟩ := exists_append (by omega : 2 ≤ bytes.length)
    rw [length_append] at hend
    obtain ⟨base, bytes, rfl, hbase⟩ := exists_append (by omega : 8 ≤ bytes.length)
    rw [length_append] at hend
    obtain ⟨devices, rest, rfl, hdevices⟩ :=
      exists_append (by omega : fromLe len - 16 ≤ bytes.length)
    refine ⟨hardware ⟨entryType, flags, fromLe device, fromLe capability, fromLe base⟩ devices hkind
      ⟨fromLe_lt_of_length hdevice, fromLe_lt_of_length hcapability, fromLe_lt_of_length hbase,
        by omega⟩, rest, ?_⟩
    rw [encode, toLe_fromLe_of_length hdevice, toLe_fromLe_of_length hcapability,
      toLe_fromLe_of_length hbase, hdevices, Nat.add_sub_cancel' hheader,
      toLe_fromLe_of_length hlen]
    simp only [append_assoc, cons_append, nil_append]
  | false =>
    obtain ⟨payload, rest, rfl, hpayload⟩ :=
      exists_append (by omega : fromLe len - 4 ≤ bytes.length)
    refine ⟨other entryType flags payload hkind ⟨by omega, by omega⟩, rest, ?_⟩
    rw [encode, hpayload, Nat.add_sub_cancel' (by omega), toLe_fromLe_of_length hlen]
    simp only [append_assoc, cons_append, nil_append]

def format : Format IvrsHardwareUnit where
  Structure := IvrsStructure
  encode := encode
  unit? := unit?
  Malformed := Broken headerLen
  encode_ne_nil := encode_ne_nil
  malformed_ne_nil := fun _ h => h.1
  malformed_or_encode := broken_or_encode

theorem reads (capacity : ℕ) :
    format.Reads capacity ⟨.capacityExceeded, "IVRS hardware unit table is full"⟩
      (ivrsStructure capacity) where
  sound := by
    intro P left right rest s units hP hcap
    obtain ⟨hlen, hheader⟩ := encode_length s rest
    have hle : (s.encode ++ rest).length = s.encode.length + rest.length := length_append
    change ∀ i, _ → _ < _ + (s.encode ++ rest).length → _ at hP
    change Ends P (ivrsStructure capacity (left ++ (s.encode ++ rest) ++ right)
      (left.length + (s.encode ++ rest).length) left.length units)
      (if (units ++ s.unit?.toList).length ≤ capacity then
        .ok (left.length + s.encode.length, units ++ s.unit?.toList) else _)
    rw [ivrsStructure, if_neg (by omega)]
    cases s with
    | hardware unit devices kind fits =>
      refine (ends_byteAt_middle (k := 0) hP rfl).bind ((ends_byteAt_middle hP rfl).bind ?_)
      refine (ends_leAt_middle hP (by omega) hlen).bind ?_
      rw [if_neg (by omega), if_pos kind]
      by_cases hfull : units.length ≥ capacity
      · rw [if_pos hfull, if_neg (by simp [unit?]; omega)]
        exact ends_fail _ _
      rw [if_neg hfull, if_pos (by simp [unit?]; omega)]
      refine (ends_leAt_middle hP (by omega) (by exact fromLe_toLe_two fits.1)).bind ?_
      refine (ends_leAt_middle hP (by omega) (by exact fromLe_toLe_two fits.2.1)).bind ?_
      refine (ends_leAt_middle hP (by omega) (by exact fromLe_toLe_eight fits.2.2.1)).bind ?_
      exact ends_pure _
    | other entryType flags payload kind fits =>
      rw [if_pos (by simpa [unit?] using hcap)]
      refine (ends_byteAt_middle (k := 0) hP rfl).bind ((ends_byteAt_middle hP rfl).bind ?_)
      refine (ends_leAt_middle hP (by omega) hlen).bind ?_
      rw [if_neg (by omega), kind, if_neg Bool.false_ne_true]
      exact (append_nil units).symm ▸ ends_pure _
  malformed := by
    intro P left right bad units hP hbad
    obtain ⟨hne, hbad⟩ := hbad
    rw [headerLen, structureLen] at hbad
    by_cases hfour : bad.length < 4
    · exact ⟨_, by rw [ivrsStructure, if_pos (by omega)]; exact ends_fail _ _⟩
    have hbyte : ∀ k (hk : k < 2), Ends P (byteAt (left ++ bad ++ right) (left.length + k))
        (.ok (bad.get ⟨k, by omega⟩)) := fun k hk =>
      ends_byteAt_middle hP (getElem?_eq_getElem (by omega))
    refine ⟨⟨.invalidArgument, "IVRS hardware block length is invalid"⟩, ?_⟩
    rw [ivrsStructure, if_neg (by omega)]
    refine (hbyte 0 (by decide)).bind ((hbyte 1 (by decide)).bind ?_)
    refine (ends_leAt_middle hP (by omega) rfl).bind ?_
    rw [if_pos (by omega)]
    exact ends_fail _ _

end IvrsStructure

/-- The length a table gives in its header. -/
def declaredLength (bytes : List UInt8) : ℕ := fromLe ((bytes.drop 4).take 4)

/-- The offsets of the table, and those of the fixed header. -/
def Within (bytes : List UInt8) (i : ℕ) : Prop :=
  i < bytes.length ∧ (i < ACPI_HEADER_LEN ∨ i < declaredLength bytes)

theorem parseHeader_ends {bytes expected : List UInt8} {revision : UInt8}
    (hlen : ACPI_HEADER_LEN ≤ bytes.length) (hsignature : bytes.take 4 = expected)
    (hrevision : bytes[8]? = some revision) :
    Ends (Within bytes) (parseHeader bytes expected)
      (.ok ⟨expected, declaredLength bytes, revision⟩) := by
  have h36 : 36 ≤ bytes.length := hlen
  have hwithin : ∀ i, i < 36 → Within bytes i := fun i hi => ⟨by omega, .inl hi⟩
  rw [parseHeader, if_neg (Nat.not_lt.mpr hlen)]
  have hslice : slice bytes 0 4 = some (bytes.take 4) := slice_of_le (by omega) (by omega)
  refine (ends_sliceAt hslice fun i _ hi => hwithin i (by omega)).bind ?_
  rw [hsignature, if_neg (not_not_intro rfl)]
  have hlength := slice_of_le (by omega : 4 ≤ 4 + 4) (by omega : 4 + 4 ≤ bytes.length)
  refine (ends_leAt hlength fun i _ hi => hwithin i (by omega)).bind ?_
  refine (ends_byteAt hrevision (hwithin 8 (by omega))).bind ?_
  exact ends_pure _

theorem parseHeader_refused {bytes expected : List UInt8}
    (h : ¬ (ACPI_HEADER_LEN ≤ bytes.length ∧ bytes.take 4 = expected)) :
    ∃ e, Ends (Within bytes) (parseHeader bytes expected) (.error (.error e)) := by
  by_cases hlen : bytes.length < ACPI_HEADER_LEN
  · exact ⟨_, by rw [parseHeader, if_pos hlen]; exact ends_fail _ _⟩
  have h36 : 36 ≤ bytes.length := Nat.not_lt.mp hlen
  have hsignature : bytes.take 4 ≠ expected := fun heq => h ⟨h36, heq⟩
  have hslice : slice bytes 0 4 = some (bytes.take 4) := slice_of_le (by omega) (by omega)
  refine ⟨⟨.invalidArgument, "ACPI table signature does not match the requested parser"⟩, ?_⟩
  rw [parseHeader, if_neg hlen]
  refine (ends_sliceAt hslice fun i _ hi => ⟨by omega, .inl (Nat.lt_trans hi (by decide))⟩).bind ?_
  rw [if_pos hsignature]
  exact ends_fail _ _

theorem checkedTableLen_ends {P : ℕ → Prop} {bytes : List UInt8} {declared : ℕ}
    (h : ACPI_HEADER_LEN ≤ declared) (h' : declared ≤ bytes.length) :
    Ends P (checkedTableLen bytes declared) (.ok declared) := by
  rw [checkedTableLen, if_neg (by omega)]
  exact ends_pure _

/-- A parse that ends in a table or an error, with reads within the table. -/
def Safe {α : Type} (bytes : List UInt8) (x : Parse α) : Prop :=
  ((∃ table, (x.run []).1 = .ok table) ∨ ∃ e, (x.run []).1 = .error (.error e)) ∧
    ∀ i ∈ (x.run []).2, Within bytes i

theorem Ends.safe {α : Type} {bytes : List UInt8} {x : Parse α} {r : Except Stop α}
    (h : Ends (Within bytes) x r) (hr : (∃ table, r = .ok table) ∨ ∃ e, r = .error (.error e)) :
    Safe bytes x := by
  obtain ⟨reads, hrun, hreads⟩ := h []
  rw [Safe, hrun]
  exact ⟨hr, hreads⟩

theorem Ends.result {α : Type} {P : ℕ → Prop} {x : Parse α} {r : Except Stop α}
    (h : Ends P x r) : (x.run []).1 = r := by
  obtain ⟨reads, hrun, -⟩ := h []
  rw [hrun]

theorem map_ok_or_error {α β : Type} {r : Except Stop α} (f : α → β)
    (h : (∃ a, r = .ok a) ∨ ∃ e, r = .error (.error e)) :
    (∃ b, r.map f = .ok b) ∨ ∃ e, r.map f = .error (.error e) := by
  rcases h with ⟨a, rfl⟩ | ⟨e, rfl⟩
  · exact .inl ⟨f a, rfl⟩
  · exact .inr ⟨e, rfl⟩

/-- What a table's header holds besides its signature and its length. -/
structure Head where
  revision : UInt8
  oem : List UInt8
  oem_length : oem.length = 27

structure DmarBody where
  hostAddressWidth : UInt8
  flags : UInt8
  reserved : List UInt8
  reserved_length : reserved.length = 10

structure IvrsBody where
  ivInfo : ℕ
  reserved : List UInt8
  ivInfo_lt : ivInfo < 2 ^ 32
  reserved_length : reserved.length = 8

/-- A table with a correct header: its signature, its length, and the fixed body. -/
def image (signature : List UInt8) (head : Head) (body content : List UInt8) : List UInt8 :=
  signature ++ toLe 4 (48 + content.length) ++ head.revision :: head.oem ++ body ++ content

def DmarBody.encode (body : DmarBody) : List UInt8 :=
  body.hostAddressWidth :: body.flags :: body.reserved

def IvrsBody.encode (body : IvrsBody) : List UInt8 := toLe 4 body.ivInfo ++ body.reserved

/-- A buffer whose header is right starts with a table. -/
theorem exists_image {bytes : List UInt8} (h48 : 48 ≤ declaredLength bytes)
    (hle : declaredLength bytes ≤ bytes.length) : ∃ head body content rest,
      bytes = image (bytes.take 4) head body content ++ rest ∧ body.length = 12 ∧
        48 + content.length < 2 ^ 32 := by
  obtain ⟨signature, bytes, rfl, hsignature⟩ := exists_append (by omega : 4 ≤ bytes.length)
  rw [length_append] at hle
  obtain ⟨length, bytes, rfl, hlength⟩ := exists_append (by omega : 4 ≤ bytes.length)
  have hlt := fromLe_lt_of_length hlength
  rw [declaredLength, drop_left' hsignature, take_left' hlength] at h48 hle
  rw [length_append] at hle
  obtain ⟨revision, bytes, rfl⟩ := exists_cons_of_length_pos (by omega : 0 < bytes.length)
  rw [length_cons] at hle
  obtain ⟨oem, bytes, rfl, hoem⟩ := exists_append (by omega : 27 ≤ bytes.length)
  rw [length_append] at hle
  obtain ⟨body, bytes, rfl, hbody⟩ := exists_append (by omega : 12 ≤ bytes.length)
  rw [length_append] at hle
  obtain ⟨content, rest, rfl, hcontent⟩ :=
    exists_append (by omega : fromLe length - 48 ≤ bytes.length)
  refine ⟨⟨revision, oem, hoem⟩, body, content, rest, ?_, hbody, by omega⟩
  rw [image, take_left' hsignature, hcontent, Nat.add_sub_cancel' h48, toLe_fromLe_of_length hlength]
  simp only [append_assoc, cons_append]

/-- Both parsers read the header, check the length, read the fixed body and loop over the
structures, and make the table of what they have found. -/
structure Reader {Unit τ : Type} (F : Format Unit) (capacity : ℕ) (full : CoreError)
    (signature : List UInt8) (make : AcpiHeader → List UInt8 → List Unit → τ)
    (parser : List UInt8 → Parse τ) where
  step : List UInt8 → ℕ → ℕ → List Unit → Parse (ℕ × List Unit)
  next : List UInt8 → AcpiHeader → ℕ → Parse τ
  message : String
  signature_length : signature.length = 4
  parser_eq : ∀ bytes, parser bytes = do
    let header ← parseHeader bytes signature
    let total ← checkedTableLen bytes header.length
    if total < 48 then fail .invalidArgument message else next bytes header total
  step_reads : F.Reads capacity full step
  next_ends : ∀ {P : ℕ → Prop} {left body : List UInt8} (right : List UInt8) (header : AcpiHeader)
    {total : ℕ} {r : Except Stop (List Unit)}, left.length = 36 → body.length = 12 →
    (∀ i, left.length ≤ i → i < left.length + body.length → P i) →
    Ends P (structures (step (left ++ body ++ right) total) total total 48 []) r →
    Ends P (next (left ++ body ++ right) header total) (r.map (make header body))

namespace Reader

variable {Unit τ : Type} {F : Format Unit} {capacity : ℕ} {full : CoreError}
  {signature : List UInt8} {make : AcpiHeader → List UInt8 → List Unit → τ}
  {parser : List UInt8 → Parse τ}

theorem image_ends (h : Reader F capacity full signature make parser) (head : Head)
    {body bad : List UInt8} (rest : List UInt8) {ss : List F.Structure} (hbody : body.length = 12)
    (hlen : 48 + (F.encodeAll ss ++ bad).length < 2 ^ 32) (hbad : bad = [] ∨ F.Malformed bad) :
    ∃ e, Ends (Within (image signature head body (F.encodeAll ss ++ bad) ++ rest))
      (parser (image signature head body (F.encodeAll ss ++ bad) ++ rest))
      ((Format.loopEnd capacity full e bad (F.units ss)).map
        (make ⟨signature, 48 + (F.encodeAll ss ++ bad).length, head.revision⟩ body)) := by
  obtain ⟨revision, oem, hoem⟩ := head
  have hsignature := h.signature_length
  set content := F.encodeAll ss ++ bad with hcontent
  set fixed := signature ++ toLe 4 (48 + content.length) ++ revision :: oem with hfixed
  have hleft : fixed.length = 36 := by
    simp only [hfixed, length_append, length_cons, toLe_length, hsignature, hoem]
  have hbytes : image signature ⟨revision, oem, hoem⟩ body content ++ rest =
      fixed ++ body ++ (content ++ rest) := append_assoc _ _ _
  rw [hbytes]
  set bytes := fixed ++ body ++ (content ++ rest) with hall
  have hlength : bytes.length = 48 + content.length + rest.length := by
    simp only [hall, length_append]
    omega
  have htake : bytes.take 4 = signature := by
    simp only [hall, hfixed, append_assoc]
    exact take_left' hsignature
  have hdeclared : declaredLength bytes = 48 + content.length := by
    simp only [declaredLength, hall, hfixed, append_assoc]
    rw [drop_left' hsignature, take_left' (toLe_length _ _), fromLe_toLe hlen]
  have hrevision : bytes[8]? = some revision := by
    simp only [hall, hfixed, append_assoc]
    rw [getElem?_append_right (by omega), hsignature, getElem?_append_right (by rw [toLe_length])]
    rfl
  have hwithin : ∀ i, i < 48 + content.length → Within bytes i :=
    fun i hi => ⟨by omega, .inr (by omega)⟩
  have h36 : ACPI_HEADER_LEN = 36 := rfl
  have h48 : (fixed ++ body).length = 48 := by rw [length_append, hleft, hbody]
  obtain ⟨e, he⟩ := Format.structures_ends h.step_reads hbad ss (fixed ++ body) 48
    (48 + content.length) [] (append_assoc _ content rest).symm h48.symm (by rw [h48])
    (Nat.sub_le _ _) (fun i _ hi => hwithin i hi) (Nat.zero_le _)
  refine ⟨e, ?_⟩
  rw [h.parser_eq]
  refine (parseHeader_ends (by omega) htake hrevision).bind ?_
  rw [hdeclared]
  dsimp only
  refine (checkedTableLen_ends (by omega) (by omega)).bind ?_
  rw [if_neg (by omega)]
  exact h.next_ends _ _ hleft hbody (fun i _ hi => hwithin i (by omega)) he

theorem safe (h : Reader F capacity full signature make parser) (bytes : List UInt8) :
    Safe bytes (parser bytes) := by
  by_cases hheader : ACPI_HEADER_LEN ≤ bytes.length ∧ bytes.take 4 = signature
  · have hlen : 36 ≤ bytes.length := hheader.1
    have hrevision := getElem?_eq_getElem (by omega : 8 < bytes.length)
    have hends := parseHeader_ends hheader.1 hheader.2 hrevision
    by_cases hdeclared : declaredLength bytes > bytes.length ∨
        declaredLength bytes < ACPI_HEADER_LEN
    · refine Ends.safe (r := .error (.error ⟨.invalidArgument,
        "ACPI table declared length is outside the supplied fixture"⟩)) ?_ (.inr ⟨_, rfl⟩)
      rw [h.parser_eq]
      refine hends.bind (Ends.bind_error ?_)
      rw [checkedTableLen, if_pos hdeclared]
      exact ends_fail _ _
    obtain ⟨hle, hge⟩ := not_or.mp hdeclared
    by_cases hshort : declaredLength bytes < 48
    · refine Ends.safe (r := .error (.error ⟨.invalidArgument, h.message⟩)) ?_ (.inr ⟨_, rfl⟩)
      rw [h.parser_eq]
      refine hends.bind ((checkedTableLen_ends (Nat.not_lt.mp hge) (Nat.not_lt.mp hle)).bind ?_)
      rw [if_pos hshort]
      exact ends_fail _ _
    obtain ⟨head, body, content, rest, hbytes, hbody, hlt⟩ :=
      exists_image (Nat.not_lt.mp hshort) (Nat.not_lt.mp hle)
    obtain ⟨ss, bad, rfl, hbad⟩ := F.exists_decomposition content
    obtain ⟨e, he⟩ := h.image_ends head rest hbody hlt hbad
    rw [← hheader.2, ← hbytes] at he
    exact he.safe (map_ok_or_error _ (Format.loopEnd_ok_or_error _ _ _ _ _))
  · obtain ⟨e, he⟩ := parseHeader_refused hheader
    rw [h.parser_eq]
    exact (Ends.bind_error he).safe (.inr ⟨e, rfl⟩)

variable (h : Reader F capacity full signature make parser) (head : Head)
  {body : List UInt8} (rest : List UInt8) (ss : List F.Structure) (hbody : body.length = 12)

include h hbody

theorem image_exact (hlen : 48 + (F.encodeAll ss).length < 2 ^ 32) :
    ((parser (image signature head body (F.encodeAll ss) ++ rest)).run []).1 =
      if (F.units ss).length ≤ capacity then
        .ok (make ⟨signature, 48 + (F.encodeAll ss).length, head.revision⟩ body (F.units ss))
      else .error (.error full) := by
  rw [← append_nil (F.encodeAll ss)] at hlen ⊢
  obtain ⟨e, he⟩ := h.image_ends head rest hbody hlen (.inl rfl)
  rw [he.result, Format.loopEnd, apply_ite (Except.map _)]
  rfl

theorem image_refused {bad : List UInt8} (hlen : 48 + (F.encodeAll ss ++ bad).length < 2 ^ 32)
    (hbad : F.Malformed bad) :
    ∃ e, ((parser (image signature head body (F.encodeAll ss ++ bad) ++ rest)).run []).1 =
      .error (.error e) := by
  obtain ⟨e, he⟩ := h.image_ends head rest hbody hlen (.inr hbad)
  rw [he.result, Format.loopEnd, if_neg (F.malformed_ne_nil bad hbad)]
  split_ifs
  · exact ⟨e, rfl⟩
  · exact ⟨full, rfl⟩

end Reader

def dmarReader (capacity : ℕ) : Reader DmarStructure.format capacity
    ⟨.capacityExceeded, "DMAR hardware unit table is full"⟩ DMAR
    (fun header body units => ⟨header, body.getD 0 0, body.getD 1 0, units⟩)
    (parseDmar capacity) where
  step := dmarStructure capacity
  next := _
  message := _
  signature_length := rfl
  parser_eq := fun _ => rfl
  step_reads := DmarStructure.reads capacity
  next_ends := by
    intro P left body right header total r hleft hbody hP hloop
    have hbyte : ∀ k < 2, Ends P (byteAt (left ++ body ++ right) (36 + k)) (.ok (body.getD k 0)) := by
      intro k hk
      rw [← hleft]
      apply ends_byteAt_middle hP
      rw [getElem?_eq_getElem (by omega), getD_eq_getElem _ _ (by omega)]
    exact (hbyte 0 (by decide)).bind ((hbyte 1 (by decide)).bind (hloop.map _))

def ivrsReader (capacity : ℕ) : Reader IvrsStructure.format capacity
    ⟨.capacityExceeded, "IVRS hardware unit table is full"⟩ IVRS
    (fun header body units => ⟨header, fromLe (body.take 4), units⟩) (parseIvrs capacity) where
  step := ivrsStructure capacity
  next := _
  message := _
  signature_length := rfl
  parser_eq := fun _ => rfl
  step_reads := IvrsStructure.reads capacity
  next_ends := by
    intro P left body right header total r hleft hbody hP hloop
    have hinfo : Ends P (leU32 (left ++ body ++ right) 36) (.ok (fromLe (body.take 4))) := by
      rw [← hleft]
      exact @ends_leAt_middle P left body right 0 4 _ _ hP (by omega) rfl
    exact hinfo.bind (hloop.map _)

theorem DmarBody.encode_length (body : DmarBody) : body.encode.length = 12 := by
  simp only [DmarBody.encode, length_cons, body.reserved_length]

theorem IvrsBody.encode_length (body : IvrsBody) : body.encode.length = 12 := by
  simp only [IvrsBody.encode, length_append, toLe_length, body.reserved_length]

/-- Both parsers end in a table or an error on any bytes and read, past the fixed header, within
the declared length. They return the hardware units of a well-formed table, in order, if there is
room for them, and refuse a table with a structure that is shorter than its header or runs past the
end of the table. -/
theorem acpi_parsers_exact (capacity : ℕ) :
    (∀ bytes, Safe bytes (parseDmar capacity bytes) ∧ Safe bytes (parseIvrs capacity bytes)) ∧
    (∀ (head : Head) (body : DmarBody) (ss : List DmarStructure) (rest : List UInt8),
      48 + (ss.flatMap DmarStructure.encode).length < 2 ^ 32 →
      ((parseDmar capacity (image DMAR head body.encode (ss.flatMap DmarStructure.encode) ++
          rest)).run []).1 =
        if (ss.filterMap DmarStructure.unit?).length ≤ capacity then
          .ok ⟨⟨DMAR, 48 + (ss.flatMap DmarStructure.encode).length, head.revision⟩,
            body.hostAddressWidth, body.flags, ss.filterMap DmarStructure.unit?⟩
        else .error (.error ⟨.capacityExceeded, "DMAR hardware unit table is full"⟩)) ∧
    (∀ (head : Head) (body : DmarBody) (ss : List DmarStructure) (bad rest : List UInt8),
      48 + (ss.flatMap DmarStructure.encode ++ bad).length < 2 ^ 32 →
      Broken DmarStructure.headerLen bad →
      ∃ e, ((parseDmar capacity (image DMAR head body.encode
        (ss.flatMap DmarStructure.encode ++ bad) ++ rest)).run []).1 = .error (.error e)) ∧
    (∀ (head : Head) (body : IvrsBody) (ss : List IvrsStructure) (rest : List UInt8),
      48 + (ss.flatMap IvrsStructure.encode).length < 2 ^ 32 →
      ((parseIvrs capacity (image IVRS head body.encode (ss.flatMap IvrsStructure.encode) ++
          rest)).run []).1 =
        if (ss.filterMap IvrsStructure.unit?).length ≤ capacity then
          .ok ⟨⟨IVRS, 48 + (ss.flatMap IvrsStructure.encode).length, head.revision⟩,
            body.ivInfo, ss.filterMap IvrsStructure.unit?⟩
        else .error (.error ⟨.capacityExceeded, "IVRS hardware unit table is full"⟩)) ∧
    (∀ (head : Head) (body : IvrsBody) (ss : List IvrsStructure) (bad rest : List UInt8),
      48 + (ss.flatMap IvrsStructure.encode ++ bad).length < 2 ^ 32 →
      Broken IvrsStructure.headerLen bad →
      ∃ e, ((parseIvrs capacity (image IVRS head body.encode
        (ss.flatMap IvrsStructure.encode ++ bad) ++ rest)).run []).1 = .error (.error e)) := by
  refine ⟨fun bytes => ⟨(dmarReader capacity).safe bytes, (ivrsReader capacity).safe bytes⟩,
    ?_, ?_, ?_, ?_⟩
  · intro head body ss rest hlen
    exact (dmarReader capacity).image_exact head rest ss body.encode_length hlen
  · intro head body ss bad rest hlen hbad
    exact (dmarReader capacity).image_refused head rest ss body.encode_length hlen hbad
  · intro head body ss rest hlen
    have hinfo : fromLe (body.encode.take 4) = body.ivInfo := by
      rw [IvrsBody.encode, take_left' (toLe_length _ _), fromLe_toLe body.ivInfo_lt]
    rw [← hinfo]
    exact (ivrsReader capacity).image_exact head rest ss body.encode_length hlen
  · intro head body ss bad rest hlen hbad
    exact (ivrsReader capacity).image_refused head rest ss body.encode_length hlen hbad

def plainHead : Head := ⟨1, List.replicate 27 0, rfl⟩

def plainBody : DmarBody := ⟨0x30, 1, List.replicate 10 0, rfl⟩

/-- Two hardware units with a structure of a type the parser does not know between them. -/
def twoUnits : List DmarStructure :=
  [.drhd ⟨1, 0, 0xfed90000⟩ 0 [] (by decide), .other 1 [] (by decide),
    .drhd ⟨0, 0, 0xfed91000⟩ 0 [] (by decide)]

theorem acpi_parsers_exact_twoUnits :
    ((parseDmar 2 (image DMAR plainHead plainBody.encode
        (twoUnits.flatMap DmarStructure.encode) ++ [])).run []).1 =
      .ok ⟨⟨DMAR, 84, 1⟩, 0x30, 1, [⟨1, 0, 0xfed90000⟩, ⟨0, 0, 0xfed91000⟩]⟩ :=
  (acpi_parsers_exact 2).2.1 plainHead plainBody twoUnits [] (by decide)

/-- A table with more units than there is room for is refused, and the header is read before the
declared length is known. -/
theorem full_table_refused :
    ((parseDmar 1 (image DMAR plainHead plainBody.encode
        (twoUnits.flatMap DmarStructure.encode))).run []).1 =
      .error (.error ⟨.capacityExceeded, "DMAR hardware unit table is full"⟩) ∧
    declaredLength (DMAR ++ List.replicate 32 0) = 0 ∧
    8 ∈ ((parseDmar 1 (DMAR ++ List.replicate 32 0)).run []).2 := by
  refine ⟨?_, rfl, by decide⟩
  have hfull := (dmarReader 1).image_exact plainHead [] twoUnits plainBody.encode_length (by decide)
  exact hfull

end AegisHV.Acpi
