import AegisHV.Spec.Trace

/-! What the parser of trace lines reads back from a line as ftrace prints it. The marker of the
tracepoint has no hyphen, bracket or space, so the parts of the line are crossed one by one; the
rest is which task names the token rules of the header take apart as they were put together. -/

namespace AegisHV.Trace

open Sys List

variable {line before after rawComm : List Char} {exit : ParsedExit}

theorem parseLine_eq_parsed :
    parseLine line = .parsed exit ↔ parseKvmExitLineResult line = .ok exit := by
  unfold parseLine
  split_ifs with hmarker hkvm
  · cases hresult : parseKvmExitLineResult line <;> simp
  all_goals
    have hnone : splitFirst marker line = none := by
      rw [contains, Option.isSome_iff_ne_none, not_not] at hmarker
      exact hmarker
    simp [parseKvmExitLineResult, hnone]

theorem exitReason_parseRest_nil : exitReason (parseRest []) = "UNKNOWN".toList := by decide

/-- The header of a line that was cut in front of the marker. -/
def headerOf (before : List Char) : List Char := trim (trimEndMatches ':' before)

/-- What a parsed exit owes to the header. -/
structure HeaderFields (header rawComm : List Char) (exit : ParsedExit) : Prop where
  word : (splitWhitespace header).head? = some rawComm
  vm : exit.vm = (parseCommPid rawComm).1
  hostPid : exit.hostPid = (parseCommPid rawComm).2
  vmId : exit.vmId = (parseCommPid rawComm).2.map fun pid => "host-pid:".toList ++ showI32 pid
  hostCpu : exit.hostCpu = parseHostCpu header

theorem parse_ok (hsplit : splitFirst marker line = some (before, after))
    (hword : (splitWhitespace (headerOf before)).head? = some rawComm) (hrest : trim after ≠ []) :
    ∃ exit, parseKvmExitLineResult line = .ok exit ∧
      HeaderFields (headerOf before) rawComm exit := by
  have hword' : (splitWhitespace (trim (trimEndMatches ':' before))).head? = some rawComm := hword
  simp only [parseKvmExitLineResult, hsplit, hword', hrest, and_false, if_false]
  exact ⟨_, rfl, hword, rfl, rfl, rfl, rfl⟩

theorem parse_ok_inv (h : parseKvmExitLineResult line = .ok exit) :
    ∃ before after rawComm, splitFirst marker line = some (before, after) ∧ trim after ≠ [] ∧
      HeaderFields (headerOf before) rawComm exit := by
  cases hsplit : splitFirst marker line with
  | none => simp [parseKvmExitLineResult, hsplit] at h
  | some cut =>
    obtain ⟨before, after⟩ := cut
    cases hword : (splitWhitespace (headerOf before)).head? with
    | none =>
      unfold headerOf at hword
      simp [parseKvmExitLineResult, hsplit, hword] at h
    | some rawComm =>
      have hword' : (splitWhitespace (trim (trimEndMatches ':' before))).head? = some rawComm :=
        hword
      have hrest : trim after ≠ [] := by
        intro hrest
        simp [parseKvmExitLineResult, hsplit, hword', hrest, exitReason_parseRest_nil] at h
      obtain ⟨exit', hok, hfields⟩ := parse_ok hsplit hword hrest
      rw [hok, Except.ok.injEq] at h
      exact ⟨before, after, rawComm, rfl, hrest, h ▸ hfields⟩

/-- The name is a part of the first word of the header. -/
theorem parseCommPid_sublist (raw : List Char) : (parseCommPid raw).1 <:+: raw := by
  unfold parseCommPid
  split
  · next name tail hsplit =>
    split
    · rw [splitLast_spec hsplit]
      exact (prefix_append _ _).isInfix
    · exact infix_rfl
  · exact infix_rfl

theorem length_headerOf_le (before : List Char) : (headerOf before).length ≤ before.length := by
  obtain ⟨front, back, hs, -⟩ := trim_spec (trimEndMatches ':' before)
  have hlen := congrArg List.length hs
  have hle : (trimEndMatches ':' before).length ≤ before.length :=
    ( rdropWhile_prefix _ _).length_le
  simp only [length_append] at hlen
  unfold headerOf
  omega

theorem HeaderFields.vm_spec (h : HeaderFields (headerOf before) rawComm exit) :
    (∀ c ∈ exit.vm, isWhitespace c = false) ∧ exit.vm.length ≤ before.length := by
  have hpart := parseCommPid_sublist rawComm
  obtain ⟨hblack, hlen⟩ := mem_splitWords (mem_of_mem_head? h.word)
  rw [h.vm]
  constructor
  · intro c hc
    exact hblack c (hpart.subset hc)
  · exact hpart.length_le.trans (hlen.trans (length_headerOf_le before))

theorem isWhitespace_digitChar : ∀ n < 10, isWhitespace (Nat.digitChar n) = false := by decide

theorem parseHostCpu_cut {a b c : List Char} (ha : '[' ∉ a) (hb : ']' ∉ b) :
    parseHostCpu (a ++ '[' :: (b ++ ']' :: c)) = parseI32 (trim b) := by
  simp [parseHostCpu, splitFirst_singleton ha, splitFirst_singleton hb]

namespace TraceLine

variable (l : TraceLine)

/-- The part of the header that ends with the bracket of the CPU. -/
def place : List Char :=
  l.comm ++ '-' :: (Nat.toDigits 10 l.pid ++ ' ' :: '[' :: padded 10 l.cpuWidth l.cpu)

theorem not_digit_mem {width n : ℕ} {c : Char} (hc : c.isDigit = false) :
    c ∉ padded 10 width n := by
  intro h
  rw [isDigit_of_mem_padded h] at hc
  cases hc

theorem not_digit_mem_toDigits {n : ℕ} {c : Char} (hc : c.isDigit = false) :
    c ∉ Nat.toDigits 10 n := by
  rw [← padded_zero]
  exact not_digit_mem hc

theorem splitFirst_stamp_some (h : ¬ marker <:+: l.stamp) :
    splitFirst marker (l.stamp ++ ' ' :: (marker ++ ' ' :: l.payload)) =
      some (l.stamp ++ [' '], ' ' :: l.payload) := by
  have hstart : splitFirst marker (marker ++ ' ' :: l.payload) = some ([], ' ' :: l.payload) :=
    splitFirst_eq_some rfl fun _ _ _ => Nat.zero_le _
  rw [splitFirst_append_cons (by decide) h]
  rfl

/-- A marker in flags or time stamp is met first, and the marker of the line follows it. -/
theorem splitFirst_stamp_of_infix (h : marker <:+: l.stamp) : ∃ front back,
    splitFirst marker (l.stamp ++ ' ' :: (marker ++ ' ' :: l.payload)) =
      some (front, back ++ ' ' :: (marker ++ ' ' :: l.payload)) := by
  obtain ⟨x, z, hx⟩ := h
  have hcut : l.stamp ++ ' ' :: (marker ++ ' ' :: l.payload) =
      x ++ (marker ++ (z ++ ' ' :: (marker ++ ' ' :: l.payload))) := by
    rw [← hx]
    simp
  obtain ⟨front, back, hsplit, hle⟩ := splitFirst_first hcut
  have hs := splitFirst_spec hsplit
  rw [← append_assoc] at hs
  have hlen : (front ++ marker).length ≤ l.stamp.length := by
    rw [← hx]
    simp only [length_append]
    omega
  -- the marker that was found ends before the space in front of the marker of the line
  obtain ⟨mid, hmid⟩ := prefix_of_prefix_length_le ⟨back, hs.symm⟩
    (prefix_append l.stamp (' ' :: (marker ++ ' ' :: l.payload))) hlen
  refine ⟨front, mid, ?_⟩
  rw [← hmid, append_assoc _ mid, append_cancel_left_eq] at hs
  rw [hsplit, hs]

theorem exists_splitFirst_stamp : ∃ front back,
    splitFirst marker (l.stamp ++ ' ' :: (marker ++ ' ' :: l.payload)) = some (front, back) ∧
      (trim back ≠ [] ↔ (∃ c ∈ l.payload, isWhitespace c = false) ∨ marker <:+: l.stamp) := by
  by_cases h : marker <:+: l.stamp
  · obtain ⟨front, back, hsplit⟩ := splitFirst_stamp_of_infix l h
    refine ⟨front, _, hsplit, ?_⟩
    have hmarker : 'k' ∈ marker := by decide
    have hk : 'k' ∈ back ++ ' ' :: (marker ++ ' ' :: l.payload) := by simp [hmarker]
    have hblack : isWhitespace 'k' = false := by decide
    simp [ne_nil_of_mem (mem_trim hk hblack), h]
  · refine ⟨_, _, splitFirst_stamp_some l h, ?_⟩
    have hspace : isWhitespace ' ' = true := by decide
    simp [h, trim_eq_nil, hspace]

theorem splitFirst_text (h : ¬ marker <:+: l.comm) : splitFirst marker l.text =
    (splitFirst marker (l.stamp ++ ' ' :: (marker ++ ' ' :: l.payload))).map
      fun r => (l.place ++ ']' :: r.1, r.2) := by
  have hplace : ¬ marker <:+: Nat.toDigits 10 l.pid ++ ' ' :: '[' :: padded 10 l.cpuWidth l.cpu := by
    intro hpart
    have hk : 'k' ∈ Nat.toDigits 10 l.pid ++ ' ' :: '[' :: padded 10 l.cpuWidth l.cpu :=
      hpart.subset (by decide)
    simp [not_digit_mem, not_digit_mem_toDigits] at hk
  have htext : l.text = l.comm ++ '-' :: ((Nat.toDigits 10 l.pid ++ ' ' :: '[' ::
      padded 10 l.cpuWidth l.cpu) ++ ']' :: (l.stamp ++ ' ' :: (marker ++ ' ' :: l.payload))) := by
    simp [text]
  rw [htext, splitFirst_append_cons (by decide) h, splitFirst_append_cons (by decide) hplace]
  simp [Function.comp_def, place]

theorem headerOf_place (h : ∀ c ∈ l.comm, isWhitespace c = false) (y : List Char) :
    ∃ y', headerOf (l.place ++ ']' :: y) = l.place ++ ']' :: y' := by
  have htrim : trimEndMatches ':' (l.place ++ ']' :: y) = l.place ++ ']' :: trimEndMatches ':' y :=
    rdropWhile_append_cons (by decide)
  rw [headerOf, htrim]
  apply trim_append_cons _ (by decide)
  intro d hd
  rw [place, head?_append] at hd
  cases hcomm : l.comm with
  | nil =>
    rw [hcomm] at hd
    simp only [head?_nil, head?_cons, Option.none_or, Option.some.injEq] at hd
    rw [← hd]
    decide
  | cons c cs =>
    rw [hcomm] at hd
    simp only [head?_cons, Option.some_or, Option.some.injEq] at hd
    rw [← hd]
    exact h c (by simp [hcomm])

/-- The first word of the header is the task. -/
theorem head?_place (h : ∀ c ∈ l.comm, isWhitespace c = false) (y : List Char) :
    (splitWhitespace (l.place ++ ']' :: y)).head? =
      some (l.comm ++ '-' :: Nat.toDigits 10 l.pid) := by
  have hplace : l.place ++ ']' :: y = (l.comm ++ '-' :: Nat.toDigits 10 l.pid) ++
      ' ' :: ('[' :: (padded 10 l.cpuWidth l.cpu ++ ']' :: y)) := by simp [place]
  rw [hplace]
  apply head?_splitWords (by simp) _ (by decide)
  intro d hd
  rcases mem_append.1 hd with hd | hd
  · exact h d hd
  · rcases mem_cons.1 hd with rfl | hd
    · decide
    · obtain ⟨n, hn, rfl⟩ := exists_digitChar_of_mem_toDigits (by norm_num) hd
      exact isWhitespace_digitChar n hn

theorem parseI32_pid : parseI32 (Nat.toDigits 10 l.pid) = some (l.pid : ℤ) := by
  rw [← padded_zero]
  exact parseI32_padded l.pid_lt

theorem parseCommPid_task :
    parseCommPid (l.comm ++ '-' :: Nat.toDigits 10 l.pid) = (l.comm, some (l.pid : ℤ)) := by
  rw [parseCommPid, splitLast_eq_some (not_digit_mem_toDigits (by decide))]
  simp [parseI32_pid]

theorem trim_cpu : trim (padded 10 l.cpuWidth l.cpu) = padded 10 l.cpuWidth l.cpu := by
  apply trim_eq_self
  intro c hc
  obtain ⟨n, hn, rfl⟩ := exists_digitChar_of_mem_padded (by norm_num) hc
  exact isWhitespace_digitChar n hn

theorem parseHostCpu_of_bracket {a b c : List Char} (h : ∀ d ∈ l.comm, isWhitespace d = false)
    (hcomm : l.comm = a ++ '[' :: (b ++ ']' :: c)) (ha : '[' ∉ a) (hb : ']' ∉ b) (y : List Char) :
    parseHostCpu (l.place ++ ']' :: y) = parseI32 b := by
  have hblack : trim b = b := by
    apply trim_eq_self
    intro d hd
    exact h d (by simp [hcomm, hd])
  have hplace : l.place ++ ']' :: y = a ++ '[' :: (b ++ ']' :: (c ++ '-' ::
      (Nat.toDigits 10 l.pid ++ ' ' :: '[' :: (padded 10 l.cpuWidth l.cpu ++ ']' :: y)))) := by
    simp [place, hcomm]
  rw [hplace, parseHostCpu_cut ha hb, hblack]

theorem parseHostCpu_of_not_mem (h : '[' ∉ l.comm) (y : List Char) :
    parseHostCpu (l.place ++ ']' :: y) = some (l.cpu : ℤ) := by
  have hplace : l.place ++ ']' :: y = (l.comm ++ '-' :: (Nat.toDigits 10 l.pid ++ [' '])) ++
      '[' :: (padded 10 l.cpuWidth l.cpu ++ ']' :: y) := by simp [place]
  have hopen : '[' ∉ l.comm ++ '-' :: (Nat.toDigits 10 l.pid ++ [' ']) := by
    simp [h, not_digit_mem_toDigits]
  rw [hplace, parseHostCpu_cut hopen (not_digit_mem (by decide)), trim_cpu,
    parseI32_padded l.cpu_lt]

/-- A bracket that the name leaves open runs up to the bracket of the CPU, which is no number. -/
theorem parseHostCpu_of_open {a b : List Char} (hcomm : l.comm = a ++ '[' :: b) (ha : '[' ∉ a)
    (hb : ']' ∉ b) (y : List Char) : parseHostCpu (l.place ++ ']' :: y) = none := by
  have hplace : l.place ++ ']' :: y = a ++ '[' :: ((b ++ '-' :: (Nat.toDigits 10 l.pid ++
      ' ' :: '[' :: padded 10 l.cpuWidth l.cpu)) ++ ']' :: y) := by simp [place, hcomm]
  have hclose : ']' ∉ b ++ '-' :: (Nat.toDigits 10 l.pid ++ ' ' :: '[' ::
      padded 10 l.cpuWidth l.cpu) := by
    simp [hb, not_digit_mem, not_digit_mem_toDigits]
  rw [hplace, parseHostCpu_cut ha hclose]
  apply parseI32_eq_none (c := '[') (mem_trim (by simp) (by decide)) <;> decide

/-- The CPU is read from the first brackets of the header, those of the task name included. -/
theorem parseHostCpu_place (h : ∀ c ∈ l.comm, isWhitespace c = false) (y : List Char) :
    parseHostCpu (l.place ++ ']' :: y) = some (l.cpu : ℤ) ↔
      '[' ∉ l.comm ∨ ∃ a b c, l.comm = a ++ '[' :: (b ++ ']' :: c) ∧ '[' ∉ a ∧ ']' ∉ b ∧
        parseI32 b = some (l.cpu : ℤ) := by
  constructor
  · intro hcpu
    by_cases hbracket : '[' ∈ l.comm
    · obtain ⟨a, rest, hcomm, ha⟩ := eq_append_cons_of_mem hbracket
      by_cases hclose : ']' ∈ rest
      · obtain ⟨b, c, hrest, hb⟩ := eq_append_cons_of_mem hclose
        rw [hrest] at hcomm
        rw [parseHostCpu_of_bracket l h hcomm ha hb] at hcpu
        exact Or.inr ⟨a, b, c, hcomm, ha, hb, hcpu⟩
      · rw [parseHostCpu_of_open l hcomm ha hclose] at hcpu
        cases hcpu
    · exact Or.inl hbracket
  · intro hbracket
    rcases hbracket with hbracket | ⟨a, b, c, hcomm, ha, hb, hcpu⟩
    · exact parseHostCpu_of_not_mem l hbracket y
    · rw [parseHostCpu_of_bracket l h hcomm ha hb, hcpu]

theorem showI32_natCast (n : ℕ) : showI32 n = Nat.toDigits 10 n := by simp [showI32]

theorem ReadBack.noMarker (h : l.ReadBack) : ¬ marker <:+: l.comm := by
  obtain ⟨exit, hparse, hvm, -⟩ := h
  obtain ⟨before, after, rawComm, hsplit, -, hfields⟩ := parse_ok_inv (parseLine_eq_parsed.1 hparse)
  intro hpart
  obtain ⟨x, z, hx⟩ := hpart
  -- the line is cut inside the name, and the name that is read is shorter
  have hcut : l.text = x ++ (marker ++ (z ++ '-' :: (Nat.toDigits 10 l.pid ++ ' ' :: '[' ::
      (padded 10 l.cpuWidth l.cpu ++ ']' :: (l.stamp ++ ' ' :: (marker ++ ' ' :: l.payload)))))) := by
    rw [text, ← hx]
    simp
  obtain ⟨a, b, hfirst, hle⟩ := splitFirst_first hcut
  rw [hsplit, Option.some.injEq, Prod.mk.injEq] at hfirst
  have hlen := hfields.vm_spec.2
  rw [hvm, hfirst.1, ← hx] at hlen
  have hpos : 0 < marker.length := by decide
  simp only [length_append] at hlen
  omega

/-- A name without white space and without a marker leaves the header of the line as it is. -/
theorem exists_header (hspace : ∀ c ∈ l.comm, isWhitespace c = false)
    (hmarker : ¬ marker <:+: l.comm) :
    ∃ before after y, splitFirst marker l.text = some (before, after) ∧
      headerOf before = l.place ++ ']' :: y ∧
      (trim after ≠ [] ↔ (∃ c ∈ l.payload, isWhitespace c = false) ∨ marker <:+: l.stamp) := by
  obtain ⟨front, back, hstamp, hback⟩ := exists_splitFirst_stamp l
  obtain ⟨y, hy⟩ := headerOf_place l hspace front
  refine ⟨l.place ++ ']' :: front, back, y, ?_, hy, hback⟩
  rw [splitFirst_text l hmarker, hstamp]
  rfl

theorem ReadBack.plain (h : l.ReadBack) : l.Plain := by
  have hmarker := h.noMarker
  obtain ⟨exit, hparse, hvm, -, -, hcpu⟩ := h
  obtain ⟨before, after, rawComm, hsplit, hrest, hfields⟩ :=
    parse_ok_inv (parseLine_eq_parsed.1 hparse)
  have hspace : ∀ c ∈ l.comm, isWhitespace c = false := hvm ▸ hfields.vm_spec.1
  obtain ⟨before', after', y, hsplit', hheader, hback⟩ := exists_header l hspace hmarker
  rw [hsplit, Option.some.injEq, Prod.mk.injEq] at hsplit'
  rw [hfields.hostCpu, hsplit'.1, hheader, parseHostCpu_place l hspace] at hcpu
  rw [hsplit'.2] at hrest
  exact ⟨hspace, hmarker, hcpu, hback.1 hrest⟩

theorem Plain.readBack (h : l.Plain) : l.ReadBack := by
  obtain ⟨before, after, y, hsplit, hheader, hback⟩ := exists_header l h.noSpace h.noMarker
  have hword := head?_place l h.noSpace y
  rw [← hheader] at hword
  obtain ⟨exit, hok, hfields⟩ := parse_ok hsplit hword (hback.2 h.payload)
  refine ⟨exit, parseLine_eq_parsed.2 hok, ?_, ?_, ?_, ?_⟩
  · rw [hfields.vm, parseCommPid_task]
  · rw [hfields.hostPid, parseCommPid_task]
  · rw [hfields.vmId, parseCommPid_task, Option.map_some, showI32_natCast]
  · rw [hfields.hostCpu, hheader]
    exact (parseHostCpu_place l h.noSpace y).2 h.bracket

/-- The parser reads a line back exactly if the header has no second reading. -/
theorem readBack_iff_plain : l.ReadBack ↔ l.Plain :=
  ⟨ReadBack.plain l, Plain.readBack l⟩

/-- The line of a vCPU thread as QEMU names it. -/
def vcpuLine : TraceLine where
  comm := "CPU 0/KVM".toList
  pid := 4242
  cpu := 3
  flags := "d..1.".toList
  ts := "123.456789".toList
  payload := "reason EPT_VIOLATION rip 0x1000".toList
  pid_lt := by norm_num
  cpu_lt := by norm_num
  payload_ne := by decide

/-- What the parser makes of it: the name is cut at its space, and the task is lost with it. -/
def vcpuExit : ParsedExit where
  vm := "CPU".toList
  vmId := none
  rawComm := "CPU".toList
  hostPid := none
  hostCpu := some 3
  vcpuId := none
  arch := "x86_64"
  reason := "EPT_VIOLATION".toList
  rip := some "0x1000".toList
  gva := none
  gpa := none
  qual := none
  cr3 := none
  asid := none
  vmid := none
  vpid := none
  bits := none
  parseSource := "trace_pipe_text"

theorem vcpuLine_not_readBack :
    parseLine vcpuLine.text = .parsed vcpuExit ∧ ¬ vcpuLine.ReadBack := by
  have hparse : parseLine vcpuLine.text = .parsed vcpuExit := by decide +kernel
  refine ⟨hparse, ?_⟩
  intro h
  obtain ⟨exit, hexit, hvm, -⟩ := h
  rw [hparse, ParseOutcome.parsed.injEq] at hexit
  rw [← hexit] at hvm
  revert hvm
  decide

end TraceLine

end AegisHV.Trace
