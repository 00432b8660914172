import AegisHV.Proofs.Trace

/-! The order of the fields of a KVM exit does not matter. A field gives one entry of the table
wherever it stands, and the exit is read from the table by key. -/

namespace AegisHV.Trace

open Sys List

theorem trimEndMatches_append_cons {c d : Char} (hcd : d ≠ c) (a b : List Char) :
    trimEndMatches c (a ++ d :: b) = a ++ d :: trimEndMatches c b := by
  have hd : (d == c) = false := beq_false_of_ne hcd
  induction b using List.reverseRecOn with
  | nil => rw [trimEndMatches, rdropWhile_concat, hd]; rfl
  | append_singleton b x ih =>
    rw [← cons_append, ← append_assoc, trimEndMatches, trimEndMatches,
      rdropWhile_concat, rdropWhile_concat]
    split
    · exact ih
    · rw [append_assoc, cons_append]

/-! The entry of a field -/

namespace Field

theorem pair_split {k : List Char} (hk : '=' ∉ k) (v : List Char) :
    splitFirst ['='] (trimEndMatches ',' (k ++ '=' :: v)) = some (k, trimEndMatches ',' v) := by
  rw [trimEndMatches_append_cons (by decide), splitFirst_singleton hk]

theorem known_split {k : List Char} (hk : '=' ∉ k) :
    splitFirst ['='] (trimEndMatches ',' k) = none :=
  splitFirst_singleton_eq_none fun h => hk (( rdropWhile_prefix _ _).subset h)

theorem parseRestFrom_tokens (first : Bool) (f : Field) (rest : List (List Char))
    (pairs : Pairs) :
    parseRestFrom first (f.tokens ++ rest) pairs =
      parseRestFrom false rest ((f.key, f.value) :: pairs) := by
  cases f with
  | pair k v hk =>
    rcases rest with _ | ⟨next, rest⟩
    · simp only [tokens, append_nil, parseRestFrom, pair_split hk, key, value]
    · simp only [tokens, singleton_append, parseRestFrom, pair_split hk, key, value]
  | known k v hk hknown =>
    simp only [tokens, cons_append, nil_append, parseRestFrom, known_split hk, hknown,
      if_true, key, value]

/-- The table of a list of fields: the last one stands in front. -/
theorem parseRestFrom_fields (fields : List Field) : ∀ (first : Bool) (pairs : Pairs),
    parseRestFrom first (fields.flatMap tokens) pairs =
      (fields.map fun f => (f.key, f.value)).reverse ++ pairs := by
  induction fields with
  | nil => exact fun _ _ => rfl
  | cons f fields ih =>
    intro first pairs
    rw [flatMap_cons, parseRestFrom_tokens, ih]
    simp

end Field

/-! The keys the exit is read from -/

theorem lookup_eq_head? (k : List Char) (pairs : Pairs) :
    pairs.lookup k = (pairs.filter fun e => e.1 == k).head?.map Prod.snd := by
  induction pairs with
  | nil => rfl
  | cons e pairs ih =>
    obtain ⟨k', v⟩ := e
    by_cases he : k' = k
    · subst he
      simp
    · rw [lookup_cons, beq_false_of_ne (Ne.symm he), filter_cons_of_neg (by simp [he])]
      exact ih

/-- Two tables with the same entries for a key, of which there is at most one, agree on it. -/
theorem lookup_eq_of_perm {k : List Char} {pairs pairs' : Pairs}
    (hperm : (pairs'.filter fun e => e.1 == k).Perm (pairs.filter fun e => e.1 == k))
    (hone : (pairs.filter fun e => e.1 == k).length ≤ 1) : pairs'.lookup k = pairs.lookup k := by
  rw [lookup_eq_head?, lookup_eq_head?]
  rcases hfilter : pairs.filter (fun e => e.1 == k) with _ | ⟨e, _ | ⟨e', rest⟩⟩
  · rw [hfilter] at hperm
    rw [hperm.eq_nil, hfilter]
  · rw [hfilter] at hperm
    rw [hperm.eq_singleton, hfilter]
  · rw [hfilter, length_cons, length_cons] at hone
    omega

def readKeys : List String :=
  ["reason", "exit_reason", "rip", "pc", "elr", "gpa", "ipa", "far", "hpfar", "gva", "linear",
    "qual", "qualification", "exit_qualification", "error_code", "info", "esr", "cr3", "asid",
    "vmid", "vpid", "vcpu", "vcpu_id", "error"]

/-- The tables give the same to every reader. -/
def SameReads (pairs pairs' : Pairs) : Prop := ∀ key ∈ readKeys, pairs.get key = pairs'.get key

namespace SameReads

variable {pairs pairs' : Pairs} (h : SameReads pairs pairs')

include h

theorem firstOf {keys : List String} (hkeys : keys ⊆ readKeys) :
    pairs.firstOf keys = pairs'.firstOf keys := by
  induction keys with
  | nil => rfl
  | cons key keys ih =>
    rw [cons_subset] at hkeys
    have hrest := ih hkeys.2
    rw [Pairs.firstOf, Pairs.firstOf] at hrest ⊢
    rw [findSome?_cons, findSome?_cons, h key hkeys.1, hrest]

theorem exitReason : exitReason pairs = Trace.exitReason pairs' := by
  rw [Trace.exitReason, Trace.exitReason, h.firstOf (by decide)]

theorem exitArch (upperReason : List Char) :
    exitArch pairs upperReason = Trace.exitArch pairs' upperReason := by
  rw [Trace.exitArch, Trace.exitArch, h "esr" (by decide), h "hpfar" (by decide)]

theorem exitBits (arch : String) (upperReason : List Char) :
    exitBits pairs arch upperReason = Trace.exitBits pairs' arch upperReason := by
  rw [Trace.exitBits, Trace.exitBits, h "esr" (by decide), h.firstOf (by decide),
    h.firstOf (by decide)]

end SameReads

theorem parse_eq_of_sameReads {line line' before after after' : List Char}
    (hline : splitFirst marker line = some (before, after))
    (hline' : splitFirst marker line' = some (before, after'))
    (hne : trim after ≠ []) (hne' : trim after' ≠ [])
    (h : SameReads (parseRest (trim after)) (parseRest (trim after'))) :
    parseKvmExitLineResult line = parseKvmExitLineResult line' := by
  simp only [parseKvmExitLineResult, hline, hline', hne, hne', and_false, if_false, h.exitReason,
    h.exitArch, h.exitBits]
  rw [h.firstOf (by decide), h.firstOf (by decide), h.firstOf (by decide), h.firstOf (by decide),
    h.firstOf (by decide), h "elr" (by decide), h "cr3" (by decide), h "asid" (by decide),
    h "vmid" (by decide), h "vpid" (by decide)]

theorem splitWhitespace_trim (s : List Char) : splitWhitespace (trim s) = splitWhitespace s := by
  obtain ⟨before, after, hs, hbefore, hafter, -⟩ := trim_spec s
  conv_rhs => rw [hs]
  rw [splitWhitespace, splitWhitespace, splitWords_skip hbefore, splitWords_append_skip hafter]

/-! Payloads -/

/-- The text is written as the fields, with white space between the words. -/
def WrittenAs (payload : List Char) (fields : List Field) : Prop :=
  splitWhitespace payload = fields.flatMap Field.tokens

variable {fields : List Field}

theorem WrittenAs.parseRest_eq {payload : List Char} (h : WrittenAs payload fields) :
    parseRest (trim payload) = (fields.map fun f => (f.key, f.value)).reverse := by
  rw [parseRest, splitWhitespace_trim, h, Field.parseRestFrom_fields, append_nil]

theorem WrittenAs.trim_ne_nil {payload : List Char}
    (h : WrittenAs payload fields) (hne : fields ≠ []) : trim payload ≠ [] := by
  intro hnil
  have hempty : fields.flatMap Field.tokens = [] := by
    rw [← h, ← splitWhitespace_trim, hnil]
    rfl
  rcases fields with _ | ⟨f, fields⟩
  · exact hne rfl
  · cases f <;> cases hempty

theorem Field.Unknown.not_read {f : Field} (h : f.Unknown) (herror : f.key ≠ "error".toList) :
    ∀ key ∈ readKeys, f.key ≠ key.toList := by
  cases f with
  | known => exact h.elim
  | pair k v hk =>
    intro key hmem heq
    have hunknown : isKnownKey key.toList = false := heq ▸ h
    have hne : key ≠ "error" := fun hkey => herror (hkey ▸ heq)
    rw [isKnownKey, String.ofList_toList, decide_eq_false_iff_not] at hunknown
    have hread : readKeys = readKeys.dropLast ++ ["error"] := rfl
    rw [hread, mem_append, mem_singleton] at hmem
    exact hunknown (hmem.resolve_right hne)

theorem entries_filter (k : List Char) (fields : List Field) :
    ((fields.map fun f => (f.key, f.value)).reverse.filter fun e => e.1 == k).Perm
      ((fields.filter fun f => f.key == k).map fun f => (f.key, f.value)) := by
  rw [filter_reverse, filter_map]
  exact reverse_perm _

theorem count_key_le_one (h : (fields.map Field.key).Nodup) (k : List Char) :
    (fields.filter fun f => f.key == k).length ≤ 1 := by
  have hcount := nodup_iff_count_le_one.mp h k
  rwa [count_eq_countP, countP_map, countP_eq_length_filter] at hcount

theorem sameReads_of_perm {p q : List Char} {extras written : List Field}
    (hp : WrittenAs p fields) (hq : WrittenAs q written) (hperm : written.Perm (fields ++ extras))
    (hdistinct : (fields.map Field.key).Nodup)
    (hunread : ∀ f ∈ extras, ∀ key ∈ readKeys, f.key ≠ key.toList) :
    SameReads (parseRest (trim q)) (parseRest (trim p)) := by
  intro key hkey
  rw [hp.parseRest_eq, hq.parseRest_eq]
  have hextras : (extras.filter fun f => f.key == key.toList) = [] := by
    rw [filter_eq_nil_iff]
    exact fun f hf heq => hunread f hf key hkey (beq_iff_eq.mp heq)
  have hfilter : (written.filter fun f => f.key == key.toList).Perm
      (fields.filter fun f => f.key == key.toList) := by
    have h := hperm.filter fun f => f.key == key.toList
    rwa [filter_append, hextras, append_nil] at h
  have hone := count_key_le_one hdistinct key.toList
  refine lookup_eq_of_perm ?_ ?_
  · exact (entries_filter _ written).trans ((hfilter.map _).trans (entries_filter _ fields).symm)
  · rwa [(entries_filter _ fields).length_eq, length_map]

theorem splitFirst_line {front : List Char} (h : ¬ marker <:+: front) (payload : List Char) :
    splitFirst marker (front ++ (marker ++ payload)) = some (front, payload) := by
  have hmarker : marker = 'k' :: "vm_exit:".toList := rfl
  exact splitFirst_marker (by decide) h payload

theorem parseLine_congr {line line' : List Char} {cut cut' : List Char × List Char}
    (hline : splitFirst marker line = some cut) (hline' : splitFirst marker line' = some cut')
    (h : parseKvmExitLineResult line = parseKvmExitLineResult line') :
    parseLine line = parseLine line' := by
  have hcontains : ∀ {s c}, splitFirst marker s = some c → contains s "kvm_exit:" = true := by
    intro s c hs
    exact Option.isSome_iff_exists.mpr ⟨c, hs⟩
  rw [parseLine, parseLine, if_pos (hcontains hline), if_pos (hcontains hline'), h]

/-- Payloads that are written as the same fields with distinct keys, in any order and with unknown
fields between them, are parsed to the same exit; `error` is read though it is not a known key. -/
theorem parseLine_fields {front p q : List Char} {fields extras written : List Field}
    (hfront : ¬ marker <:+: front) (hp : WrittenAs p fields) (hq : WrittenAs q written)
    (hperm : written.Perm (fields ++ extras)) (hdistinct : (fields.map Field.key).Nodup)
    (hreason : ∃ f ∈ fields, f.key = "reason".toList ∨ f.key = "exit_reason".toList)
    (hextras : ∀ f ∈ extras, f.Unknown ∧ f.key ≠ "error".toList) :
    parseLine (front ++ (marker ++ q)) = parseLine (front ++ (marker ++ p)) ∧
      (splitWhitespace (headerOf front) ≠ [] →
        ∃ exit, parseLine (front ++ (marker ++ p)) = .parsed exit) := by
  have hne : fields ≠ [] := by
    obtain ⟨f, hf, -⟩ := hreason
    exact ne_nil_of_mem hf
  have hwritten : written ≠ [] := by
    rintro rfl
    rw [nil_perm, append_eq_nil_iff] at hperm
    exact hne hperm.1
  have hsame := sameReads_of_perm hp hq hperm hdistinct
    fun f hf => (hextras f hf).1.not_read (hextras f hf).2
  have hlineP := splitFirst_line hfront p
  have hlineQ := splitFirst_line hfront q
  refine ⟨parseLine_congr hlineQ hlineP (parse_eq_of_sameReads hlineQ hlineP
    (hq.trim_ne_nil hwritten) (hp.trim_ne_nil hne) hsame), fun hheader => ?_⟩
  obtain ⟨rawComm, hword⟩ := Option.isSome_iff_exists.mp (isSome_head?.mpr hheader)
  obtain ⟨exit, hok, -⟩ := parse_ok hlineP hword (hp.trim_ne_nil hne)
  exact ⟨exit, parseLine_eq_parsed.mpr hok⟩

/-! The fields of a page fault -/

def reasonField : Field := .pair "reason".toList "EPT_VIOLATION".toList (by decide)

def gpaField : Field := .known "gpa".toList "0x1000,".toList (by decide) (by decide +kernel)

def errorField : Field := .pair "error".toList "0x2".toList (by decide)

def flagsField : Field := .pair "flags".toList "0x2".toList (by decide)

def faultFront : List Char := "qemu-1 [000] d 1.0: ".toList

theorem parseLine_fields_fault :
    parseLine (faultFront ++ (marker ++ " gpa 0x1000, flags=0x2 reason=EPT_VIOLATION".toList)) =
      parseLine (faultFront ++ (marker ++ " reason=EPT_VIOLATION gpa 0x1000,".toList)) := by
  have hfields : ([gpaField, flagsField] ++ [reasonField]).Perm
      ([reasonField, gpaField] ++ [flagsField]) :=
    perm_append_comm
  have hwritten : WrittenAs " gpa 0x1000, flags=0x2 reason=EPT_VIOLATION".toList
      ([gpaField, flagsField] ++ [reasonField]) := by
    rw [WrittenAs]
    decide +kernel
  have hplain : WrittenAs " reason=EPT_VIOLATION gpa 0x1000,".toList [reasonField, gpaField] := by
    rw [WrittenAs]
    decide +kernel
  refine (parseLine_fields (by decide +kernel) hplain hwritten hfields (by decide +kernel)
    ⟨reasonField, by simp, .inl (by decide +kernel)⟩ ?_).1
  intro f hf
  rw [mem_singleton.mp hf]
  exact ⟨by rw [flagsField, Field.Unknown]; decide +kernel, by decide +kernel⟩

/-- A field `error=0x2` has no known key, and is the qualification of the exit. -/
theorem error_field_read : errorField.Unknown ∧
    WrittenAs " reason=EPT_VIOLATION".toList [reasonField] ∧
    WrittenAs " reason=EPT_VIOLATION error=0x2".toList ([reasonField] ++ [errorField]) ∧
    parseLine (faultFront ++ (marker ++ " reason=EPT_VIOLATION error=0x2".toList)) ≠
      parseLine (faultFront ++ (marker ++ " reason=EPT_VIOLATION".toList)) :=
  ⟨by rw [errorField, Field.Unknown]; decide +kernel, by rw [WrittenAs]; decide +kernel,
    by rw [WrittenAs]; decide +kernel, by decide +kernel⟩

end AegisHV.Trace
