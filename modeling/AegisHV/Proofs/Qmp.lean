import AegisHV.Spec.Qmp

/-! The answer to a command is that of its response exactly if the first line with one of the two
words in quotes agrees with the response. -/

namespace AegisHV.Qmp

open Sys

variable {cmd : String} {line : List Char} {lines : List (List Char)}

theorem readOneJson_of_kind (h : (kind line).isSome = true) : readOneJson line = .ok (trim line) := by
  unfold kind at h
  split at h
  · next msg ms hmsg hms =>
    simp only [readOneJson, except_bind_ok] at hmsg
    obtain ⟨_, hne, _, hends, htrim⟩ := hmsg
    simp only [readOneJson, hne, hends, except_ok_bind]
    rfl
  · cases h

theorem exec_cons (h : (kind line).isSome = true) : exec cmd (line :: lines) =
    if hasQuoted "return" (trim line) then .ok ()
    else if hasQuoted "error" (trim line) then
      .error ("QMP error for " ++ cmd ++ ": " ++ String.ofList (trim line))
    else exec cmd lines := by
  rw [exec, readOneJson_of_kind h]
  rfl

/-- Up to a line with a word in quotes the loop goes on. -/
theorem exec_quiet {front : List (List Char)} (hkind : ∀ l ∈ front, (kind l).isSome = true)
    (hquiet : ∀ l ∈ front, isMarked l = false) : exec cmd (front ++ lines) = exec cmd lines := by
  induction front with
  | nil => rfl
  | cons l front ih =>
    obtain ⟨hl, hfront⟩ := List.forall_mem_cons.1 hkind
    obtain ⟨hmark, hrest⟩ := List.forall_mem_cons.1 hquiet
    obtain ⟨hret, herr⟩ := Bool.or_eq_false_iff.1 hmark
    rw [List.cons_append, exec_cons hl, hret, herr]
    exact ih hfront hrest

/-- The first line with a word in quotes decides. -/
theorem exec_marked (hkind : (kind line).isSome = true) (hmark : isMarked line = true) :
    (exec cmd (line :: lines) = .ok () ↔ hasQuoted "return" (trim line) = true) ∧
      ((∃ e, exec cmd (line :: lines) = .error e) ↔ hasQuoted "return" (trim line) = false) := by
  rw [exec_cons hkind]
  cases hret : hasQuoted "return" (trim line) with
  | true => simp
  | false =>
    have herr : hasQuoted "error" (trim line) = true := by
      rwa [isMarked, hret] at hmark
    simp [herr]

/-- The response answers exactly if the events and the response have a line with `return` or
`error` in quotes and the first such line has `return` just when the response is a return. -/
theorem answers_iff (cmd : String) {events : List (List Char)} {response : List Char}
    (hevents : ∀ l ∈ events, kind l = some .event)
    (hresponse : kind response = some .ret ∨ kind response = some .error) :
    Answers cmd events response ↔ ∃ line, (events ++ [response]).find? isMarked = some line ∧
      (hasQuoted "return" (trim line) = true ↔ kind response = some .ret) := by
  have hkind : ∀ l ∈ events ++ [response], (kind l).isSome = true := by
    refine forall_mem_concat (fun l hl => ?_) ?_
    · rw [hevents l hl]
      rfl
    · rcases hresponse with h | h <;> rw [h] <;> rfl
  have hother : kind response = some .error ↔ kind response ≠ some .ret := by
    rcases hresponse with h | h <;> simp [h]
  simp only [Answers, hother]
  cases hfind : (events ++ [response]).find? isMarked with
  | none =>
    -- then what comes later decides, and it can be anything
    have hquiet : ∀ l ∈ events ++ [response], isMarked l = false := by
      simpa using List.find?_eq_none.1 hfind
    refine iff_of_false ?_ (by simp)
    intro h
    have hnone := h []
    have hret := h ["\x7b\"return\":\x7b\x7d\x7d".toList]
    rw [exec_quiet hkind hquiet] at hnone hret
    have heof : kind response ≠ some .ret := hnone.2.1 ⟨_, rfl⟩
    exact heof (hret.1.1 rfl)
  | some line =>
    obtain ⟨hmark, front, back, hlines, hquiet⟩ := List.find?_eq_some_iff_append.1 hfind
    rw [hlines] at hkind ⊢
    have hline : (kind line).isSome = true := hkind line (by simp)
    have hfront : ∀ l ∈ front, (kind l).isSome = true := fun l hl => hkind l (by simp [hl])
    have hfront' : ∀ l ∈ front, isMarked l = false := by simpa using hquiet
    simp only [List.append_assoc, exec_quiet hfront hfront', List.cons_append,
      exec_marked hline hmark, forall_const, Option.some.injEq, exists_eq_left']
    cases hasQuoted "return" (trim line) <;> simp

theorem answers_after_event :
    Answers "stop" ["\x7b\"event\":\"RESUME\"\x7d".toList] "\x7b\"return\":\x7b\x7d\x7d".toList :=
  (answers_iff "stop" (by decide +kernel) (by decide +kernel)).2 ⟨_, rfl, by decide +kernel⟩

/-- The data of an event names an error, and the command counts as failed. -/
theorem event_data_answers :
    let event := "\x7b\"event\":\"BLOCK_JOB_COMPLETED\",\"data\":\x7b\"error\":\"EIO\"\x7d\x7d".toList
    let response := "\x7b\"return\":\x7b\x7d\x7d".toList
    kind event = some .event ∧ kind response = some .ret ∧
      (exec "stop" [event, response]).toOption = none := by
  decide +kernel

end AegisHV.Qmp
