import AegisHV.Lib.Fifo
import AegisHV.Lib.Run
import AegisHV.Spec.Abi

/-! The event and command rings against a queue of numbered records: every call is a move of that
queue or is refused and changes nothing. -/

namespace AegisHV
open Sys

namespace EventRing

variable {N : ℕ} {s s' : EventRing N}

/-- The queue that the ring stores. -/
def queue (s : EventRing N) : SeqQueue EventRecord := ⟨s.entries.toList, s.nextSequence, s.dropped⟩

/-- The record an entry of the log takes in. -/
def pushed : Call × Reply → List EventRecord
  | (_, .pushed record) => [record]
  | _ => []

/-- The record an entry of the log hands out. -/
def popped : Call × Reply → List EventRecord
  | (_, .popped record) => record.toList
  | _ => []

/-- A record taken in carries what the call gave. -/
def Carries : Call × Reply → Prop
  | (.pushLossy kind vmId vcpuId arg0 arg1, .pushed record) =>
      record = ⟨coreAbiVersion, record.sequence, kind, vmId, vcpuId, arg0, arg1⟩
  | _ => True

def Refused (r : Reply) : Prop := ∃ err, r = .failed err

/-- What a call does to the queue, unless it is refused. -/
abbrev Effect (s : EventRing N) (c : Call) : Reply × EventRing N → Prop :=
  Sys.Effect Refused (fun s e s' => s.queue.Move EventRecord.sequence N e s'.queue)
    (SeqQueue.Shows pushed popped Carries) s c

theorem pushLossy_effect (h : s.dropped < s.nextSequence) (kind : EventKind) (vmId : Option VmId)
    (vcpuId : Option VcpuId) (arg0 arg1 : ℕ) :
    Effect s (.pushLossy kind vmId vcpuId arg0 arg1)
      (step s (.pushLossy kind vmId vcpuId arg0 arg1)) := by
  simp only [step, Op.reply, pushLossy]
  by_cases hN : N = 0
  · rw [if_pos hN]
    exact .refused ⟨_, rfl⟩
  rw [if_neg hN, Op.run_read_bind]
  cases hnext : checkedAdd s.nextSequence 1 with
  | none => exact .refused ⟨_, rfl⟩
  | some next =>
    obtain ⟨hlt, rfl⟩ := checkedAdd_eq_some.1 hnext
    have hwrap : wrappingAdd s.dropped 1 = s.dropped + 1 := Nat.mod_eq_of_lt (by omega)
    by_cases hfull : s.entries.len = N
    · simp only [if_pos hfull, Op.run_write_bind, Op.run_pure, hwrap]
      have hpos : 0 < N := Nat.pos_of_ne_zero hN
      exact .moved (by simp [Refused]) (Ring.overwrite_move hpos hfull rfl) ⟨rfl, rfl, rfl⟩
    · simp only [if_neg hfull, Op.run_write_bind, Op.run_pure]
      have hroom : s.entries.len < N := lt_of_le_of_ne s.entries.len_le hfull
      exact .moved (by simp [Refused]) (Ring.pushBack_move hroom rfl) ⟨rfl, rfl, rfl⟩

theorem pop_effect (s : EventRing N) : Effect s .pop (step s .pop) := by
  obtain ⟨e, hm, hpushed, hpopped⟩ := s.entries.pop_move
  exact .moved (by simp [Refused]) hm ⟨hpushed, hpopped, trivial⟩

theorem step_effect (h : s.dropped < s.nextSequence) (c : Call) : Effect s c (step s c) := by
  cases c with
  | pushLossy kind vmId vcpuId arg0 arg1 => exact pushLossy_effect h kind vmId vcpuId arg0 arg1
  | pop => exact pop_effect s

/-- The log accounts for the ring, and its records carry what the calls gave. -/
abbrev Recorded (log : List (Call × Reply)) (s : EventRing N) : Prop :=
  SeqQueue.Recorded EventRecord.sequence pushed popped Carries log s.queue

theorem run_recorded (calls : List Call) :
    Recorded (run step (new N) calls).1 (run step (new N) calls).2 := by
  apply SeqQueue.run_recorded
  · simp [queue, new]
  · exact fun s c h => step_effect h c
  · intro c r ⟨err, hr⟩
    subst hr
    cases c <;> exact ⟨rfl, rfl, trivial⟩

/-- The ring after a run, against the log of the run. -/
structure BoundedFifo (log : List (Call × Reply)) (s : EventRing N) : Prop where
  carries : ∀ entry ∈ log, Carries entry
  /-- What is held is the last `len` of the records pushed and not popped, in push order. -/
  held : s.entries.toList =
    ((log.flatMap pushed).filter (· ∉ log.flatMap popped)).rtake s.entries.len
  order : (log.flatMap popped).Sublist (log.flatMap pushed)
  increasing : (log.flatMap popped).Pairwise (fun a b => a.sequence < b.sequence)
  dropped : s.dropped =
    (log.flatMap pushed).length - (log.flatMap popped).length - s.entries.len
  counted : (log.flatMap popped).length + s.entries.len ≤ (log.flatMap pushed).length
  /-- A push adds its record at the end and drops the oldest one when there is no room for it. -/
  push : ∀ c record, (step s c).1 = .pushed record →
    (step s c).2.entries.toList = (s.entries.toList ++ [record]).rtake N
  pop : (step s .pop).1 = .popped s.entries.toList.head? ∧
    (step s .pop).2.entries.toList = s.entries.toList.tail
  rejected : ∀ c err, (step s c).1 = .failed err → (step s c).2 = s

theorem step_pushed (h : s.dropped < s.nextSequence) {c : Call} {record : EventRecord}
    (hr : (step s c).1 = .pushed record) :
    (step s c).2.entries.toList = (s.entries.toList ++ [record]).rtake N := by
  have hok : ¬ Refused (step s c).1 := by
    intro ⟨err, herr⟩
    rw [hr] at herr
    cases herr
  obtain ⟨e, hm, hs⟩ := (step_effect h c).exists_move hok
  have hpush : e.pushed = [record] := by rw [hs.pushed, hr, pushed]
  exact hm.held_of_pushed hpush

theorem step_pop (s : EventRing N) :
    (step s .pop).1 = .popped s.entries.toList.head? ∧
      (step s .pop).2.entries.toList = s.entries.toList.tail := by
  exact ⟨congrArg Reply.popped s.entries.pop_fst, s.entries.toList_pop⟩

theorem boundedFifo_of_recorded {log : List (Call × Reply)} (h : Recorded log s) :
    BoundedFifo log s := by
  obtain ⟨⟨hkept, hnum⟩, hcarries⟩ := h
  have hlt : s.dropped < s.nextSequence := SeqQueue.History.dropped_lt ⟨hkept, hnum⟩
  have hlen : s.queue.held.length = s.entries.len := s.entries.toList_length
  have hcount : (log.flatMap pushed).length =
      (log.flatMap popped).length + s.dropped + s.entries.len := by rw [hkept.length, hlen, queue]
  refine ⟨hcarries, ?_, hkept.popped_sublist, hnum.pairwise.sublist hkept.popped_sublist, by omega,
    by omega, fun c record => step_pushed hlt, step_pop s,
    fun c err herr => (step_effect hlt c).unchanged ⟨err, herr⟩⟩
  rw [← hlen]
  exact hkept.held_eq hnum.nodup

end EventRing

namespace CommandKind

/-- The codes accepted are those of the commands. -/
theorem fromRaw_eq_ok {code : ℕ} {kind : CommandKind} :
    fromRaw code = .ok kind ↔ code = kind.raw := by
  constructor
  · intro h
    unfold fromRaw at h
    split at h <;> cases h <;> rfl
  · intro h
    rw [h]
    cases kind <;> rfl

end CommandKind

namespace CommandRing

variable {N : ℕ} {s s' : CommandRing N}

/-- The queue that the ring stores; it never drops a command. -/
def queue (s : CommandRing N) : SeqQueue CommandRecord := ⟨s.entries.toList, s.nextSequence, 0⟩

def pushed : Call × Reply → List CommandRecord
  | (_, .pushed record) => [record]
  | _ => []

def popped : Call × Reply → List CommandRecord
  | (_, .popped record) => record.toList
  | _ => []

/-- A command taken in carries what the call gave. -/
def Carries : Call × Reply → Prop
  | (.push kind vmId arg0 arg1, .pushed record) =>
      record = ⟨coreAbiVersion, record.sequence, kind, vmId, arg0, arg1⟩
  | (.pushRaw rawKind vmId arg0 arg1, .pushed record) =>
      record.kind.raw = rawKind ∧
        record = ⟨coreAbiVersion, record.sequence, record.kind, vmId, arg0, arg1⟩
  | _ => True

def Refused (r : Reply) : Prop := ∃ err, r = .failed err

abbrev Effect (s : CommandRing N) (c : Call) : Reply × CommandRing N → Prop :=
  Sys.Effect Refused (fun s e s' => s.queue.Move CommandRecord.sequence N e s'.queue)
    (SeqQueue.Shows pushed popped Carries) s c

theorem push_run (s : CommandRing N) (kind : CommandKind) (vmId : VmId) (arg0 arg1 : ℕ) :
    (∃ err, (push kind vmId arg0 arg1).run s = (.error err, s)) ∨
    ∃ record s', (push kind vmId arg0 arg1).run s = (.ok record, s') ∧
      record = ⟨coreAbiVersion, record.sequence, kind, vmId, arg0, arg1⟩ ∧
      s.queue.Move CommandRecord.sequence N (.push record) s'.queue := by
  unfold push
  rw [Op.run_read_bind]
  by_cases hfull : N = 0 ∨ s.entries.len = N
  · rw [if_pos hfull]
    exact Or.inl ⟨_, rfl⟩
  rw [if_neg hfull]
  cases hnext : checkedAdd s.nextSequence 1 with
  | none => exact Or.inl ⟨_, rfl⟩
  | some next =>
    obtain ⟨-, rfl⟩ := checkedAdd_eq_some.1 hnext
    have hroom : s.entries.len < N := lt_of_le_of_ne s.entries.len_le (not_or.1 hfull).2
    exact Or.inr ⟨_, _, rfl, rfl, Ring.pushBack_move hroom rfl⟩

theorem push_effect (s : CommandRing N) (kind : CommandKind) (vmId : VmId) (arg0 arg1 : ℕ) :
    Effect s (.push kind vmId arg0 arg1) (step s (.push kind vmId arg0 arg1)) := by
  simp only [step, Op.reply]
  rcases push_run s kind vmId arg0 arg1 with ⟨err, herr⟩ | ⟨record, s', hok, hrecord, hm⟩
  · rw [herr]
    exact .refused ⟨_, rfl⟩
  · rw [hok]
    exact .moved (by simp [Refused]) hm ⟨rfl, rfl, hrecord⟩

theorem pushRaw_effect (s : CommandRing N) (rawKind : ℕ) (vmId : VmId) (arg0 arg1 : ℕ) :
    Effect s (.pushRaw rawKind vmId arg0 arg1) (step s (.pushRaw rawKind vmId arg0 arg1)) := by
  simp only [step, Op.reply, pushRaw]
  cases hkind : CommandKind.fromRaw rawKind with
  | error err => exact .refused ⟨_, rfl⟩
  | ok kind =>
    rw [Op.run_lift_ok_bind]
    rcases push_run s kind vmId arg0 arg1 with ⟨err, herr⟩ | ⟨record, s', hok, hrecord, hm⟩
    · rw [herr]
      exact .refused ⟨_, rfl⟩
    · rw [hok]
      have hsame : record.kind = kind := by rw [hrecord]
      refine .moved (by simp [Refused]) hm ⟨rfl, rfl, ?_, ?_⟩
      · rw [hsame, CommandKind.fromRaw_eq_ok.1 hkind]
      · rw [hsame]
        exact hrecord

theorem pop_effect (s : CommandRing N) : Effect s .pop (step s .pop) := by
  obtain ⟨e, hm, hpushed, hpopped⟩ := s.entries.pop_move
  exact .moved (by simp [Refused]) hm ⟨hpushed, hpopped, trivial⟩

theorem step_effect (s : CommandRing N) (c : Call) : Effect s c (step s c) := by
  cases c with
  | push kind vmId arg0 arg1 => exact push_effect s kind vmId arg0 arg1
  | pushRaw rawKind vmId arg0 arg1 => exact pushRaw_effect s rawKind vmId arg0 arg1
  | pop => exact pop_effect s

abbrev Recorded (log : List (Call × Reply)) (s : CommandRing N) : Prop :=
  SeqQueue.Recorded CommandRecord.sequence pushed popped Carries log s.queue

theorem run_recorded (calls : List Call) :
    Recorded (run step (new N) calls).1 (run step (new N) calls).2 := by
  apply SeqQueue.run_recorded
  · simp [queue, new]
  · exact fun s c _ => step_effect s c
  · intro c r ⟨err, hr⟩
    subst hr
    cases c <;> exact ⟨rfl, rfl, trivial⟩

/-- The ring after a run, against the log of the run. -/
structure ExactFifo (log : List (Call × Reply)) (s : CommandRing N) : Prop where
  carries : ∀ entry ∈ log, Carries entry
  /-- The commands popped, followed by those held, are the commands accepted, in that order. -/
  exact : log.flatMap pushed = log.flatMap popped ++ s.entries.toList
  /-- The accepted commands are numbered 1, 2, 3, … -/
  numbered : (log.flatMap pushed).map CommandRecord.sequence =
    List.range' 1 (log.flatMap pushed).length
  rejected : ∀ c err, (step s c).1 = .failed err → (step s c).2 = s

theorem exactFifo_of_recorded {log : List (Call × Reply)} (h : Recorded log s) :
    ExactFifo log s where
  carries := h.proper
  exact := h.history.kept.exact
  numbered := h.history.numbered.1
  rejected c err herr := (step_effect s c).unchanged ⟨err, herr⟩

end CommandRing

end AegisHV
