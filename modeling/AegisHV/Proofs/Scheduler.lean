import AegisHV.Lib.Places
import AegisHV.Lib.Run
import AegisHV.Spec.Scheduler

/-! The vCPU scheduler moves each vCPU from one place to another: its run queue, running slots
and table of halted vCPUs are a `Places`, and every call is one of its moves. -/

namespace AegisHV
open Sys List

namespace VcpuScheduler

variable {Q P : ℕ} {s s' : VcpuScheduler Q P}

/-- The three places of the scheduler. -/
def places (s : VcpuScheduler Q P) : Places VcpuRef (Fin P) where
  queue := s.queue.toList.filterMap id
  running := s.running
  parked := s.halted.toList.filterMap id

/-- The slots in use are filled and the others are not; only a CPU with an id runs anything. -/
structure Inv (s : VcpuScheduler Q P) : Prop where
  queue : ∀ x ∈ s.queue.toList, x ≠ none
  spare : ∀ x ∈ s.queue.spare, x = none
  halted : ∀ x ∈ s.halted.toList, x ≠ none
  rest : ∀ x ∈ s.halted.rest, x = none
  cpu : ∀ i v, s.running i = some v → i.val < 2 ^ 16 - 1

theorem mem_queue_slots (h : Inv s) (v : VcpuRef) :
    some v ∈ s.queue.slots ↔ v ∈ s.places.queue := by
  have hspare : some v ∉ s.queue.spare := fun hv => nomatch h.spare _ hv
  rw [Ring.mem_slots, or_iff_left hspare]
  simp [places]

theorem mem_halted_slots (h : Inv s) (v : VcpuRef) :
    some v ∈ s.halted.slots.toList ↔ v ∈ s.places.parked := by
  have hrest : some v ∉ s.halted.rest := fun hv => nomatch h.rest _ hv
  rw [Table.mem_slots, or_iff_left hrest]
  simp [places]

theorem contains_iff (h : Inv s) (v : VcpuRef) : s.contains v = true ↔ ∃ p, s.places.At v p := by
  simp only [contains, Bool.or_eq_true, any_eq_true, beq_iff_eq, exists_eq_right,
    mem_queue_slots h, mem_halted_slots h, mem_finRange, true_and]
  constructor
  · rintro ((hv | ⟨i, hi⟩) | hv)
    · exact ⟨.queue, hv⟩
    · exact ⟨.running i, hi⟩
    · exact ⟨.parked, hv⟩
  · rintro ⟨p, hp⟩
    cases p with
    | queue => exact Or.inl (Or.inl hp)
    | running i => exact Or.inl (Or.inr ⟨i, hp⟩)
    | parked => exact Or.inr hp

/-- What `push_queue` does when it does not fail. -/
theorem pushQueue_run (s : VcpuScheduler Q P) (v : VcpuRef) :
    (∃ e, (pushQueue v).run s = (.error e, s)) ∨
    s.queue.len < Q ∧
      (pushQueue v).run s = (.ok (), { s with queue := s.queue.pushBack (some v) }) := by
  unfold pushQueue
  rw [Op.run_read_bind]
  by_cases hfull : s.queue.len = Q
  · rw [if_pos hfull]
    exact Or.inl ⟨_, rfl⟩
  · rw [if_neg hfull]
    exact Or.inr ⟨lt_of_le_of_ne s.queue.len_le hfull, rfl⟩

theorem inv_pushBack (h : Inv s) (v : VcpuRef) (hroom : s.queue.len < Q) :
    Inv { s with queue := s.queue.pushBack (some v) } := by
  refine ⟨?_, fun x hx => ?_, h.halted, h.rest, h.cpu⟩
  · rw [Ring.toList_pushBack hroom]
    exact forall_mem_concat h.queue (Option.some_ne_none v)
  · rw [Ring.spare_pushBack hroom] at hx
    exact h.spare x (mem_of_mem_tail hx)

theorem places_pushBack (v : VcpuRef) (hroom : s.queue.len < Q) :
    places { s with queue := s.queue.pushBack (some v) } =
      { s.places with queue := s.places.queue ++ [v] } := by
  simp [places, Ring.toList_pushBack hroom]

/-- The vCPUs an entry of the log puts at the end of the queue. -/
def entered : Call × Reply → List VcpuRef
  | (.enqueue v, .done) => [v]
  | (.wake v, .done) => [v]
  | _ => []

/-- The vCPU an entry of the log takes from the queue. -/
def dispatched : Call × Reply → List VcpuRef
  | (.scheduleOn _, .scheduled (some v)) => [v]
  | _ => []

/-- The vCPU an entry of the log accepts for the first time. -/
def accepted : Call × Reply → List VcpuRef
  | (.enqueue v, .done) => [v]
  | _ => []

/-- The event is what the entry of the log says. -/
structure Shows (e : Places.Event VcpuRef (Fin P)) (entry : Call × Reply) : Prop where
  enters : e.enters = entered entry
  leaves : e.leaves = dispatched entry
  accepts : e.accepts = accepted entry

def Refused (r : Reply) : Prop := ∃ e, r = .failed e

/-- What a call does to the places, unless it is refused. -/
abbrev Effect (s : VcpuScheduler Q P) (c : Call) : Reply × VcpuScheduler Q P → Prop :=
  Sys.Effect Refused (fun s e s' => s.places.Move e s'.places ∧ Inv s') Shows s c

theorem enqueue_effect (h : Inv s) (v : VcpuRef) : Effect s (.enqueue v) (step s (.enqueue v)) := by
  simp only [step, Op.reply, enqueue, Op.run_read_bind]
  by_cases hin : s.contains v = true
  · rw [if_pos hin]
    exact .refused ⟨_, rfl⟩
  rw [if_neg hin]
  rcases pushQueue_run s v with ⟨e, he⟩ | ⟨hroom, hok⟩
  · rw [he]
    exact .refused ⟨_, rfl⟩
  · rw [hok]
    have hnew : ∀ p, ¬ s.places.At v p := fun p hp => hin ((contains_iff h v).2 ⟨p, hp⟩)
    refine .moved (e := .enter v) (by simp [Refused]) ⟨?_, inv_pushBack h v hroom⟩ ⟨rfl, rfl, rfl⟩
    rw [places_pushBack v hroom]
    exact .enter hnew

/-- What `pop_queue` takes from a queue that is not empty. -/
theorem popQueue_run (h : Inv s) :
    (popQueue.run s = (.ok none, s)) ∨
    ∃ v rest, s.queue.toList = some v :: rest ∧
      popQueue.run s = (.ok (some v), { s with queue := (s.queue.setFront none).advance }) := by
  unfold popQueue
  rw [Op.run_read_bind]
  by_cases hempty : s.queue.len = 0
  · rw [if_pos hempty]
    exact Or.inl rfl
  rw [if_neg hempty]
  cases hlist : s.queue.toList with
  | nil =>
    rw [← s.queue.toList_length, hlist] at hempty
    exact absurd rfl hempty
  | cons x rest =>
    cases x with
    | none => exact absurd rfl (h.queue none (by simp [hlist]))
    | some v =>
      refine Or.inr ⟨v, rest, rfl, ?_⟩
      rw [Ring.front_of_toList hlist]
      rfl

variable {v : VcpuRef}

theorem pop_queue_lists {rest : List (Option VcpuRef)} (hlist : s.queue.toList = some v :: rest) :
    (s.queue.setFront none).advance.toList = rest ∧
      (s.queue.setFront none).advance.spare = s.queue.spare ++ [none] := by
  obtain ⟨hset, hspare⟩ := Ring.setFront_of_toList (x := none) hlist
  obtain ⟨hrest, hnew⟩ := Ring.advance_of_toList hset
  exact ⟨hrest, by rw [hnew, hspare]⟩

theorem scheduleOn_effect (h : Inv s) (pcpu : PhysicalCpuId) :
    Effect s (.scheduleOn pcpu) (step s (.scheduleOn pcpu)) := by
  simp only [step, Op.reply, scheduleOn]
  by_cases hcpu : pcpu.raw < P
  swap
  · rw [dif_neg hcpu]
    exact .refused ⟨_, rfl⟩
  rw [dif_pos hcpu, Op.run_read_bind]
  by_cases hbusy : (s.running ⟨pcpu.raw, hcpu⟩).isSome = true
  · rw [if_pos hbusy]
    exact .refused ⟨_, rfl⟩
  rw [if_neg hbusy]
  rcases popQueue_run h with hnone | ⟨v, rest, hlist, hpop⟩
  · rw [Op.run_bind_ok hnone]
    exact .moved (e := .stay) (by simp [Refused]) ⟨.stay _, h⟩ ⟨rfl, rfl, rfl⟩
  · rw [Op.run_bind_ok hpop]
    obtain ⟨hrest, hspare⟩ := pop_queue_lists hlist
    have hfree : s.places.running ⟨pcpu.raw, hcpu⟩ = none := by simpa [places] using hbusy
    have hqueue : s.places.queue = v :: rest.filterMap id := by simp [places, hlist]
    refine .moved (e := .dispatch ⟨pcpu.raw, hcpu⟩ v) (by simp [Refused]) ⟨?_, ?_⟩ ⟨rfl, rfl, rfl⟩
    · have hplaces := Places.Move.dispatch hqueue hfree
      simpa [places, hrest] using hplaces
    · refine ⟨fun x hx => ?_, hspare ▸ forall_mem_concat h.spare rfl, h.halted, h.rest,
        fun i w hw => ?_⟩
      · refine h.queue x ?_
        rw [hlist]
        exact mem_cons_of_mem _ (hrest ▸ hx)
      · by_cases hi : i = ⟨pcpu.raw, hcpu⟩
        · rw [hi]
          exact pcpu.raw_lt
        · have hold : s.running i = some w := by simpa [hi] using hw
          exact h.cpu i w hold

theorem haltRunning_effect (h : Inv s) (pcpu : PhysicalCpuId) :
    Effect s (.haltRunning pcpu) (step s (.haltRunning pcpu)) := by
  simp only [step, Op.reply, haltRunning]
  by_cases hcpu : pcpu.raw < P
  swap
  · rw [dif_neg hcpu]
    exact .refused ⟨_, rfl⟩
  rw [dif_pos hcpu, Op.run_read_bind]
  cases hrun : s.running ⟨pcpu.raw, hcpu⟩ with
  | none => exact .refused ⟨_, rfl⟩
  | some v =>
    by_cases hfull : s.halted.len = Q
    · simp only [if_pos hfull]
      exact .refused ⟨_, rfl⟩
    have hroom : s.halted.len < Q := lt_of_le_of_ne s.halted.len_le hfull
    simp only [if_neg hfull]
    refine .moved (e := .park ⟨pcpu.raw, hcpu⟩ v) (by simp [Refused]) ⟨?_, ?_⟩ ⟨rfl, rfl, rfl⟩
    · have hmove := Places.Move.park (s := s.places) hrun
      simpa [places, Table.toList_push _ _ hroom] using hmove
    · refine ⟨h.queue, h.spare, ?_, fun x hx => ?_, fun i w hw => ?_⟩
      · rw [Table.toList_push _ _ hroom]
        exact forall_mem_concat h.halted (Option.some_ne_none v)
      · exact h.rest x (Table.mem_rest_push hroom hx)
      · by_cases hi : i = ⟨pcpu.raw, hcpu⟩
        · simp [hi] at hw
        · have hold : s.running i = some w := by simpa [hi] using hw
          exact h.cpu i w hold

theorem filterMap_erase_some (l : List (Option VcpuRef)) (v : VcpuRef) :
    (l.erase (some v)).filterMap id = (l.filterMap id).erase v := by
  induction l with
  | nil => rfl
  | cons x l ih =>
    cases x with
    | none => simpa [erase_cons] using ih
    | some w =>
      by_cases hw : w = v
      · simp [hw]
      · simpa [hw] using ih

/-- Waking a vCPU takes it out of the halted table. -/
theorem toList_wake {index : ℕ} (hfind : s.halted.toList.findIdx? (· == some v) = some index) :
    (s.halted.removeAt index none).toList = s.halted.toList.erase (some v) := by
  have hlt : index < s.halted.len := by
    obtain ⟨hlt, -⟩ := findIdx?_eq_some_iff_getElem.1 hfind
    simpa using hlt
  have hidx : s.halted.toList.idxOf? (some v) = some index := hfind
  rw [Table.toList_removeAt _ _ hlt, erase_eq_eraseIdx, hidx]

theorem wake_effect (h : Inv s) (v : VcpuRef) : Effect s (.wake v) (step s (.wake v)) := by
  simp only [step, Op.reply, wake, Op.run_read_bind]
  cases hfind : s.halted.toList.findIdx? (· == some v) with
  | none => exact .refused ⟨_, rfl⟩
  | some index =>
    obtain ⟨hlt, hat, -⟩ := findIdx?_eq_some_iff_getElem.1 hfind
    rcases pushQueue_run s v with ⟨e, he⟩ | ⟨hroom, hok⟩
    · simp only [Op.run_bind_error he]
      exact .refused ⟨_, rfl⟩
    · simp only [Op.run_bind_ok hok]
      have hmem : v ∈ s.places.parked := by
        have hv : some v ∈ s.halted.toList := by
          rw [← beq_iff_eq.1 hat]
          exact getElem_mem hlt
        simpa [places] using hv
      have hinv := inv_pushBack h v hroom
      refine .moved (e := .wake v) (by simp [Refused])
        ⟨?_, hinv.queue, hinv.spare, fun x hx => ?_, fun x hx => ?_, h.cpu⟩ ⟨rfl, rfl, rfl⟩
      · have hparked : s.places.parked.erase v = (s.halted.toList.erase (some v)).filterMap id :=
          (filterMap_erase_some _ v).symm
        have hmove := Places.Move.wake hmem
        rw [hparked] at hmove
        simpa [places, Ring.toList_pushBack hroom, toList_wake hfind] using hmove
      · exact h.halted x (mem_of_mem_erase (toList_wake hfind ▸ hx))
      · rcases Table.mem_rest_removeAt (by simpa using hlt) hx with hfill | hold
        · exact hfill
        · exact h.rest x hold

theorem step_effect (h : Inv s) (c : Call) : Effect s c (step s c) := by
  cases c with
  | enqueue v => exact enqueue_effect h v
  | scheduleOn pcpu => exact scheduleOn_effect h pcpu
  | haltRunning pcpu => exact haltRunning_effect h pcpu
  | wake v => exact wake_effect h v

/-- The answer of `state_of` names the place. -/
def Agrees : Place (Fin P) → Option VcpuRunState → Prop
  | .queue, some .runnable => True
  | .running k, some (.running pcpu) => pcpu.raw = k.val
  | .parked, some .halted => True
  | _, _ => False

theorem find_running {k : Fin P} (hs : s.places.Sound) (hk : s.running k = some v) :
    (List.finRange P).find? (fun index => s.running index == some v) = some k := by
  cases hfind : (List.finRange P).find? (fun index => s.running index == some v) with
  | none => simpa [hk] using find?_eq_none.1 hfind k (mem_finRange k)
  | some k' =>
    have hk' : s.running k' = some v := by simpa using find?_some hfind
    have hplace := hs.unique v (.running k') (.running k) hk' hk
    injection hplace with hkk
    rw [hkk]

theorem find_running_none (hv : ∀ k, s.running k ≠ some v) :
    (List.finRange P).find? (fun index => s.running index == some v) = none := by
  simpa [find?_eq_none] using hv

theorem any_queue_iff (h : Inv s) (v : VcpuRef) :
    s.queue.slots.any (· == some v) = true ↔ s.places.At v .queue := by
  rw [any_beq', contains_iff_mem]
  exact mem_queue_slots h v

theorem any_halted_iff (v : VcpuRef) :
    s.halted.toList.any (· == some v) = true ↔ s.places.At v .parked := by
  simp [places, Places.At]

theorem stateOf_agrees (h : Inv s) (hs : s.places.Sound) {p : Place (Fin P)}
    (hp : s.places.At v p) : Agrees p (s.stateOf v) := by
  unfold stateOf
  cases p with
  | queue =>
    rw [if_pos ((any_queue_iff h v).2 hp)]
    trivial
  | running k =>
    have hqueue : ¬ s.places.At v .queue := by simp [hs.at_iff hp]
    have hk : s.running k = some v := hp
    have hlt := h.cpu k v hk
    have hmod : k.val % 2 ^ 16 = k.val := Nat.mod_eq_of_lt (by omega)
    rw [if_neg (mt (any_queue_iff h v).1 hqueue), find_running hs hk]
    simp only [hmod, PhysicalCpuId.new, dif_pos hlt]
    rfl
  | parked =>
    have hqueue : ¬ s.places.At v .queue := by simp [hs.at_iff hp]
    have hidle : ∀ k, ¬ s.places.At v (.running k) := by simp [hs.at_iff hp]
    rw [if_neg (mt (any_queue_iff h v).1 hqueue), find_running_none hidle]
    simp only [if_pos ((any_halted_iff v).2 hp)]
    trivial

theorem stateOf_none (h : Inv s) (hv : ∀ p, ¬ s.places.At v p) :
    s.stateOf v = none := by
  unfold stateOf
  rw [if_neg (mt (any_queue_iff h v).1 (hv .queue)), find_running_none (fun k => hv (.running k))]
  simp only [if_neg (mt (any_halted_iff v).1 (hv .parked))]

/-- The log is the history of some moves that lead to the state. -/
def Recorded (log : List (Call × Reply)) (s : VcpuScheduler Q P) : Prop :=
  ∃ events, s.places.History events ∧ events.flatMap Places.Event.enters = log.flatMap entered ∧
    events.flatMap Places.Event.leaves = log.flatMap dispatched ∧
    events.flatMap Places.Event.accepts = log.flatMap accepted

theorem inv_new : Inv (new Q P) where
  queue x hx := by simp [new, Ring.toList_replicate] at hx
  spare x hx := Ring.mem_spare_replicate hx
  halted x hx := by simp [new] at hx
  rest x hx := Table.mem_rest_replicate hx
  cpu i v hv := by simp [new] at hv

theorem recorded_new : Recorded [] (new Q P) := by
  refine ⟨[], ⟨⟨?_, ?_, ?_⟩, ?_, ?_⟩, rfl, rfl, rfl⟩
  · simp [places, new, Ring.toList_replicate]
  · simp [places, new]
  · intro x p p' hp
    cases p <;> simp [Places.At, places, new, Ring.toList_replicate] at hp
  · simp [places, new, Ring.toList_replicate]
  · intro x
    simp only [flatMap_nil, not_mem_nil, iff_false, not_exists]
    intro p hp
    cases p <;> simp [Places.At, places, new, Ring.toList_replicate] at hp

theorem Recorded.moved {log : List (Call × Reply)} {e : Places.Event VcpuRef (Fin P)}
    {entry : Call × Reply} (h : Recorded log s) (hm : s.places.Move e s'.places)
    (hs : Shows e entry) : Recorded (log ++ [entry]) s' := by
  obtain ⟨events, hhist, henters, hleaves, haccepts⟩ := h
  refine ⟨events ++ [e], hhist.move hm, ?_, ?_, ?_⟩
  · simp [henters, hs.enters]
  · simp [hleaves, hs.leaves]
  · simp [haccepts, hs.accepts]

theorem run_recorded (calls : List Call) :
    Inv (run step (new Q P) calls).2 ∧
      Recorded (run step (new Q P) calls).1 (run step (new Q P) calls).2 := by
  refine run_effect (I := fun (log : List (Call × Reply)) (s : VcpuScheduler Q P) =>
    Inv s ∧ Recorded log s) ⟨inv_new, recorded_new⟩ (fun _ _ c h => step_effect h.1 c) ?_ ?_ calls
  · intro log s c r ⟨hinv, hrec⟩ ⟨e, hr⟩
    subst hr
    refine ⟨hinv, hrec.moved (.stay _) ⟨?_, ?_, ?_⟩⟩ <;> cases c <;> rfl
  · intro log s e s' entry ⟨_, hrec⟩ ⟨hm, hinv⟩ hs
    exact ⟨hinv, hrec.moved hm hs⟩

/-- The scheduler after a run, against the log of the run. -/
structure Accounted (log : List (Call × Reply)) (s : VcpuScheduler Q P) : Prop where
  slots : Inv s
  /-- A vCPU is somewhere exactly when it was accepted, and then in exactly one place. -/
  place : ∀ v ∈ log.flatMap accepted, ∃! p, s.places.At v p
  stranger : ∀ v ∉ log.flatMap accepted, ∀ p, ¬ s.places.At v p
  queueOnce : s.places.queue.Nodup
  haltedOnce : s.places.parked.Nodup
  state : ∀ v p, s.places.At v p → Agrees p (s.stateOf v)
  stateNone : ∀ v ∉ log.flatMap accepted, s.stateOf v = none
  /-- The vCPUs dispatched, followed by those that wait, are those that entered the queue. -/
  fifo : log.flatMap entered = log.flatMap dispatched ++ s.places.queue
  failure : ∀ c e, (step s c).1 = .failed e → (step s c).2 = s

theorem run_accounted (Q P : ℕ) (calls : List Call) :
    Accounted (run step (new Q P) calls).1 (run step (new Q P) calls).2 := by
  obtain ⟨hinv, events, hhist, henters, hleaves, haccepts⟩ := run_recorded (Q := Q) (P := P) calls
  have hpresent := hhist.present
  have hfifo := hhist.fifo
  rw [haccepts] at hpresent
  rw [henters, hleaves] at hfifo
  have hstranger : ∀ v ∉ (run step (new Q P) calls).1.flatMap accepted,
      ∀ p, ¬ (run step (new Q P) calls).2.places.At v p :=
    fun v hv p hp => hv ((hpresent v).1 ⟨p, hp⟩)
  refine ⟨hinv, fun v hv => ?_, hstranger, hhist.sound.queue, hhist.sound.parked,
    fun v p hp => stateOf_agrees hinv hhist.sound hp,
    fun v hv => stateOf_none hinv (hstranger v hv), hfifo, fun c e he => (step_effect hinv c).unchanged ⟨e, he⟩⟩
  obtain ⟨p, hp⟩ := (hpresent v).2 hv
  exact ⟨p, hp, fun q hq => hhist.sound.unique v q p hq hp⟩

end VcpuScheduler
end AegisHV
