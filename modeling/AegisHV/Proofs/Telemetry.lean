import AegisHV.Lib.Op
import AegisHV.Spec.Telemetry

/-! A loss report of the event pipeline is true as long as no event is emitted past an older one
that still waits. Every step of the pipeline keeps, creates, emits or skips events; the
invariants of a run are read off these four moves. -/

namespace AegisHV.Telemetry

open Sys List ReplayDeterminism

namespace LossTracker

variable {t : LossTracker} {ev : Event} {n : ℕ}

theorem mem_sequenceGapBefore {g : ℕ × ℕ} : g ∈ t.sequenceGapBefore n ↔
    ∃ last ∈ t.lastAccountedSequence, last + 1 < 2 ^ 64 ∧ last + 1 < n ∧ g = (last + 1, n - 1) := by
  unfold sequenceGapBefore
  cases t.lastAccountedSequence with
  | none => simp
  | some last =>
    by_cases hlast : last + 1 < 2 ^ 64
    · have hadd : checkedAdd last 1 = some (last + 1) := checkedAdd_eq_some.2 ⟨hlast, rfl⟩
      by_cases hn : last + 1 < n <;> simp [-Nat.reducePow, hadd, hn, hlast, eq_comm]
    · have hadd : checkedAdd last 1 = none := checkedAdd_eq_none.2 (Nat.le_of_not_lt hlast)
      simp [-Nat.reducePow, hadd, hlast]

@[simp] theorem decorate_sequence (total : ℕ) :
    (t.decorate ev total).1.sequence = ev.sequence := by
  simp only [decorate, Event.withLossReport]
  split_ifs <;> rfl

@[simp] theorem decorate_lastAccountedSequence (total : ℕ) :
    (t.decorate ev total).2.lastAccountedSequence = t.lastAccountedSequence := by
  simp only [decorate]
  split_ifs <;> rfl

theorem decorate_lastDropTotal {total : ℕ} :
    (t.decorate ev total).2.lastDropTotal = t.lastDropTotal ∨
      (t.decorate ev total).2.lastDropTotal = total := by
  simp only [decorate]
  split_ifs <;> simp

theorem decorate_gap (total : ℕ) (hev : ev.loss = none) :
    (t.decorate ev total).1.loss.bind (·.sequenceGap) = t.sequenceGapBefore ev.sequence := by
  simp only [decorate, Event.withLossReport]
  by_cases h : total - t.lastDropTotal > 0 ∨ (t.sequenceGapBefore ev.sequence).isSome
  · rw [if_pos h, if_pos h]
    rfl
  · rw [if_neg h]
    rw [not_or, Option.not_isSome_iff_eq_none] at h
    simp [hev, h.2]

/-- Without a drop since the last report and without a gap the event goes out as it is. -/
theorem decorate_of_quiet {total : ℕ} (ht : total = t.lastDropTotal)
    (hgap : t.sequenceGapBefore ev.sequence = none) : t.decorate ev total = (ev, t) := by
  simp [decorate, ht, hgap]

theorem accountSequence_covers (t : LossTracker) (n : ℕ) :
    ∃ last ∈ (t.accountSequence n).lastAccountedSequence,
      n ≤ last ∧ ∀ l ∈ t.lastAccountedSequence, l ≤ last := by
  unfold accountSequence
  cases t.lastAccountedSequence with
  | none => simp
  | some l => exact ⟨max l n, by simp, le_max_right _ _, by simp⟩

end LossTracker

theorem ReplayDeterminism.normalize_eq (r : ReplayDeterminism) (ev : Event) : r.normalize ev =
    ({ ev with sequence := if r.enabled then r.nextEvent else ev.sequence },
      { r with nextEvent :=
          if r.enabled then min (r.nextEvent + 1) (2 ^ 64 - 1) else r.nextEvent }) := by
  unfold normalize
  split_ifs <;> rfl

namespace Pipeline

variable {p p' : Pipeline} {q x : ℕ} {result : WriteResult} {c : PipelineStep}

/-- The number of an event that leaves the pipeline, and the event as it is written. -/
def numberOf (p : Pipeline) (q : ℕ) : ℕ := if p.replay.enabled then p.replay.nextEvent else q

def stamped (p : Pipeline) (q : ℕ) : Event :=
  (p.loss.decorate (p.replay.normalize { sequence := q }).1 p.droppedTotal).1

/-- The number is no later than the last one the tracker has accounted for. -/
def Accounted (p : Pipeline) (x : ℕ) : Prop := ∃ last ∈ p.loss.lastAccountedSequence, x ≤ last

theorem stamped_sequence : (p.stamped q).sequence = p.numberOf q := by
  rw [stamped, LossTracker.decorate_sequence, normalize_eq, numberOf]

theorem stamped_gap :
    (p.stamped q).loss.bind (·.sequenceGap) = p.loss.sequenceGapBefore (p.numberOf q) := by
  rw [stamped, LossTracker.decorate_gap, normalize_eq, numberOf]
  rw [normalize_eq]

variable {e : Event} {reached : Option SinkWriteStatus}

theorem mem_jsonl_record {ev : Event} :
    e ∈ (p.record ev reached).jsonl ↔ e ∈ p.jsonl ∨ (reached = some .written ∧ e = ev) := by
  unfold record
  by_cases h : reached = some .written <;> simp [h]

theorem mem_spool_record {ev : Event} :
    e ∈ (p.record ev reached).spool ↔ e ∈ p.spool ∨ (reached = some .spooled ∧ e = ev) := by
  unfold record
  by_cases h : reached = some .spooled <;> simp [h]

theorem mem_emitted_record {ev : Event}
    (he : e ∈ (p.record ev reached).emitted) : e ∈ p.emitted ∨ e = ev := by
  rcases mem_append.1 he with h | h
  · exact (mem_jsonl_record.1 h).imp (mem_append_left _) And.right
  · exact (mem_spool_record.1 h).imp (mem_append_right _) And.right

/-- A number that waited is emitted or skipped. -/
structure Left (p : Pipeline) (q : ℕ) (p' : Pipeline) : Prop where
  counter : p'.sequenceCounter = p.sequenceCounter
  dropped : p'.droppedTotal = p.droppedTotal
  waiting : p.waiting.Perm (q :: p'.waiting)
  enabled : p'.replay.enabled = p.replay.enabled
  nextEvent : p'.replay.nextEvent = p.replay.nextEvent ∨
    p'.replay.nextEvent = min (p.replay.nextEvent + 1) (2 ^ 64 - 1)
  accounted : ∀ x, p.Accounted x → p'.Accounted x

/-- All that an emission does to what the invariants read. -/
structure Emitted (p : Pipeline) (q : ℕ) (result : WriteResult) (p' : Pipeline) : Prop
    extends Left p q p' where
  lastDrop : p'.loss.lastDropTotal = p.loss.lastDropTotal ∨ p'.loss.lastDropTotal = p.droppedTotal
  skipped : p'.skipped = p.skipped
  numbered : p'.replay.nextEvent =
    if p.replay.enabled then min (p.replay.nextEvent + 1) (2 ^ 64 - 1) else p.replay.nextEvent
  jsonl : ∀ e ∈ p'.jsonl, e ∈ p.jsonl ∨ e = p.stamped q
  emitted : ∀ e ∈ p'.emitted, e ∈ p.emitted ∨ e = p.stamped q
  written : p'.failed = false → ∀ e ∈ p'.jsonl, e ∈ p.jsonl ∨ p'.Accounted e.sequence
  accounts : result = .ok .written → p'.Accounted (p.numberOf q)

theorem accounted_skip (h : p.Accounted x ∨ x = q) : (p.skip q).Accounted x := by
  obtain ⟨last, hlast, hq, hold⟩ := p.loss.accountSequence_covers q
  refine ⟨last, hlast, ?_⟩
  rcases h with ⟨l, hl, hx⟩ | rfl
  · exact hx.trans (hold l hl)
  · exact hq

theorem emit_nextEvent : (p.emit q result).replay.nextEvent =
    if p.replay.enabled then min (p.replay.nextEvent + 1) (2 ^ 64 - 1) else p.replay.nextEvent := by
  cases result <;> exact congrArg (·.2.nextEvent) (p.replay.normalize_eq { sequence := q })

theorem emit_enabled : (p.emit q result).replay.enabled = p.replay.enabled := by
  cases result <;> exact congrArg (·.2.enabled) (p.replay.normalize_eq { sequence := q })

/-- Only a line the output took is accounted for. -/
theorem emit_accounted (h : p.Accounted x ∨ (result = .ok .written ∧ x = (p.stamped q).sequence)) :
    (p.emit q result).Accounted x := by
  have hdecorated := @LossTracker.decorate_lastAccountedSequence p.loss
    (p.replay.normalize { sequence := q }).1 p.droppedTotal
  have hkept : p.Accounted x → ∃ last ∈ (p.loss.decorate (p.replay.normalize { sequence := q }).1
      p.droppedTotal).2.lastAccountedSequence, x ≤ last := by
    rw [hdecorated]
    exact id
  rcases result with (_ | _) | _
  · obtain ⟨last, hlast, hnew, hold⟩ := (p.loss.decorate (p.replay.normalize { sequence := q }).1
      p.droppedTotal).2.accountSequence_covers (p.stamped q).sequence
    refine ⟨last, hlast, ?_⟩
    rcases h with h | ⟨-, rfl⟩
    · obtain ⟨l, hl, hx⟩ := hkept h
      exact hx.trans (hold l hl)
    · exact hnew
  · exact hkept (h.resolve_right (by simp))
  · exact hkept (h.resolve_right (by simp))

theorem emit_emitted {todo : List MainOp} {held : List ℕ}
    (hw : p.waiting.Perm (q :: (held ++ (p.sampled ++ p.queue)))) :
    Emitted p q result ({ p with todo, held }.emit q result) := by
  have hnext := @emit_nextEvent { p with todo, held } q result
  have hdrop := @LossTracker.decorate_lastDropTotal p.loss
    (p.replay.normalize { sequence := q }).1 p.droppedTotal
  have hacc := fun x => @emit_accounted { p with todo, held } q x result
  have hleft : Left p q ({ p with todo, held }.emit q result) := by
    refine ⟨?_, ?_, ?_, emit_enabled, ?_, fun x hx => hacc x (Or.inl hx)⟩
    · cases result <;> rfl
    · cases result <;> rfl
    · cases result <;> exact hw
    · rw [hnext]
      split_ifs
      · exact Or.inr rfl
      · exact Or.inl rfl
  refine ⟨hleft, ?_, ?_, hnext, ?_, ?_, ?_, ?_⟩
  · rcases result with (_ | _) | _ <;> exact hdrop
  · cases result <;> rfl
  · intro e he
    cases result <;> exact (mem_jsonl_record.1 he).imp_right And.right
  · intro e he
    cases result <;> exact mem_emitted_record he
  · intro hfailed e he
    cases result with
    | ok status =>
      refine (mem_jsonl_record.1 he).imp_right ?_
      rintro ⟨hstatus, rfl⟩
      exact hacc _ (Or.inr ⟨congrArg _ (Option.some_inj.1 hstatus), rfl⟩)
    | err reached => cases hfailed
  · intro hok
    exact hacc _ (Or.inr ⟨hok, stamped_sequence.symm⟩)

/-- All that a step can do. -/
inductive Move (p : Pipeline) (c : PipelineStep) : Pipeline → Prop
  | kept {droppedTotal : ℕ} {todo : List MainOp} {held sampled queue : List ℕ}
      (hdropped : c.drops = false → droppedTotal = p.droppedTotal)
      (hw : List.Subperm (held ++ (sampled ++ queue)) p.waiting)
      (hall : c.drops = false → (held ++ (sampled ++ queue)).Perm p.waiting) :
      Move p c { p with droppedTotal, todo, held, sampled, queue }
  | created {todo : List MainOp} {held sampled : List ℕ} (hc : p.creates c = true)
      (hw : (held ++ (sampled ++ p.queue)).Perm (p.sequenceCounter :: p.waiting)) :
      Move p c
        { p with sequenceCounter := wrappingAdd p.sequenceCounter 1, todo, held, sampled }
  | emitted {q : ℕ} {p' : Pipeline} {result : WriteResult} (hc : c = .advance result)
      (hq : q ∈ p.emits c) (he : Emitted p q result p') : Move p c p'
  | skipped {q : ℕ} {todo : List MainOp} {held : List ℕ} (hq : q ∈ p.held.head?)
      (hop : p.todo.head? = some .skipOldest)
      (hw : p.waiting.Perm (q :: (held ++ (p.sampled ++ p.queue)))) :
      Move p c ({ p with todo, held }.skip q)

theorem Move.of_todo (todo : List MainOp) : Move p c { p with todo } :=
  .kept (fun _ => rfl) (List.Perm.refl p.waiting).subperm (fun _ => List.Perm.refl p.waiting)

theorem waiting_perm_of_getLast (hq : q ∈ p.held.getLast?) :
    p.waiting.Perm (q :: (p.held.dropLast ++ (p.sampled ++ p.queue))) := by
  unfold waiting
  have hheld : p.held = p.held.dropLast ++ [q] := (dropLast_append_getLast? q hq).symm
  rw [hheld, dropLast_concat, append_assoc]
  exact perm_middle

theorem advance_move (p : Pipeline) (result : WriteResult) :
    Move p (.advance result) (p.advance result) := by
  unfold advance
  cases htodo : p.todo with
  | nil => exact Move.of_todo p.todo
  | cons op todo =>
    cases op with
    | create =>
      refine .created (by simp [creates, htodo]) ?_
      rw [append_assoc]
      exact perm_middle
    | emitNewest =>
      cases hlast : p.held.getLast? with
      | none => simpa [perform, hlast] using Move.of_todo todo
      | some q =>
        simp only [perform, hlast]
        exact .emitted rfl (by simp [emits, htodo, hlast])
          (emit_emitted (waiting_perm_of_getLast hlast))
    | emitOldest =>
      cases hheld : p.held with
      | nil => simpa [perform, hheld] using @Move.of_todo p (.advance result) todo
      | cons q held =>
        exact .emitted rfl (by simp [emits, htodo, hheld])
          (emit_emitted (by simp [waiting, hheld]))
    | skipOldest =>
      cases hheld : p.held with
      | nil => simpa [perform, hheld] using @Move.of_todo p (.advance result) todo
      | cons q held =>
        exact .skipped (by simp [hheld]) (by simp [htodo]) (by simp [waiting, hheld])

theorem recvEvent_move (p : Pipeline) (c : PipelineStep) (actions : ℕ) :
    Move p c (p.recvEvent actions) := by
  unfold recvEvent
  cases hqueue : p.queue with
  | nil => exact Move.of_todo p.todo
  | cons q queue =>
    have hw : (p.held ++ [q] ++ (p.sampled ++ queue)).Perm p.waiting := by
      rw [waiting, hqueue, append_assoc, singleton_append]
      exact perm_middle.symm.append_left p.held
    exact .kept (fun _ => rfl) hw.subperm fun _ => hw

theorem send_move (p : Pipeline) (full : Bool) : Move p (.send full) (p.send full) := by
  unfold send
  cases hsampled : p.sampled with
  | nil => exact Move.of_todo p.todo
  | cons q sampled =>
    cases full with
    | true =>
      refine .kept (fun h => absurd h (by decide)) ?_ (fun h => absurd h (by decide))
      rw [waiting, hsampled]
      exact ((sublist_cons_self q _).append_left p.held).subperm
    | false =>
      have hw : (p.held ++ (sampled ++ (p.queue ++ [q]))).Perm p.waiting := by
        rw [waiting, hsampled, ← append_assoc sampled]
        exact (perm_append_singleton q _).append_left p.held
      exact .kept (fun _ => rfl) hw.subperm fun _ => hw

theorem live_move (p : Pipeline) (c : PipelineStep) : Move p c (p.live c) := by
  cases c with
  | recvLine line =>
    unfold live
    split_ifs
    · exact Move.of_todo line.script
    · exact Move.of_todo p.todo
  | recvEvent actions =>
    unfold live
    split_ifs
    · exact recvEvent_move p _ actions
    · exact Move.of_todo p.todo
  | sensor count =>
    unfold live
    split_ifs
    · exact Move.of_todo (batch count)
    · exact Move.of_todo p.todo
  | advance result => exact advance_move p result
  | sample =>
    refine .created rfl ?_
    rw [append_assoc p.sampled, ← append_assoc, waiting, ← append_assoc p.held p.sampled p.queue]
    exact perm_middle
  | send full => exact send_move p full
  | dropItem =>
    exact .kept (fun h => absurd h (by decide)) (List.Perm.refl p.waiting).subperm
      fun _ => List.Perm.refl p.waiting

theorem step_move (p : Pipeline) (c : PipelineStep) : Move p c (p.step c) := by
  unfold step
  split_ifs
  · exact Move.of_todo p.todo
  · exact live_move p c

/-- The number has been given out and lies behind: in deterministic replay more than `k` emissions
ago, otherwise by leaving every hand and the queue. -/
def Behind (p : Pipeline) (k x : ℕ) : Prop :=
  if p.replay.enabled then x + k < p.replay.nextEvent
  else x < p.sequenceCounter ∧ x ∉ p.waiting

variable {k : ℕ}

theorem behind_of_enabled (h : p.replay.enabled = true) :
    p.Behind k x ↔ x + k < p.replay.nextEvent := by
  rw [Behind, if_pos h]

theorem behind_of_disabled (h : p.replay.enabled = false) :
    p.Behind k x ↔ x < p.sequenceCounter ∧ x ∉ p.waiting := by
  rw [Behind, if_neg (by simp [h])]

/-- The counters: every number that waits is below the sequence counter, and replay has numbered
no more events than have been created and do not wait. -/
structure Counted (p : Pipeline) : Prop where
  counter_lt : p.sequenceCounter < 2 ^ 64
  waiting_lt : ∀ w ∈ p.waiting, w < p.sequenceCounter
  room : p.replay.nextEvent + p.waiting.length ≤ p.sequenceCounter

theorem Counted.start (deterministic : Bool) : Counted (start deterministic) :=
  ⟨by norm_num [Pipeline.start], by simp [Pipeline.start, Pipeline.waiting], le_rfl⟩

theorem Counted.nextEvent_emitted (h : Counted p) (hq : q ∈ p.waiting) :
    min (p.replay.nextEvent + 1) (2 ^ 64 - 1) = p.replay.nextEvent + 1 := by
  have hpos := length_pos_of_mem hq
  have hroom := h.room
  have hlt := h.counter_lt
  omega

/-- What no step takes back. -/
structure Grows (p p' : Pipeline) : Prop where
  enabled : p'.replay.enabled = p.replay.enabled
  nextEvent : p.replay.nextEvent ≤ p'.replay.nextEvent
  counter : p.sequenceCounter ≤ p'.sequenceCounter
  waiting : ∀ w ∈ p'.waiting, w ∈ p.waiting ∨ w = p.sequenceCounter
  accounted : ∀ x, p.Accounted x → p'.Accounted x

theorem Left.mem (hl : Left p q p') : q ∈ p.waiting := hl.waiting.symm.subset mem_cons_self

theorem Left.counted (hl : Left p q p') (h : Counted p) : Counted p' ∧ Grows p p' := by
  have hsub : ∀ w ∈ p'.waiting, w ∈ p.waiting :=
    fun w hw => hl.waiting.symm.subset (mem_cons_of_mem _ hw)
  have hlen := hl.waiting.length_eq
  have hroom := h.room
  rw [length_cons] at hlen
  have hnext := hl.nextEvent
  rw [h.nextEvent_emitted hl.mem] at hnext
  refine ⟨⟨?_, fun w hw => ?_, ?_⟩, hl.enabled, by omega, hl.counter.ge,
    fun w hw => Or.inl (hsub w hw), hl.accounted⟩ <;> rw [hl.counter]
  · exact h.counter_lt
  · exact h.waiting_lt w (hsub w hw)
  · omega

theorem wrappingAdd_of_lt (h : p.sequenceCounter + 1 < 2 ^ 64) :
    wrappingAdd p.sequenceCounter 1 = p.sequenceCounter + 1 := Nat.mod_eq_of_lt h

theorem skip_left {todo : List MainOp} {held : List ℕ}
    (hw : p.waiting.Perm (q :: (held ++ (p.sampled ++ p.queue)))) :
    Left p q ({ p with todo, held }.skip q) :=
  ⟨rfl, rfl, hw, rfl, Or.inl rfl, fun _ hx => accounted_skip (Or.inl hx)⟩

theorem Counted.step (h : Counted p) (hc : p.InOrder c) :
    Counted (p.step c) ∧ Grows p (p.step c) := by
  have hmove := p.step_move c
  generalize p.step c = p' at hmove
  cases hmove with
  | kept _ hw =>
    refine ⟨⟨h.counter_lt, fun w hx => h.waiting_lt w (hw.subset hx), ?_⟩, rfl, le_rfl, le_rfl,
      fun w hx => Or.inl (hw.subset hx), fun x hx => hx⟩
    exact le_trans (Nat.add_le_add_left hw.length_le _) h.room
  | created hcr hw =>
    have hlen := hw.length_eq
    have hroom := h.room
    have hsub := fun w hx => mem_cons.1 (hw.subset (a := w) hx)
    rw [wrappingAdd_of_lt (hc.1 hcr)]
    refine ⟨⟨hc.1 hcr, fun w hx => ?_, ?_⟩, rfl, le_rfl, Nat.le_succ _, fun w hx => (hsub w hx).symm,
      fun x hx => hx⟩
    · rcases hsub w hx with rfl | hx
      · exact Nat.lt_succ_self _
      · exact (h.waiting_lt w hx).trans (Nat.lt_succ_self _)
    · rw [length_cons] at hlen
      show p.replay.nextEvent + List.length _ ≤ p.sequenceCounter + 1
      rw [waiting, hlen]
      omega
  | emitted _ _ he => exact he.toLeft.counted h
  | skipped _ _ hw => exact (skip_left hw).counted h

theorem Behind.of_grows (hg : Grows p p') (hx : p.Behind k x) : p'.Behind k x := by
  cases henabled : p.replay.enabled with
  | true =>
    rw [behind_of_enabled henabled] at hx
    rw [behind_of_enabled (hg.enabled.trans henabled)]
    exact hx.trans_le hg.nextEvent
  | false =>
    rw [behind_of_disabled henabled] at hx
    rw [behind_of_disabled (hg.enabled.trans henabled)]
    refine ⟨hx.1.trans_le hg.counter, fun hmem => ?_⟩
    rcases hg.waiting x hmem with hw | rfl
    · exact hx.2 hw
    · exact lt_irrefl _ hx.1

/-- An emission in order reports a gap of numbers that are behind. -/
theorem behind_of_gap (h : Counted p) (hc : p.InOrder c) (hq : q ∈ p.emits c)
    (hmem : q ∈ p.waiting) {last : ℕ} (hlast : last ∈ p.loss.lastAccountedSequence)
    (hx : last < x ∧ x < p.numberOf q) : p.Behind 0 x := by
  cases henabled : p.replay.enabled with
  | true =>
    rw [numberOf, if_pos henabled] at hx
    rw [behind_of_enabled henabled]
    exact hx.2
  | false =>
    rw [numberOf, if_neg (by simp [henabled])] at hx
    rw [behind_of_disabled henabled]
    refine ⟨hx.2.trans (h.waiting_lt q hmem), fun hwait => ?_⟩
    exact absurd (hc.2 henabled q hq x hwait last hlast hx.2) (by omega)

/-- The operations empty the hand of the main loop and never run dry. -/
def Balanced : ℕ → List MainOp → Prop
  | n, [] => n = 0
  | n, .create :: ops => Balanced (n + 1) ops
  | n, _ :: ops => 0 < n ∧ Balanced (n - 1) ops

/-- How far the main loop is with a line whose exit event is to be skipped: until then at most
the conflict event is emitted past it. -/
inductive SkipPhase (next : ℕ) : List ℕ → List MainOp → Prop
  | absent {held : List ℕ} {todo : List MainOp} (hno : .skipOldest ∉ todo) : SkipPhase next held todo
  | plain : SkipPhase next [] [.create, .skipOldest]
  | conflict : SkipPhase next [] [.create, .create, .emitNewest, .skipOldest]
  | created {r : ℕ} (hr : next ≤ r) : SkipPhase next [r] [.create, .emitNewest, .skipOldest]
  | raised {r s : ℕ} (hr : next ≤ r) : SkipPhase next [r, s] [.emitNewest, .skipOldest]
  | ready {r : ℕ} (hr : next ≤ r + 1) : SkipPhase next [r] [.skipOldest]

theorem balanced_replicate_create (ops : List MainOp) (k : ℕ) :
    ∀ n, Balanced (n + k) ops → Balanced n (List.replicate k .create ++ ops) := by
  induction k with
  | zero => exact fun n h => h
  | succ k ih =>
    intro n h
    apply ih (n + 1)
    rwa [Nat.add_assoc, Nat.add_comm 1]

theorem balanced_replicate_emitOldest (ops : List MainOp) (k : ℕ) :
    ∀ n, Balanced n ops → Balanced (n + k) (List.replicate k .emitOldest ++ ops) := by
  induction k with
  | zero => exact fun n h => h
  | succ k ih => exact fun n h => ⟨Nat.succ_pos _, ih n h⟩

theorem balanced_batch {n : ℕ} {ops : List MainOp} (count : ℕ) (h : Balanced n ops) :
    Balanced n (batch count ++ ops) := by
  rw [batch, append_assoc]
  exact balanced_replicate_create _ _ _ (balanced_replicate_emitOldest _ _ _ h)

theorem balanced_batch_zero (count : ℕ) : Balanced 0 (batch count) := by
  have h := @balanced_batch 0 [] count rfl
  rwa [append_nil] at h

theorem balanced_fate (fate : ExitFate) : Balanced 1 fate.script := by
  cases fate with
  | ignored => exact ⟨Nat.one_pos, rfl⟩
  | kept wx actions =>
    refine ⟨Nat.one_pos, ?_⟩
    cases wx with
    | none => exact balanced_batch_zero actions
    | some wxActions =>
      have h := balanced_batch 1 (balanced_batch wxActions (balanced_batch_zero actions))
      exact h

theorem balanced_script (line : LineOutcome) : Balanced 0 line.script := by
  cases line with
  | unsupported => exact rfl
  | malformed => exact balanced_batch_zero 1
  | parsed conflict fate =>
    cases conflict with
    | false => exact balanced_fate fate
    | true => exact ⟨Nat.two_pos, balanced_fate fate⟩

theorem skipOldest_not_mem_batch (count : ℕ) : .skipOldest ∉ batch count := by
  simp [batch]

theorem skipPhase_script (next : ℕ) (line : LineOutcome) : SkipPhase next [] line.script := by
  cases line with
  | unsupported => exact .absent (by simp [LineOutcome.script])
  | malformed => exact .absent (skipOldest_not_mem_batch 1)
  | parsed conflict fate =>
    cases fate with
    | ignored =>
      cases conflict with
      | false => exact .plain
      | true => exact .conflict
    | kept wx actions =>
      apply SkipPhase.absent
      cases wx <;> cases conflict <;>
        simp [LineOutcome.script, ExitFate.script, skipOldest_not_mem_batch]

structure Paced (p : Pipeline) : Prop where
  balanced : Balanced p.held.length p.todo
  phase : SkipPhase p.replay.nextEvent p.held p.todo

theorem Paced.held_eq_nil (h : Paced p) (htodo : p.todo = []) : p.held = [] := by
  have hbal := h.balanced
  rw [htodo] at hbal
  exact length_eq_zero_iff.1 hbal

theorem emit_held : (p.emit q result).held = p.held := by
  cases result <;> rfl

theorem emit_todo : (p.emit q result).todo = p.todo := by
  cases result <;> rfl

theorem emit_nextEvent_le : (p.emit q result).replay.nextEvent ≤ p.replay.nextEvent + 1 := by
  rw [emit_nextEvent]
  split_ifs <;> omega

theorem balanced_perform {op : MainOp} {todo : List MainOp}
    (h : Balanced p.held.length (op :: todo)) :
    Balanced ({ p with todo }.perform result op).held.length todo := by
  cases op with
  | create => simpa [perform, create, Balanced] using h
  | emitNewest =>
    have hq := getLast?_eq_some_getLast (length_pos_iff.1 h.1)
    simpa [perform, hq, emit_held] using h.2
  | emitOldest =>
    obtain ⟨q, held, hheld⟩ := exists_cons_of_length_pos h.1
    simpa [perform, hheld, emit_held] using h.2
  | skipOldest =>
    obtain ⟨q, held, hheld⟩ := exists_cons_of_length_pos h.1
    simpa [perform, hheld, skip] using h.2

theorem perform_todo (op : MainOp) : (p.perform result op).todo = p.todo := by
  unfold perform
  split
  · rfl
  · split
    · exact emit_todo
    · rfl
  · split
    · exact emit_todo
    · rfl
  · split <;> rfl

theorem Paced.advance (h : Paced p) (hcount : Counted p) : Paced (p.advance result) := by
  obtain ⟨hbal, hphase⟩ := h
  have hroom := hcount.room
  unfold Pipeline.advance
  cases htodo : p.todo with
  | nil => exact ⟨hbal, hphase⟩
  | cons op todo =>
    rw [htodo] at hbal hphase
    refine ⟨?_, ?_⟩
    · rw [perform_todo]
      exact balanced_perform hbal
    generalize p.held = held at hphase
    rw [perform_todo]
    cases hphase with
    | absent hno => exact .absent fun hmem => hno (mem_cons_of_mem _ hmem)
    | plain =>
      simp only [perform, Pipeline.create]
      exact .ready (by omega)
    | conflict =>
      simp only [perform, Pipeline.create]
      exact .created (by omega)
    | created hr =>
      exact .raised hr
    | raised hr =>
      simp only [perform, getLast?_cons_cons, getLast?_singleton, emit_held]
      exact .ready (emit_nextEvent_le.trans (Nat.succ_le_succ hr))
    | ready => exact .absent (by simp)

theorem Paced.start (deterministic : Bool) : Paced (start deterministic) :=
  ⟨rfl, .absent (by simp [Pipeline.start])⟩

theorem Paced.recvEvent (h : Paced p) (htodo : p.todo = []) (actions : ℕ) :
    Paced (p.recvEvent actions) := by
  have hheld := h.held_eq_nil htodo
  unfold Pipeline.recvEvent
  split
  · exact h
  · refine ⟨?_, .absent ?_⟩
    · simp only [hheld]
      exact ⟨Nat.one_pos, balanced_batch_zero actions⟩
    · simp [skipOldest_not_mem_batch]

theorem Paced.step (h : Paced p) (hcount : Counted p) (c : PipelineStep) : Paced (p.step c) := by
  unfold Pipeline.step
  split_ifs
  · exact h
  cases c with
  | recvLine line =>
    unfold live
    split_ifs with htodo
    · have hheld := h.held_eq_nil htodo
      refine ⟨?_, ?_⟩
      · simp only [hheld]
        exact balanced_script line
      · simp only [hheld]
        exact skipPhase_script _ line
    · exact h
  | recvEvent actions =>
    unfold live
    split_ifs with htodo
    · exact h.recvEvent htodo actions
    · exact h
  | sensor count =>
    unfold live
    split_ifs with htodo
    · have hheld := h.held_eq_nil htodo
      refine ⟨?_, .absent (skipOldest_not_mem_batch count)⟩
      simp only [hheld]
      exact balanced_batch_zero count
    · exact h
  | advance result => exact h.advance hcount
  | sample => exact ⟨h.balanced, h.phase⟩
  | send full =>
    simp only [live, Pipeline.send]
    split
    · exact h
    · split_ifs <;> exact ⟨h.balanced, h.phase⟩
  | dropItem => exact ⟨h.balanced, h.phase⟩

/-- When an exit event is skipped, replay is at most one number past it. -/
theorem Paced.nextEvent_le (h : Paced p) (hq : q ∈ p.held.head?)
    (hop : p.todo.head? = some .skipOldest) : p.replay.nextEvent ≤ q + 1 := by
  obtain ⟨-, hphase⟩ := h
  generalize p.held = held at *
  generalize p.todo = todo at *
  cases hphase with
  | absent hno => exact absurd (mem_of_mem_head? hop) hno
  | ready hr =>
    obtain rfl := Option.some_inj.1 hq
    exact hr
  | _ => simp at hop

theorem Behind.ne_numberOf (hx : p.Behind 1 x) (hq : q ∈ p.waiting) : x ≠ p.numberOf q := by
  cases henabled : p.replay.enabled with
  | true =>
    rw [behind_of_enabled henabled] at hx
    rw [numberOf, if_pos henabled]
    omega
  | false =>
    rw [behind_of_disabled henabled] at hx
    rw [numberOf, if_neg (by simp [henabled])]
    exact fun hxq => hx.2 (hxq ▸ hq)

theorem Behind.ne_skipped (hx : p.Behind 1 x) (hq : q ∈ p.waiting)
    (hnext : p.replay.nextEvent ≤ q + 1) : x ≠ q := by
  cases henabled : p.replay.enabled with
  | true =>
    rw [behind_of_enabled henabled] at hx
    omega
  | false =>
    rw [behind_of_disabled henabled] at hx
    exact fun hxq => hx.2 (hxq ▸ hq)

/-- An emission puts what was behind one further back. -/
theorem Behind.succ_of_emitted (h : Counted p) (he : Emitted p q result p') (hx : p.Behind 0 x) :
    p'.Behind 1 x := by
  cases henabled : p.replay.enabled with
  | true =>
    rw [behind_of_enabled henabled] at hx
    rw [behind_of_enabled (he.enabled.trans henabled), he.numbered, if_pos henabled,
      h.nextEvent_emitted he.mem]
    omega
  | false =>
    have hx' := hx.of_grows (he.toLeft.counted h).2
    rw [behind_of_disabled (he.enabled.trans henabled)] at hx' ⊢
    exact hx'

theorem not_accounted {last : ℕ} (hlast : last ∈ p.loss.lastAccountedSequence) (hx : last < x) :
    ¬ p.Accounted x := by
  rintro ⟨l, hl, hle⟩
  obtain rfl := Option.mem_unique hl hlast
  omega

structure Sound (p : Pipeline) : Prop where
  counted : Counted p
  paced : Paced p
  written : p.failed = false → ∀ e ∈ p.jsonl, p.Accounted e.sequence
  skipped : ∀ x ∈ p.skipped, p.Accounted x
  reported : ∀ x, p.Reported x → p.Behind 1 x
  reports : p.ReportsSound

/-- A number is newly reported only if it lies between the last accounted one and the emitted
one. -/
theorem Emitted.reported (he : Emitted p q result p') (hx : p'.Reported x) :
    p.Reported x ∨ ∃ last ∈ p.loss.lastAccountedSequence, last < x ∧ x < p.numberOf q := by
  obtain ⟨ev, hev, g, hg, hle, hge⟩ := hx
  rcases he.emitted ev hev with hev | rfl
  · exact Or.inl ⟨ev, hev, g, hg, hle, hge⟩
  · rw [stamped_gap] at hg
    obtain ⟨last, hlast, -, hlt, rfl⟩ := LossTracker.mem_sequenceGapBefore.1 hg
    exact Or.inr ⟨last, hlast, by omega, by omega⟩

theorem Emitted.sequence_eq (he : Emitted p q result p') (hmem : e ∈ p'.jsonl) :
    e ∈ p.jsonl ∨ e.sequence = p.numberOf q := by
  rcases he.jsonl e hmem with hold | rfl
  · exact Or.inl hold
  · exact Or.inr stamped_sequence

theorem Emitted.sound (he : Emitted p q result p') (h : Sound p) (hfailed : p.failed = false)
    (hc : p.InOrder c) (hq : q ∈ p.emits c) (hpaced : Paced p') : Sound p' := by
  obtain ⟨hcounted, hg⟩ := he.toLeft.counted h.counted
  refine ⟨hcounted, hpaced, ?_, ?_, ?_, ?_⟩
  · intro hnot e hmem
    rcases he.written hnot e hmem with hold | hnew
    · exact hg.accounted _ (h.written hfailed e hold)
    · exact hnew
  · intro x hx
    rw [he.skipped] at hx
    exact hg.accounted x (h.skipped x hx)
  · intro x hx
    rcases he.reported hx with hold | ⟨last, hlast, hlt⟩
    · exact (h.reported x hold).of_grows hg
    · exact (behind_of_gap h.counted hc hq he.mem hlast hlt).succ_of_emitted h.counted he
  · intro x hx
    -- an old line has not the number, and the new one has its own
    have hsplit : x ∉ p.jsonl.map (·.sequence) ∧ x ∉ p.skipped ∧ x ≠ p.numberOf q := by
      rcases he.reported hx with hold | ⟨last, hlast, hlt, hgt⟩
      · exact ⟨(h.reports x hold).1, (h.reports x hold).2, (h.reported x hold).ne_numberOf he.mem⟩
      · refine ⟨fun hin => ?_, fun hin => not_accounted hlast hlt (h.skipped x hin), hgt.ne⟩
        obtain ⟨e, hmem, rfl⟩ := mem_map.1 hin
        exact not_accounted hlast hlt (h.written hfailed e hmem)
    rw [he.skipped]
    refine ⟨fun hin => ?_, hsplit.2.1⟩
    obtain ⟨e, hmem, rfl⟩ := mem_map.1 hin
    rcases he.sequence_eq hmem with hold | hnew
    · exact hsplit.1 (mem_map_of_mem hold)
    · exact hsplit.2.2 hnew

theorem Sound.step (h : Sound p) (hc : p.InOrder c) : Sound (p.step c) := by
  obtain ⟨hcounted, hg⟩ := h.counted.step hc
  have hpaced := h.paced.step h.counted c
  have hmove := p.step_move c
  cases hfailed : p.failed with
  | true =>
    rw [Pipeline.step, if_pos hfailed]
    exact h
  | false =>
    generalize p.step c = p' at *
    have hreported : ∀ x, p.Reported x → p'.Behind 1 x := fun x hx => (h.reported x hx).of_grows hg
    cases hmove with
    | kept => exact ⟨hcounted, hpaced, h.written, h.skipped, hreported, h.reports⟩
    | created => exact ⟨hcounted, hpaced, h.written, h.skipped, hreported, h.reports⟩
    | emitted _ hq he => exact he.sound h hfailed hc hq hpaced
    | @skipped q _ _ hq hop hw =>
      refine ⟨hcounted, hpaced, fun _ e he => hg.accounted _ (h.written hfailed e he), ?_,
        hreported, ?_⟩
      · exact forall_mem_concat (fun x hx => hg.accounted _ (h.skipped x hx))
          (accounted_skip (Or.inr rfl))
      · intro x hx
        refine ⟨(h.reports x hx).1, fun hin => ?_⟩
        rcases mem_append.1 hin with hin | hin
        · exact (h.reports x hx).2 hin
        · exact (h.reported x hx).ne_skipped (hw.symm.subset mem_cons_self)
            (h.paced.nextEvent_le hq hop) (mem_singleton.1 hin)

/-- Nothing was lost: what is behind is accounted for, and no report was made. -/
structure Whole (p : Pipeline) : Prop where
  dropped : p.droppedTotal = p.loss.lastDropTotal
  complete : ∀ x, 0 < x → p.Behind 0 x → p.Accounted x
  noReport : p.NoReport

theorem Whole.gap_eq_none (hp : Whole p) (h : Counted p) (hc : p.InOrder c) (hq : q ∈ p.emits c)
    (hmem : q ∈ p.waiting) : p.loss.sequenceGapBefore (p.numberOf q) = none := by
  apply Option.eq_none_iff_forall_not_mem.2
  intro g hg
  obtain ⟨last, hlast, -, hlt, -⟩ := LossTracker.mem_sequenceGapBefore.1 hg
  have hbehind := behind_of_gap h hc hq hmem hlast ⟨Nat.lt_succ_self last, hlt⟩
  exact not_accounted hlast (Nat.lt_succ_self last) (hp.complete _ (Nat.succ_pos last) hbehind)

theorem stamped_of_quiet (hd : p.droppedTotal = p.loss.lastDropTotal)
    (hgap : p.loss.sequenceGapBefore (p.numberOf q) = none) : (p.stamped q).loss = none := by
  rw [stamped, LossTracker.decorate_of_quiet hd]
  · rw [normalize_eq]
  · rwa [normalize_eq]

/-- What is behind after a number has left was behind before, or is that number. -/
theorem Left.behind (hl : Left p q p') (hnext : p.replay.enabled = true → x ≠ p.replay.nextEvent ∨
    p'.replay.nextEvent = p.replay.nextEvent) (hxq : p.replay.enabled = false → x ≠ q)
    (h : Counted p) (hx : p'.Behind 0 x) : p.Behind 0 x := by
  cases henabled : p.replay.enabled with
  | true =>
    rw [behind_of_enabled (hl.enabled.trans henabled)] at hx
    rw [behind_of_enabled henabled]
    have hcases := hl.nextEvent
    have hne := hnext henabled
    omega
  | false =>
    rw [behind_of_disabled (hl.enabled.trans henabled), hl.counter] at hx
    rw [behind_of_disabled henabled]
    refine ⟨hx.1, fun hwait => ?_⟩
    rcases mem_cons.1 (hl.waiting.subset hwait) with rfl | hwait
    · exact hxq henabled rfl
    · exact hx.2 hwait

theorem Whole.step (hp : Whole p) (h : Counted p) (hc : p.InOrder c) (hl : c.Lossless) :
    Whole (p.step c) := by
  obtain ⟨-, hg⟩ := h.step hc
  have hmove := p.step_move c
  generalize p.step c = p' at *
  cases hmove with
  | kept hd _ hall =>
    refine ⟨(hd hl.1).trans hp.dropped, fun x hpos hx => hp.complete x hpos ?_, hp.noReport⟩
    have hiff := (hall hl.1).mem_iff (a := x)
    unfold Behind waiting at hx
    rwa [hiff] at hx
  | created hcr hw =>
    refine ⟨hp.dropped, fun x hpos hx => hp.complete x hpos ?_, hp.noReport⟩
    have hiff := hw.mem_iff (a := x)
    unfold Behind waiting at hx
    unfold Behind
    rw [wrappingAdd_of_lt (hc.1 hcr), hiff, mem_cons, not_or] at hx
    split_ifs at hx ⊢ with henabled
    · exact hx
    · exact ⟨lt_of_le_of_ne (Nat.lt_succ_iff.1 hx.1) hx.2.1, hx.2.2⟩
  | @emitted q _ result hadv hq he =>
    obtain rfl : result = .ok .written := by
      have hwrite := hl.2
      rw [hadv] at hwrite
      simpa [PipelineStep.failsWrite] using hwrite
    refine ⟨?_, fun x hpos hx => ?_, fun e hmem => ?_⟩
    · rw [he.dropped]
      rcases he.lastDrop with hlast | hlast <;> rw [hlast, hp.dropped]
    · by_cases hxq : x = p.numberOf q
      · exact hxq ▸ he.accounts rfl
      · refine hg.accounted x (hp.complete x hpos (he.behind (fun hyes => ?_) (fun hno => ?_) h hx))
        · rw [numberOf, if_pos hyes] at hxq
          exact Or.inl hxq
        · rwa [numberOf, if_neg (by simp [hno])] at hxq
    · rcases he.emitted e hmem with hold | rfl
      · exact hp.noReport e hold
      · exact stamped_of_quiet hp.dropped (hp.gap_eq_none h hc hq he.mem)
  | @skipped q _ _ hq hop hw =>
    refine ⟨hp.dropped, fun x hpos hx => ?_, hp.noReport⟩
    by_cases hxq : x = q
    · exact accounted_skip (Or.inr hxq)
    · exact hg.accounted x (hp.complete x hpos
        ((skip_left hw).behind (fun _ => Or.inr rfl) (fun _ => hxq) h hx))

theorem Sound.start (deterministic : Bool) : Sound (start deterministic) := by
  refine ⟨.start deterministic, .start deterministic, ?_, ?_, ?_, ?_⟩ <;>
    simp [Pipeline.start, ReportsSound, Reported, Pipeline.emitted]

theorem Whole.start (deterministic : Bool) : Whole (start deterministic) := by
  refine ⟨rfl, ?_, ?_⟩
  · intro x hpos hx
    cases deterministic with
    | true => exact absurd (behind_of_enabled rfl |>.1 hx) (by simp [Pipeline.start]; omega)
    | false => exact absurd (behind_of_disabled rfl |>.1 hx).1 (by simp [Pipeline.start]; omega)
  · simp [NoReport, Pipeline.start, Pipeline.emitted]

/-- In a run whose steps all keep the order, a reported number is neither in the output nor
skipped, in any state, and a run that loses nothing reports nothing. -/
theorem run_reports_sound (deterministic : Bool) (steps : List PipelineStep)
    (horder : AllSteps InOrder call (start deterministic) steps) :
    AllStates ReportsSound call (start deterministic) steps ∧
      ((∀ c ∈ steps, c.Lossless) → AllStates NoReport call (start deterministic) steps) := by
  constructor
  · exact horder.allStates (I := Sound) (fun p c h hc => h.step hc) (fun p h => h.reports)
      (.start deterministic)
  · intro hlossless
    refine (horder.and_of_forall hlossless).allStates (I := fun p => Counted p ∧ Whole p)
      (fun p c h hc => ?_) (fun p h => h.2.noReport) ⟨.start deterministic, .start deterministic⟩
    exact ⟨(h.1.step hc.1).1, h.2.step h.1 hc.1 hc.2⟩

theorem run_reports_sound_wx_alert :
    let steps : List PipelineStep := [.sensor 1, .advance (.ok .written), .advance (.ok .written),
      .recvLine (.parsed false (.kept (some 1) 0)), .advance (.ok .written),
      .advance (.ok .written), .advance (.ok .written), .advance (.ok .written), .sample,
      .send false, .recvEvent 0, .advance (.ok .written)]
    AllStates ReportsSound call (start false) steps ∧ AllStates NoReport call (start false) steps :=
  (run_reports_sound false _ (by decide)).imp_right fun h => h (by decide)

/-- A trace line with an identity conflict, in a run without losses: the exit event takes number
2, the conflict event number 3, and the conflict event reports number 2 as lost. If the exit
event is kept it is written next, otherwise it is skipped on purpose. The same happens to an
event of the sampler that waits in the queue while the main loop emits a younger one. -/
theorem conflict_event_reports_false_gap :
    let startup : List PipelineStep := [.sensor 1, .advance (.ok .written), .advance (.ok .written)]
    let emitting : List PipelineStep := List.replicate 4 (.advance (.ok .written))
    let kept := startup ++ .recvLine (.parsed true (.kept none 0)) :: emitting
    let ignored := startup ++ .recvLine (.parsed true .ignored) :: emitting
    let queued := startup ++ [.sample, .send false, .sensor 1] ++ emitting ++
      .recvEvent 0 :: emitting
    (∀ c ∈ kept ++ ignored ++ queued, c.Lossless) ∧
      (run call (start false) kept).2.jsonl.map
          (fun ev => (ev.sequence, ev.loss.bind (·.sequenceGap))) =
        [(1, none), (3, some (2, 2)), (2, none)] ∧
      ∀ steps ∈ [kept, ignored, queued], ¬ (run call (start false) steps).2.NoReport ∧
        ¬ (run call (start false) steps).2.ReportsSound := by
  refine ⟨by decide, by decide, ?_⟩
  rw [forall_mem_cons, forall_mem_cons, forall_mem_singleton]
  refine ⟨⟨by decide, fun h => ?_⟩, ⟨by decide, fun h => ?_⟩, by decide, fun h => ?_⟩
  · exact (h 2 (by decide)).1 (by decide)
  · exact (h 2 (by decide)).2 (by decide)
  · exact (h 2 (by decide)).1 (by decide)

end Pipeline

end AegisHV.Telemetry
