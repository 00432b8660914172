import AegisHV.Lib.Run
import AegisHV.Lib.Word

/-! The event pipeline of the sensor (`main.rs`): events take a sequence number when they are
created and the loss tracker judges gaps when they are emitted. Two threads create events, the
main loop and the PMU sampler; the step function interleaves them in any order. Of an event the
pipeline reads its sequence number and its loss report. -/

namespace AegisHV.Telemetry

open Sys

inductive LossRangeKind where
  | aggregateCounter
  | sequenceGap
  | aggregateCounterAndSequenceGap

inductive LossReason where
  | queueFullOrOutputBackpressure
  | sequenceGap

structure LossInfo where
  droppedSinceLastEvent : ℕ
  droppedTotal : ℕ
  reason : LossReason
  rangeKind : LossRangeKind
  sequenceGap : Option (ℕ × ℕ)

structure Event where
  sequence : ℕ
  loss : Option LossInfo := none

def Event.withLossReport (ev : Event) (droppedSinceLastEvent droppedTotal : ℕ)
    (reason : LossReason) (sequenceGap : Option (ℕ × ℕ)) : Event :=
  if droppedSinceLastEvent > 0 ∨ sequenceGap.isSome then
    let rangeKind := match decide (droppedSinceLastEvent > 0), sequenceGap.isSome with
      | true, true => .aggregateCounterAndSequenceGap
      | true, false => .aggregateCounter
      | false, true => .sequenceGap
      | false, false => .aggregateCounter
    { ev with
      loss := some { droppedSinceLastEvent, droppedTotal, reason, rangeKind, sequenceGap } }
  else ev

inductive SinkWriteStatus where
  | written
  | spooled
  deriving DecidableEq

structure LossTracker where
  lastDropTotal : ℕ := 0
  lastAccountedSequence : Option ℕ := none

namespace LossTracker

def sequenceGapBefore (t : LossTracker) (sequence : ℕ) : Option (ℕ × ℕ) := do
  let last ← t.lastAccountedSequence
  let start ← checkedAdd last 1
  if sequence > start then some (start, sequence - 1) else none

def decorate (t : LossTracker) (ev : Event) (total : ℕ) : Event × LossTracker :=
  let delta := total - t.lastDropTotal
  let sequenceGap := t.sequenceGapBefore ev.sequence
  if delta > 0 ∨ sequenceGap.isSome then
    let reason := if delta > 0 then .queueFullOrOutputBackpressure else .sequenceGap
    (ev.withLossReport delta total reason sequenceGap, { t with lastDropTotal := total })
  else (ev, t)

def accountSequence (t : LossTracker) (sequence : ℕ) : LossTracker :=
  let last := t.lastAccountedSequence.elim sequence fun last => max last sequence
  { t with lastAccountedSequence := some last }

def finishEmit (t : LossTracker) (sequence : ℕ) (status : SinkWriteStatus) : LossTracker :=
  if status = .written then t.accountSequence sequence else t

def accountIntentionallySkippedSequence (t : LossTracker) (sequence : ℕ) : LossTracker :=
  t.accountSequence sequence

end LossTracker

structure ReplayDeterminism where
  enabled : Bool
  nextEvent : ℕ := 1

/-- Deterministic replay numbers an event anew when it is emitted. -/
def ReplayDeterminism.normalize (r : ReplayDeterminism) (ev : Event) : Event × ReplayDeterminism :=
  if r.enabled then
    ({ ev with sequence := r.nextEvent },
      { r with nextEvent := min (r.nextEvent + 1) (2 ^ 64 - 1) })
  else (ev, r)

/-- What the main loop does next with the events it has in hand. -/
inductive MainOp where
  | create
  | emitNewest
  | emitOldest
  | skipOldest
  deriving DecidableEq

/-- Some events created in a row, then emitted in that order. -/
def batch (count : ℕ) : List MainOp :=
  List.replicate count .create ++ List.replicate count .emitOldest

/-- What becomes of a parsed exit event: the policy ignores its VM, or it is emitted, with the
number of actions for the W^X alert it may raise and the number of actions of its own. -/
inductive ExitFate where
  | ignored
  | kept (wx : Option ℕ) (actions : ℕ)

inductive LineOutcome where
  | unsupported
  | malformed
  | parsed (conflict : Bool) (fate : ExitFate)

def ExitFate.script : ExitFate → List MainOp
  | .ignored => [.skipOldest]
  | .kept wx actions =>
    .emitOldest :: wx.elim [] (fun wxActions => batch 1 ++ batch wxActions) ++ batch actions

/-- The main loop on one trace line. The exit event is created before its identity is looked up,
and a conflict found there is emitted before the exit event. -/
def LineOutcome.script : LineOutcome → List MainOp
  | .unsupported => []
  | .malformed => batch 1
  | .parsed conflict fate =>
    .create :: (if conflict then [.create, .emitNewest] else []) ++ fate.script

/-- What `write_event_line` answers. An error may come after the line has reached the output,
from one of the other sinks. -/
inductive WriteResult where
  | ok (status : SinkWriteStatus)
  | err (reached : Option SinkWriteStatus)
  deriving DecidableEq

structure Pipeline where
  sequenceCounter : ℕ := 1
  droppedTotal : ℕ := 0
  loss : LossTracker := {}
  replay : ReplayDeterminism
  /-- what is left of the item the main loop works on -/
  todo : List MainOp := []
  /-- events in the hand of the main loop, the oldest first -/
  held : List ℕ := []
  /-- events of the sampler that it has not sent yet -/
  sampled : List ℕ := []
  queue : List ℕ := []
  jsonl : List Event := []
  spool : List Event := []
  skipped : List ℕ := []
  failed : Bool := false

inductive PipelineStep where
  | recvLine (line : LineOutcome)
  | recvEvent (actions : ℕ)
  /-- lifecycle, signal and diagnostic events of the main loop -/
  | sensor (count : ℕ)
  | advance (result : WriteResult)
  | sample
  | send (full : Bool)
  /-- a trace line or a sample is dropped before there is an event for it -/
  | dropItem

/-- The step loses an item of the queue. -/
def PipelineStep.drops : PipelineStep → Bool
  | .send full => full
  | .dropItem => true
  | _ => false

/-- The step meets a sink write that does not reach the output. -/
def PipelineStep.failsWrite : PipelineStep → Bool
  | .advance result => result ≠ .ok .written
  | _ => false

def PipelineStep.Lossless (c : PipelineStep) : Prop := c.drops = false ∧ c.failsWrite = false

instance (c : PipelineStep) : Decidable c.Lossless := inferInstanceAs (Decidable (_ ∧ _))

namespace Pipeline

def start (deterministic : Bool) : Pipeline := { replay := { enabled := deterministic } }

def emitted (p : Pipeline) : List Event := p.jsonl ++ p.spool

/-- The events created and neither emitted, skipped nor dropped. -/
def waiting (p : Pipeline) : List ℕ := p.held ++ (p.sampled ++ p.queue)

def record (p : Pipeline) (ev : Event) (reached : Option SinkWriteStatus) : Pipeline :=
  { p with jsonl := if reached = some .written then p.jsonl ++ [ev] else p.jsonl,
           spool := if reached = some .spooled then p.spool ++ [ev] else p.spool }

def emit (p : Pipeline) (sequence : ℕ) (result : WriteResult) : Pipeline :=
  let normalized := p.replay.normalize { sequence }
  let decorated := p.loss.decorate normalized.1 p.droppedTotal
  let q := { p with replay := normalized.2, loss := decorated.2 }
  match result with
  | .ok status =>
    { q.record decorated.1 (some status) with
      loss := decorated.2.finishEmit decorated.1.sequence status }
  | .err reached => { q.record decorated.1 reached with failed := true }

def skip (p : Pipeline) (sequence : ℕ) : Pipeline :=
  { p with loss := p.loss.accountIntentionallySkippedSequence sequence,
           skipped := p.skipped ++ [sequence] }

/-- `next_sequence` for an event of the main loop. -/
def create (p : Pipeline) : Pipeline :=
  { p with sequenceCounter := wrappingAdd p.sequenceCounter 1,
           held := p.held ++ [p.sequenceCounter] }

def perform (p : Pipeline) (result : WriteResult) : MainOp → Pipeline
  | .create => p.create
  | .emitNewest => match p.held.getLast? with
    | some sequence => { p with held := p.held.dropLast }.emit sequence result
    | none => p
  | .emitOldest => match p.held with
    | sequence :: held => { p with held }.emit sequence result
    | [] => p
  | .skipOldest => match p.held with
    | sequence :: held => { p with held }.skip sequence
    | [] => p

def advance (p : Pipeline) (result : WriteResult) : Pipeline :=
  match p.todo with
  | [] => p
  | op :: todo => { p with todo }.perform result op

def recvEvent (p : Pipeline) (actions : ℕ) : Pipeline :=
  match p.queue with
  | [] => p
  | sequence :: queue =>
    { p with queue, held := p.held ++ [sequence], todo := .emitOldest :: batch actions }

/-- The sampler hands its oldest event to the bounded queue, or loses it when the queue is full. -/
def send (p : Pipeline) (full : Bool) : Pipeline :=
  match p.sampled with
  | [] => p
  | sequence :: sampled =>
    if full then { p with sampled, droppedTotal := wrappingAdd p.droppedTotal 1 }
    else { p with sampled, queue := p.queue ++ [sequence] }

/-- One step of either thread. The main loop takes its next item when it is done with the last
one. -/
def live (p : Pipeline) : PipelineStep → Pipeline
  | .recvLine line => if p.todo = [] then { p with todo := line.script } else p
  | .recvEvent actions => if p.todo = [] then p.recvEvent actions else p
  | .sensor count => if p.todo = [] then { p with todo := batch count } else p
  | .advance result => p.advance result
  | .sample =>
    { p with sequenceCounter := wrappingAdd p.sequenceCounter 1,
             sampled := p.sampled ++ [p.sequenceCounter] }
  | .send full => p.send full
  | .dropItem => { p with droppedTotal := wrappingAdd p.droppedTotal 1 }

/-- A failed write ends the run. -/
def step (p : Pipeline) (c : PipelineStep) : Pipeline := if p.failed then p else p.live c

def call (p : Pipeline) (c : PipelineStep) : Unit × Pipeline := ((), p.step c)

/-- The number that a step is about to emit. -/
def emits (p : Pipeline) : PipelineStep → Option ℕ
  | .advance _ => match p.todo with
    | .emitNewest :: _ => p.held.getLast?
    | .emitOldest :: _ => p.held.head?
    | _ => none
  | _ => none

def creates (p : Pipeline) : PipelineStep → Bool
  | .advance _ => p.todo.head? = some .create
  | .sample => true
  | _ => false

/-- Apart from deterministic replay, no event is emitted while one that is older than it, and
newer than the last one accounted for, waits in a hand or in the queue. The sequence counter
does not wrap. -/
def InOrder (p : Pipeline) (c : PipelineStep) : Prop :=
  (p.creates c = true → p.sequenceCounter + 1 < 2 ^ 64) ∧
    (p.replay.enabled = false → ∀ q ∈ p.emits c, ∀ w ∈ p.waiting,
      ∀ last ∈ p.loss.lastAccountedSequence, w < q → w ≤ last)

instance (p : Pipeline) (c : PipelineStep) : Decidable (p.InOrder c) :=
  inferInstanceAs (Decidable (_ ∧ _))

/-- The number lies in a gap that some emitted event reports. -/
def Reported (p : Pipeline) (x : ℕ) : Prop :=
  ∃ ev ∈ p.emitted, ∃ g ∈ ev.loss.bind (·.sequenceGap), g.1 ≤ x ∧ x ≤ g.2

instance (p : Pipeline) (x : ℕ) : Decidable (p.Reported x) :=
  inferInstanceAs (Decidable (∃ ev ∈ p.emitted, _))

def ReportsSound (p : Pipeline) : Prop :=
  ∀ x, p.Reported x → x ∉ p.jsonl.map (·.sequence) ∧ x ∉ p.skipped

def NoReport (p : Pipeline) : Prop := ∀ ev ∈ p.emitted, ev.loss = none

instance (p : Pipeline) : Decidable p.NoReport := inferInstanceAs (Decidable (∀ ev ∈ p.emitted, _))

end Pipeline

end AegisHV.Telemetry
