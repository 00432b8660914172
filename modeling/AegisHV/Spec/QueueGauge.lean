import AegisHV.Lib.Run

/-! The gauge of the ingest queue (`metrics.rs`) under the threads that send (`collector.rs`,
`pmu.rs`) and the one that receives (`main.rs`). A turn is one atomic step of a thread. -/

namespace AegisHV.QueueGauge

/-- The gauge, the items queued, and the threads that are between two steps. -/
structure State where
  depth : ℕ := 0
  items : ℕ := 0
  sending : ℕ := 0
  full : ℕ := 0
  rejected : ℕ := 0
  receiving : ℕ := 0

inductive Turn
  | recordQueueSendAttempt
  | trySend
  | recordQueueSendRejected
  | recordQueueFull
  | recv
  | recordQueueReceive

/-- Whether some thread can take the turn, and what is then. -/
def step (capacity : ℕ) (s : State) : Turn → Bool × State
  | .recordQueueSendAttempt =>
    (true, { s with depth := min (s.depth + 1) capacity, sending := s.sending + 1 })
  | .trySend =>
    if s.sending = 0 then (false, s)
    else if s.items < capacity then
      (true, { s with items := s.items + 1, sending := s.sending - 1 })
    else (true, { s with sending := s.sending - 1, full := s.full + 1 })
  | .recordQueueSendRejected =>
    if s.full = 0 then (false, s)
    else (true, { s with depth := s.depth - 1, full := s.full - 1, rejected := s.rejected + 1 })
  | .recordQueueFull =>
    if s.rejected = 0 then (false, s)
    else (true, { s with depth := capacity, rejected := s.rejected - 1 })
  | .recv =>
    if s.items = 0 ∨ s.receiving ≠ 0 then (false, s)
    else (true, { s with items := s.items - 1, receiving := s.receiving + 1 })
  | .recordQueueReceive =>
    if s.receiving = 0 then (false, s)
    else (true, { s with depth := s.depth - 1, receiving := s.receiving - 1 })

end AegisHV.QueueGauge
