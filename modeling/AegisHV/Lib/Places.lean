import Mathlib.Tactic

/-! Items that wait in a queue, run in one of a family of slots, or are parked. Every move
takes an item from one place to another, so an item that has entered is in exactly
one place, and the queue hands items out in the order in which they entered it. -/

namespace Sys
open List

universe u v

structure Places (α : Type u) (κ : Type v) where
  queue : List α
  running : κ → Option α
  parked : List α

inductive Place (κ : Type v)
  | queue
  | running (k : κ)
  | parked

inductive Places.Event (α : Type u) (κ : Type v)
  | stay
  | enter (x : α)
  | dispatch (k : κ) (x : α)
  | park (k : κ) (x : α)
  | wake (x : α)

namespace Places

variable {α : Type u} {κ : Type v}

/-- Where an item is. -/
def At (s : Places α κ) (x : α) : Place κ → Prop
  | .queue => x ∈ s.queue
  | .running k => s.running k = some x
  | .parked => x ∈ s.parked

variable [DecidableEq α] [DecidableEq κ]

inductive Move : Places α κ → Event α κ → Places α κ → Prop
  | stay (s : Places α κ) : Move s .stay s
  | enter {s : Places α κ} {x : α} (h : ∀ p, ¬ s.At x p) :
      Move s (.enter x) { s with queue := s.queue ++ [x] }
  | dispatch {s : Places α κ} {k : κ} {x : α} {rest : List α} (h : s.queue = x :: rest)
      (hk : s.running k = none) :
      Move s (.dispatch k x)
        { s with queue := rest, running := Function.update s.running k (some x) }
  | park {s : Places α κ} {k : κ} {x : α} (h : s.running k = some x) :
      Move s (.park k x)
        { s with running := Function.update s.running k none, parked := s.parked ++ [x] }
  | wake {s : Places α κ} {x : α} (h : x ∈ s.parked) :
      Move s (.wake x) { s with queue := s.queue ++ [x], parked := s.parked.erase x }

/-- No item is in two places, or twice in one. -/
structure Sound (s : Places α κ) : Prop where
  queue : s.queue.Nodup
  parked : s.parked.Nodup
  unique : ∀ x p p', s.At x p → s.At x p' → p = p'

variable {s s' : Places α κ} {e : Event α κ} {x : α} {p : Place κ}

omit [DecidableEq α] [DecidableEq κ] in
theorem Sound.at_iff (hs : Sound s) (h : s.At x p) (r : Place κ) : s.At x r ↔ r = p :=
  ⟨fun hr => hs.unique x r p hr h, fun hr => hr ▸ h⟩

/-- The move puts `x` at `q` and leaves every other item where it is. -/
structure Goes (s s' : Places α κ) (x : α) (q : Place κ) : Prop where
  here : ∀ r, s'.At x r ↔ r = q
  others : ∀ y, y ≠ x → ∀ r, s'.At y r ↔ s.At y r

omit [DecidableEq α] in
theorem running_update (s : Places α κ) (k k' : κ) (o : Option α) (y : α) :
    Function.update s.running k o k' = some y ↔
      (k' = k ∧ o = some y) ∨ (k' ≠ k ∧ s.running k' = some y) := by
  by_cases h : k' = k
  · subst h
    simp
  · simp [h]

omit [DecidableEq α] [DecidableEq κ] in
theorem goes_enter (h : ∀ p, ¬ s.At x p) : Goes s { s with queue := s.queue ++ [x] } x .queue := by
  have hqueue : x ∉ s.queue := h .queue
  have hrunning : ∀ k, s.running k ≠ some x := fun k => h (.running k)
  have hparked : x ∉ s.parked := h .parked
  constructor
  · intro r
    cases r <;> simp [At, hrunning, hparked]
  · intro y hy r
    cases r <;> simp [At, hy]

omit [DecidableEq α] in
theorem goes_dispatch {k : κ} {rest : List α} (hs : Sound s) (h : s.queue = x :: rest)
    (hk : s.running k = none) :
    Goes s { s with queue := rest, running := Function.update s.running k (some x) } x
      (.running k) := by
  have hx : s.At x .queue := by simp [At, h]
  have hrunning : ∀ k', s.running k' ≠ some x := fun k' => by
    have := hs.at_iff hx (.running k')
    simpa [At] using this
  have hparked : x ∉ s.parked := by simpa [At] using hs.at_iff hx .parked
  have hrest : x ∉ rest := (nodup_cons.1 (h ▸ hs.queue)).1
  constructor
  · intro r
    cases r <;> simp [At, hrest, hparked, running_update, hrunning]
  · intro y hy r
    cases r with
    | queue => simp [At, h, hy]
    | running k' =>
      simp only [At, running_update, Option.some_inj, Ne.symm hy, and_false, false_or]
      refine ⟨And.right, fun h' => ⟨?_, h'⟩⟩
      rintro rfl
      rw [hk] at h'
      cases h'
    | parked => simp [At]

omit [DecidableEq α] in
theorem goes_park {k : κ} (hs : Sound s) (h : s.running k = some x) :
    Goes s { s with running := Function.update s.running k none, parked := s.parked ++ [x] } x
      .parked := by
  have hx : s.At x (.running k) := h
  have hqueue : x ∉ s.queue := by simpa [At] using hs.at_iff hx .queue
  have hrunning : ∀ k', s.running k' = some x ↔ k' = k := fun k' => by
    simpa [At] using hs.at_iff hx (.running k')
  constructor
  · intro r
    cases r <;> simp [At, hqueue, running_update, hrunning]
  · intro y hy r
    cases r with
    | queue => simp [At]
    | running k' =>
      simp only [At, running_update, reduceCtorEq, and_false, false_or]
      refine ⟨And.right, fun h' => ⟨?_, h'⟩⟩
      rintro rfl
      rw [h] at h'
      exact hy (Option.some_inj.1 h').symm
    | parked => simp [At, hy]

omit [DecidableEq κ] in
theorem goes_wake (hs : Sound s) (h : x ∈ s.parked) :
    Goes s { s with queue := s.queue ++ [x], parked := s.parked.erase x } x .queue := by
  have hx : s.At x .parked := h
  have hrunning : ∀ k, s.running k ≠ some x := fun k => by
    simpa [At] using hs.at_iff hx (.running k)
  constructor
  · intro r
    cases r <;> simp [At, hrunning, hs.parked.mem_erase_iff]
  · intro y hy r
    cases r <;> simp [At, hy, hs.parked.mem_erase_iff]

omit [DecidableEq α] [DecidableEq κ] in
theorem Goes.unique {q : Place κ} (h : Goes s s' x q) (hs : Sound s) :
    ∀ y p p', s'.At y p → s'.At y p' → p = p' := by
  intro y p p' hp hp'
  by_cases hy : y = x
  · subst hy
    rw [h.here] at hp hp'
    rw [hp, hp']
  · rw [h.others y hy] at hp hp'
    exact hs.unique y p p' hp hp'

theorem Move.sound (h : Move s e s') (hs : Sound s) : Sound s' := by
  cases h with
  | stay => exact hs
  | enter hnew =>
    refine ⟨?_, hs.parked, (goes_enter hnew).unique hs⟩
    exact nodup_append.2 ⟨hs.queue, by simp, fun a ha b hb hab => hnew .queue (by
      rw [mem_singleton.1 hb] at hab
      exact hab ▸ ha)⟩
  | dispatch hq hk =>
    refine ⟨?_, hs.parked, (goes_dispatch hs hq hk).unique hs⟩
    exact (nodup_cons.1 (hq ▸ hs.queue)).2
  | @park k x hk =>
    refine ⟨hs.queue, ?_, (goes_park hs hk).unique hs⟩
    have hnot : x ∉ s.parked := by simpa [At] using hs.at_iff (p := .running k) hk .parked
    simpa using hs.parked.concat hnot
  | @wake x hw =>
    refine ⟨?_, hs.parked.erase x, (goes_wake hs hw).unique hs⟩
    have hnot : x ∉ s.queue := by simpa [At] using hs.at_iff (p := .parked) hw .queue
    simpa using hs.queue.concat hnot

/-! Histories of moves. -/

/-- The items an event puts at the end of the queue. -/
def Event.enters : Event α κ → List α
  | .enter x => [x]
  | .wake x => [x]
  | _ => []

/-- The items an event takes from the head of the queue. -/
def Event.leaves : Event α κ → List α
  | .dispatch _ x => [x]
  | _ => []

/-- The items an event brings in. -/
def Event.accepts : Event α κ → List α
  | .enter x => [x]
  | _ => []

/-- After these events every item accepted is somewhere, none is in two places, and the items
dispatched followed by the queue are the items that entered it, in that order. -/
structure History (events : List (Event α κ)) (s : Places α κ) : Prop where
  sound : Sound s
  fifo : events.flatMap Event.enters = events.flatMap Event.leaves ++ s.queue
  present : ∀ x, (∃ p, s.At x p) ↔ x ∈ events.flatMap Event.accepts

omit [DecidableEq α] [DecidableEq κ] in
theorem Goes.present {q : Place κ} (h : Goes s s' x q) (y : α) :
    (∃ p, s'.At y p) ↔ y = x ∨ ∃ p, s.At y p := by
  by_cases hy : y = x
  · subst hy
    exact iff_of_true ⟨q, (h.here q).2 rfl⟩ (Or.inl rfl)
  · simp [h.others y hy, hy]

theorem Move.present (h : Move s e s') (hs : Sound s) (y : α) :
    (∃ p, s'.At y p) ↔ (∃ p, s.At y p) ∨ y ∈ e.accepts := by
  have hstays : ∀ {x : α} {p q : Place κ} {t : Places α κ}, Goes s t x q → s.At x p →
      ((∃ p, t.At y p) ↔ ∃ p, s.At y p) := by
    intro x p q t hgoes hat
    rw [hgoes.present y]
    refine ⟨fun h => h.elim (fun hy => ⟨p, hy ▸ hat⟩) id, Or.inr⟩
  cases h with
  | stay => simp [Event.accepts]
  | enter hnew =>
    rw [(goes_enter hnew).present y, or_comm]
    simp [Event.accepts]
  | @dispatch k x rest hq hk =>
    rw [hstays (goes_dispatch hs hq hk) (p := .queue) (by simp [At, hq])]
    simp [Event.accepts]
  | @park k x hk =>
    rw [hstays (goes_park hs hk) (p := .running k) hk]
    simp [Event.accepts]
  | @wake x hw =>
    rw [hstays (goes_wake hs hw) (p := .parked) hw]
    simp [Event.accepts]

theorem History.move {events : List (Event α κ)} (h : History events s) (hm : Move s e s') :
    History (events ++ [e]) s' := by
  refine ⟨hm.sound h.sound, ?_, fun x => ?_⟩
  · simp only [flatMap_append, flatMap_singleton, h.fifo]
    cases hm with
    | stay => simp [Event.enters, Event.leaves]
    | enter => simp [Event.enters, Event.leaves]
    | dispatch hq => simp [Event.enters, Event.leaves, hq]
    | park => simp [Event.enters, Event.leaves]
    | wake => simp [Event.enters, Event.leaves]
  · rw [hm.present h.sound, h.present, flatMap_append, mem_append, flatMap_singleton]

end Places
end Sys
