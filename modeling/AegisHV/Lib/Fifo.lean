import Mathlib.Data.List.DropRight
import AegisHV.Lib.Op
import AegisHV.Lib.Ring
import AegisHV.Lib.Run

/-! Bounded queues of numbered items that may overwrite their oldest item. The history of such a
queue is what was pushed and what was popped; with what is held and the number of items
dropped it accounts for every item, and every move of the queue keeps the account. A ring
buffer stores such a queue. -/

namespace Sys
open List

universe u

/-- A queue that numbers its items and counts those it drops. -/
structure SeqQueue (α : Type u) where
  held : List α
  next : ℕ
  dropped : ℕ

inductive SeqQueue.Event (α : Type u)
  | stay
  | push (x : α)
  | overwrite (x : α)
  | pop (x : α)

section

variable {α : Type u} {pushed popped held : List α} {dropped : ℕ}

/-- What is held ends what was pushed, and what was popped is a part of the items before it; the
other items before it were dropped. -/
def Kept (pushed popped held : List α) (dropped : ℕ) : Prop :=
  ∃ gone, pushed = gone ++ held ∧ popped.Sublist gone ∧ gone.length = popped.length + dropped

theorem kept_nil : Kept ([] : List α) [] [] 0 := ⟨[], rfl, List.Sublist.refl _, rfl⟩

theorem Kept.push (h : Kept pushed popped held dropped) (x : α) :
    Kept (pushed ++ [x]) popped (held ++ [x]) dropped := by
  obtain ⟨gone, rfl, hsub, hlen⟩ := h
  exact ⟨gone, append_assoc .., hsub, hlen⟩

theorem Kept.drop {y : α} (h : Kept pushed popped (y :: held) dropped) :
    Kept pushed popped held (dropped + 1) := by
  obtain ⟨gone, rfl, hsub, hlen⟩ := h
  refine ⟨gone ++ [y], by simp, hsub.trans (sublist_append_left _ _), ?_⟩
  rw [length_append, hlen, length_singleton, Nat.add_assoc]

theorem Kept.pop {y : α} (h : Kept pushed popped (y :: held) dropped) :
    Kept pushed (popped ++ [y]) held dropped := by
  obtain ⟨gone, rfl, hsub, hlen⟩ := h
  refine ⟨gone ++ [y], by simp, hsub.append (List.Sublist.refl _), ?_⟩
  rw [length_append, hlen, length_append, Nat.add_right_comm]

theorem Kept.length (h : Kept pushed popped held dropped) :
    pushed.length = popped.length + dropped + held.length := by
  obtain ⟨gone, rfl, -, hlen⟩ := h
  rw [length_append, hlen]

theorem Kept.popped_sublist (h : Kept pushed popped held dropped) : popped.Sublist pushed := by
  obtain ⟨gone, rfl, hsub, -⟩ := h
  exact hsub.trans (sublist_append_left _ _)

/-- A queue that drops nothing is exact. -/
theorem Kept.exact (h : Kept pushed popped held 0) : pushed = popped ++ held := by
  obtain ⟨gone, rfl, hsub, hlen⟩ := h
  rw [hsub.eq_of_length hlen.symm]

/-- What is held is the end of what was pushed and not popped. -/
theorem Kept.held_eq [DecidableEq α] (h : Kept pushed popped held dropped) (hnodup : pushed.Nodup) :
    held = (pushed.filter (· ∉ popped)).rtake held.length := by
  obtain ⟨gone, rfl, hsub, -⟩ := h
  have hheld : held.filter (· ∉ popped) = held := by
    apply filter_eq_self.2
    intro x hx
    have hgone : x ∉ gone := fun hg => (nodup_append.1 hnodup).2.2 x hg x hx rfl
    simpa using fun hp => hgone (hsub.subset hp)
  rw [filter_append, hheld, List.rtake, length_append, Nat.add_sub_cancel, drop_left]

/-- The items are numbered from `first` on without a gap, and `next` is the next number. -/
def Numbered (seq : α → ℕ) (first : ℕ) (l : List α) (next : ℕ) : Prop :=
  l.map seq = List.range' first l.length ∧ next = first + l.length

variable {seq : α → ℕ} {first next : ℕ} {l : List α}

theorem numbered_nil : Numbered seq first [] first := ⟨rfl, rfl⟩

theorem Numbered.push {x : α} (h : Numbered seq first l next) (hx : seq x = next) :
    Numbered seq first (l ++ [x]) (next + 1) := by
  obtain ⟨hmap, hnext⟩ := h
  constructor
  · rw [map_append, hmap, length_append, length_singleton, range'_concat]
    simp [hx, hnext]
  · rw [hnext, length_append, length_singleton, Nat.add_assoc]

theorem Numbered.pairwise (h : Numbered seq first l next) :
    l.Pairwise (fun a b => seq a < seq b) := by
  rw [← pairwise_map (f := seq), h.1]
  exact pairwise_lt_range'

theorem Numbered.nodup (h : Numbered seq first l next) : l.Nodup :=
  h.pairwise.imp (fun hlt heq => by simp [heq] at hlt)

end

namespace SeqQueue

variable {α : Type u}

def Event.pushed : Event α → List α
  | .push x => [x]
  | .overwrite x => [x]
  | _ => []

def Event.popped : Event α → List α
  | .pop x => [x]
  | _ => []

/-- What a queue with room for `cap` items can do. -/
inductive Move (seq : α → ℕ) (cap : ℕ) : SeqQueue α → Event α → SeqQueue α → Prop
  | stay (q : SeqQueue α) : Move seq cap q .stay q
  | push {q : SeqQueue α} {x : α} (h : q.held.length < cap) (hx : seq x = q.next) :
      Move seq cap q (.push x) ⟨q.held ++ [x], q.next + 1, q.dropped⟩
  | overwrite {q : SeqQueue α} {x y : α} {rest : List α} (h : q.held = y :: rest)
      (hfull : q.held.length = cap) (hx : seq x = q.next) :
      Move seq cap q (.overwrite x) ⟨rest ++ [x], q.next + 1, q.dropped + 1⟩
  | pop {q : SeqQueue α} {y : α} {rest : List α} (h : q.held = y :: rest) :
      Move seq cap q (.pop y) ⟨rest, q.next, q.dropped⟩

/-- The account of a queue that numbers its items from 1. -/
structure History (seq : α → ℕ) (pushed popped : List α) (q : SeqQueue α) : Prop where
  kept : Kept pushed popped q.held q.dropped
  numbered : Numbered seq 1 pushed q.next

variable {seq : α → ℕ} {cap : ℕ} {q q' : SeqQueue α} {e : Event α} {pushed popped : List α}

theorem History.move (h : History seq pushed popped q) (hm : Move seq cap q e q') :
    History seq (pushed ++ e.pushed) (popped ++ e.popped) q' := by
  obtain ⟨hkept, hnum⟩ := h
  cases hm with
  | stay => simpa [Event.pushed, Event.popped] using ⟨hkept, hnum⟩
  | @push x _ hx => simpa [Event.popped] using ⟨hkept.push x, hnum.push hx⟩
  | @overwrite x y rest hheld _ hx =>
    rw [hheld] at hkept
    simpa [Event.popped] using ⟨hkept.drop.push x, hnum.push hx⟩
  | pop hheld =>
    rw [hheld] at hkept
    simpa [Event.pushed] using ⟨hkept.pop, hnum⟩

/-- Fewer items were dropped than numbers were given out. -/
theorem History.dropped_lt (h : History seq pushed popped q) : q.dropped < q.next := by
  have hlen := h.kept.length
  have hnext := h.numbered.2
  omega

/-- A push keeps the last `cap` items. -/
theorem Move.held_of_pushed {x : α} (hm : Move seq cap q e q') (he : e.pushed = [x]) :
    q'.held = (q.held ++ [x]).rtake cap := by
  cases hm with
  | stay => cases he
  | push hroom =>
    cases he
    have hzero : (q.held ++ [x]).length - cap = 0 := by
      rw [length_append, length_singleton]
      omega
    rw [List.rtake, hzero, drop_zero]
  | @overwrite x' y rest hheld hfull =>
    cases he
    have hone : (q.held ++ [x]).length - cap = 1 := by
      rw [length_append, length_singleton]
      omega
    rw [List.rtake, hone, hheld]
    rfl
  | pop => cases he

end SeqQueue

namespace Ring

open SeqQueue

variable {α : Type u} {cap : ℕ} {r : Ring α cap} {x : α} {seq : α → ℕ} {next dropped : ℕ}

theorem pushBack_move (h : r.len < cap) (hx : seq x = next) :
    Move seq cap ⟨r.toList, next, dropped⟩ (.push x)
      ⟨(r.pushBack x).toList, next + 1, dropped⟩ := by
  rw [toList_pushBack h]
  exact .push (r.toList_length.trans_lt h) hx

theorem overwrite_move (hpos : 0 < cap) (hfull : r.len = cap) (hx : seq x = next) :
    Move seq cap ⟨r.toList, next, dropped⟩ (.overwrite x)
      ⟨(r.setFront x).turn.toList, next + 1, dropped + 1⟩ := by
  have hlen : r.toList.length = cap := r.toList_length.trans hfull
  obtain ⟨y, rest, hlist⟩ := exists_cons_of_length_pos (hlen ▸ hpos)
  rw [overwrite_of_toList hlist hfull]
  exact .overwrite hlist hlen hx

theorem pop_move (r : Ring α cap) :
    ∃ e : Event α, Move seq cap ⟨r.toList, next, dropped⟩ e ⟨r.pop.2.toList, next, dropped⟩ ∧
      e.pushed = [] ∧ e.popped = r.pop.1.toList := by
  cases hlist : r.toList with
  | nil =>
    rw [pop_of_toList_nil hlist, hlist]
    exact ⟨.stay, .stay _, rfl, rfl⟩
  | cons y rest =>
    rw [pop_of_toList hlist, (advance_of_toList hlist).1]
    exact ⟨.pop y, .pop rfl, rfl, rfl⟩

end Ring

namespace SeqQueue

section

variable {α : Type u} {ι : Type*} {seq : α → ℕ} {cap : ℕ} {q q' : SeqQueue α}

/-- The event is what the entry of a log says, and the entry is a proper one. -/
structure Shows (pushed popped : ι → List α) (Proper : ι → Prop) (e : Event α) (entry : ι) :
    Prop where
  pushed : e.pushed = pushed entry
  popped : e.popped = popped entry
  proper : Proper entry

/-- A log of proper entries that accounts for the queue. -/
structure Recorded (seq : α → ℕ) (pushed popped : ι → List α) (Proper : ι → Prop) (log : List ι)
    (q : SeqQueue α) : Prop where
  history : History seq (log.flatMap pushed) (log.flatMap popped) q
  proper : ∀ entry ∈ log, Proper entry

variable {pushed popped : ι → List α} {Proper : ι → Prop} {log : List ι}

theorem recorded_nil : Recorded seq pushed popped Proper [] ⟨[], 1, 0⟩ :=
  ⟨⟨kept_nil, numbered_nil⟩, by simp⟩

theorem Recorded.move {e : Event α} {entry : ι} (h : Recorded seq pushed popped Proper log q)
    (hm : Move seq cap q e q') (hs : Shows pushed popped Proper e entry) :
    Recorded seq pushed popped Proper (log ++ [entry]) q' := by
  refine ⟨?_, forall_mem_concat h.proper hs.proper⟩
  have hmoved := h.history.move hm
  rw [hs.pushed, hs.popped] at hmoved
  simpa using hmoved

end

/-- A machine that stores a queue, and whose calls are moves of it or are refused, keeps an
account of it in its log. -/
theorem run_recorded {α : Type u} {σ κ ρ : Type*} {step : σ → κ → ρ × σ} {s₀ : σ}
    {queue : σ → SeqQueue α} {seq : α → ℕ} {cap : ℕ} {pushed popped : κ × ρ → List α}
    {Proper : κ × ρ → Prop} {Refused : ρ → Prop} (h₀ : queue s₀ = ⟨[], 1, 0⟩)
    (heffect : ∀ s c, (queue s).dropped < (queue s).next →
      Effect Refused (fun s e s' => (queue s).Move seq cap e (queue s'))
        (Shows pushed popped Proper) s c (step s c))
    (hrefused : ∀ c r, Refused r → Shows pushed popped Proper .stay (c, r)) (cs : List κ) :
    Recorded seq pushed popped Proper (run step s₀ cs).1 (queue (run step s₀ cs).2) := by
  refine run_effect (I := fun log s => Recorded seq pushed popped Proper log (queue s))
    ?_ (fun _ s c h => heffect s c h.history.dropped_lt) ?_ ?_ cs
  · rw [h₀]
    exact recorded_nil
  · intro log s c r h hr
    have hstay : Move seq cap (queue s) .stay (queue s) := .stay _
    exact h.move hstay (hrefused c r hr)
  · intro log s e s' entry h hm hs
    exact h.move hm hs

end SeqQueue
end Sys
