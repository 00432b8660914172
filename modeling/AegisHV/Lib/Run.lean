import Mathlib.Tactic

/-! Runs of a deterministic machine. A step takes a state and a call to a reply and
the next state; a run keeps the log of its calls with their replies. An invariant
of log and state that one step keeps holds along every run. -/

namespace Sys
open List

universe u v w

variable {σ : Type u} {κ : Type v} {ρ : Type w}

def logStep (step : σ → κ → ρ × σ) (acc : List (κ × ρ) × σ) (c : κ) : List (κ × ρ) × σ :=
  (acc.1 ++ [(c, (step acc.2 c).1)], (step acc.2 c).2)

def run (step : σ → κ → ρ × σ) (s : σ) (cs : List κ) : List (κ × ρ) × σ :=
  cs.foldl (logStep step) ([], s)

theorem foldl_logStep (step : σ → κ → ρ × σ) (cs : List κ) :
    ∀ acc, cs.foldl (logStep step) acc = (acc.1 ++ (run step acc.2 cs).1, (run step acc.2 cs).2) := by
  induction cs with
  | nil => simp [run]
  | cons c cs ih =>
    intro acc
    rw [run, foldl_cons, foldl_cons, ih, ih]
    simp [logStep]

theorem run_cons (step : σ → κ → ρ × σ) (s : σ) (c : κ) (cs : List κ) :
    run step s (c :: cs) =
      ((c, (step s c).1) :: (run step (step s c).2 cs).1, (run step (step s c).2 cs).2) :=
  foldl_logStep step cs _

theorem run_append (step : σ → κ → ρ × σ) (s : σ) (cs ds : List κ) :
    (run step s (cs ++ ds)).2 = (run step (run step s cs).2 ds).2 := by
  rw [run, foldl_append, foldl_logStep]
  rfl

theorem run_log_append (step : σ → κ → ρ × σ) (s : σ) (cs ds : List κ) :
    (run step s (cs ++ ds)).1 = (run step s cs).1 ++ (run step (run step s cs).2 ds).1 := by
  rw [run, foldl_append, foldl_logStep]
  rfl

theorem run_concat (step : σ → κ → ρ × σ) (s : σ) (cs : List κ) (c : κ) :
    run step s (cs ++ [c]) =
      ((run step s cs).1 ++ [(c, (step (run step s cs).2 c).1)],
        (step (run step s cs).2 c).2) := by
  simp only [run, foldl_append, foldl_cons, foldl_nil, logStep]

theorem run_log_fst (step : σ → κ → ρ × σ) (s : σ) (cs : List κ) :
    (run step s cs).1.map Prod.fst = cs := by
  induction cs generalizing s with
  | nil => rfl
  | cons c cs ih => rw [run_cons, map_cons, ih]

variable {step : σ → κ → ρ × σ}

theorem run_inv {s₀ : σ} (I : List (κ × ρ) → σ → Prop) (h₀ : I [] s₀)
    (hstep : ∀ log s c, I log s → I (log ++ [(c, (step s c).1)]) (step s c).2) (cs : List κ) :
    I (run step s₀ cs).1 (run step s₀ cs).2 := by
  have main : ∀ (cs : List κ) (acc : List (κ × ρ) × σ), I acc.1 acc.2 →
      I (cs.foldl (logStep step) acc).1 (cs.foldl (logStep step) acc).2 := by
    intro cs
    induction cs with
    | nil => exact fun _ h => h
    | cons c cs ih => exact fun acc h => ih _ (hstep acc.1 acc.2 c h)
  exact main cs _ h₀

/-- Every state of the run satisfies `Q`, the first and the last one included. -/
def AllStates (Q : σ → Prop) (step : σ → κ → ρ × σ) : σ → List κ → Prop
  | s, [] => Q s
  | s, c :: cs => Q s ∧ AllStates Q step (step s c).2 cs

/-- Every call of the run meets `P` in the state it is made in. -/
def AllSteps (P : σ → κ → Prop) (step : σ → κ → ρ × σ) : σ → List κ → Prop
  | _, [] => True
  | s, c :: cs => P s c ∧ AllSteps P step (step s c).2 cs

instance AllSteps.decidable (P : σ → κ → Prop) [∀ s c, Decidable (P s c)]
    (step : σ → κ → ρ × σ) : ∀ s cs, Decidable (AllSteps P step s cs)
  | _, [] => isTrue trivial
  | s, c :: cs =>
    have := AllSteps.decidable P step (step s c).2 cs
    inferInstanceAs (Decidable (P s c ∧ AllSteps P step (step s c).2 cs))

variable {P : σ → κ → Prop} {cs : List κ}

theorem allSteps_iff : ∀ {s}, AllSteps P step s cs ↔
      ∀ before c after, cs = before ++ c :: after → P (run step s before).2 c := by
  induction cs with
  | nil =>
    simp [AllSteps]
  | cons d cs ih =>
    intro s
    rw [AllSteps, ih]
    constructor
    · rintro ⟨hd, hcs⟩ before c after heq
      cases before with
      | nil =>
        cases heq
        exact hd
      | cons b before =>
        obtain ⟨rfl, rfl⟩ := heq
        rw [run_cons]
        exact hcs before c after rfl
    · intro hall
      refine ⟨hall [] d cs rfl, ?_⟩
      rintro before c after rfl
      have hd := hall (d :: before) c after rfl
      rwa [run_cons] at hd

theorem allSteps_concat {c : κ} : ∀ {s},
    AllSteps P step s (cs ++ [c]) ↔ AllSteps P step s cs ∧ P (run step s cs).2 c := by
  induction cs with
  | nil =>
    exact ⟨fun h => ⟨trivial, h.1⟩, fun h => ⟨h.2, trivial⟩⟩
  | cons d cs ih =>
    intro s
    rw [cons_append, AllSteps, AllSteps, ih, run_cons, and_assoc]

theorem AllSteps.and_of_forall {L : κ → Prop} : ∀ {s}, AllSteps P step s cs → (∀ c ∈ cs, L c) →
      AllSteps (fun s c => P s c ∧ L c) step s cs := by
  induction cs with
  | nil => exact fun _ _ => trivial
  | cons c cs ih =>
    intro s h hL
    refine ⟨⟨h.1, hL c mem_cons_self⟩, ih h.2 fun d hd => ?_⟩
    exact hL d (mem_cons_of_mem _ hd)

variable {I Q : σ → Prop}

/-- An invariant that every step meeting `P` keeps holds in every state of a run of such steps. -/
theorem AllSteps.allStates (hstep : ∀ s c, I s → P s c → I (step s c).2) (hQ : ∀ s, I s → Q s) :
    ∀ {s}, I s → AllSteps P step s cs → AllStates Q step s cs := by
  induction cs with
  | nil => exact fun hs _ => hQ _ hs
  | cons c cs ih => exact fun hs h => ⟨hQ _ hs, ih (hstep _ c hs h.1) h.2⟩

/-- If one step from a good state reaches a good state exactly when it meets `P`, then a run
from a good state stays good exactly when all its steps meet `P`. -/
theorem allStates_iff_allSteps (hI : ∀ s c, I s → I (step s c).2)
    (hstep : ∀ s c, I s → Q s → (Q (step s c).2 ↔ P s c)) (cs : List κ) :
    ∀ s, I s → Q s → (AllStates Q step s cs ↔ AllSteps P step s cs) := by
  induction cs with
  | nil => exact fun s _ h => ⟨fun _ => trivial, fun _ => h⟩
  | cons c cs ih =>
    intro s hs h
    simp only [AllStates, AllSteps, h, true_and]
    constructor
    · intro hall
      have hq : Q (step s c).2 := by
        cases cs with
        | nil => exact hall
        | cons _ _ => exact hall.1
      exact ⟨(hstep s c hs h).1 hq, (ih _ (hI s c hs) hq).1 hall⟩
    · intro hall
      exact (ih _ (hI s c hs) ((hstep s c hs h).2 hall.1)).2 hall.2

/-- If the steps that meet `P` keep an invariant `I` under which `Q` holds, and every other step from
a state with `I` breaks `Q`, then `Q` holds all along a run exactly when all its steps meet `P`. -/
theorem allStates_iff_of_inv (hkeep : ∀ s c, I s → P s c → I (step s c).2) (hQ : ∀ s, I s → Q s)
    (hbreak : ∀ s c, I s → ¬ P s c → ¬ Q (step s c).2) (cs : List κ) :
    ∀ s, I s → (AllStates Q step s cs ↔ AllSteps P step s cs) := by
  induction cs with
  | nil => exact fun s h => ⟨fun _ => trivial, fun _ => hQ s h⟩
  | cons c cs ih =>
    intro s h
    constructor
    · rintro ⟨-, hall⟩
      have hq : Q (step s c).2 := by
        cases cs with
        | nil => exact hall
        | cons _ _ => exact hall.1
      have hp : P s c := not_not.mp fun hp => hbreak s c h hp hq
      exact ⟨hp, (ih _ (hkeep s c h hp)).mp hall⟩
    · rintro ⟨hp, hall⟩
      exact ⟨hQ s h, (ih _ (hkeep s c h hp)).mpr hall⟩

section

variable {ε : Type*} (Refused : ρ → Prop) (Move : σ → ε → σ → Prop) (Shows : ε → κ × ρ → Prop)

/-- All that a call can do: it is refused and changes nothing, or it makes a move, and its entry
in the log shows which. -/
inductive Effect (s : σ) (c : κ) : ρ × σ → Prop
  | refused {r : ρ} (hr : Refused r) : Effect s c (r, s)
  | moved {r : ρ} {s' : σ} {e : ε} (hr : ¬ Refused r) (hm : Move s e s') (hs : Shows e (c, r)) :
      Effect s c (r, s')

variable {Refused Move Shows} {s : σ} {c : κ} {out : ρ × σ}

theorem Effect.unchanged (h : Effect Refused Move Shows s c out) (hr : Refused out.1) :
    out.2 = s := by
  cases h with
  | refused => rfl
  | moved hnot => exact absurd hr hnot

theorem Effect.exists_move (h : Effect Refused Move Shows s c out) (hr : ¬ Refused out.1) :
    ∃ e, Move s e out.2 ∧ Shows e (c, out.1) := by
  cases h with
  | refused hno => exact absurd hno hr
  | moved _ hm hs => exact ⟨_, hm, hs⟩

/-- An invariant of log and state that refusals and moves keep holds along every run. -/
theorem run_effect {step : σ → κ → ρ × σ} {s₀ : σ} {I : List (κ × ρ) → σ → Prop} (h₀ : I [] s₀)
    (heffect : ∀ log s c, I log s → Effect Refused Move Shows s c (step s c))
    (hrefused : ∀ log s c r, I log s → Refused r → I (log ++ [(c, r)]) s)
    (hmove : ∀ log s e s' entry, I log s → Move s e s' → Shows e entry → I (log ++ [entry]) s')
    (cs : List κ) : I (run step s₀ cs).1 (run step s₀ cs).2 := by
  refine run_inv I h₀ (fun log s c h => ?_) cs
  have hout := heffect log s c h
  generalize step s c = out at hout
  cases hout with
  | refused hr => exact hrefused log s c _ h hr
  | moved _ hm hs => exact hmove log s _ _ _ h hm hs

end

/-- Between two entries of the log that give `x` out stands one that takes it back. -/
def Exclusive {ε α : Type*} (gives takes : ε → α → Prop) (log : List ε) : Prop :=
  ∀ l₁ e l₂ e' l₃ x, log = l₁ ++ e :: l₂ ++ e' :: l₃ → gives e x → gives e' x → ∃ t ∈ l₂, takes t x

/-- If what is given out was not held before and is held from then on until it is taken back,
then along every run nothing is given out twice without having been taken back. -/
theorem run_exclusive {α : Type*} {s₀ : σ}
    {held : σ → α → Prop} {gives takes : κ × ρ → α → Prop} (h₀ : I s₀)
    (hI : ∀ s c, I s → I (step s c).2)
    (hgive : ∀ s c x, I s → gives (c, (step s c).1) x → ¬ held s x ∧ held (step s c).2 x)
    (hkeep : ∀ s c x, I s → held s x → takes (c, (step s c).1) x ∨ held (step s c).2 x)
    (cs : List κ) : Exclusive gives takes (run step s₀ cs).1 := by
  refine (run_inv (fun log s => I s ∧ Exclusive gives takes log ∧
    ∀ l₁ e l₂ x, log = l₁ ++ e :: l₂ → gives e x → (∃ t ∈ l₂, takes t x) ∨ held s x)
    ⟨h₀, by simp [Exclusive], by simp⟩ ?_ cs).2.1
  rintro log s c ⟨hs, hex, hheld⟩
  refine ⟨hI s c hs, ?_, ?_⟩
  · intro l₁ e l₂ e' l₃ x hlog he he'
    rcases eq_nil_or_concat' l₃ with rfl | ⟨l₃, last, rfl⟩
    · obtain ⟨rfl, hlast⟩ := append_inj' hlog rfl
      obtain rfl := singleton_injective hlast
      rcases hheld l₁ e l₂ x rfl he with ht | hx
      · exact ht
      · exact absurd hx (hgive s c x hs he').1
    · rw [← cons_append, ← append_assoc] at hlog
      exact hex l₁ e l₂ e' l₃ x (append_inj' hlog rfl).1 he he'
  · intro l₁ e l₂ x hlog he
    rcases eq_nil_or_concat' l₂ with rfl | ⟨l₂, last, rfl⟩
    · obtain ⟨rfl, hlast⟩ := append_inj' hlog rfl
      obtain rfl := singleton_injective hlast
      exact Or.inr (hgive s c x hs he).2
    · rw [← cons_append, ← append_assoc] at hlog
      obtain ⟨hpre, hlast⟩ := append_inj' hlog rfl
      obtain rfl := singleton_injective hlast
      rcases hheld l₁ e l₂ x hpre he with ⟨t, ht, htx⟩ | hx
      · exact Or.inl ⟨t, by simp [ht], htx⟩
      · rcases hkeep s c x hs hx with ht | hx'
        · exact Or.inl ⟨_, by simp, ht⟩
        · exact Or.inr hx'

/-- The last time of a set of times. -/
def LastOf (times : Set ℕ) : Option ℕ → Prop
  | none => times = ∅
  | some n => IsGreatest times n

namespace LastOf

variable {times : Set ℕ} {last : Option ℕ} (h : LastOf times last)

include h

theorem exists_recent (now window : ℕ) :
    (∃ n ∈ times, now - n ≤ window) ↔ ∃ n, last = some n ∧ now - n ≤ window := by
  constructor
  · rintro ⟨n, hn, hrecent⟩
    match last, h with
    | none, h => exact absurd (h ▸ hn) (Set.notMem_empty n)
    | some m, h => exact ⟨m, rfl, le_trans (Nat.sub_le_sub_left (h.2 hn) now) hrecent⟩
  · rintro ⟨n, rfl, hrecent⟩
    exact ⟨n, h.1, hrecent⟩

theorem forall_old (now age : ℕ) :
    (∀ n ∈ times, age ≤ now - n) ↔ ∀ n, last = some n → age ≤ now - n := by
  constructor
  · rintro hall n rfl
    exact hall n h.1
  · intro hall n hn
    match last, h with
    | none, h => exact absurd (h ▸ hn) (Set.notMem_empty n)
    | some m, h => exact le_trans (hall m rfl) (Nat.sub_le_sub_left (h.2 hn) now)

end LastOf

theorem lastOf_insert {times : Set ℕ} {now : ℕ} (h : ∀ n ∈ times, n ≤ now) :
    LastOf (insert now times) (some now) := by
  refine ⟨Set.mem_insert now times, ?_⟩
  rintro n (rfl | hn)
  · exact le_rfl
  · exact h n hn

end Sys
