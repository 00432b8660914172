import AegisHV.Lib.Op

/-! Postconditions for computations that can fail: `Ends P E x` says that `x` returns a
value with `P` or fails with an error that `E` allows. -/

namespace Sys

universe u

variable {ε α β σ : Type u} {P : α → Prop} {Q : β → Prop} {E : ε → Prop}

inductive Ends (P : α → Prop) (E : ε → Prop) : Except ε α → Prop
  | ok {a : α} (h : P a) : Ends P E (.ok a)
  | error {e : ε} (h : E e) : Ends P E (.error e)

variable {x : Except ε α}

theorem Ends.bind {f : α → Except ε β} (hx : Ends P E x)
    (hf : ∀ a, P a → Ends Q E (f a)) : Ends Q E (x >>= f) := by
  cases hx with
  | ok h => exact hf _ h
  | error h => exact .error h

theorem Ends.mono {P' : α → Prop} (hx : Ends P E x) (h : ∀ a, P a → P' a) :
    Ends P' E x := by
  cases hx with
  | ok ha => exact .ok (h _ ha)
  | error he => exact .error he

variable {s : σ}

/-- A loop with an invariant that sees the elements already taken. -/
theorem Ends.foldlM {f : σ → α → Except ε σ} {l : List α} (I : List α → σ → Prop) (h₀ : I [] s)
    (hstep : ∀ seen a rest t, l = seen ++ a :: rest → I seen t → Ends (I (seen ++ [a])) E (f t a)) :
    Ends (I l) E (l.foldlM f s) := by
  have main : ∀ (rest seen : List α) (t : σ), l = seen ++ rest → I seen t →
      Ends (I l) E (rest.foldlM f t) := by
    intro rest
    induction rest with
    | nil =>
      intro seen t hl hI
      rw [List.append_nil] at hl
      subst hl
      exact .ok hI
    | cons a rest ih =>
      intro seen t hl hI
      refine (hstep seen a rest t hl hI).bind fun t' ht' => ?_
      exact ih (seen ++ [a]) t' (by simpa using hl) ht'
  exact main l [] s rfl h₀

/-- The same rule for a pure computation at the head of an operation. -/
theorem Op.lift_bind_ends {f : α → Op σ ε β}
    {R : Except ε β × σ → Prop} (hx : Ends P E x) (herror : ∀ e, E e → R (.error e, s))
    (hok : ∀ a, P a → R ((f a).run s)) : R ((Op.lift x >>= f).run s) := by
  cases hx with
  | ok h => exact hok _ h
  | error h => exact herror _ h

/-- A loop of operations none of which fails. -/
theorem Op.forM_run {f : α → Op σ ε PUnit.{u + 1}} {l : List α} (I : List α → σ → Prop)
    (h₀ : I [] s)
    (hstep : ∀ seen a rest t, l = seen ++ a :: rest → I seen t →
      ∃ t', (f a).run t = (.ok ⟨⟩, t') ∧ I (seen ++ [a]) t') :
    ∃ t, (l.forM f).run s = (.ok ⟨⟩, t) ∧ I l t := by
  have main : ∀ (rest seen : List α) (t : σ), l = seen ++ rest → I seen t →
      ∃ t', (rest.forM f).run t = (.ok ⟨⟩, t') ∧ I l t' := by
    intro rest
    induction rest with
    | nil =>
      intro seen t hl hI
      rw [List.append_nil] at hl
      subst hl
      exact ⟨t, rfl, hI⟩
    | cons a rest ih =>
      intro seen t hl hI
      obtain ⟨t', ht', hI'⟩ := hstep seen a rest t hl hI
      obtain ⟨t'', ht'', hI''⟩ := ih (seen ++ [a]) t' (by simpa using hl) hI'
      refine ⟨t'', ?_, hI''⟩
      rw [List.forM, Op.run_bind_ok ht']
      exact ht''
  exact main l [] s rfl h₀

end Sys
