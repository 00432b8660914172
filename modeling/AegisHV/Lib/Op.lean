import Mathlib.Tactic

/-! Fallible operations on a state. An operation returns the state it reached with
its failure as well as with its result, so what a failed call leaves behind is a
statement about the operation and not a convention of the model. -/

namespace Sys
open List

universe u

structure Op (σ ε α : Type u) where
  run : σ → Except ε α × σ

namespace Op

variable {σ ε α β : Type u}

protected def pure (a : α) : Op σ ε α := ⟨fun s => (.ok a, s)⟩

protected def bind (x : Op σ ε α) (f : α → Op σ ε β) : Op σ ε β := ⟨fun s =>
  match x.run s with
  | (.ok a, s') => (f a).run s'
  | (.error e, s') => (.error e, s')⟩

instance : Monad (Op σ ε) where
  pure := Op.pure
  bind := Op.bind

def fail (e : ε) : Op σ ε α := ⟨fun s => (.error e, s)⟩

def read : Op σ ε σ := ⟨fun s => (.ok s, s)⟩

def write (s' : σ) : Op σ ε PUnit := ⟨fun _ => (.ok ⟨⟩, s')⟩

/-- A computation that does not see the state. -/
def lift (x : Except ε α) : Op σ ε α := ⟨fun s => (x, s)⟩

/-- What a caller of the operation sees, as one reply. -/
def reply {ρ : Type*} (done : α → ρ) (failed : ε → ρ) (op : Op σ ε α) (s : σ) : ρ × σ :=
  match op.run s with
  | (.ok a, s') => (done a, s')
  | (.error e, s') => (failed e, s')

/-- The operation on a state that is dropped when it fails. -/
def exec (op : Op σ ε α) (s : σ) : Except ε (α × σ) :=
  match op.run s with
  | (.ok a, s') => .ok (a, s')
  | (.error e, _) => .error e

/-- The operation on a part of a larger state. -/
def within {τ : Type u} (get : τ → σ) (put : σ → τ → τ) (op : Op σ ε α) : Op τ ε α :=
  ⟨fun t => ((op.run (get t)).1, put (op.run (get t)).2 t)⟩

@[simp] theorem run_pure (a : α) (s : σ) : (pure a : Op σ ε α).run s = (.ok a, s) := rfl

@[simp] theorem run_fail (e : ε) (s : σ) : (fail e : Op σ ε α).run s = (.error e, s) := rfl

@[simp] theorem run_lift (x : Except ε α) (s : σ) : (lift x).run s = (x, s) := rfl

@[simp] theorem run_write (s s' : σ) : (write s' : Op σ ε PUnit).run s = (.ok ⟨⟩, s') := rfl

theorem run_bind_ok {x : Op σ ε α} {f : α → Op σ ε β} {s s' : σ} {a : α}
    (h : x.run s = (.ok a, s')) : (x >>= f).run s = (f a).run s' := by
  change (Op.bind x f).run s = _
  simp only [Op.bind, h]

theorem run_bind_error {x : Op σ ε α} {f : α → Op σ ε β} {s s' : σ} {e : ε}
    (h : x.run s = (.error e, s')) : (x >>= f).run s = (.error e, s') := by
  change (Op.bind x f).run s = _
  simp only [Op.bind, h]

@[simp] theorem run_read_bind (f : σ → Op σ ε β) (s : σ) :
    ((read : Op σ ε σ) >>= f).run s = (f s).run s := rfl

@[simp] theorem run_write_bind (s' : σ) (f : PUnit → Op σ ε β) (s : σ) :
    ((write s' : Op σ ε PUnit) >>= f).run s = (f ⟨⟩).run s' := rfl

@[simp] theorem run_lift_ok_bind (a : α) (f : α → Op σ ε β) (s : σ) :
    ((lift (.ok a) : Op σ ε α) >>= f).run s = (f a).run s := rfl

@[simp] theorem run_lift_error_bind (e : ε) (f : α → Op σ ε β) (s : σ) :
    ((lift (.error e) : Op σ ε α) >>= f).run s = (.error e, s) := rfl

theorem exec_eq_ok {op : Op σ ε α} {s s' : σ} {a : α} :
    op.exec s = .ok (a, s') ↔ op.run s = (.ok a, s') := by
  unfold exec
  rcases op.run s with ⟨_ | _, t⟩ <;> simp

section

variable {ρ : Type*} {done : α → ρ} {failed : ε → ρ} {op : Op σ ε α} {s s' : σ}

theorem reply_ok {a : α} (h : op.run s = (.ok a, s')) : op.reply done failed s = (done a, s') := by
  rw [reply, h]

theorem reply_error {e : ε} (h : op.run s = (.error e, s')) :
    op.reply done failed s = (failed e, s') := by
  rw [reply, h]

theorem reply_snd : (op.reply done failed s).2 = (op.run s).2 := by
  rw [reply]
  rcases op.run s with ⟨_ | _, t⟩ <;> rfl

end

end Op

section

variable {σ ε α β : Type u}

/-- The source's `if condition { return Err(e) }`. -/
def failIf (condition : Bool) (e : ε) : Except ε PUnit.{u + 1} :=
  if condition then .error e else .ok ⟨⟩

/-- The source's `ok_or`. -/
def okOr (o : Option α) (e : ε) : Except ε α :=
  match o with
  | some a => .ok a
  | none => .error e

@[simp] theorem failIf_eq_ok {c : Bool} {e : ε} {a : PUnit.{u + 1}} :
    failIf c e = .ok a ↔ c = false := by
  cases c <;> simp [failIf]

variable {a : α}

@[simp] theorem okOr_eq_ok {o : Option α} {e : ε} : okOr o e = .ok a ↔ o = some a := by
  cases o <;> simp [okOr]

variable {x : Except ε α}

@[simp] theorem mapError_eq_ok {ε' : Type u} {f : ε → ε'} :
    x.mapError f = .ok a ↔ x = .ok a := by
  cases x <;> simp [Except.mapError]

/-! Where only success matters, the errors are forgotten. -/

theorem toOption_eq_some : x.toOption = some a ↔ x = .ok a := by
  cases x <;> simp [Except.toOption]

theorem toOption_bind (x : Except ε α) (f : α → Except ε β) :
    (x >>= f).toOption = x.toOption.bind fun a => (f a).toOption := by
  cases x <;> rfl

theorem toOption_failIf (c : Bool) (e : ε) :
    (failIf c e : Except ε PUnit.{u + 1}).toOption = if c then none else some ⟨⟩ := by
  cases c <;> rfl

theorem toOption_mapError {ε' : Type u} (x : Except ε α) (f : ε → ε') :
    (x.mapError f).toOption = x.toOption := by
  cases x <;> rfl

theorem toOption_okOr (o : Option α) (e : ε) : (okOr o e).toOption = o := by
  cases o <;> rfl

@[simp] theorem except_ok_bind (a : α) (f : α → Except ε β) : (Except.ok a >>= f) = f a := rfl

variable {f : α → Except ε β}

theorem except_bind_ok {b : β} :
    (x >>= f) = .ok b ↔ ∃ a, x = .ok a ∧ f a = .ok b := by
  cases x with
  | error e =>
    refine ⟨fun h => ?_, fun ⟨a, h, _⟩ => ?_⟩
    · cases h
    · cases h
  | ok a =>
    refine ⟨fun h => ⟨a, rfl, h⟩, fun ⟨a', h, hf⟩ => ?_⟩
    cases h
    exact hf

variable {l : List α}

/-- A loop that parses its items and puts the results into the state, one behind the other. -/
theorem foldlM_collect {σ : Type u} {step : σ → α → Except ε σ} {parse : α → Except ε β}
    (put : σ → List β → σ) (hnil : ∀ s, put s [] = s)
    (hput : ∀ s b bs, put (put s [b]) bs = put s (b :: bs))
    (hstep : ∀ s a, step s a = parse a >>= fun b => pure (put s [b])) (l : List α) :
    ∀ s, l.foldlM step s = l.mapM parse >>= fun bs => pure (put s bs) := by
  induction l with
  | nil =>
    intro s
    rw [mapM_nil, pure_bind, hnil]
    rfl
  | cons a l ih =>
    intro s
    rw [foldlM_cons, hstep, mapM_cons]
    simp only [bind_assoc, pure_bind, ih, hput]

theorem forall_mem_concat {l : List α} {P : α → Prop} (h : ∀ x ∈ l, P x) (ha : P a) :
    ∀ x ∈ l ++ [a], P x := by
  simpa [or_imp, forall_and] using And.intro h ha

theorem pairwise_concat {l : List α} {R : α → α → Prop} (h : l.Pairwise R) (ha : ∀ x ∈ l, R x a) :
    (l ++ [a]).Pairwise R := by
  simpa [pairwise_append] using And.intro h ha

theorem forM_ok {f : α → Except ε PUnit.{u + 1}} :
    l.forM f = .ok ⟨⟩ ↔ ∀ x ∈ l, f x = .ok ⟨⟩ := by
  induction l with
  | nil => simp [List.forM, pure, Except.pure]
  | cons y l ih =>
    rw [List.forM, except_bind_ok, forall_mem_cons]
    constructor
    · rintro ⟨_, hy, hl⟩
      exact ⟨hy, ih.1 hl⟩
    · rintro ⟨hy, hl⟩
      exact ⟨⟨⟩, hy, ih.2 hl⟩

theorem mapM_eq_ok_iff : ∀ {bs : List β},
    l.mapM f = .ok bs ↔ List.Forall₂ (fun a b => f a = .ok b) l bs := by
  induction l with
  | nil =>
    intro bs
    rw [List.forall₂_nil_left_iff]
    exact ⟨fun h => (Except.ok.inj h).symm, fun h => h ▸ rfl⟩
  | cons a l ih =>
    intro bs
    rw [mapM_cons, except_bind_ok, List.forall₂_cons_left_iff]
    constructor
    · rintro ⟨b, hb, hrest⟩
      obtain ⟨bs', hbs', hcons⟩ := except_bind_ok.mp hrest
      exact ⟨b, bs', hb, ih.mp hbs', (Except.ok.inj hcons).symm⟩
    · rintro ⟨b, bs', hb, hbs', rfl⟩
      exact ⟨b, hb, except_bind_ok.mpr ⟨bs', ih.mpr hbs', rfl⟩⟩

theorem mem_of_mapM {bs : List β} (h : l.mapM f = .ok bs)
    (b : β) : b ∈ bs ↔ ∃ a ∈ l, f a = .ok b := by
  have hforall := mapM_eq_ok_iff.mp h
  clear h
  induction hforall with
  | nil => simp
  | @cons a c l cs hac _ ih =>
    have hhead : b = c ↔ f a = .ok b := by rw [hac, Except.ok.injEq, eq_comm]
    simp only [mem_cons, exists_eq_or_imp, hhead, ih]

/-- The results of a permuted list are the results, permuted. -/
theorem mapM_perm {l' : List α} {bs : List β} (hperm : l'.Perm l)
    (h : l.mapM f = .ok bs) : ∃ bs', l'.mapM f = .ok bs' ∧ bs'.Perm bs := by
  obtain ⟨bs', hmap, hbs⟩ := perm_comp_forall₂ hperm (mapM_eq_ok_iff.mp h)
  exact ⟨bs', mapM_eq_ok_iff.mpr hmap, hbs⟩

theorem mapM_eq_ok_map {g : α → β} :
    l.mapM f = .ok (l.map g) ↔ ∀ a ∈ l, f a = .ok (g a) := by
  rw [mapM_eq_ok_iff, List.forall₂_map_right_iff, List.forall₂_same]

/-- What each turn of a fallible loop keeps holds when the loop ends without a failure. The
invariant sees the elements already taken, and a turn sees how the list splits at its own. -/
theorem foldlM_inv {f : σ → α → Except ε σ} {s₀ s : σ} (I : List α → σ → Prop) (h₀ : I [] s₀)
    (hstep : ∀ seen a rest t t', l = seen ++ a :: rest → I seen t → f t a = .ok t' →
      I (seen ++ [a]) t')
    (h : l.foldlM f s₀ = .ok s) : I l s := by
  have main : ∀ (rest seen : List α) (t : σ), l = seen ++ rest → I seen t →
      rest.foldlM f t = .ok s → I l s := by
    intro rest
    induction rest with
    | nil =>
      intro seen t hl hI hf
      cases hf
      rwa [hl, append_nil]
    | cons a rest ih =>
      intro seen t hl hI hf
      rw [foldlM_cons, except_bind_ok] at hf
      obtain ⟨t', ht, hf⟩ := hf
      exact ih (seen ++ [a]) t' (by simpa using hl) (hstep seen a rest t t' hl hI ht) hf
  exact main l [] s₀ rfl h₀ h

/-- A loop whose turns can change places gives the same result in every order. -/
theorem foldlM_perm {f : σ → α → Except ε σ} {l' : List α} (h : l.Perm l')
    (hcomm : ∀ a ∈ l, ∀ b ∈ l, ∀ t u, (∃ t', f t a = .ok t' ∧ f t' b = .ok u) →
      ∃ t', f t b = .ok t' ∧ f t' a = .ok u) :
    ∀ {s₀ s : σ}, l.foldlM f s₀ = .ok s → l'.foldlM f s₀ = .ok s := by
  induction h with
  | nil => exact id
  | @cons a l l' _ ih =>
    intro s₀ s hfold
    rw [foldlM_cons, except_bind_ok] at hfold ⊢
    obtain ⟨t, ha, hrest⟩ := hfold
    exact ⟨t, ha, ih (fun b hb c hc => hcomm b (by simp [hb]) c (by simp [hc])) hrest⟩
  | swap a b l =>
    intro s₀ s hfold
    simp only [foldlM_cons, except_bind_ok] at hfold ⊢
    obtain ⟨t, hb, u, ha, hrest⟩ := hfold
    obtain ⟨t', ha', hb'⟩ := hcomm b (by simp) a (by simp) s₀ u ⟨t, hb, ha⟩
    exact ⟨t', ha', u, hb', hrest⟩
  | trans h₁ h₂ ih₁ ih₂ =>
    intro s₀ s hfold
    exact ih₂ (fun b hb c hc => hcomm b (h₁.mem_iff.2 hb) c (h₁.mem_iff.2 hc)) (ih₁ hcomm hfold)

/-- A loop does not get past an element on which every turn fails. -/
theorem foldlM_ne_ok {f : σ → α → Except ε σ} (ha : a ∈ l)
    (hf : ∀ t t', f t a ≠ .ok t') (s₀ s : σ) : l.foldlM f s₀ ≠ .ok s := by
  intro h
  refine foldlM_inv (fun seen _ => a ∉ seen) (by simp) ?_ h ha
  intro seen b rest t t' _ hseen hb hmem
  rcases mem_append.1 hmem with hmem | hmem
  · exact hseen hmem
  · rw [mem_singleton] at hmem
    subst hmem
    exact hf t t' hb

end
namespace Op

/-- Whether it succeeds or fails, the operation leaves a state with `I`. -/
def Keeps (I : σ → Prop) (op : Op σ ε α) : Prop := ∀ s, I s → I (op.run s).2

variable {I : σ → Prop}

theorem keeps_pure (a : α) : Keeps I (pure a : Op σ ε α) := fun _ h => h

theorem keeps_fail (e : ε) : Keeps I (fail e : Op σ ε α) := fun _ h => h

theorem keeps_lift (x : Except ε α) : Keeps I (lift x : Op σ ε α) := fun _ h => h

theorem Keeps.bind {x : Op σ ε α} {f : α → Op σ ε β} (hx : Keeps I x)
    (hf : ∀ a, Keeps I (f a)) : Keeps I (x >>= f) := by
  intro s hs
  have hx' := hx s hs
  cases hrun : x.run s with
  | mk result s' =>
    rw [hrun] at hx'
    cases result with
    | ok a =>
      rw [run_bind_ok hrun]
      exact hf a s' hx'
    | error e =>
      rw [run_bind_error hrun]
      exact hx'

theorem keeps_lift_bind {x : Except ε α} {f : α → Op σ ε β}
    (hf : ∀ a, x = .ok a → Keeps I (f a)) : Keeps I (lift x >>= f) := by
  cases x with
  | ok a => exact hf a rfl
  | error e => exact keeps_fail e

end Op

end Sys
