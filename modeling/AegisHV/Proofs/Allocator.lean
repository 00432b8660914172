import AegisHV.Proofs.FreeRuns
import AegisHV.Proofs.Memory

/-! What each operation of the page allocator does to the free runs and to the pages
handed out. -/

namespace AegisHV
open Sys PageRun List PageRun

namespace PhysicalPageAllocator

variable {R A : ℕ} {s : PhysicalPageAllocator R A} {run : PageRun}

/-- The slots in use hold the free runs, and the others are empty. -/
structure Runs (t : Table PageRun R) : Prop extends FreeRuns t.toList where
  tidy : t.Tidy empty

variable {before rest : List PageRun}

theorem mergeLeft_cases (h : FreeRuns s.free.toList) (hl : s.free.toList = before ++ rest)
    (run : PageRun) :
    (∃ e, s.mergeLeft before.length run = .error e ∧ ∃ p ∈ before, run.start < p.hi) ∨
    ∃ left, s.mergeLeft before.length run = .ok left ∧
      (left = false ∧ (∀ a ∈ before, a.hi < run.start) ∨
        left = true ∧ ∃ l p, before = l ++ [p] ∧ p.hi = run.start) := by
  unfold mergeLeft
  rcases eq_nil_or_concat' before with rfl | ⟨l, p, rfl⟩
  · exact Or.inr ⟨false, rfl, Or.inl ⟨rfl, by simp⟩⟩
  have hlist : s.free.toList = l ++ p :: rest := by simpa using hl
  have hp : p.WF := h.wf p (by simp [hlist])
  rw [if_pos (by simp), length_append, length_singleton, Nat.add_sub_cancel,
    Table.get_append hlist, hp.stop, except_ok_bind]
  split_ifs with hmeet
  · exact Or.inl ⟨_, rfl, p, by simp, hmeet⟩
  refine Or.inr ⟨_, rfl, ?_⟩
  by_cases heq : p.hi = run.start
  · exact Or.inr ⟨decide_eq_true heq, l, p, rfl, heq⟩
  refine Or.inl ⟨decide_eq_false heq, forall_mem_concat (fun a ha => ?_) (by omega)⟩
  have := (apart_append.1 (hlist ▸ h.apart)).2.2 a ha p (by simp)
  have := start_lt_hi hp
  omega

theorem mergeRight_cases (h : FreeRuns s.free.toList) (hl : s.free.toList = before ++ rest) (n : ℕ) :
    (∃ e, s.mergeRight before.length n = .error e ∧ ∃ q r, rest = q :: r ∧ q.start < n) ∨
    ∃ right, s.mergeRight before.length n = .ok right ∧
      (right = false ∧ (∀ b ∈ rest, n < b.start) ∨
        right = true ∧ ∃ q r, rest = q :: r ∧ n = q.start) := by
  unfold mergeRight
  have hlen : s.free.len = before.length + rest.length := by
    rw [← s.free.toList_length, hl, length_append]
  cases rest with
  | nil => exact Or.inr ⟨false, by rw [if_neg (by simp [hlen])]; rfl, Or.inl ⟨rfl, by simp⟩⟩
  | cons q r =>
    rw [if_pos (by simp [hlen]), Table.get_append hl]
    split_ifs with hmeet
    · exact Or.inl ⟨_, rfl, q, r, rfl, hmeet⟩
    refine Or.inr ⟨_, rfl, ?_⟩
    by_cases heq : n = q.start
    · exact Or.inr ⟨decide_eq_true heq, q, r, rfl, heq⟩
    refine Or.inl ⟨decide_eq_false heq, fun b hb => ?_⟩
    rcases mem_cons.1 hb with rfl | hb
    · omega
    · have := (apart_cons.1 (apart_append.1 (hl ▸ h.apart)).2.1).1 b hb
      have := start_lt_hi (h.wf q (by simp [hl]))
      omega

theorem mergedCount_join {p q : PageRun} (hp : p.WF) (hq : q.WF) (h : p.hi = q.start) :
    mergedCount p.count q.count = .ok (p.count + q.count) := by
  have hlt := (join_spec hp hq h).1.hi_lt
  dsimp only at hlt
  rw [mergedCount, checkedAdd_eq_some.2 ⟨by omega, rfl⟩]

/-- The table `t` holds the runs of `s` with the addresses of `run` added. -/
structure Inserted (s : PhysicalPageAllocator R A) (run : PageRun) (t : Table PageRun R) : Prop where
  runs : Runs t
  covers : ∀ x, Covers start hi t.toList x ↔
    Covers start hi s.free.toList x ∨ (run.start ≤ x ∧ x < run.hi)

theorem inserted_replace {l m r : List PageRun} {n : PageRun} {t : Table PageRun R}
    (h : FreeRuns s.free.toList) (hs : s.free.toList = l ++ m ++ r)
    (ht : t.Holds empty (l ++ n :: r))
    (hw : n.WF) (hl : ∀ a ∈ l, a.hi < n.start) (hr : ∀ b ∈ r, n.hi < b.start)
    (hcov : ∀ x, (n.start ≤ x ∧ x < n.hi) ↔
      Covers start hi m x ∨ (run.start ≤ x ∧ x < run.hi)) : Inserted s run t := by
  refine ⟨⟨?_, ht.tidy⟩, fun x => ?_⟩
  · rw [ht.list]
    exact freeRuns_replace (hs ▸ h) hw hl hr
  · rw [ht.list, hs]
    exact covers_replace hcov x

/-! The four ways in which `insert_free_run` puts a run between its neighbours. -/

section

variable {l r : List PageRun} {p q : PageRun}

theorem apart_left (h : FreeRuns s.free.toList) (hs : s.free.toList = l ++ p :: r) :
    ∀ a ∈ l, a.hi < p.start := fun a ha =>
  (apart_append.1 (hs ▸ h.apart)).2.2 a ha p (by simp)

theorem apart_right (h : FreeRuns s.free.toList) (hs : s.free.toList = l ++ p :: r) :
    ∀ b ∈ r, p.hi < b.start :=
  (apart_cons.1 (apart_append.1 (hs ▸ h.apart)).2.1).1

theorem setCount_holds (hs : s.free.Holds empty (l ++ p :: r)) (count : ℕ) :
    (s.setCount l.length count).free.Holds empty (l ++ ⟨p.start, count⟩ :: r) := by
  rw [setCount, Table.get_append hs.list]
  exact hs.set _

theorem inserted_both (h : Runs s.free) (hr : run.WF)
    (hs : s.free.toList = l ++ p :: q :: r) (hp : p.hi = run.start) (hq : run.hi = q.start) :
    Inserted s run
      ((s.setCount l.length (p.count + run.count + q.count)).removeRun (l ++ [p]).length).free := by
  have hpw : p.WF := h.wf p (by simp [hs])
  have hqw : q.WF := h.wf q (by simp [hs])
  obtain ⟨hjw, hjhi⟩ := join_spec hpw hr hp
  obtain ⟨hkw, hkhi⟩ := join_spec hjw hqw (hjhi.trans hq)
  set new : PageRun := ⟨p.start, p.count + run.count + q.count⟩
  have hnew : new.hi = q.hi := hkhi
  have hset := setCount_holds ⟨h.tidy, hs⟩ (p.count + run.count + q.count)
  have hleft := apart_left h.toFreeRuns hs
  have hrem := Table.Holds.removeAt (l := l ++ [new]) (y := q) (r := r) (by simpa using hset)
  refine inserted_replace (m := [p, q]) (n := new) (r := r) h.toFreeRuns (by simpa using hs) ?_ hkw
    hleft ?_ fun x => ?_
  · simpa [removeRun] using hrem
  · rw [hnew]
    exact apart_right (l := l ++ [p]) h.toFreeRuns (by simpa using hs)
  · have hpp := start_lt_hi hpw
    have hrr := start_lt_hi hr
    have hqq := start_lt_hi hqw
    rw [hnew, covers_cons, covers_cons]
    simp only [covers_nil, or_false, new]
    omega

theorem inserted_left (h : Runs s.free) (hr : run.WF) (hs : s.free.toList = l ++ p :: r)
    (hp : p.hi = run.start) (hright : ∀ b ∈ r, run.hi < b.start) :
    Inserted s run (s.setCount l.length (p.count + run.count)).free := by
  have hpw : p.WF := h.wf p (by simp [hs])
  obtain ⟨hjw, hjhi⟩ := join_spec hpw hr hp
  have hleft := apart_left h.toFreeRuns hs
  refine inserted_replace (m := [p]) (r := r) h.toFreeRuns (by simpa using hs)
    (setCount_holds ⟨h.tidy, hs⟩ _) hjw hleft (by rwa [hjhi]) fun x => ?_
  have hpp := start_lt_hi hpw
  have hrr := start_lt_hi hr
  rw [covers_cons]
  simp only [covers_nil, or_false]
  omega

theorem inserted_right (h : Runs s.free) (hr : run.WF) (hs : s.free.toList = l ++ q :: r)
    (hq : run.hi = q.start) (hleft : ∀ a ∈ l, a.hi < run.start) :
    Inserted s run (s.setRun l.length ⟨run.start, run.count + q.count⟩).free := by
  have hqw : q.WF := h.wf q (by simp [hs])
  obtain ⟨hjw, hjhi⟩ := join_spec hr hqw hq
  have hset := Table.Holds.set ⟨h.tidy, hs⟩ (⟨run.start, run.count + q.count⟩ : PageRun)
  refine inserted_replace (m := [q]) (r := r) h.toFreeRuns (by simpa using hs) hset hjw hleft ?_
    fun x => ?_
  · rw [hjhi]
    exact apart_right h.toFreeRuns hs
  · have hrr := start_lt_hi hr
    have hqq := start_lt_hi hqw
    rw [covers_cons]
    simp only [covers_nil, or_false]
    omega

theorem inserted_between (h : Runs s.free) (hs : s.free.toList = l ++ r)
    (hroom : s.free.len < R) (hruns : FreeRuns (l ++ run :: r)) :
    Inserted s run (s.insertRun l.length run).free := by
  have hins := Table.Holds.insertAt ⟨h.tidy, hs⟩ hroom run
  refine ⟨⟨hins.list ▸ hruns, hins.tidy⟩, fun x => ?_⟩
  rw [insertRun, hins.list, hs, covers_append, covers_append, covers_cons]
  tauto

end

/-- Why a run cannot be given back: it meets a free run, or it touches none in a full table. -/
def Refused (s : PhysicalPageAllocator R A) (run : PageRun) : Prop :=
  (∃ r ∈ s.free.toList, run.start < r.hi ∧ r.start < run.hi) ∨
    R ≤ s.free.len ∧ ∃ l r, s.free.toList = l ++ r ∧ FreeRuns (l ++ run :: r)

/-- Giving a run back either fails and changes nothing or adds exactly its addresses. -/
theorem insertFreeRun_spec (h : Runs s.free) (hr : run.WF) :
    (∃ t, (insertFreeRun run).run s = (.ok (), { s with free := t }) ∧ Inserted s run t) ∨
    ∃ e, (insertFreeRun run).run s = (.error e, s) ∧ Refused s run := by
  unfold insertFreeRun
  rw [if_neg (Nat.ne_of_gt hr.count_pos), hr.stop, Op.run_lift_ok_bind, Op.run_read_bind]
  obtain ⟨before, rest, hl, hidx, hbefore, hrest⟩ :=
    findIdx_split (fun r => !decide (r.start < run.start)) s.free.toList
  simp only [hidx]
  have hlt := start_lt_hi hr
  rcases mergeLeft_cases h.toFreeRuns hl run with ⟨e, he, p, hp, hmeet⟩ | ⟨left, hleft, hleft'⟩
  · have hstart : p.start < run.start := by simpa using hbefore p hp
    exact Or.inr ⟨e, by rw [he, Op.run_lift_error_bind],
      Or.inl ⟨p, by simp [hl, hp], hmeet, by omega⟩⟩
  rw [hleft, Op.run_lift_ok_bind]
  rcases mergeRight_cases h.toFreeRuns hl run.hi with ⟨e, he, q, r, rfl, hmeet⟩ | ⟨right, hright, hright'⟩
  · have hstart : run.start ≤ q.start := by simpa using hrest q r rfl
    have hq := start_lt_hi (h.wf q (by simp [hl]))
    exact Or.inr ⟨e, by rw [he, Op.run_lift_error_bind],
      Or.inl ⟨q, by simp [hl], by omega, hmeet⟩⟩
  rw [hright]
  rcases hleft' with ⟨rfl, hbelow⟩ | ⟨rfl, l, p, rfl, hp⟩
  · rcases hright' with ⟨rfl, habove⟩ | ⟨rfl, q, r, rfl, hq⟩
    · have hruns := freeRuns_replace (m := []) (by simpa using hl ▸ h.toFreeRuns) hr hbelow habove
      by_cases hfull : R ≤ s.free.len
      · simp only [if_pos hfull, Op.run_fail]
        exact Or.inr ⟨_, rfl, Or.inr ⟨hfull, before, rest, hl, hruns⟩⟩
      · simp only [if_neg hfull, Op.run_write]
        exact Or.inl ⟨_, rfl, inserted_between h hl (by omega) hruns⟩
    · simp only [Table.get_append hl, mergedCount_join hr (h.wf q (by simp [hl])) hq,
        Op.run_lift_ok_bind, Op.run_write]
      exact Or.inl ⟨_, rfl, inserted_right h hr hl hq hbelow⟩
  · have hlist : s.free.toList = l ++ p :: rest := by simpa using hl
    have hpw : p.WF := h.wf p (by simp [hlist])
    have hindex : (l ++ [p]).length - 1 = l.length := by simp
    rw [hindex, Table.get_append hlist, mergedCount_join hpw hr hp]
    rcases hright' with ⟨rfl, habove⟩ | ⟨rfl, q, r, rfl, hq⟩
    · exact Or.inl ⟨_, rfl, inserted_left h hr hlist hp habove⟩
    · obtain ⟨hjw, hjhi⟩ := join_spec hpw hr hp
      have hjoin := mergedCount_join hjw (h.wf q (by simp [hl])) (hjhi.trans hq)
      simp only [Table.get_append hl, hjoin, Op.run_lift_ok_bind, Op.run_write]
      exact Or.inl ⟨_, rfl, inserted_both h hr hlist hp hq⟩

section

/-! The writes by which `reserve_range` and `take_page_from_run` cut the run at an index. -/

variable {l r : List PageRun} {run : PageRun} {a b : ℕ}

theorem removeRun_cut (hs : s.free.Holds empty (l ++ run :: r)) (hl : a ≤ run.start)
    (hu : run.hi ≤ b) :
    (s.removeRun l.length).free.Holds empty (l ++ cut a b run ++ r) := by
  rw [cut_all hl hu]
  simpa [removeRun] using hs.removeAt

theorem setRun_cut (hs : s.free.Holds empty (l ++ run :: r)) (hl : a ≤ run.start)
    (hb : run.start ≤ b) (hu : b < run.hi) :
    (s.setRun l.length ⟨b, (run.hi - b) / 4096⟩).free.Holds empty
      (l ++ cut a b run ++ r) := by
  rw [cut_front hl hb hu]
  simpa [setRun] using hs.set _

theorem setCount_cut (hs : s.free.Holds empty (l ++ run :: r)) (hl : run.start < a)
    (ha : a ≤ run.hi) (hu : run.hi ≤ b) :
    (s.setCount l.length ((a - run.start) / 4096)).free.Holds empty
      (l ++ cut a b run ++ r) := by
  rw [cut_back hl ha hu]
  simpa using setCount_holds hs _

theorem insertRun_cut (hs : s.free.Holds empty (l ++ run :: r)) (hR : s.free.len < R)
    (hl : run.start < a) (hab : a ≤ b) (hu : b < run.hi) :
    ((s.insertRun (l.length + 1) ⟨b, (run.hi - b) / 4096⟩).setCount l.length
      ((a - run.start) / 4096)).free.Holds empty (l ++ cut a b run ++ r) := by
  have hins := Table.Holds.insertAt (l := l ++ [run]) (by simpa using hs) hR
    ⟨b, (run.hi - b) / 4096⟩
  rw [length_append, append_assoc] at hins
  rw [cut_middle hl hab hu]
  simpa using setCount_holds (s := s.insertRun (l.length + 1) _) hins _

end

theorem pages_succ {a b : ℕ} (h : a < b) (ha : a % 4096 = 0) (hb : b % 4096 = 0) :
    ∃ n, (b - a) / 4096 = n + 1 := ⟨(b - a) / 4096 - 1, by omega⟩

theorem takePageFromRun_spec {l r : List PageRun} {page : ℕ} (h : Runs s.free)
    (hs : s.free.toList = l ++ run :: r) (hp : page % 4096 = 0) (hlo : run.start ≤ page)
    (hhi : page + 4096 ≤ run.hi) :
    (∃ t, (takePageFromRun l.length page run.hi).run s = (.ok (), { s with free := t }) ∧
      t.Holds empty (l ++ cut page (page + 4096) run ++ r)) ∨
    ∃ e, (takePageFromRun l.length page run.hi).run s = (.error e, s) ∧
      e.kind = .capacityExceeded ∧ R < (l ++ cut page (page + 4096) run ++ r).length := by
  have hrun : run.WF := h.wf run (by simp [hs])
  have hholds : s.free.Holds empty (l ++ run :: r) := ⟨h.tidy, hs⟩
  obtain ⟨h1, h2, h3⟩ := hrun
  have heq := run.hi_eq
  unfold takePageFromRun
  simp only [Op.run_read_bind, Table.get_append hs, PAGE_SIZE_4K]
  rcases Nat.lt_or_ge run.start page with hl | hl
  · obtain ⟨n, hn⟩ := pages_succ hl h1 hp
    rcases Nat.lt_or_ge (page + 4096) run.hi with hu | hu
    · obtain ⟨m, hm⟩ := pages_succ hu (by omega) (by omega)
      rw [hn, hm]
      simp only
      by_cases hfull : R ≤ s.free.len
      · refine Or.inr ⟨_, by rw [if_pos hfull, Op.run_fail], rfl, ?_⟩
        rw [← s.free.toList_length, hs] at hfull
        simp only [cut_middle hl (Nat.le_add_right page 4096) hu, length_append,
          length_cons, length_nil] at hfull ⊢
        omega
      · rw [if_neg hfull, ← hn, ← hm]
        exact Or.inl ⟨_, rfl, insertRun_cut hholds (by omega) hl (by omega) hu⟩
    · have hm : (run.hi - (page + 4096)) / 4096 = 0 := by omega
      rw [hn, hm]
      simp only [Op.run_write]
      rw [← hn]
      exact Or.inl ⟨_, rfl, setCount_cut hholds hl (by omega) hu⟩
  · have hn : (page - run.start) / 4096 = 0 := by omega
    rcases Nat.lt_or_ge (page + 4096) run.hi with hu | hu
    · obtain ⟨m, hm⟩ := pages_succ hu (by omega) (by omega)
      rw [hn, hm]
      simp only [Op.run_write]
      rw [← hm]
      exact Or.inl ⟨_, rfl, setRun_cut hholds hl (by omega) hu⟩
    · have hm : (run.hi - (page + 4096)) / 4096 = 0 := by omega
      rw [hn, hm]
      exact Or.inl ⟨_, rfl, removeRun_cut hholds hl hu⟩

/-- A turn of the loop of `reserve_range` on a run that meets the range cuts the run. Only a run
that holds the whole range between its ends needs another slot. -/
theorem reserveLoop_meets {a b : ℕ} {l r : List PageRun} (fuel : ℕ) (ha : a % 4096 = 0)
    (hb : b % 4096 = 0) (hab : a < b) (hrun : run.WF)
    (hs : s.free.Holds empty (l ++ run :: r))
    (hafter : ¬ b ≤ run.start) (hbefore : ¬ run.hi ≤ a)
    (hsplit : run.start < a → b < run.hi → s.free.len < R) :
    ∃ t, t.Holds empty (l ++ cut a b run ++ r) ∧
      (reserveLoop a b (fuel + 1) l.length).run s =
        (reserveLoop a b fuel (l ++ cut a b run).length).run { s with free := t } := by
  have heq := run.hi_eq
  rw [reserveLoop, Op.run_read_bind, if_pos hs.length_lt]
  simp only [Table.get_append hs.list, hrun.stop, Op.run_lift_ok_bind, if_neg hafter,
    if_neg hbefore]
  obtain ⟨h1, h2, h3⟩ := hrun
  rcases Nat.lt_or_ge run.start a with hl | hl
  · obtain ⟨n, hn⟩ := pages_succ hl h1 ha
    rcases Nat.lt_or_ge b run.hi with hu | hu
    · obtain ⟨m, hm⟩ := pages_succ hu hb (by omega)
      refine ⟨_, insertRun_cut hs (hsplit hl hu) hl (by omega) hu, ?_⟩
      rw [cut_middle hl (by omega) hu]
      simp [PAGE_SIZE_4K, hl, hu, hn, hm, setCount, insertRun]
    · refine ⟨_, setCount_cut hs hl (by omega) hu, ?_⟩
      rw [cut_back hl (by omega) hu]
      simp [PAGE_SIZE_4K, hl, hu, hn, setCount]
  · rcases Nat.lt_or_ge b run.hi with hu | hu
    · obtain ⟨m, hm⟩ := pages_succ hu hb (by omega)
      refine ⟨_, setRun_cut hs hl (by omega) hu, ?_⟩
      rw [cut_front hl (by omega) hu]
      simp [PAGE_SIZE_4K, hl, hu, hm, setRun]
    · refine ⟨_, removeRun_cut hs hl hu, ?_⟩
      rw [cut_all hl hu]
      simp [PAGE_SIZE_4K, hl, hu, removeRun]

/-- The loop of `reserve_range` cuts every run from `index` on. -/
theorem reserveLoop_spec {a b : ℕ} (ha : a % 4096 = 0) (hb : b % 4096 = 0) (hab : a < b) :
    ∀ (fuel : ℕ) (s : PhysicalPageAllocator R A) (l r : List PageRun),
      FreeRuns (l ++ r) → s.free.Holds empty (l ++ r) → r.length ≤ fuel →
      (∀ run ∈ r, run.start < a → b < run.hi → s.free.len < R) →
      ∃ t, (reserveLoop a b fuel l.length).run s = (.ok (), { s with free := t }) ∧
        t.Holds empty (l ++ r.flatMap (cut a b)) := by
  intro fuel
  induction fuel with
  | zero =>
    intro s l r h hs hf hsplit
    obtain rfl : r = [] := length_eq_zero_iff.1 (by omega)
    exact ⟨s.free, rfl, by simpa using hs⟩
  | succ fuel ih =>
    intro s l r h hs hf hsplit
    cases r with
    | nil =>
      have hlen : s.free.len = l.length := by simpa [hs.list] using s.free.toList_length.symm
      rw [reserveLoop, Op.run_read_bind, if_neg (by omega)]
      exact ⟨s.free, rfl, by simpa using hs⟩
    | cons run r =>
      have hrun : run.WF := h.wf run (by simp)
      have hbeyond := (apart_cons.1 (apart_append.1 h.apart).2.1).1
      have hlt := start_lt_hi hrun
      by_cases hafter : b ≤ run.start
      · rw [reserveLoop, Op.run_read_bind, if_pos hs.length_lt]
        simp only [Table.get_append hs.list, hrun.stop, Op.run_lift_ok_bind, if_pos hafter]
        refine ⟨s.free, rfl, ?_⟩
        rwa [flatMap_cut_right (fun c hc => h.wf c (mem_append_right _ hc)) ?_ hab]
        intro c hc
        rcases mem_cons.1 hc with rfl | hc
        · exact hafter
        · have := hbeyond c hc
          omega
      by_cases hbefore : run.hi ≤ a
      · rw [reserveLoop, Op.run_read_bind, if_pos hs.length_lt]
        simp only [Table.get_append hs.list, hrun.stop, Op.run_lift_ok_bind, if_neg hafter,
          if_pos hbefore]
        obtain ⟨t, ht, hlist⟩ := ih s (l ++ [run]) r (by simpa using h) (by simpa using hs)
          (by simpa using hf) fun c hc => hsplit c (by simp [hc])
        refine ⟨t, by simpa using ht, ?_⟩
        rwa [flatMap_cons, cut_left hrun hbefore hab, ← append_assoc]
      obtain ⟨t', hs', hturn⟩ :=
        reserveLoop_meets fuel ha hb hab hrun hs hafter hbefore (hsplit run (by simp))
      -- the range meets this run, hence no later one holds it between its ends
      obtain ⟨t, ht, hlist⟩ := ih { s with free := t' } (l ++ cut a b run) r
        (freeRuns_splice h ha hb hab) hs' (by simpa using hf) (by
          intro c hc hca
          have := hbeyond c hc
          omega)
      refine ⟨t, by rw [hturn, ht], ?_⟩
      rwa [flatMap_cons, ← append_assoc]

/-- The representation invariant: pages handed out are distinct, aligned and in no free run. -/
structure Inv (s : PhysicalPageAllocator R A) : Prop where
  runs : Runs s.free
  tidy : s.allocated.Tidy 0
  nodup : s.allocated.toList.Nodup
  page : ∀ p ∈ s.allocated.toList, p % 4096 = 0 ∧ p + 4096 < 2 ^ 64
  held : ∀ p ∈ s.allocated.toList, ¬ Covers start hi s.free.toList p

theorem checkReservation_ok {a b : ℕ} (h : FreeRuns s.free.toList)
    (hc : s.checkReservation a b = .ok ()) :
    (∀ p ∈ s.allocated.toList, ¬ (p < b ∧ a < p + 4096)) ∧
      ∀ r ∈ s.free.toList, r.start < a → b < r.hi → s.free.len < R := by
  obtain ⟨⟨⟩, hpages, hruns⟩ := except_bind_ok.1 hc
  refine ⟨fun p hp hmeet => ?_, fun r hr ha hb => ?_⟩
  · have := forM_ok.1 hpages p hp
    rw [PAGE_SIZE_4K, if_pos hmeet] at this
    cases this
  · have := forM_ok.1 hruns r hr
    rw [(h.wf r hr).stop, except_ok_bind] at this
    by_contra hfull
    rw [if_pos ⟨ha, hb, Nat.le_of_not_lt hfull⟩] at this
    cases this

/-- A reservation fails and changes nothing or cuts the pages its range touches out of the free
runs; no page handed out is among them. -/
theorem reserveRange_spec (h : Inv s) (base length : ℕ) :
    (∃ e, (reserveRange base length).run s = (.error e, s)) ∨
    ∃ t n a b, (reserveRange base length).run s = (.ok n, { s with free := t }) ∧
      a % 4096 = 0 ∧ b % 4096 = 0 ∧ a < b ∧ t.Holds empty (s.free.toList.flatMap (cut a b)) ∧
      a = base / 4096 * 4096 ∧ b = (base + length + 4095) / 4096 * 4096 ∧
      (∀ p ∈ s.allocated.toList, ¬ (p < b ∧ a < p + 4096)) ∧
      n = s.freePages - freePages { s with free := t } := by
  unfold reserveRange
  by_cases hlen : length = 0
  · exact Or.inl ⟨_, by rw [if_pos hlen, Op.run_fail]⟩
  rw [if_neg hlen]
  cases hend : checkedAdd base length with
  | none => exact Or.inl ⟨_, rfl⟩
  | some rawEnd =>
  obtain ⟨hlt, rfl⟩ := checkedAdd_eq_some.1 hend
  simp only
  cases hup : alignUp (base + length) PAGE_SIZE_4K with
  | error e => exact Or.inl ⟨e, rfl⟩
  | ok b =>
  obtain ⟨-, hb⟩ := alignUp_page.1 hup
  have ha := alignDown_page (v := base) (by omega)
  set a := alignDown base PAGE_SIZE_4K
  rw [Op.run_lift_ok_bind, Op.run_read_bind]
  cases hcheck : s.checkReservation a b with
  | error e => exact Or.inl ⟨e, rfl⟩
  | ok u =>
  obtain ⟨hpages, hsplit⟩ := checkReservation_ok h.runs.toFreeRuns hcheck
  have hlen' : s.free.toList.length ≤ s.free.len := by rw [Table.toList_length]
  obtain ⟨t, ht, hlist⟩ := reserveLoop_spec (a := a) (b := b) (by omega) (by omega) (by omega)
    s.free.len s [] s.free.toList h.runs.toFreeRuns ⟨h.runs.tidy, rfl⟩ hlen' hsplit
  rw [length_nil] at ht
  rw [Op.run_lift_ok_bind, Op.run_bind_ok ht, Op.run_read_bind]
  exact Or.inr ⟨t, _, a, b, rfl, by omega, by omega, by omega, hlist, ha, hb, hpages, rfl⟩

/-- The page lies in the run and inside the constraint. -/
structure Fits (c : PageAllocationConstraint) (run : PageRun) (page : ℕ) : Prop where
  aligned : page % 4096 = 0
  start_le : run.start ≤ page
  le_hi : page + 4096 ≤ run.hi
  min_le : c.minAddress ≤ page
  le_max : page + 4096 ≤ c.maxAddressExclusive

theorem candidateIn_some {c : PageAllocationConstraint} {page stop : ℕ} (hw : run.WF)
    (h : candidateIn c run = .ok (some (page, stop))) : stop = run.hi ∧ Fits c run page := by
  rw [candidateIn, hw.stop, except_ok_bind] at h
  obtain ⟨candidate, hup, h⟩ := except_bind_ok.1 h
  obtain ⟨-, hcand⟩ := alignUp_page.1 hup
  cases hend : checkedAdd candidate PAGE_SIZE_4K with
  | none =>
    rw [hend] at h
    cases h
  | some candidateEnd =>
    rw [hend] at h
    obtain ⟨-, hce⟩ := checkedAdd_eq_some.1 hend
    rw [PAGE_SIZE_4K] at hce
    simp only at h
    split_ifs at h with hfit
    · cases h
      refine ⟨rfl, ?_, ?_, ?_, ?_, ?_⟩ <;> omega
    · cases h

theorem selectPage_spec {c : PageAllocationConstraint} {l : List PageRun} (hw : ∀ r ∈ l, r.WF) :
    ∀ {i index page stop : ℕ}, selectPage c l i = .ok (some (index, page, stop)) →
      ∃ before run rest, l = before ++ run :: rest ∧ index = i + before.length ∧ stop = run.hi ∧
        Fits c run page := by
  induction l with
  | nil =>
    intro i index page stop h
    cases h
  | cons run l ih =>
    intro i index page stop h
    obtain ⟨found, hfound, h⟩ := except_bind_ok.1 h
    cases found with
    | some found =>
      cases h
      obtain ⟨hstop, hfit⟩ := candidateIn_some (hw run (by simp)) hfound
      exact ⟨[], run, l, rfl, rfl, hstop, hfit⟩
    | none =>
      obtain ⟨before, r, rest, hl, hi, hrest⟩ := ih (fun r hr => hw r (by simp [hr])) h
      refine ⟨run :: before, r, rest, by rw [hl, cons_append], ?_, hrest⟩
      rw [length_cons]
      omega

end PhysicalPageAllocator
end AegisHV
