import AegisHV.Spec.Calendar

/-! The conversion gives the date of the calendar. A year of the algorithm starts with March, so
the leap day is its last one. -/

namespace AegisHV.Calendar

variable {y : ℤ}

theorem yearLength_eq (y : ℤ) : yearLength y =
    365 + ((y / 4 - (y - 1) / 4) - (y / 100 - (y - 1) / 100) + (y / 400 - (y - 1) / 400)) := by
  unfold yearLength isLeap
  split_ifs with h
  · simp only [Bool.and_eq_true, Bool.or_eq_true, decide_eq_true_eq] at h
    omega
  · simp only [Bool.and_eq_true, Bool.or_eq_true, decide_eq_true_eq] at h
    omega

/-- The days up to a year without counting. -/
theorem yearStart_eq (y : ℤ) : yearStart y =
    365 * (y - 1970) + (y - 1) / 4 - (y - 1) / 100 + (y - 1) / 400 - 477 := by
  have hup : ∀ n : ℕ, ((List.range n).map fun k : ℕ => yearLength (1970 + k)).sum =
      365 * n + (1969 + n : ℤ) / 4 - (1969 + n : ℤ) / 100 + (1969 + n : ℤ) / 400 - 477 := by
    intro n
    induction n with
    | zero => rfl
    | succ n ih =>
      rw [List.sum_range_succ, ih, yearLength_eq]
      push_cast
      omega
  have hdown : ∀ n : ℕ, -((List.range n).map fun k : ℕ => yearLength (1969 - k)).sum =
      -365 * n + (1969 - n : ℤ) / 4 - (1969 - n : ℤ) / 100 + (1969 - n : ℤ) / 400 - 477 := by
    intro n
    induction n with
    | zero => rfl
    | succ n ih =>
      rw [List.sum_range_succ, neg_add, ih, yearLength_eq]
      push_cast
      omega
  unfold yearStart
  split_ifs with h
  · rw [hup]
    omega
  · rw [hdown]
    omega

theorem yearStart_succ (y : ℤ) : yearStart (y + 1) = yearStart y + yearLength y := by
  rw [yearStart_eq, yearStart_eq, yearLength_eq]
  omega

/-- What a year adds to the three counts of leap years. -/
theorem quotients_succ (n : ℤ) :
    (n + 1) / 4 = n / 4 ∧ (n + 1) / 100 = n / 100 ∧ (n + 1) / 400 = n / 400 ∨
      (n + 1) / 4 = n / 4 + 1 ∧ (n + 1) / 100 = n / 100 ∧ (n + 1) / 400 = n / 400 ∨
      (n + 1) / 4 = n / 4 + 1 ∧ (n + 1) / 100 = n / 100 + 1 ∧ (n + 1) % 100 = 0 := by
  omega

theorem quotients_era (n era : ℤ) : (n + era * 400) / 4 = n / 4 + era * 100 ∧
    (n + era * 400) / 100 = n / 100 + era * 4 ∧ (n + era * 400) / 400 = n / 400 + era := by
  omega

theorem yearOfEra_spec {doe yoe : ℤ} (h0 : 0 ≤ doe) (hlt : doe < 146097)
    (hyoe : yoe = (doe - doe / 1460 + doe / 36524 - doe / 146096) / 365) :
    0 ≤ yoe ∧ yoe < 400 ∧ 365 * yoe + yoe / 4 - yoe / 100 ≤ doe ∧
      doe < 365 * (yoe + 1) + (yoe + 1) / 4 - (yoe + 1) / 100 + (yoe + 1) / 400 := by
  have hcentury : doe / 36524 = 0 ∨ doe / 36524 = 1 ∨ doe / 36524 = 2 ∨ doe / 36524 = 3 ∨
      doe = 146096 := by omega
  have hfour : yoe / 4 = doe / 1460 ∨ yoe / 4 = doe / 1460 - 1 := by omega
  have hle : yoe / 100 ≤ doe / 36524 := by omega
  rcases quotients_succ yoe with h | h | h
  · omega
  · omega
  · omega

/-- The month of a day of a year that starts with March, and its place in the calendar. -/
theorem month_spec {doy mp : ℤ} (h0 : 0 ≤ doy) (hlt : doy < yearLength (y + 1))
    (hmp : mp = (5 * doy + 2) / 153) :
    ∃ year m d, year = y + (if mp + (if mp < 10 then 3 else -9) ≤ 2 then 1 else 0) ∧
      m = mp + (if mp < 10 then 3 else -9) ∧ d = doy - (153 * mp + 2) / 5 + 1 ∧
      (1 ≤ m ∧ m ≤ 12) ∧ (1 ≤ d ∧ d ≤ monthLength year m) ∧
      yearStart year + monthStart year m + (d - 1) = yearStart (y + 1) - 306 + doy := by
  have hstart := yearStart_succ y
  obtain ⟨hmp0, hmp11⟩ : 0 ≤ mp ∧ mp ≤ 11 := by
    unfold yearLength at hlt
    split_ifs at hlt <;> omega
  refine ⟨_, _, _, rfl, rfl, rfl, ?_⟩
  unfold yearLength at hlt hstart
  interval_cases mp
  all_goals simp [monthStart, monthLength, List.range_succ]
  all_goals split_ifs at * <;> omega

theorem era_eq (z : ℤ) : (if 0 ≤ z then z else z - 146096).tdiv 146097 = z / 146097 := by
  split_ifs with h
  · exact Int.tdiv_eq_ediv_of_nonneg h
  · rw [← Int.neg_sub, Int.neg_tdiv, Int.tdiv_eq_ediv_of_nonneg (by omega)]
    omega

theorem monthLength_bounds (y m : ℤ) : 0 ≤ monthLength y m ∧ monthLength y m ≤ 31 := by
  unfold monthLength
  split_ifs <;> norm_num

/-- The date has the place of the day in the calendar; only its year is cut to 32 bits. -/
theorem civilFromDays_spec (z : ℤ) : ∃ y m d, civilFromDays z = (y.bmod (2 ^ 32), m, d) ∧
    (1 ≤ m ∧ m ≤ 12) ∧ (1 ≤ d ∧ d ≤ monthLength y m) ∧
    yearStart y + monthStart y m + (d - 1) = z := by
  unfold civilFromDays
  simp only [era_eq]
  obtain ⟨h0, hlt⟩ : 0 ≤ z + 719468 - (z + 719468) / 146097 * 146097 ∧
      z + 719468 - (z + 719468) / 146097 * 146097 < 146097 := by omega
  have hz : z + 719468 = (z + 719468) / 146097 * 146097 +
      (z + 719468 - (z + 719468) / 146097 * 146097) := by omega
  generalize (z + 719468) / 146097 = era at *
  generalize z + 719468 - era * 146097 = doe at *
  have hnum : 0 ≤ doe - doe / 1460 + doe / 36524 - doe / 146096 := by omega
  rw [Int.tdiv_eq_ediv_of_nonneg h0, Int.tdiv_eq_ediv_of_nonneg h0, Int.tdiv_eq_ediv_of_nonneg h0,
    Int.tdiv_eq_ediv_of_nonneg hnum]
  obtain ⟨hyoe, h400, hle, hnext⟩ := yearOfEra_spec h0 hlt rfl
  generalize (doe - doe / 1460 + doe / 36524 - doe / 146096) / 365 = yoe at *
  rw [Int.tdiv_eq_ediv_of_nonneg hyoe, Int.tdiv_eq_ediv_of_nonneg hyoe]
  obtain ⟨hq4, hq100, hq400⟩ := quotients_era yoe era
  obtain ⟨hn4, hn100, hn400⟩ := quotients_era (yoe + 1) era
  obtain ⟨hdoy, hlast⟩ : 0 ≤ doe - (365 * yoe + yoe / 4 - yoe / 100) ∧
      doe - (365 * yoe + yoe / 4 - yoe / 100) < yearLength (yoe + era * 400 + 1) := by
    rw [yearLength_eq, Int.add_sub_cancel, hq4, hq100, hq400, Int.add_right_comm, hn4, hn100, hn400]
    omega
  have hplace : yearStart (yoe + era * 400 + 1) - 306 +
      (doe - (365 * yoe + yoe / 4 - yoe / 100)) = z := by
    rw [yearStart_eq, Int.add_sub_cancel, hq4, hq100, hq400]
    omega
  generalize doe - (365 * yoe + yoe / 4 - yoe / 100) = doy at *
  rw [Int.tdiv_eq_ediv_of_nonneg (show 0 ≤ 5 * doy + 2 by omega),
    Int.tdiv_eq_ediv_of_nonneg (show 0 ≤ 153 * ((5 * doy + 2) / 153) + 2 by omega)]
  obtain ⟨y, m, d, hy, hm, hd, hmonth, hday, hsum⟩ := month_spec hdoy hlast rfl
  have hmax := monthLength_bounds y m
  refine ⟨y, m, d, ?_, hmonth, hday, hsum.trans hplace⟩
  rw [← hm, ← hd, hm, ← hy, ← hm, Int.emod_eq_of_lt (by omega) (by omega),
    Int.emod_eq_of_lt (by omega) (by omega)]

/-! Places in the calendar and their order. -/

theorem year_end {y y' : ℤ} (h : y < y') : yearStart y + yearLength y ≤ yearStart y' := by
  rw [yearStart_eq, yearStart_eq, yearLength_eq]
  omega

theorem month_end {m m' : ℤ} (h1 : 1 ≤ m) (h : m < m') :
    monthStart y m + monthLength y m ≤ monthStart y m' := by
  have hmono : Monotone fun n => ((List.range n).map fun k : ℕ => monthLength y (k + 1)).sum := by
    refine monotone_nat_of_le_succ fun n => ?_
    have hpos := monthLength_bounds y (n + 1)
    rw [List.sum_range_succ]
    omega
  have hle := hmono (show (m - 1).toNat + 1 ≤ (m' - 1).toNat by omega)
  have hm : ((m - 1).toNat : ℤ) + 1 = m := by omega
  dsimp only at hle
  rwa [List.sum_range_succ, hm] at hle

theorem monthStart_end (y : ℤ) : monthStart y 13 = yearLength y := by
  unfold yearLength
  split_ifs with h
  · simp [monthStart, monthLength, List.range_succ, h]
  · simp [monthStart, monthLength, List.range_succ, h]

/-- A date lies in its year. -/
theorem date_bounds {y m d : ℤ} (hm : 1 ≤ m ∧ m ≤ 12) (hd : 1 ≤ d ∧ d ≤ monthLength y m) :
    0 ≤ monthStart y m + (d - 1) ∧ monthStart y m + (d - 1) < yearLength y := by
  have hend := month_end (y := y) hm.1 (show m < 13 by omega)
  rw [monthStart_end] at hend
  have hpos : 0 ≤ monthStart y m := List.sum_nonneg (by simp [monthLength_bounds])
  omega

theorem Utc.Valid.fields_lt {t t' : Utc} (h : t.Valid) (h' : t'.Valid)
    (hlt : t.toUnix < t'.toUnix) : t.fields < t'.fields := by
  have hhour := h.hour
  have hmin := h.min
  have hsec := h.sec
  have hhour' := h'.hour
  have hmin' := h'.min
  have hsec' := h'.sec
  have hday := date_bounds h.month h.day
  have hday' := date_bounds h'.month h'.day
  unfold toUnix at hlt
  simp only [fields, List.cons_lt_cons_iff, List.not_lt_nil, and_false, or_false]
  rcases lt_trichotomy t.year t'.year with hy | hy | hy
  · exact .inl hy
  · refine .inr ⟨hy, ?_⟩
    rcases lt_trichotomy t.month t'.month with hm | hm | hm
    · exact .inl hm
    · rw [hy, hm] at hlt
      omega
    · have hend := month_end (y := t.year) h'.month.1 hm
      have hlast := h'.day.2
      have hfirst := h.day.1
      rw [← hy] at hlt hlast
      omega
  · have hend := year_end hy
    omega

theorem unixToUtc_spec {secs y : ℤ} (hyear : InYear secs y) (hy : -2 ^ 31 ≤ y ∧ y < 2 ^ 31) :
    (unixToUtc secs).year = y ∧ (unixToUtc secs).Valid ∧ (unixToUtc secs).toUnix = secs := by
  obtain ⟨y', m, d, hcivil, hm, hd, hplace⟩ := civilFromDays_spec (secs / 60 / 60 / 24)
  have hbounds := date_bounds hm hd
  obtain ⟨hfirst, hlast⟩ := hyear
  have hsame : y' = y := by
    rcases lt_trichotomy y' y with h | h | h
    · have hend := year_end h
      omega
    · exact h
    · have hend := year_end h
      have hnext := yearStart_succ y
      omega
  subst hsame
  have hcut : y'.bmod (2 ^ 32) = y' := Int.bmod_eq_of_le (by omega) (by omega)
  rw [hcut] at hcivil
  unfold unixToUtc
  simp only [hcivil]
  refine ⟨trivial, ⟨hm, hd, ?_, ?_, ?_⟩, ?_⟩
  · exact ⟨Int.emod_nonneg _ (by norm_num), Int.emod_lt_of_pos _ (by norm_num)⟩
  · exact ⟨Int.emod_nonneg _ (by norm_num), Int.emod_lt_of_pos _ (by norm_num)⟩
  · exact ⟨Int.emod_nonneg _ (by norm_num), Int.emod_lt_of_pos _ (by norm_num)⟩
  · rw [Utc.toUnix]
    dsimp only
    omega

/-- An instant of a year of 32 bits is converted to its date and time in the calendar, and a later
one to a later date and time. -/
theorem unixToUtc_correct {secs y : ℤ} (hyear : InYear secs y) (hy : -2 ^ 31 ≤ y ∧ y < 2 ^ 31) :
    (unixToUtc secs).year = y ∧ (unixToUtc secs).Valid ∧ (unixToUtc secs).toUnix = secs ∧
      ∀ secs' y', InYear secs' y' → -2 ^ 31 ≤ y' ∧ y' < 2 ^ 31 → secs < secs' →
        (unixToUtc secs).fields < (unixToUtc secs').fields := by
  obtain ⟨hyear', hvalid, hback⟩ := unixToUtc_spec hyear hy
  refine ⟨hyear', hvalid, hback, fun secs' y' hin hfits hlt => ?_⟩
  obtain ⟨-, hvalid', hback'⟩ := unixToUtc_spec hin hfits
  exact hvalid.fields_lt hvalid' (by rwa [hback, hback'])

/-- The leap day of the year 2000. -/
theorem unixToUtc_correct_leap_day : InYear 951782400 2000 ∧
    (unixToUtc 951782400).toUnix = 951782400 := by
  have hyear : InYear 951782400 2000 := by
    unfold InYear
    decide +kernel
  exact ⟨hyear, (unixToUtc_correct hyear (by norm_num)).2.2.1⟩

end AegisHV.Calendar
