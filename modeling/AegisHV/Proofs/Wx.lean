import AegisHV.Spec.Wx

/-! The W^X engine beside one that never prunes. A page that is pruned reads as a new one, so the
two agree as long as what was lost is too old to matter. -/

namespace AegisHV.Wx

open Sys Export List Assoc

theorem Pages.stateOf_put (pages : Pages) (k k' : PageKey) (st : PageState) :
    Pages.stateOf (pages.put k st) k' = if k' = k then st else pages.stateOf k' := by
  rw [Pages.stateOf, get_put]
  split <;> rfl

namespace WxEngine

variable {self : WxEngine}

variable {t : Touch}

theorem touch_eq_some {ev : Export.Event} :
    self.touch ev = some t ↔
      self.access ev = some t ∧ self.isAllowed ev (formatHex t.key.gpaPage) = false := by
  simp [touch, Option.filter_eq_some_iff]

/-! What one event does to its page -/

/-- The page was written at most the window ago. -/
def recent (self : WxEngine) (now : ℕ) (st : PageState) : Bool :=
  (st.lastWriteAt.map fun w => decide (now - w ≤ self.window)).getD false

/-- The last alert for the reason is too young. -/
def suppressed (self : WxEngine) (now : ℕ) (reason : List Char) (st : PageState) : Bool :=
  decide (self.cooldown ≠ 0) &&
    ((st.lastAlertByReason reason).map fun prev => decide (now - prev < self.cooldown)).getD false

/-- The page with the alert in it. -/
def recordAlert (self : WxEngine) (now : ℕ) (reason : List Char) (st : PageState) : PageState :=
  if self.cooldown = 0 then st
  else { st with lastAlertByReason := Function.update st.lastAlertByReason reason (some now) }

theorem cooldownActive_eq (st : PageState) (reason : List Char) (now : ℕ) :
    self.cooldownActive st reason now =
      if self.suppressed now reason st then (true, st)
      else (false, self.recordAlert now reason st) := by
  by_cases h : self.cooldown = 0
  · simp [cooldownActive, suppressed, recordAlert, h]
  · simp [cooldownActive, suppressed, recordAlert, h]

theorem alert_recordAlert (ev : Export.Event) (t : Touch) (st : PageState) (delta now : ℕ)
    (reason : List Char) :
    self.alert ev t (self.recordAlert now reason st) delta = self.alert ev t st delta := by
  rw [recordAlert]
  split <;> rfl

theorem judge_eq (ev : Export.Event) (t : Touch) (now : ℕ) (st : PageState) :
    self.judge ev t now st =
      if t.exec && self.recent now (note ev t now st) &&
          !self.suppressed now (cooldownReason ev) (note ev t now st) then
        (some (self.alert ev t (note ev t now st) (now - (note ev t now st).lastWriteAt.getD 0)),
          self.recordAlert now (cooldownReason ev) (note ev t now st))
      else (none, note ev t now st) := by
  simp only [judge, cooldownActive_eq]
  generalize note ev t now st = st
  rcases hw : st.lastWriteAt with _ | w
  · simp [recent, hw]
  · have hrecent : self.recent now st = decide (now - w ≤ self.window) := by simp [recent, hw]
    rw [hrecent]
    by_cases hx : (t.exec && decide (now - w ≤ self.window)) = true
    · by_cases hs : self.suppressed now (cooldownReason ev) st = true
      · simp only [hx, hs, if_true, Bool.not_true, Bool.and_false, Bool.false_eq_true, if_false]
      · simp only [hx, hs, if_true, Bool.not_false, Bool.and_true, Bool.false_eq_true, if_false,
          alert_recordAlert, Option.getD_some]
    · simp only [hx, Bool.false_and, Bool.false_eq_true, if_false]

theorem judge_fields (ev : Export.Event) (t : Touch) (now : ℕ) (st : PageState) :
    (self.judge ev t now st).2.lastWriteAt = (note ev t now st).lastWriteAt ∧
      (self.judge ev t now st).2.lastExecAt = (note ev t now st).lastExecAt := by
  rw [judge_eq, recordAlert]
  split
  · split <;> exact ⟨rfl, rfl⟩
  · exact ⟨rfl, rfl⟩

theorem note_lastWriteAt (ev : Export.Event) (t : Touch) (now : ℕ) (st : PageState) :
    (note ev t now st).lastWriteAt = if t.write then some now else st.lastWriteAt := by
  by_cases hw : t.write <;> by_cases hx : t.exec <;> simp [note, hw, hx]

theorem note_lastExecAt (ev : Export.Event) (t : Touch) (now : ℕ) (st : PageState) :
    (note ev t now st).lastExecAt = if t.exec then some now else st.lastExecAt := by
  by_cases hw : t.write <;> by_cases hx : t.exec <;> simp [note, hw, hx]

theorem note_lastAlertByReason (ev : Export.Event) (t : Touch) (now : ℕ) (st : PageState) :
    (note ev t now st).lastAlertByReason = st.lastAlertByReason := by
  by_cases hw : t.write <;> by_cases hx : t.exec <;> simp [note, hw, hx]

theorem judge_isSome (ev : Export.Event) (t : Touch) (now : ℕ) (st : PageState) :
    (self.judge ev t now st).1.isSome = (t.exec && self.recent now (note ev t now st) &&
      !self.suppressed now (cooldownReason ev) (note ev t now st)) := by
  rw [judge_eq]
  split
  case isTrue h => exact h.symm
  case isFalse h => exact (Bool.eq_false_of_not_eq_true h).symm

theorem judge_alerts (ev : Export.Event) (t : Touch) (now : ℕ) (st : PageState) :
    (self.judge ev t now st).2.lastAlertByReason =
      if (self.judge ev t now st).1.isSome = true ∧ self.cooldown ≠ 0 then
        Function.update st.lastAlertByReason (cooldownReason ev) (some now)
      else st.lastAlertByReason := by
  rw [judge_eq, recordAlert]
  split
  case isTrue h =>
    by_cases hc : self.cooldown = 0
    · simp [h, hc, note_lastAlertByReason]
    · simp [h, hc, note_lastAlertByReason]
  case isFalse h => simp [h, note_lastAlertByReason]

/-! Agreement of a page with the one that was never pruned -/

/-- What is missing from the first page is in the second one older than the window, or than the
cooldown. -/
structure Agree (engine : WxEngine) (now : ℕ) (p u : PageState) : Prop where
  write : (p.lastWriteAt = u.lastWriteAt ∧ p.lastWriteRip = u.lastWriteRip ∧
      p.lastWriteIdentityConflictTags = u.lastWriteIdentityConflictTags) ∨
    (p.lastWriteAt = none ∧ ∀ w, u.lastWriteAt = some w → engine.window < now - w)
  alerts : ∀ reason, p.lastAlertByReason reason = u.lastAlertByReason reason ∨
    (p.lastAlertByReason reason = none ∧
      ∀ a, u.lastAlertByReason reason = some a → engine.cooldown ≤ now - a)

namespace Agree

variable {now : ℕ} {p u : PageState}

theorem refl (now : ℕ) (p : PageState) : self.Agree now p p :=
  ⟨.inl ⟨rfl, rfl, rfl⟩, fun _ => .inl rfl⟩

theorem mono (h : self.Agree now p u) {later : ℕ} (hle : now ≤ later) : self.Agree later p u := by
  refine ⟨h.write.imp id ?_, fun reason => (h.alerts reason).imp id ?_⟩
  · rintro ⟨hp, hu⟩
    exact ⟨hp, fun w hw => lt_of_lt_of_le (hu w hw) (Nat.sub_le_sub_right hle w)⟩
  · rintro ⟨hp, hu⟩
    exact ⟨hp, fun a ha => le_trans (hu a ha) (Nat.sub_le_sub_right hle a)⟩

theorem trans {v : PageState} (h : self.Agree now p u) (h' : self.Agree now u v) :
    self.Agree now p v := by
  constructor
  · rcases h'.write with ⟨hat, hrip, htags⟩ | ⟨hu, hv⟩
    · rw [← hat, ← hrip, ← htags]
      exact h.write
    · refine .inr ⟨?_, hv⟩
      rcases h.write with hp | hp
      · exact hp.1.trans hu
      · exact hp.1
  · intro reason
    rcases h'.alerts reason with heq | ⟨hu, hv⟩
    · rw [← heq]
      exact h.alerts reason
    · refine .inr ⟨?_, hv⟩
      rcases h.alerts reason with hp | hp
      · exact hp.trans hu
      · exact hp.1

theorem recent_eq (h : self.Agree now p u) : self.recent now p = self.recent now u := by
  rcases h.write with ⟨hat, -⟩ | ⟨hp, hu⟩
  · rw [recent, recent, hat]
  · rcases hw : u.lastWriteAt with _ | w
    · simp [recent, hp, hw]
    · have hold := not_le.mpr (hu w hw)
      rw [recent, recent, hp, hw]
      exact (decide_eq_false hold).symm

theorem suppressed_eq (h : self.Agree now p u) (reason : List Char) :
    self.suppressed now reason p = self.suppressed now reason u := by
  rcases h.alerts reason with heq | ⟨hp, hu⟩
  · rw [suppressed, suppressed, heq]
  · rcases ha : u.lastAlertByReason reason with _ | a
    · simp [suppressed, hp, ha]
    · have hold := not_lt.mpr (hu a ha)
      rw [suppressed, suppressed, hp, ha, Option.map_some, decide_eq_false hold]
      rfl

theorem recordAlert (h : self.Agree now p u) (reason : List Char) :
    self.Agree now (self.recordAlert now reason p) (self.recordAlert now reason u) := by
  rw [WxEngine.recordAlert, WxEngine.recordAlert]
  split
  · exact h
  · refine ⟨h.write, fun other => ?_⟩
    by_cases heq : other = reason
    · subst heq
      simp
    · simpa [Function.update_of_ne heq] using h.alerts other

theorem note (h : self.Agree now p u) (ev : Export.Event) (t : Touch) :
    self.Agree now (WxEngine.note ev t now p) (WxEngine.note ev t now u) := by
  refine ⟨?_, fun reason => ?_⟩
  · by_cases hw : t.write
    · by_cases hx : t.exec <;> simp [WxEngine.note, hw, hx]
    · by_cases hx : t.exec <;> simpa [WxEngine.note, hw, hx] using h.write
  · rw [note_lastAlertByReason, note_lastAlertByReason]
    exact h.alerts reason

theorem alert_eq (h : self.Agree now p u) (ev : Export.Event) (t : Touch)
    (hrecent : self.recent now p = true) (hrip : p.lastExecRip = u.lastExecRip) :
    self.alert ev t p (now - p.lastWriteAt.getD 0) =
      self.alert ev t u (now - u.lastWriteAt.getD 0) := by
  rcases h.write with ⟨hat, hwrip, htags⟩ | ⟨hp, -⟩
  · simp only [alert, hat, hwrip, htags, hrip]
  · simp [recent, hp] at hrecent

theorem judge (h : self.Agree now p u) (ev : Export.Event) (t : Touch) :
    (self.judge ev t now p).1 = (self.judge ev t now u).1 ∧
      self.Agree now (self.judge ev t now p).2 (self.judge ev t now u).2 := by
  have hnote := h.note ev t
  rw [judge_eq, judge_eq, ← hnote.recent_eq, ← hnote.suppressed_eq]
  split
  case isTrue hraised =>
    obtain ⟨⟨hx, hrecent⟩, -⟩ : (t.exec = true ∧ _) ∧ _ := by simpa using hraised
    have hrip : (WxEngine.note ev t now p).lastExecRip =
        (WxEngine.note ev t now u).lastExecRip := by
      simp [WxEngine.note, hx]
    exact ⟨congrArg some (hnote.alert_eq ev t hrecent hrip), hnote.recordAlert _⟩
  case isFalse => exact ⟨rfl, hnote⟩

end Agree

/-! What the tracked pages hold -/

/-- The page of an event is `key`. -/
def Uses (self : WxEngine) (key : PageKey) (e : Timed) : Prop :=
  ∃ t, self.touch e.event = some t ∧ t.key = key

/-- The times in a page are those of events seen, and an execution is no older than an alert. -/
structure Sound (engine : WxEngine) (seen : List Timed) (key : PageKey) (st : PageState) : Prop where
  used : ∀ n, st.lastWriteAt = some n ∨ st.lastExecAt = some n →
    ∃ e ∈ seen, engine.Uses key e ∧ e.now = n
  alerted : ∀ reason a, st.lastAlertByReason reason = some a →
    ∃ x, st.lastExecAt = some x ∧ a ≤ x

theorem sound_default (seen : List Timed) (key : PageKey) : self.Sound seen key {} :=
  ⟨fun _ h => by simp at h, fun _ _ h => by simp at h⟩

variable {seen : List Timed} {key : PageKey} {st : PageState}

theorem Sound.append
    (h : self.Sound seen key st) (e : Timed) : self.Sound (seen ++ [e]) key st := by
  refine ⟨fun n hn => ?_, h.alerted⟩
  obtain ⟨e', hmem, hrest⟩ := h.used n hn
  exact ⟨e', mem_append_left _ hmem, hrest⟩

theorem Sound.alert_le {now : ℕ}
    (h : self.Sound seen key st) (hle : ∀ e ∈ seen, e.later ≤ now) {reason : List Char} {a : ℕ}
    (ha : st.lastAlertByReason reason = some a) : a ≤ now := by
  obtain ⟨x, hx, hax⟩ := h.alerted reason a ha
  obtain ⟨e, hmem, -, rfl⟩ := h.used x (.inr hx)
  exact le_trans hax (le_trans e.now_le (hle e hmem))

theorem Sound.judge {e : Timed} (h : self.Sound seen t.key st) (hle : ∀ e' ∈ seen, e'.later ≤ e.now)
    (ht : self.touch e.event = some t) :
    self.Sound (seen ++ [e]) t.key (self.judge e.event t e.now st).2 := by
  have hself : ∃ e' ∈ seen ++ [e], self.Uses t.key e' ∧ e'.now = e.now :=
    ⟨e, by simp, ⟨t, ht, rfl⟩, rfl⟩
  constructor
  · intro n hn
    rw [(judge_fields e.event t e.now st).1, (judge_fields e.event t e.now st).2,
      note_lastWriteAt, note_lastExecAt] at hn
    rcases hn with hn | hn
    · split at hn
      · exact Option.some.inj hn ▸ hself
      · exact (h.append e).used n (.inl hn)
    · split at hn
      · exact Option.some.inj hn ▸ hself
      · exact (h.append e).used n (.inr hn)
  · intro reason a ha
    rw [(judge_fields e.event t e.now st).2, note_lastExecAt]
    have hold : st.lastAlertByReason reason = some a →
        ∃ x, (if t.exec = true then some e.now else st.lastExecAt) = some x ∧ a ≤ x := by
      intro hst
      split
      · exact ⟨e.now, rfl, h.alert_le hle hst⟩
      · exact h.alerted reason a hst
    rw [judge_alerts] at ha
    split at ha
    case isTrue hraised =>
      rw [judge_isSome, Bool.and_assoc, Bool.and_eq_true] at hraised
      by_cases heq : reason = cooldownReason e.event
      · rw [heq, Function.update_self, Option.some.injEq] at ha
        rw [if_pos hraised.1.1]
        exact ⟨e.now, rfl, ha ▸ le_rfl⟩
      · rw [Function.update_of_ne heq] at ha
        exact hold ha
    case isFalse => exact hold ha

/-! Pruning -/

def usedLately (self : WxEngine) (now : ℕ) (st : PageState) : Bool :=
  ((lastUse st).map fun t => decide (now - t ≤ self.window * 2)).getD false

theorem usedLately_iff {now : ℕ} :
    self.usedLately now st = true ↔ ∃ n, lastUse st = some n ∧ now - n ≤ self.window * 2 := by
  rw [usedLately]
  rcases lastUse st with _ | n <;> simp

/-- The pages used in the last two windows. -/
def aged (self : WxEngine) (now : ℕ) (pages : Pages) : Pages :=
  pages.retain fun _ st => self.usedLately now st

variable {pages : Pages}

theorem maybePrune_of_fit {now : ℕ} (hfit : (self.aged now pages).size ≤ self.maxPages) :
    self.maybePrune now pages =
      if pages.size ≤ self.maxPages then pages else self.aged now pages := by
  have hno : ¬ (self.aged now pages).size > self.maxPages := not_lt.mpr hfit
  simp only [aged, usedLately] at hno
  simp only [maybePrune, if_neg hno, aged, usedLately]

theorem stateOf_aged (now : ℕ) (pages : Pages) (key : PageKey) :
    (self.aged now pages).stateOf key = pages.stateOf key ∨
      ((self.aged now pages).stateOf key = {} ∧
        ∀ n, lastUse (pages.stateOf key) = some n → self.window * 2 < now - n) := by
  rw [Pages.stateOf, Pages.stateOf, aged, get_retain]
  rcases pages.get key with _ | st
  · exact .inl rfl
  · by_cases hlate : self.usedLately now st = true
    · exact .inl (by simp [Option.filter, hlate])
    · refine .inr ⟨by simp [Option.filter, hlate], fun n hn => not_le.mp fun hle => hlate ?_⟩
      exact usedLately_iff.mpr ⟨n, hn, hle⟩

/-- The keys of the events of the stream in two windows from a time on. -/
def activeKeys (self : WxEngine) (stream : List Timed) (start : ℕ) : Finset PageKey :=
  (stream.filterMap fun e =>
    if start ≤ e.now ∧ e.now ≤ start + self.window * 2 then (self.touch e.event).map Touch.key
    else none).toFinset

variable {stream : List Timed}

theorem aged_fits {now : ℕ} (hactive : ∀ start, (self.activeKeys stream start).card ≤ self.maxPages)
    (hseen : ∀ e ∈ seen, e ∈ stream ∧ e.now ≤ now)
    (hsound : ∀ key, self.Sound seen key (pages.stateOf key)) :
    (self.aged now pages).size ≤ self.maxPages := by
  refine le_trans ?_ (hactive (now - self.window * 2))
  rw [size_eq_keys, ← toFinset_card_of_nodup (keys_nodup _)]
  refine Finset.card_le_card fun key hkey => ?_
  obtain ⟨st, hst⟩ := mem_keys.mp (mem_toFinset.mp hkey)
  rw [aged, get_retain, Option.filter_eq_some_iff] at hst
  obtain ⟨hget, hkept⟩ := hst
  have hstate : pages.stateOf key = st := by rw [Pages.stateOf, hget, Option.getD_some]
  obtain ⟨n, hu, hn⟩ := usedLately_iff.mp hkept
  have hused : st.lastWriteAt = some n ∨ st.lastExecAt = some n := by
    rw [lastUse, Option.or_eq_some_iff] at hu
    exact hu.symm.imp And.right id
  obtain ⟨e, hmem, ⟨t, ht, rfl⟩, rfl⟩ := (hstate ▸ hsound key).used n hused
  rw [activeKeys, mem_toFinset, mem_filterMap]
  have hle := (hseen e hmem).2
  refine ⟨e, (hseen e hmem).1, ?_⟩
  rw [if_pos ⟨by omega, by omega⟩, ht, Option.map_some]

/-- The page was executed more than two windows ago, and written in the last window. -/
def atRisk (self : WxEngine) (now : ℕ) (st : PageState) : Bool :=
  ((st.lastExecAt.map fun x => decide (self.window * 2 < now - x)).getD false) &&
    self.recent now st

/-- In a table over its limit no page is at risk. -/
def FreshKept (self : WxEngine) (now : ℕ) (pages : Pages) : Prop :=
  self.maxPages < pages.size → ∀ entry ∈ pages.entries, self.atRisk now entry.2 = false

theorem FreshKept.old_write {now : ℕ} (h : self.FreshKept now pages)
    (hmore : self.maxPages < pages.size) {x w : ℕ}
    (hx : (pages.stateOf key).lastExecAt = some x) (hold : self.window * 2 < now - x)
    (hw : (pages.stateOf key).lastWriteAt = some w) : self.window < now - w := by
  rw [Pages.stateOf] at hx hw
  rcases hget : pages.get key with _ | st
  · rw [hget] at hx
    cases hx
  · rw [hget, Option.getD_some] at hx hw
    have hrisk := h hmore (key, st) (mem_entries.mpr hget)
    simp only [atRisk, recent, hx, hw, Option.map_some, Option.getD_some, hold, decide_true,
      Bool.true_and, decide_eq_false_iff_not] at hrisk
    exact not_le.mp hrisk

theorem maybePrune_agree {now : ℕ} (hfit : (self.aged now pages).size ≤ self.maxPages)
    (hcool : self.cooldown ≤ self.window * 2) (hfresh : self.FreshKept now pages)
    (hsound : ∀ key, self.Sound seen key (pages.stateOf key)) (key : PageKey) :
    self.Agree now ((self.maybePrune now pages).stateOf key) (pages.stateOf key) := by
  rw [maybePrune_of_fit hfit]
  split
  case isTrue => exact Agree.refl now _
  case isFalse hmore =>
    rcases stateOf_aged now pages key with heq | ⟨hgone, hold⟩
    · exact heq ▸ Agree.refl now _
    · rw [hgone]
      refine ⟨.inr ⟨rfl, fun w hw => ?_⟩, fun reason => .inr ⟨rfl, fun a ha => ?_⟩⟩
      · rcases hx : (pages.stateOf key).lastExecAt with _ | x
        · have hlast := hold w (by rw [lastUse, hx, hw, Option.none_or])
          omega
        · have hlast := hold x (by rw [lastUse, hx, Option.some_or])
          exact hfresh.old_write (not_le.mp hmore) hx hlast hw
      · obtain ⟨x, hx, hax⟩ := (hsound key).alerted reason a ha
        have hlast := hold x (by rw [lastUse, hx, Option.some_or])
        omega

theorem maybePrune_sound {now : ℕ} (hfit : (self.aged now pages).size ≤ self.maxPages)
    (hsound : ∀ key, self.Sound seen key (pages.stateOf key)) (key : PageKey) :
    self.Sound seen key ((self.maybePrune now pages).stateOf key) := by
  rw [maybePrune_of_fit hfit]
  split
  · exact hsound key
  · rcases stateOf_aged now pages key with heq | ⟨hgone, -⟩
    · exact heq ▸ hsound key
    · exact hgone ▸ sound_default seen key

/-! Both engines on a stream -/

/-- The clock does not run backwards, between the events and within one. -/
def Ordered (stream : List Timed) : Prop := stream.Pairwise fun e e' => e.later ≤ e'.now

theorem Ordered.le_of_concat {before : List Timed} {e : Timed} (h : Ordered (before ++ [e])) :
    ∀ e' ∈ before, e'.later ≤ e.now :=
  fun e' hmem => (pairwise_append.mp h).2.2 e' hmem e mem_cons_self

/-- The table with the access in it. -/
def entered (pages : Pages) (e : Timed) (t : Touch) : Pages :=
  pages.put t.key (note e.event t e.now (pages.stateOf t.key))

/-- If the table outgrows its limit with the access, no page in it is at risk. -/
def KeepsFresh (self : WxEngine) (pages : Pages) (e : Timed) : Prop :=
  ∀ t ∈ self.touch e.event, self.FreshKept e.later (entered pages e t)

instance (now : ℕ) (pages : Pages) : Decidable (self.FreshKept now pages) :=
  inferInstanceAs (Decidable (_ → _))

instance (pages : Pages) (e : Timed) : Decidable (self.KeepsFresh pages e) :=
  inferInstanceAs (Decidable (∀ t ∈ self.touch e.event, _))

/-- The table as it is pruned. -/
def noted (self : WxEngine) (pages : Pages) (e : Timed) (t : Touch) : Pages :=
  pages.put t.key (self.judge e.event t e.now (pages.stateOf t.key)).2

theorem KeepsFresh.noted {e : Timed} (h : self.KeepsFresh pages e)
    (ht : self.touch e.event = some t) : self.FreshKept e.later (self.noted pages e t) := by
  intro hmore entry hentry
  have hsize : (self.noted pages e t).size = (entered pages e t).size := by
    rw [size_eq_keys, size_eq_keys, WxEngine.noted, entered, keys_put, keys_put]
  have hall := h t ht (hsize ▸ hmore)
  have hget := mem_entries.mp hentry
  rw [WxEngine.noted, get_put] at hget
  split at hget
  case isTrue hkey =>
    have hown := hall (entry.1, note e.event t e.now (pages.stateOf t.key))
      (mem_entries.mpr (by rw [entered, get_put, if_pos hkey]))
    rw [← Option.some.inj hget, atRisk, recent, (judge_fields e.event t e.now _).1,
      (judge_fields e.event t e.now _).2]
    exact hown
  case isFalse hkey =>
    exact hall entry (mem_entries.mpr (by rw [entered, get_put, if_neg hkey, hget]))

theorem noted_sound {e : Timed} (hsound : ∀ key, self.Sound seen key (pages.stateOf key))
    (hle : ∀ e' ∈ seen, e'.later ≤ e.now) (ht : self.touch e.event = some t) (key : PageKey) :
    self.Sound (seen ++ [e]) key ((self.noted pages e t).stateOf key) := by
  rw [noted, Pages.stateOf_put]
  split
  case isTrue heq =>
    subst heq
    exact (hsound t.key).judge hle ht
  case isFalse => exact (hsound key).append e

theorem noted_agree {p u : Pages} {e : Timed}
    (hagree : ∀ key, self.Agree e.now (p.stateOf key) (u.stateOf key)) (key : PageKey) :
    self.Agree e.now ((self.noted p e t).stateOf key) ((self.noted u e t).stateOf key) := by
  rw [noted, noted, Pages.stateOf_put, Pages.stateOf_put]
  split
  · exact ((hagree t.key).judge e.event t).2
  · exact hagree key

/-- What holds of the two engines after a part of the stream. -/
structure Simulates (engine : WxEngine) (seen : List Timed) (p u : Pages) : Prop where
  sound : ∀ key, engine.Sound seen key (p.stateOf key)
  agree : ∀ now, (∀ e ∈ seen, e.later ≤ now) →
    ∀ key, engine.Agree now (p.stateOf key) (u.stateOf key)

theorem Simulates.step {p u : Pages} {e : Timed}
    (h : self.Simulates seen p u) (hmem : ∀ e' ∈ seen ++ [e], e' ∈ stream)
    (hordered : Ordered (seen ++ [e]))
    (hactive : ∀ start, (self.activeKeys stream start).card ≤ self.maxPages)
    (hcool : self.cooldown ≤ self.window * 2) (hfresh : self.KeepsFresh p e) :
    (self.onExitEvent p e).1 = (self.onExitEventUnpruned u e).1 ∧
      self.Simulates (seen ++ [e]) (self.onExitEvent p e).2 (self.onExitEventUnpruned u e).2 := by
  have hle := hordered.le_of_concat
  simp only [onExitEvent, onExitEventUnpruned, onExitEventWith]
  rcases ht : self.touch e.event with _ | t
  · refine ⟨rfl, fun key => (h.sound key).append e, fun now hnow key => h.agree now ?_ key⟩
    exact fun e' hmem' => hnow e' (mem_append_left _ hmem')
  · have hagree := h.agree e.now hle
    have hsound := noted_sound h.sound hle ht
    have hfit : (self.aged e.later (self.noted p e t)).size ≤ self.maxPages := by
      refine aged_fits hactive (fun e' hmem' => ⟨hmem e' hmem', ?_⟩) hsound
      rcases mem_append.mp hmem' with hseen | hlast
      · exact le_trans e'.now_le (le_trans (hle e' hseen) e.now_le)
      · rw [mem_singleton.mp hlast]
        exact e.now_le
    refine ⟨((hagree t.key).judge e.event t).1, maybePrune_sound hfit hsound, ?_⟩
    intro now hnow key
    have hlater : e.later ≤ now := hnow e (by simp)
    have hpruned := maybePrune_agree hfit hcool (hfresh.noted ht) hsound key
    exact (hpruned.mono hlater).trans ((noted_agree hagree key).mono (le_trans e.now_le hlater))

theorem simulates_run (hordered : Ordered stream)
    (hactive : ∀ start, (self.activeKeys stream start).card ≤ self.maxPages)
    (hcool : self.cooldown ≤ self.window * 2) {rest : List Timed}
    (hstream : stream = seen ++ rest)
    (hfresh : AllSteps self.KeepsFresh self.onExitEvent .empty seen) :
    (run self.onExitEvent .empty seen).1 = (run self.onExitEventUnpruned .empty seen).1 ∧
      self.Simulates seen (run self.onExitEvent .empty seen).2
        (run self.onExitEventUnpruned .empty seen).2 := by
  induction seen using List.reverseRecOn generalizing rest with
  | nil => exact ⟨rfl, fun key => sound_default _ key, fun _ _ _ => Agree.refl _ _⟩
  | append_singleton seen e ih =>
    rw [allSteps_concat] at hfresh
    obtain ⟨hlog, hsim⟩ := ih (hstream.trans (append_assoc _ _ _)) hfresh.1
    have hmem : ∀ e' ∈ seen ++ [e], e' ∈ stream := fun e' h =>
      hstream ▸ mem_append_left rest h
    have hpart : Ordered (seen ++ [e]) := (pairwise_append.mp (hstream ▸ hordered)).1
    obtain ⟨halert, hstep⟩ := hsim.step hmem hpart hactive hcool hfresh.2
    rw [run_concat, run_concat, hlog, halert]
    exact ⟨rfl, hstep⟩

/-! When the engine that never prunes raises an alert -/

/-- The times of the writes to a page. -/
def writeTimes (self : WxEngine) (key : PageKey) (stream : List Timed) : Set ℕ :=
  {n | ∃ e ∈ stream, ∃ t, self.touch e.event = some t ∧ t.key = key ∧ t.write = true ∧ e.now = n}

/-- The times of the alerts for a page and a reason. -/
def alertTimes (self : WxEngine) (key : PageKey) (reason : List Char)
    (log : List (Timed × Option WxAlert)) : Set ℕ :=
  {n | ∃ entry ∈ log, entry.2.isSome = true ∧ cooldownReason entry.1.event = reason ∧
    self.Uses key entry.1 ∧ entry.1.now = n}

theorem writeTimes_concat (key : PageKey) (stream : List Timed) {e : Timed}
    (ht : self.touch e.event = some t) :
    self.writeTimes key (stream ++ [e]) =
      if t.key = key ∧ t.write = true then insert e.now (self.writeTimes key stream)
      else self.writeTimes key stream := by
  ext n
  have hmem : n ∈ self.writeTimes key (stream ++ [e]) ↔
      n ∈ self.writeTimes key stream ∨ (t.key = key ∧ t.write = true ∧ e.now = n) := by
    simp only [writeTimes, mem_append, mem_singleton, or_and_right, exists_or,
      exists_eq_left, Set.mem_ofPred_eq, ht, Option.some.injEq, exists_eq_left']
  rw [hmem]
  split
  case isTrue h => simp [h, or_comm, eq_comm]
  case isFalse h =>
    refine or_iff_left fun hlast => h ⟨hlast.1, hlast.2.1⟩

theorem alertTimes_concat (key : PageKey) (reason : List Char)
    (log : List (Timed × Option WxAlert)) {e : Timed}
    (ht : self.touch e.event = some t) (raised : Option WxAlert) :
    self.alertTimes key reason (log ++ [(e, raised)]) =
      if t.key = key ∧ cooldownReason e.event = reason ∧ raised.isSome = true then
        insert e.now (self.alertTimes key reason log)
      else self.alertTimes key reason log := by
  ext n
  have hmem : n ∈ self.alertTimes key reason (log ++ [(e, raised)]) ↔
      n ∈ self.alertTimes key reason log ∨
        (raised.isSome = true ∧ cooldownReason e.event = reason ∧ t.key = key ∧ e.now = n) := by
    simp only [alertTimes, Uses, mem_append, mem_singleton, or_and_right, exists_or,
      exists_eq_left, Set.mem_ofPred_eq, ht, Option.some.injEq, exists_eq_left']
  rw [hmem]
  split
  case isTrue h => simp [h, or_comm, eq_comm]
  case isFalse h =>
    refine or_iff_left fun hlast => h ⟨hlast.2.2.1, hlast.2.1, hlast.1⟩

/-- The pages hold the last write and the last alerts of the log. -/
structure Recorded (engine : WxEngine) (log : List (Timed × Option WxAlert)) (u : Pages) :
    Prop where
  writes : ∀ key, LastOf (engine.writeTimes key (log.map Prod.fst)) (u.stateOf key).lastWriteAt
  alerts : engine.cooldown ≠ 0 → ∀ key reason,
    LastOf (engine.alertTimes key reason log) ((u.stateOf key).lastAlertByReason reason)

theorem writeTimes_le {now : ℕ}
    (hle : ∀ e ∈ stream, e.later ≤ now) : ∀ n ∈ self.writeTimes key stream, n ≤ now := by
  rintro n ⟨e, hmem, t, -, -, -, rfl⟩
  exact le_trans e.now_le (hle e hmem)

theorem alertTimes_le {reason : List Char} {log : List (Timed × Option WxAlert)}
    {now : ℕ} (hle : ∀ e ∈ log.map Prod.fst, e.later ≤ now) :
    ∀ n ∈ self.alertTimes key reason log, n ≤ now := by
  rintro n ⟨entry, hmem, -, -, -, rfl⟩
  exact le_trans entry.1.now_le (hle _ (mem_map_of_mem hmem))

section

variable {log : List (Timed × Option WxAlert)} {u : Pages} {e : Timed}

theorem Recorded.note (h : self.Recorded log u) (hle : ∀ e' ∈ log.map Prod.fst, e'.later ≤ e.now)
    {t : Touch} (ht : self.touch e.event = some t) :
    LastOf (self.writeTimes t.key (log.map Prod.fst ++ [e]))
      (WxEngine.note e.event t e.now (u.stateOf t.key)).lastWriteAt := by
  rw [writeTimes_concat _ _ ht, note_lastWriteAt]
  by_cases hw : t.write = true
  · rw [if_pos ⟨rfl, hw⟩, if_pos hw]
    exact lastOf_insert (writeTimes_le hle)
  · rw [if_neg (fun hand => hw hand.2), if_neg hw]
    exact h.writes t.key

theorem Recorded.step (h : self.Recorded log u) (hle : ∀ e' ∈ log.map Prod.fst, e'.later ≤ e.now) :
    self.Recorded (log ++ [(e, (self.onExitEventUnpruned u e).1)])
      (self.onExitEventUnpruned u e).2 := by
  simp only [onExitEventUnpruned, onExitEventWith]
  rcases ht : self.touch e.event with _ | t
  · constructor
    · intro key
      have hsame : self.writeTimes key ((log ++ [(e, none)]).map Prod.fst) =
          self.writeTimes key (log.map Prod.fst) := by
        simp [writeTimes, or_and_right, exists_or, ht]
      exact hsame ▸ h.writes key
    · intro hc key reason
      have hsame : self.alertTimes key reason (log ++ [(e, none)]) =
          self.alertTimes key reason log := by
        simp [alertTimes, or_and_right, exists_or]
      exact hsame ▸ h.alerts hc key reason
  · constructor
    · intro key
      rw [Pages.stateOf_put, map_append]
      by_cases hkey : key = t.key
      · rw [if_pos hkey, hkey, (judge_fields _ _ _ _).1]
        exact h.note hle ht
      · rw [if_neg hkey]
        have hsame := writeTimes_concat key (log.map Prod.fst) ht
        rw [if_neg (fun hand => hkey hand.1.symm)] at hsame
        exact hsame ▸ h.writes key
    · intro hc key reason
      rw [Pages.stateOf_put, alertTimes_concat key reason log ht]
      by_cases hkey : key = t.key
      · subst hkey
        rw [if_pos rfl, judge_alerts]
        by_cases hraised : (self.judge e.event t e.now (u.stateOf t.key)).1.isSome = true
        · by_cases hr : reason = cooldownReason e.event
          · rw [if_pos ⟨rfl, hr.symm, hraised⟩, if_pos ⟨hraised, hc⟩, hr, Function.update_self]
            exact lastOf_insert (alertTimes_le hle)
          · rw [if_neg (fun hand => hr hand.2.1.symm), if_pos ⟨hraised, hc⟩,
              Function.update_of_ne hr]
            exact h.alerts hc _ reason
        · rw [if_neg (fun hand => hraised hand.2.2), if_neg (fun hand => hraised hand.1)]
          exact h.alerts hc _ reason
      · rw [if_neg hkey, if_neg (fun hand => hkey hand.1.symm)]
        exact h.alerts hc key reason

/-- An alert is due: the event executes a page, is not allowlisted, the page was written at most
the window before, and every alert for the page and the reason is at least the cooldown old. -/
def AlertDue (self : WxEngine) (log : List (Timed × Option WxAlert)) (e : Timed) : Prop :=
  ∃ t, self.access e.event = some t ∧ t.exec = true ∧
    self.isAllowed e.event (formatHex t.key.gpaPage) = false ∧
    (∃ n ∈ self.writeTimes t.key (log.map Prod.fst ++ [e]), e.now - n ≤ self.window) ∧
    ∀ n ∈ self.alertTimes t.key (cooldownReason e.event) log, self.cooldown ≤ e.now - n

theorem recent_iff {now : ℕ} {st : PageState} :
    self.recent now st = true ↔ ∃ w, st.lastWriteAt = some w ∧ now - w ≤ self.window := by
  rw [recent]
  rcases st.lastWriteAt with _ | w <;> simp

theorem not_suppressed_iff {now : ℕ} {reason : List Char} {st : PageState}
    (hc : self.cooldown ≠ 0) :
    (!self.suppressed now reason st) = true ↔
      ∀ a, st.lastAlertByReason reason = some a → self.cooldown ≤ now - a := by
  rw [suppressed]
  rcases st.lastAlertByReason reason with _ | a <;> simp [hc]

theorem Recorded.alert_iff (h : self.Recorded log u)
    (hle : ∀ e' ∈ log.map Prod.fst, e'.later ≤ e.now) :
    (self.onExitEventUnpruned u e).1.isSome = true ↔ self.AlertDue log e := by
  simp only [onExitEventUnpruned, onExitEventWith]
  rcases ht : self.touch e.event with _ | t
  · refine iff_of_false (fun hsome => by cases hsome) ?_
    rintro ⟨t, haccess, -, hallowed, -⟩
    rw [touch_eq_some.mpr ⟨haccess, hallowed⟩] at ht
    cases ht
  · obtain ⟨haccess, hallowed⟩ := touch_eq_some.mp ht
    have hcooldown : (!self.suppressed e.now (cooldownReason e.event)
        (WxEngine.note e.event t e.now (u.stateOf t.key))) = true ↔
          ∀ n ∈ self.alertTimes t.key (cooldownReason e.event) log,
            self.cooldown ≤ e.now - n := by
      by_cases hc : self.cooldown = 0
      · simp [suppressed, hc]
      · rw [not_suppressed_iff hc, note_lastAlertByReason]
        exact ((h.alerts hc t.key _).forall_old e.now self.cooldown).symm
    rw [judge_isSome, Bool.and_eq_true, Bool.and_eq_true, recent_iff, hcooldown,
      ← (h.note hle ht).exists_recent e.now self.window]
    constructor
    · rintro ⟨⟨hx, hw⟩, ha⟩
      exact ⟨t, haccess, hx, hallowed, hw, ha⟩
    · rintro ⟨t', haccess', hx, -, hw, ha⟩
      obtain rfl := Option.some.inj (haccess.symm.trans haccess')
      exact ⟨⟨hx, hw⟩, ha⟩

end

theorem recorded_run (hordered : Ordered stream) :
    self.Recorded (run self.onExitEventUnpruned .empty stream).1
      (run self.onExitEventUnpruned .empty stream).2 := by
  induction stream using List.reverseRecOn with
  | nil =>
    refine ⟨fun key => ?_, fun _ key reason => ?_⟩
    · exact Set.eq_empty_iff_forall_notMem.mpr (by rintro n ⟨e, hmem, -⟩; cases hmem)
    · exact Set.eq_empty_iff_forall_notMem.mpr (by rintro n ⟨e, hmem, -⟩; cases hmem)
  | append_singleton seen e ih =>
    rw [run_concat]
    refine (ih (pairwise_append.mp hordered).1).step ?_
    rw [run_log_fst]
    exact hordered.le_of_concat

/-- While no page written in the last window is pruned, the engine raises exactly the alerts of
the engine that never prunes, and these are the alerts that are due. -/
theorem alerts_exact (self : WxEngine) (stream : List Timed) (hordered : Ordered stream)
    (hactive : ∀ start, (self.activeKeys stream start).card ≤ self.maxPages)
    (hcool : self.cooldown ≤ self.window * 2)
    (hfresh : AllSteps self.KeepsFresh self.onExitEvent .empty stream) :
    (run self.onExitEvent .empty stream).1 = (run self.onExitEventUnpruned .empty stream).1 ∧
      ∀ before e after, stream = before ++ e :: after →
        ((self.onExitEvent (run self.onExitEvent .empty before).2 e).1.isSome = true ↔
          self.AlertDue (run self.onExitEvent .empty before).1 e) := by
  refine ⟨(simulates_run hordered hactive hcool (append_nil _).symm hfresh).1, ?_⟩
  intro before e after hstream
  have hsplit : stream = (before ++ [e]) ++ after := by rw [hstream, append_assoc]; rfl
  have hpart : Ordered (before ++ [e]) := (pairwise_append.mp (hsplit ▸ hordered)).1
  have hsteps := allSteps_iff.mp hfresh
  have hbefore : AllSteps self.KeepsFresh self.onExitEvent .empty before := by
    refine allSteps_iff.mpr fun front c back heq => hsteps front c (back ++ e :: after) ?_
    rw [hstream, heq, append_assoc, cons_append]
  obtain ⟨hlog, hsim⟩ := simulates_run hordered hactive hcool hstream hbefore
  have hmem : ∀ e' ∈ before ++ [e], e' ∈ stream := fun e' h => hsplit ▸ mem_append_left _ h
  have hrecorded : self.Recorded (run self.onExitEventUnpruned .empty before).1
      (run self.onExitEventUnpruned .empty before).2 :=
    recorded_run (pairwise_append.mp hpart).1
  rw [(hsim.step hmem hpart hactive hcool (hsteps before e after hstream)).1, hlog]
  refine hrecorded.alert_iff ?_
  rw [run_log_fst]
  exact hpart.le_of_concat

/-! Two streams of accesses to pages of one machine -/

/-- Two pages are tracked, the window is a second and the cooldown two. -/
def small : WxEngine where
  window := 1000
  cooldown := 2000
  maxPages := 2
  pageSize := 4096
  allow := []
  trapMode := .correlationOnly
  iterate := id
  iterate_perm := fun _ => .refl _

def accessAt (now : ℕ) (gpa : String) (write exec : Bool) : Timed where
  event :=
    { Event.base ⟨none, none, none, now, 0, []⟩ .exit .info [] "vm".toList with
      addr := some ⟨none, none, some gpa.toList, none⟩
      violation := some ⟨false, write, exec⟩ }
  now := now
  later := now
  now_le := le_rfl

/-- A page is written and executed after two others have been pruned. -/
def settled : List Timed :=
  [accessAt 0 "0x3000" true false, accessAt 0 "0x2000" true false,
    accessAt 10000 "0x1000" true false, accessAt 10500 "0x1000" false true]

theorem mem_activeKeys {start : ℕ} :
    key ∈ self.activeKeys stream start ↔
      ∃ e ∈ stream, (start ≤ e.now ∧ e.now ≤ start + self.window * 2) ∧
        key ∈ (self.touch e.event).map Touch.key := by
  simp only [activeKeys, mem_toFinset, mem_filterMap, Option.ite_none_right_eq_some, Option.mem_def]

/-- A stream whose later part uses few pages and whose first two windows use few is within the
limit. -/
theorem activeKeys_card_le {limit : ℕ} (hfirst : (self.activeKeys stream 0).card ≤ limit)
    (hlater : ((stream.filter fun e => decide (0 < e.now)).filterMap fun e =>
      (self.touch e.event).map Touch.key).toFinset.card ≤ limit) (start : ℕ) :
    (self.activeKeys stream start).card ≤ limit := by
  rcases Nat.eq_zero_or_pos start with rfl | hpos
  · exact hfirst
  · refine le_trans (Finset.card_le_card fun key hkey => ?_) hlater
    obtain ⟨e, hmem, ⟨hstart, -⟩, htouch⟩ := mem_activeKeys.mp hkey
    rw [mem_toFinset, mem_filterMap]
    refine ⟨e, mem_filter.mpr ⟨hmem, decide_eq_true (by omega)⟩, htouch⟩

instance (stream : List Timed) : Decidable (Ordered stream) :=
  inferInstanceAs (Decidable (List.Pairwise _ _))

theorem alerts_exact_settled :
    Ordered settled ∧ (run small.onExitEvent .empty settled).1 =
      (run small.onExitEventUnpruned .empty settled).1 := by
  have hordered : Ordered settled := by decide +kernel
  refine ⟨hordered, (alerts_exact small settled hordered ?_ (by decide) (by decide +kernel)).1⟩
  exact activeKeys_card_le (by decide +kernel) (by decide +kernel)

/-! A table that is full -/

theorem onExitEventUnpruned_of_touch {e : Timed}
    (ht : self.touch e.event = some t) : self.onExitEventUnpruned pages e =
      ((self.judge e.event t e.now (pages.stateOf t.key)).1, self.noted pages e t) := by
  simp only [onExitEventUnpruned, onExitEventWith, ht, noted]

theorem onExitEvent_of_touch {e : Timed}
    (ht : self.touch e.event = some t) : self.onExitEvent pages e =
      ((self.judge e.event t e.now (pages.stateOf t.key)).1,
        self.maybePrune e.later (self.noted pages e t)) := by
  simp only [onExitEvent, onExitEventWith, ht, noted]

theorem onExitEvent_of_room {e : Timed}
    (ht : self.touch e.event = some t) (hroom : (self.noted pages e t).size ≤ self.maxPages) :
    self.onExitEvent pages e = self.onExitEventUnpruned pages e := by
  rw [onExitEvent_of_touch ht, onExitEventUnpruned_of_touch ht, maybePrune, if_pos hroom]

theorem get_maybePrune_of_old {now : ℕ}
    (hmore : self.maxPages < pages.size) (hget : pages.get key = some st)
    (hold : self.usedLately now st = false) : (self.maybePrune now pages).get key = none := by
  have haged : (self.aged now pages).get key = none := by
    rw [aged, get_retain, hget, Option.filter_some, hold]
    rfl
  have hprune : self.maybePrune now pages = self.aged now pages ∨
      ∃ p, self.maybePrune now pages = (self.aged now pages).retain p := by
    simp only [maybePrune, if_neg (not_le.mpr hmore)]
    split
    · exact .inr ⟨_, rfl⟩
    · exact .inl rfl
  rcases hprune with heq | ⟨p, heq⟩
  · rw [heq, haged]
  · rw [heq, get_retain, haged]
    rfl

/-- The engine with the smallest table a loaded configuration gives it. -/
def least : WxEngine := { small with maxPages := 1024 }

/-- A write to the third page, in an address space of its own. -/
def crowdAccess (i : ℕ) : Timed where
  event := { (accessAt 0 "0x3000" true false).event with asid := some (Nat.toDigits 10 i) }
  now := 0
  later := 0
  now_le := le_rfl

def crowdKey (i : ℕ) : PageKey := ⟨"vm".toList, Nat.toDigits 10 i, 0x3000⟩

def crowd (n : ℕ) : List Timed := (List.range n).map crowdAccess

theorem touch_crowdAccess (i : ℕ) :
    least.touch (crowdAccess i).event = some ⟨crowdKey i, true, false, none⟩ :=
  rfl

theorem crowdKey_injective : Function.Injective crowdKey := by
  intro i j h
  have hdigits : Nat.toDigits 10 i = Nat.toDigits 10 j := (PageKey.mk.inj h).2.1
  have hi := digitsValue_toDigits (by decide : 1 < 10) (by decide) i
  rw [hdigits, digitsValue_toDigits (by decide) (by decide)] at hi
  exact (Option.some.inj hi).symm

/-- As long as there is room, a write to a new page of the crowd is entered at the end. -/
theorem run_crowd {n : ℕ} (hn : n ≤ least.maxPages) :
    run least.onExitEvent .empty (crowd n) = run least.onExitEventUnpruned .empty (crowd n) ∧
      (run least.onExitEventUnpruned .empty (crowd n)).2.keys = (List.range n).map crowdKey := by
  induction n with
  | zero => exact ⟨rfl, rfl⟩
  | succ n ih =>
    obtain ⟨hrun, hkeys⟩ := ih (by omega)
    have hcrowd : crowd (n + 1) = crowd n ++ [crowdAccess n] := by
      rw [crowd, range_succ, map_append]
      rfl
    have hnew : crowdKey n ∉ (run least.onExitEventUnpruned .empty (crowd n)).2.keys := by
      rw [hkeys, mem_map]
      rintro ⟨i, hi, heq⟩
      rw [crowdKey_injective heq, mem_range] at hi
      exact lt_irrefl n hi
    have hnoted : (least.noted (run least.onExitEventUnpruned .empty (crowd n)).2 (crowdAccess n)
        ⟨crowdKey n, true, false, none⟩).keys = (List.range (n + 1)).map crowdKey := by
      rw [noted, keys_put, if_neg hnew, hkeys, range_succ, map_append]
      rfl
    have hsize : (least.noted (run least.onExitEventUnpruned .empty (crowd n)).2 (crowdAccess n)
        ⟨crowdKey n, true, false, none⟩).size ≤ least.maxPages := by
      rw [size_eq_keys, hnoted, length_map, length_range]
      exact hn
    rw [hcrowd, run_concat, run_concat, hrun, onExitEvent_of_room (touch_crowdAccess n) hsize]
    refine ⟨rfl, ?_⟩
    exact hnoted

/-- The first page is executed beside the crowd, and written again ten windows later; then a
second page is written. -/
def lateWrites : List Timed :=
  [accessAt 0 "0x1000" false true, accessAt 10000 "0x1000" true false,
    accessAt 10001 "0x2000" true false]

def executed : Timed := accessAt 10002 "0x1000" false true

def firstKey : PageKey := ⟨"vm".toList, "global".toList, 0x1000⟩

def secondKey : PageKey := ⟨"vm".toList, "global".toList, 0x2000⟩

/-- The first page after its execution and its second write. -/
def rewrittenPage : PageState :=
  (least.judge (accessAt 10000 "0x1000" true false).event ⟨firstKey, true, false, none⟩ 10000
    (least.judge (accessAt 0 "0x1000" false true).event ⟨firstKey, false, true, none⟩ 0 {}).2).2

section

variable {n : ℕ} (hn : n + 1 = least.maxPages)

/-- The table of the crowd. -/
def crowdPages (n : ℕ) : Pages := (run least.onExitEventUnpruned .empty (crowd n)).2

def enteredOnce (n : ℕ) : Pages :=
  least.noted (crowdPages n) (accessAt 0 "0x1000" false true) ⟨firstKey, false, true, none⟩

def enteredTwice (n : ℕ) : Pages :=
  least.noted (enteredOnce n) (accessAt 10000 "0x1000" true false) ⟨firstKey, true, false, none⟩

def overfull (n : ℕ) : Pages :=
  least.noted (enteredTwice n) (accessAt 10001 "0x2000" true false) ⟨secondKey, true, false, none⟩

theorem run_unpruned_lateWrites :
    (run least.onExitEventUnpruned .empty (crowd n ++ lateWrites)).2 = overfull n := by
  rw [run_append]
  rfl

include hn

theorem keys_crowdPages : (crowdPages n).keys = (List.range n).map crowdKey :=
  (run_crowd (by omega)).2

theorem not_mem_crowdPages {key : PageKey} (h : key.gpaPage ≠ 0x3000) :
    key ∉ (crowdPages n).keys := by
  rw [keys_crowdPages hn, mem_map]
  rintro ⟨i, -, rfl⟩
  exact h rfl

theorem get_firstKey : (overfull n).get firstKey = some rewrittenPage := by
  have hnone : (crowdPages n).stateOf firstKey = {} := by
    have hget : (crowdPages n).get firstKey = none := by
      by_contra hsome
      obtain ⟨st, hst⟩ := Option.ne_none_iff_exists'.mp hsome
      exact not_mem_crowdPages hn (by decide) (mem_keys.mpr ⟨st, hst⟩)
    rw [Pages.stateOf, hget, Option.getD_none]
  have honce : (enteredOnce n).stateOf firstKey = (least.judge
      (accessAt 0 "0x1000" false true).event ⟨firstKey, false, true, none⟩ 0 {}).2 := by
    rw [enteredOnce, noted, Pages.stateOf_put, hnone]
    rfl
  rw [overfull, noted, get_put, enteredTwice, noted, get_put, honce]
  rfl

theorem keys_enteredOnce : (enteredOnce n).keys = (List.range n).map crowdKey ++ [firstKey] := by
  rw [enteredOnce, noted, keys_put, if_neg (not_mem_crowdPages hn (by decide)), keys_crowdPages hn]

theorem keys_enteredTwice : (enteredTwice n).keys = (List.range n).map crowdKey ++ [firstKey] := by
  have hmem : firstKey ∈ (enteredOnce n).keys := by
    rw [keys_enteredOnce hn]
    exact mem_append_right _ mem_cons_self
  rw [enteredTwice, noted, keys_put, if_pos hmem, keys_enteredOnce hn]

theorem size_overfull : least.maxPages < (overfull n).size := by
  have hnew : secondKey ∉ (enteredTwice n).keys := by
    rw [keys_enteredTwice hn, mem_append, ← keys_crowdPages hn, not_or]
    exact ⟨not_mem_crowdPages hn (by decide), by decide⟩
  rw [size_eq_keys, overfull, noted, keys_put, if_neg hnew, keys_enteredTwice hn]
  simp only [length_append, length_map, length_range, length_singleton]
  omega

theorem run_lateWrites : (run least.onExitEvent .empty (crowd n ++ lateWrites)).2 =
    least.maybePrune 10001 (overfull n) := by
  have hone : (enteredOnce n).size ≤ least.maxPages := by
    rw [size_eq_keys, keys_enteredOnce hn]
    simp [hn]
  have htwo : (enteredTwice n).size ≤ least.maxPages := by
    rw [size_eq_keys, keys_enteredTwice hn]
    simp [hn]
  have hstart : (run least.onExitEvent .empty (crowd n)).2 = crowdPages n := by
    rw [(run_crowd (by omega)).1, crowdPages]
  have hfirst : (least.onExitEvent (crowdPages n) (accessAt 0 "0x1000" false true)).2 =
      enteredOnce n := by
    rw [onExitEvent_of_room (t := ⟨firstKey, false, true, none⟩) rfl hone]
    rfl
  have hsecond : (least.onExitEvent (enteredOnce n) (accessAt 10000 "0x1000" true false)).2 =
      enteredTwice n := by
    rw [onExitEvent_of_room (t := ⟨firstKey, true, false, none⟩) rfl htwo]
    rfl
  rw [run_append, hstart, lateWrites, run_cons, run_cons, hfirst, hsecond]
  rfl

theorem executed_not_alerted : (least.onExitEvent
    (run least.onExitEvent .empty (crowd n ++ lateWrites)).2 executed).1.isSome = false := by
  have hgone : (least.maybePrune 10001 (overfull n)).stateOf firstKey = {} := by
    rw [Pages.stateOf, get_maybePrune_of_old (size_overfull hn) (get_firstKey hn) (by decide),
      Option.getD_none]
  rw [run_lateWrites hn, onExitEvent_of_touch (t := ⟨firstKey, false, true, none⟩) rfl, hgone]
  rfl

theorem executed_due : (least.onExitEventUnpruned
    (run least.onExitEventUnpruned .empty (crowd n ++ lateWrites)).2 executed).1.isSome = true := by
  have hstate : (overfull n).stateOf firstKey = rewrittenPage := by
    rw [Pages.stateOf, get_firstKey hn, Option.getD_some]
  have hraised : (least.judge executed.event ⟨firstKey, false, true, none⟩ executed.now
      rewrittenPage).1.isSome = true := by
    decide +kernel
  rw [run_unpruned_lateWrites, onExitEventUnpruned_of_touch (t := ⟨firstKey, false, true, none⟩) rfl,
    hstate]
  exact hraised

theorem active_crowded (start : ℕ) :
    (least.activeKeys (crowd n ++ lateWrites ++ [executed]) start).card ≤ least.maxPages := by
  rw [← hn]
  refine activeKeys_card_le ?_ ?_ start
  · rw [activeKeys, append_assoc, filterMap_append]
    refine le_trans (toFinset_card_le _) ?_
    rw [length_append]
    refine Nat.add_le_add (le_trans (length_filterMap_le _ _) ?_) (by decide +kernel)
    rw [crowd, length_map, length_range]
  · have hnone : (crowd n).filter (fun e => decide (0 < e.now)) = [] := by
      rw [filter_eq_nil_iff]
      intro e he
      obtain ⟨i, -, rfl⟩ := mem_map.mp he
      exact fun h => lt_irrefl 0 (of_decide_eq_true h)
    rw [append_assoc, filter_append, hnone]
    refine le_trans (?_ : _ ≤ 2) (by rw [hn]; decide)
    decide +kernel

end

theorem ordered_crowded (n : ℕ) : Ordered (crowd n ++ lateWrites ++ [executed]) := by
  rw [append_assoc]
  refine pairwise_append.mpr ⟨?_, by decide, ?_⟩
  · rw [crowd, pairwise_map]
    exact pairwise_of_forall fun _ _ => le_rfl
  · intro e he e' _
    obtain ⟨i, -, rfl⟩ := mem_map.mp he
    exact Nat.zero_le _

/-- The page that was executed long ago is pruned although it has just been written, and its
execution right after raises no alert. -/
theorem recent_write_pruned :
    Ordered (crowd 1023 ++ lateWrites ++ [executed]) ∧
      (∀ start, (least.activeKeys (crowd 1023 ++ lateWrites ++ [executed]) start).card ≤
        least.maxPages) ∧
      least.cooldown ≤ least.window * 2 ∧
      (least.onExitEvent (run least.onExitEvent .empty (crowd 1023 ++ lateWrites)).2
        executed).1.isSome = false ∧
      (least.onExitEventUnpruned (run least.onExitEventUnpruned .empty
        (crowd 1023 ++ lateWrites)).2 executed).1.isSome = true :=
  ⟨ordered_crowded 1023, active_crowded rfl, by decide, executed_not_alerted rfl, executed_due rfl⟩

end WxEngine

end AegisHV.Wx
