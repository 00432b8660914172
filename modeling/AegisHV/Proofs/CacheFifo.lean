import AegisHV.Proofs.VmiCache

/-! The translation cache is a bounded map with first-in first-out eviction. Its entries stand in
the order of the calls that inserted their keys, so the oldest is in front. -/

namespace AegisHV.Vmi.Cache

open Sys TranslationCache List

variable {key : TranslationCacheKey} {value : TranslationCacheValue} {held : Held} {now : ℕ}
  {entries : List TranslationCacheEntry} {stamped : List (ℕ × TranslationCacheEntry)}

/-- The entries, with the number of the call that inserted the key of each. -/
structure Holds (entries : List TranslationCacheEntry) (held : Held) (now : ℕ)
    (stamped : List (ℕ × TranslationCacheEntry)) : Prop where
  entries : stamped.map Prod.snd = entries
  keys : (stamped.map (·.2.key)).Nodup
  order : stamped.Pairwise fun a b => a.1 < b.1
  old : ∀ e ∈ stamped, e.1 < now
  held : ∀ k n v, held k = some (n, v) ↔ (n, ⟨k, v⟩) ∈ stamped

theorem holds_nil : Holds [] (fun _ => none) 0 [] :=
  ⟨rfl, nodup_nil, .nil, by simp, by simp⟩

theorem Holds.get (h : Holds entries held now stamped) {e : ℕ × TranslationCacheEntry}
    (he : e ∈ stamped) : held e.2.key = some (e.1, e.2.value) := (h.held _ _ _).2 he

theorem Holds.none_iff (h : Holds entries held now stamped) (k : TranslationCacheKey) :
    held k = none ↔ ∀ e ∈ stamped, e.2.key ≠ k := by
  constructor
  · rintro hnone e he rfl
    rw [h.get he] at hnone
    cases hnone
  · intro hall
    by_contra hsome
    obtain ⟨⟨n, v⟩, hget⟩ := Option.ne_none_iff_exists'.1 hsome
    exact hall _ ((h.held k n v).1 hget) rfl

theorem Holds.lookup (h : Holds entries held now stamped) (capacity : ℕ) :
    lookup ⟨capacity, entries⟩ key = (held key).map Prod.snd := by
  rw [TranslationCache.lookup, ← h.entries]
  cases hfind : (stamped.map Prod.snd).find? (fun entry => decide (entry.key = key)) with
  | none =>
    have hnone : held key = none := (h.none_iff key).2 fun e he => by
      simpa using find?_eq_none.1 hfind e.2 (mem_map_of_mem he)
    rw [hnone]
    rfl
  | some entry =>
    obtain ⟨e, he, rfl⟩ := mem_map.1 (mem_of_find?_eq_some hfind)
    have hkey : e.2.key = key := by simpa using find?_some hfind
    rw [← hkey, h.get he]
    rfl

/-- How many keys are held in a part of the keys. -/
theorem Holds.ncard (h : Holds entries held now stamped) (p : TranslationCacheKey → Bool) :
    { k ∈ held.keys | p k }.ncard = (stamped.filter fun e => p e.2.key).length := by
  have hset : { k ∈ held.keys | p k } =
      ↑((stamped.filter fun e => p e.2.key).map (·.2.key)).toFinset := by
    ext k
    have hnone := not_congr (h.none_iff k)
    push Not at hnone
    simp only [Held.keys, Set.mem_ofPred_eq, ne_eq, hnone, coe_toFinset, mem_map, mem_filter]
    constructor
    · rintro ⟨⟨e, he, rfl⟩, hp⟩
      exact ⟨e, ⟨he, hp⟩, rfl⟩
    · rintro ⟨e, ⟨he, hp⟩, rfl⟩
      exact ⟨⟨e, he, rfl⟩, hp⟩
  rw [hset, Set.ncard_coe_finset, toFinset_card_of_nodup, length_map]
  exact h.keys.sublist (filter_sublist.map _)

theorem Holds.ncard_keys (h : Holds entries held now stamped) :
    held.keys.ncard = stamped.length := by
  have hall := h.ncard fun _ => true
  simpa using hall

theorem Holds.push (h : Holds entries held now stamped) (hnew : held key = none) :
    Holds (entries ++ [⟨key, value⟩]) (Function.update held key (some (now, value))) (now + 1)
      (stamped ++ [(now, ⟨key, value⟩)]) := by
  have habsent := (h.none_iff key).1 hnew
  refine ⟨by simp [h.entries], ?_, ?_, ?_, fun k n v => ?_⟩
  · rw [map_append, nodup_append]
    refine ⟨h.keys, nodup_singleton _, fun a ha b hb => ?_⟩
    obtain ⟨e, he, rfl⟩ := mem_map.1 ha
    rw [mem_singleton.1 hb]
    exact habsent e he
  · exact pairwise_concat h.order h.old
  · exact forall_mem_concat (fun e he => Nat.lt_succ_of_lt (h.old e he)) (Nat.lt_succ_self now)
  · rw [Function.update_apply, mem_append, ← h.held k n v]
    by_cases hk : k = key
    · subst hk
      rw [hnew]
      simp [eq_comm]
    · simp [hk]

/-- The entry in front leaves. -/
theorem Holds.tail {e : ℕ × TranslationCacheEntry} (h : Holds entries held now (e :: stamped)) :
    Holds (entries.drop 1) (Function.update held e.2.key none) now stamped := by
  obtain ⟨hnot, hkeys⟩ := nodup_cons.1 h.keys
  refine ⟨by simp [← h.entries], hkeys, (pairwise_cons.1 h.order).2,
    fun e' he => h.old e' (mem_cons_of_mem e he), fun k n v => ?_⟩
  rw [Function.update_apply]
  by_cases hk : k = e.2.key
  · rw [if_pos hk]
    exact iff_of_false (by simp) fun hmem => hnot (mem_map.2 ⟨_, hmem, hk⟩)
  · rw [if_neg hk, h.held, mem_cons, or_iff_right]
    rintro rfl
    exact hk rfl

/-- The entry with the new value if it is the key's. -/
def revalue (key : TranslationCacheKey) (value : TranslationCacheValue)
    (entry : TranslationCacheEntry) : TranslationCacheEntry :=
  if entry.key = key then { entry with value } else entry

theorem revalue_key (entry : TranslationCacheEntry) : (revalue key value entry).key = entry.key := by
  unfold revalue
  split_ifs <;> rfl

theorem replaceFirst_eq_map (h : (entries.map (·.key)).Nodup) :
    replaceFirst key value entries = entries.map (revalue key value) := by
  induction entries with
  | nil => rfl
  | cons entry entries ih =>
    obtain ⟨hnot, hnodup⟩ := nodup_cons.1 h
    rw [replaceFirst, map_cons, revalue]
    split_ifs with hkey
    · have hrest : entries.map (revalue key value) = entries.map id := by
        refine map_congr_left fun other hother => if_neg fun heq => hnot ?_
        exact mem_map.2 ⟨other, hother, heq.trans hkey.symm⟩
      rw [hrest, map_id]
    · rw [ih hnodup]

theorem Holds.replace {since : ℕ} {old : TranslationCacheValue} (value : TranslationCacheValue)
    (h : Holds entries held now stamped) (hget : held key = some (since, old)) :
    Holds (replaceFirst key value entries) (Function.update held key (some (since, value))) (now + 1)
      (stamped.map fun e => (e.1, revalue key value e.2)) := by
  refine ⟨?_, ?_, pairwise_map.2 h.order, ?_, fun k n v => ?_⟩
  · rw [replaceFirst_eq_map, ← h.entries, map_map, map_map]
    · rfl
    · rw [← h.entries, map_map]
      exact h.keys
  · rw [map_map]
    simpa only [Function.comp_def, revalue_key] using h.keys
  · intro e he
    obtain ⟨e', he', rfl⟩ := mem_map.1 he
    exact Nat.lt_succ_of_lt (h.old e' he')
  · have hmem : (n, (⟨k, v⟩ : TranslationCacheEntry)) ∈
        stamped.map (fun e => (e.1, revalue key value e.2)) ↔
        ∃ w, held k = some (n, w) ∧ revalue key value ⟨k, w⟩ = ⟨k, v⟩ := by
      rw [mem_map]
      constructor
      · rintro ⟨⟨n', entry⟩, he, heq⟩
        rw [Prod.mk.injEq] at heq
        obtain ⟨rfl, heq⟩ := heq
        obtain rfl : entry.key = k :=
          (revalue_key entry).symm.trans (congrArg TranslationCacheEntry.key heq)
        exact ⟨entry.value, h.get he, heq⟩
      · rintro ⟨w, hw, heq⟩
        exact ⟨_, (h.held _ _ _).1 hw, by rw [heq]⟩
    rw [hmem]
    by_cases hk : k = key
    · subst hk
      simp [revalue, hget]
    · simp [revalue, hk]

theorem Holds.filter (h : Holds entries held now stamped) (scope : TranslationCacheKey → Bool) :
    Holds (entries.filter fun entry => !scope entry.key)
      (fun k => if scope k then none else held k) (now + 1)
      (stamped.filter fun e => !scope e.2.key) := by
  refine ⟨?_, h.keys.sublist (filter_sublist.map _), h.order.sublist filter_sublist,
    fun e he => Nat.lt_succ_of_lt (h.old e (mem_filter.1 he).1), fun k n v => ?_⟩
  · rw [← h.entries, filter_map]
    rfl
  · rw [mem_filter, ← h.held]
    cases scope k <;> simp

theorem Holds.later (h : Holds entries held now stamped) : Holds entries held (now + 1) stamped :=
  ⟨h.entries, h.keys, h.order, fun e he => Nat.lt_succ_of_lt (h.old e he), h.held⟩

variable {cache : TranslationCache}

/-- The cache stands for what is held, within its capacity. -/
def Stands (cache : TranslationCache) (held : Held) (now : ℕ) : Prop :=
  (∃ stamped, Holds cache.entries held now stamped) ∧ 0 < cache.maxEntries ∧
    cache.entries.length ≤ cache.maxEntries

theorem Stands.later (h : Stands cache held now) : Stands cache held (now + 1) := by
  obtain ⟨⟨stamped, hs⟩, hle⟩ := h
  exact ⟨⟨stamped, hs.later⟩, hle⟩

theorem Stands.insert (h : Stands cache held now) (key : TranslationCacheKey)
    (value : TranslationCacheValue) :
    ∃ held', held.Insert cache.maxEntries now key value held' ∧
      Stands (cache.insert key value) held' (now + 1) := by
  obtain ⟨⟨stamped, hs⟩, hpos, hle⟩ := h
  have hlen : stamped.length = cache.entries.length := by rw [← hs.entries, length_map]
  have hcard := hs.ncard_keys
  cases hget : held key with
  | some found =>
    have hany : cache.entries.any (fun entry => decide (entry.key = key)) = true := by
      rw [← hs.entries, any_map, any_eq_true]
      exact ⟨_, (hs.held _ _ _).1 hget, by simp⟩
    have hnew := hs.replace value hget
    refine ⟨_, .again hget, ⟨_, by rw [TranslationCache.insert, if_pos hany]; exact hnew⟩, ?_, ?_⟩
    · rwa [TranslationCache.insert, if_pos hany]
    · rw [TranslationCache.insert, if_pos hany, ← hnew.entries, length_map, length_map]
      exact hlen.trans_le hle
  | none =>
    have hany : ¬ cache.entries.any (fun entry => decide (entry.key = key)) = true := by
      rw [← hs.entries, any_map, any_eq_true]
      rintro ⟨e, he, hkey⟩
      exact (hs.none_iff key).1 hget e he (by simpa using hkey)
    rw [TranslationCache.insert, if_neg hany]
    by_cases hfull : cache.entries.length = cache.maxEntries
    · obtain ⟨e, rest, rfl⟩ := exists_cons_of_length_pos (by omega : 0 < stamped.length)
      have hother : key ≠ e.2.key := fun heq => (hs.none_iff key).1 hget e (by simp) heq.symm
      refine ⟨_, .evict hget (by omega) (hs.get mem_cons_self) ?_,
        ⟨rest ++ [(now, ⟨key, value⟩)], ?_⟩, hpos, ?_⟩
      · intro k n v hk
        rcases mem_cons.1 ((hs.held k n v).1 hk) with heq | hmem
        · rw [← heq]
        · exact ((pairwise_cons.1 hs.order).1 _ hmem).le
      · rw [if_pos hfull]
        exact hs.tail.push (by rw [Function.update_of_ne hother, hget])
      · rw [if_pos hfull]
        simp only [length_append, length_drop, length_singleton]
        omega
    · refine ⟨_, .room hget (by omega), ⟨stamped ++ [(now, ⟨key, value⟩)], ?_⟩, hpos, ?_⟩
      · rw [if_neg hfull]
        exact hs.push hget
      · rw [if_neg hfull]
        simp only [length_append, length_singleton]
        omega

/-- Every invalidation drops what is in its scope. -/
theorem cacheStep_scope {c : CacheCall} {scope : TranslationCacheKey → Bool}
    (hc : c.scope = some scope) : cacheStep cache c =
      (cache.retainCount fun entry => !scope entry.key).map .dropped id := by
  cases c with
  | insert | insertTranslationResult | lookup => cases hc
  | flush =>
    cases hc
    simp [cacheStep, flush, retainCount]
  | _ =>
    cases hc
    simp [cacheStep, invalidateVmid, invalidateRoot, invalidateCr3, invalidateAsid]

theorem Stands.invalidate (h : Stands cache held now) {c : CacheCall}
    {scope : TranslationCacheKey → Bool} (hc : c.scope = some scope) :
    held.Step cache.maxEntries now c (cacheStep cache c).1
        (fun key => if scope key then none else held key) ∧
      Stands (cacheStep cache c).2 (fun key => if scope key then none else held key) (now + 1) := by
  obtain ⟨⟨stamped, hs⟩, hpos, hle⟩ := h
  have hcount : cache.entries.length - (cache.entries.filter fun e => !scope e.key).length =
      { key ∈ held.keys | scope key }.ncard := by
    rw [hs.ncard, ← hs.entries, length_map, filter_map, length_map]
    have hsum := length_eq_length_filter_add (l := stamped) fun e => scope e.2.key
    exact Nat.sub_eq_of_eq_add hsum
  rw [cacheStep_scope hc, retainCount]
  refine ⟨?_, ⟨_, hs.filter scope⟩, hpos, (length_filter_le _ _).trans hle⟩
  simpa only [Prod.map, hcount] using Held.Step.invalidated hc

theorem Stands.step (h : Stands cache held now) (c : CacheCall) :
    ∃ held', held.Step cache.maxEntries now c (cacheStep cache c).1 held' ∧
      Stands (cacheStep cache c).2 held' (now + 1) := by
  cases c with
  | insert key value =>
    obtain ⟨held', hinsert, hstands⟩ := h.insert key value
    exact ⟨held', .inserted rfl hinsert, hstands⟩
  | insertTranslationResult key result =>
    rw [cacheStep]
    rcases insertTranslationResult_cases key result cache with
      ⟨e, hrun, hnone⟩ | ⟨r, value, rfl, hsize, hvalue, hrun⟩
    · rw [Op.reply_error hrun]
      exact ⟨held, .refused hnone, h.later⟩
    · rw [Op.reply_ok hrun]
      obtain ⟨held', hinsert, hstands⟩ := h.insert key value
      refine ⟨held', .inserted ?_ hinsert, hstands⟩
      simp [CacheCall.insertion, hsize, hvalue, Except.toOption]
  | lookup key =>
    obtain ⟨stamped, hs⟩ := h.1
    refine ⟨held, ?_, h.later⟩
    rw [cacheStep, hs.lookup cache.maxEntries]
    exact .found
  | _ => exact ⟨_, h.invalidate rfl⟩

theorem maxEntries_cacheStep (cache : TranslationCache) (c : CacheCall) :
    (cacheStep cache c).2.maxEntries = cache.maxEntries := by
  have hinsert : ∀ key value, (cache.insert key value).maxEntries = cache.maxEntries := by
    intro key value
    unfold TranslationCache.insert
    split_ifs <;> rfl
  cases c with
  | insert key value => exact hinsert key value
  | insertTranslationResult key result =>
    rw [cacheStep]
    rcases insertTranslationResult_cases key result cache with
      ⟨e, hrun, -⟩ | ⟨r, value, -, -, -, hrun⟩
    · rw [Op.reply_error hrun]
    · rw [Op.reply_ok hrun, hinsert]
  | _ => rfl

/-- In every run the cache is the map of the abstract model: each reply is one that the map gives,
the keys are distinct and within the capacity, and a key is looked up as it is held. -/
theorem cache_is_fifo_map {capacity : ℕ} {cache : TranslationCache}
    (hmake : TranslationCache.make capacity = .ok cache) (calls : List CacheCall) :
    let after := (run cacheStep cache calls).2
    (after.entries.map (·.key)).Nodup ∧ after.entries.length ≤ capacity ∧
      ∃ held, Held.After capacity (run cacheStep cache calls).1 held ∧
        ∀ key, after.lookup key = (held key).map Prod.snd := by
  obtain ⟨_, hpos, hcache⟩ := except_bind_ok.1 hmake
  have hcache := Except.ok.inj hcache
  subst hcache
  have hstart : Stands ⟨capacity, []⟩ (fun _ => none) 0 :=
    ⟨⟨_, holds_nil⟩, Nat.pos_of_ne_zero (by simpa using hpos), Nat.zero_le _⟩
  have hinv := @run_inv _ _ _ cacheStep _
    (fun log after => ∃ held, Held.After capacity log held ∧ after.maxEntries = capacity ∧
      Stands after held log.length) ⟨_, .start, rfl, hstart⟩ (fun log after c hlog => by
      obtain ⟨held, hafter, hmax, hstands⟩ := hlog
      obtain ⟨held', hstep, hstands'⟩ := hstands.step c
      rw [hmax] at hstep
      refine ⟨held', .step hafter hstep, ?_, by simpa using hstands'⟩
      rw [maxEntries_cacheStep, hmax]) calls
  obtain ⟨held, hafter, hmax, ⟨stamped, hs⟩, -, hle⟩ := hinv
  refine ⟨?_, hle.trans hmax.le, held, hafter, fun key => hs.lookup _⟩
  rw [← hs.entries, map_map]
  exact hs.keys

def smallKey (page : ℕ) : TranslationCacheKey :=
  ⟨1, .x86_64FourLevel, .x86Cr3 0x1000, page, 0x1000, ⟨false, false, false⟩⟩

def smallValue (page : ℕ) : TranslationCacheValue := ⟨page, 0x1000, true, false, false, false⟩

/-- The second insertion of a key does not make it younger. -/
theorem cache_is_fifo_map_two_entries :
    ((run cacheStep ⟨2, []⟩ [.insert (smallKey 1) (smallValue 1), .insert (smallKey 2) (smallValue 2),
      .insert (smallKey 1) (smallValue 3), .insert (smallKey 4) (smallValue 4)]).2.entries.map
        (·.key)) = [smallKey 2, smallKey 4] ∧
    ((run cacheStep ⟨2, []⟩ [.insert (smallKey 1) (smallValue 1), .insert (smallKey 2) (smallValue 2),
      .insert (smallKey 1) (smallValue 3), .insert (smallKey 4) (smallValue 4)]).2.entries.map
        (·.key)).Nodup :=
  ⟨by decide, (cache_is_fifo_map (show TranslationCache.make 2 = .ok ⟨2, []⟩ from rfl) _).1⟩

end AegisHV.Vmi.Cache
