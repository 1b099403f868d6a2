-- SUMMARY: Which interleavings of the answer cache lose a live entry.
import TrueHack.Chain.CacheSections

/-!
# Live entries

A pending delete carries no record of what was stored when its `Get` read. What
is stored under its key later is either still expired or was written since. So
the delete is harmless exactly when everything written since has itself expired.
-/

namespace Chain

open SharedObject

variable {V : Type} {ttl start now : ℤ} {calls : ℕ → CacheOp V} {c c' s t : CacheConfig V}
  {i : ℕ} {e : ℕ × ℤ} {es past : List (ℕ × ℤ)}

/-- The calls of a run in the order of their sections. For a `Set` that is the order
    in which the values were written. -/
def sectionCalls (calls : ℕ → CacheOp V) (es : List (ℕ × ℤ)) : List (CacheOp V × ℤ) :=
  es.map fun e => (calls e.1, e.2)

/-- The step removes no entry that is still live at its clock reading. -/
def KeepsLive (_ : List (ℕ × ℤ)) (s : CacheConfig V) (e : ℕ × ℤ) (t : CacheConfig V) : Prop :=
  ∀ k entry, s.shared.cache.stored k = some entry → e.2 ≤ entry.expiresAt →
    (t.shared.cache.stored k).isSome

/-- If the step is the read section of a `Get` that comes before the latest value of
    its key expires, the `Get` returns that value. -/
def FindsLatest (ttl : ℤ) (calls : ℕ → CacheOp V) (past : List (ℕ × ℤ)) (s : CacheConfig V)
    (e : ℕ × ℤ) (t : CacheConfig V) : Prop :=
  ∀ key value setAt, calls e.1 = .get key → s.thread e.1 = .fresh →
    latestSet key.string (sectionCalls calls past) = some (value, setAt) → e.2 ≤ setAt + ttl →
    t.replies = s.replies ++ [(e.1, some value)]

/-- The sections since call `i` last ran. -/
def since (i : ℕ) (past : List (ℕ × ℤ)) : List (ℕ × ℤ) := past.takeWhile fun e => e.1 ≠ i

/-- If the step is the delete section of a `Get`, every `Set` of the same text since the
    read section has expired by now. -/
def DeletesStale (ttl : ℤ) (calls : ℕ → CacheOp V) (past : List (ℕ × ℤ)) (s : CacheConfig V)
    (e : ℕ × ℤ) (_ : CacheConfig V) : Prop :=
  ∀ key, calls e.1 = .get key → s.thread e.1 ≠ .fresh →
    ∀ set ∈ since e.1 past, ∀ key' value, calls set.1 = .set key' value →
      key'.string = key.string → set.2 + ttl < e.2

/-! ## What is stored under a pending key -/

/-- The entry was written by one of the sections `es`. -/
def WrittenBy (ttl : ℤ) (calls : ℕ → CacheOp V) (es : List (ℕ × ℤ)) (k : String)
    (entry : CacheEntry V) : Prop :=
  ∃ set ∈ es, ∃ key value, calls set.1 = .set key value ∧ key.string = k ∧
    entry.expiresAt = set.2 + ttl

/-- Under the key of a pending delete there is only what had expired or came since. -/
def StaleOrSince (ttl : ℤ) (calls : ℕ → CacheOp V) (past : List (ℕ × ℤ))
    (c : CacheConfig V) : Prop :=
  ∀ i key entry, c.thread i = .running (getExpired key) →
    c.shared.cache.stored key.string = some entry →
    entry.expiresAt < c.shared.clock ∨ WrittenBy ttl calls (since i past) key.string entry

theorem WrittenBy.mono {es' : List (ℕ × ℤ)} {k : String} {entry : CacheEntry V}
    (h : WrittenBy ttl calls es k entry) (hsub : es ⊆ es') : WrittenBy ttl calls es' k entry := by
  obtain ⟨set, hset, hwritten⟩ := h
  exact ⟨set, hsub hset, hwritten⟩

/-- What a section stores was stored before, or is what it writes. -/
theorem Locks.stored (h : Locks calls i now c c') (httl : c.shared.cache.ttl = ttl) {k : String}
    {entry : CacheEntry V} (hstored : c'.shared.cache.stored k = some entry) :
    c.shared.cache.stored k = some entry ∨ WrittenBy ttl calls [(i, now)] k entry := by
  cases h with
  | missing => exact .inl (by simpa [CacheConfig.withCache] using hstored)
  | expired => exact .inl (by simpa [CacheConfig.withCache] using hstored)
  | live => exact .inl (by simpa [CacheConfig.withCache] using hstored)
  | @delete key =>
      simp only [Config.settle_shared, CacheConfig.withCache, Cache.stored_getDelete] at hstored
      by_cases hk : k = key.string
      · subst hk
        simp at hstored
      · exact .inl (by simpa [Function.update_of_ne hk] using hstored)
  | @set key value _ hcall =>
      simp only [Config.settle_shared, CacheConfig.withCache, Cache.stored_set] at hstored
      by_cases hk : k = key.string
      · subst hk
        simp only [Function.update_self, Option.some.injEq] at hstored
        subst hstored
        exact .inr ⟨(i, now), by simp, key, value, hcall, rfl, by rw [httl]⟩
      · exact .inl (by simpa [Function.update_of_ne hk] using hstored)
  | cleanup =>
      simp only [Config.settle_shared, CacheConfig.withCache, Cache.stored_cleanup] at hstored
      exact .inl (Expiry.live_eq_some.mp hstored).1

theorem Locks.clock (h : Locks calls i now c c') : c'.shared.clock = now := by
  cases h <;> simp [CacheConfig.withCache]

theorem Locks.ttl_eq (h : Locks calls i now c c') :
    c'.shared.cache.ttl = c.shared.cache.ttl := by
  cases h <;> simp [CacheConfig.withCache]

theorem ttl_eq (h : (cacheThreads ttl start calls).Run es c) : c.shared.cache.ttl = ttl := by
  refine h.invariant (I := fun _ c => c.shared.cache.ttl = ttl) rfl ?_
  intro es c e c' hrun ih hstep
  exact (locks hrun hstep).1.ttl_eq.trans ih

theorem staleOrSince (h : (cacheThreads ttl start calls).Run es c) :
    StaleOrSince ttl calls es c := by
  refine h.invariant (I := StaleOrSince ttl calls) ?_ ?_
  · intro i key entry hthread
    cases hthread
  · intro es c e c' hrun ih hstep j key entry hthread hstored
    obtain ⟨i, now⟩ := e
    obtain ⟨hlocks, hclock⟩ := locks hrun hstep
    rw [hlocks.clock]
    by_cases hij : j = i
    · subst hij
      -- only the read section that found the entry expired leaves its call running
      cases hlocks with
      | missing => simp at hthread
      | @expired key' entry' _ _ hstored' hexpired =>
          have hkey := Thread.running.inj (Config.settle_op_thread_self.symm.trans hthread)
          obtain rfl : key' = key := (LockedSection.getDelete.inj (Prog.op.inj hkey).1)
          rw [Config.settle_shared] at hstored
          obtain rfl := Option.some.inj (hstored'.symm.trans hstored)
          exact .inl hexpired
      | live => simp at hthread
      | delete => simp at hthread
      | set => simp at hthread
      | cleanup => simp at hthread
    · have hthread' := (step_thread_ne hstep hij).symm.trans hthread
      have hsince : since j ((i, now) :: es) = (i, now) :: since j es := by
        simp [since, Ne.symm hij]
      rw [hsince]
      rcases hlocks.stored (ttl_eq hrun) hstored with hold | hnew
      · rcases ih j key entry hthread' hold with hstale | hwritten
        · exact .inl (lt_of_lt_of_le hstale hclock)
        · exact .inr (hwritten.mono (List.subset_cons_self _ _))
      · exact .inr (hnew.mono (by simp))

/-! ## Stale deletes lose nothing live -/

/-- A step loses a live entry only if it is the delete section of a `Get` of its key. -/
theorem Locks.keepsLive (h : Locks calls i now c c')
    (hdelete : ∀ key entry, calls i = .get key → c.thread i = .running (getExpired key) →
      c.shared.cache.stored key.string = some entry → entry.expiresAt < now) :
    KeepsLive past c (i, now) c' := by
  intro k entry hstored hlive
  cases h with
  | missing => simp [CacheConfig.withCache, hstored]
  | expired => simp [CacheConfig.withCache, hstored]
  | live => simp [CacheConfig.withCache, hstored]
  | @delete key hpending hcall =>
      have hk : k ≠ key.string := by
        rintro rfl
        exact absurd hlive (not_le.mpr (hdelete key entry hcall hpending hstored))
      simp [CacheConfig.withCache, Cache.stored_getDelete, Function.update_of_ne hk, hstored]
  | @set key value =>
      simp only [Config.settle_shared, CacheConfig.withCache, Cache.stored_set]
      by_cases hk : k = key.string
      · simp [hk]
      · simp [Function.update_of_ne hk, hstored]
  | cleanup =>
      simp [CacheConfig.withCache, Cache.stored_cleanup, hstored, Expiry.live_some, hlive]

theorem keepsLive_of_deletesStale (hrun : (cacheThreads ttl start calls).Run past s)
    (hstep : (cacheThreads ttl start calls).step s e = some t)
    (h : DeletesStale ttl calls past s e t) : KeepsLive past s e t := by
  obtain ⟨i, now⟩ := e
  obtain ⟨hlocks, hclock⟩ := locks hrun hstep
  refine hlocks.keepsLive fun key entry hcall hthread hstored => ?_
  rcases staleOrSince hrun i key entry hthread hstored with hstale | hwritten
  · exact lt_of_lt_of_le hstale hclock
  · obtain ⟨set, hset, key', value, hcall', hkey, hexpires⟩ := hwritten
    have hstale := h key hcall (by simp [hthread]) set hset key' value hcall' hkey
    rwa [hexpires]

/-! ## Runs that lose nothing live -/

/-- Only a `Set` changes what was set last. -/
theorem latestSet_of_ne_set {k : String} (h : ∀ key value, calls i ≠ .set key value) :
    latestSet k (sectionCalls calls ((i, now) :: es)) = latestSet k (sectionCalls calls es) := by
  cases hcall : calls i with
  | get key => simp [sectionCalls, latestSet, hcall]
  | set key value => exact absurd hcall (h key value)
  | cleanup => simp [sectionCalls, latestSet, hcall]

/-- A step that keeps what is live keeps the agreement with the ideal map. -/
theorem Locks.agrees (h : Locks calls i now c c') (httl : c.shared.cache.ttl = ttl)
    (hkeeps : KeepsLive past c (i, now) c')
    (hagrees : Expiry.Agrees CacheEntry.expiresAt now c.shared.cache.stored
      (latestEntries ttl (sectionCalls calls past))) :
    Expiry.Agrees CacheEntry.expiresAt now c'.shared.cache.stored
      (latestEntries ttl (sectionCalls calls ((i, now) :: past))) := by
  have hsame (hcall : ∀ key value, calls i ≠ .set key value) :
      latestEntries ttl (sectionCalls calls ((i, now) :: past)) =
        latestEntries ttl (sectionCalls calls past) := by
    funext k
    rw [latestEntries, latestEntries, latestSet_of_ne_set hcall]
  cases h with
  | missing _ hcall => simpa [CacheConfig.withCache, hsame (by simp [hcall])] using hagrees
  | expired _ hcall => simpa [CacheConfig.withCache, hsame (by simp [hcall])] using hagrees
  | live _ hcall => simpa [CacheConfig.withCache, hsame (by simp [hcall])] using hagrees
  | @delete key _ hcall =>
      rw [hsame (by simp [hcall])]
      refine Expiry.Agrees.trans (fun k => ?_) hagrees
      simp only [KeepsLive, Config.settle_shared, CacheConfig.withCache,
        Cache.stored_getDelete] at hkeeps ⊢
      by_cases hk : k = key.string
      · subst hk
        refine .inr ⟨Function.update_self _ _ _, fun entry hstored => ?_⟩
        by_contra hlive
        have hkept := hkeeps key.string entry hstored (not_lt.mp hlive)
        simp at hkept
      · exact .inl (Function.update_of_ne hk _ _)
  | @set key value _ hcall =>
      have hset : latestEntries ttl (sectionCalls calls ((i, now) :: past)) =
          Function.update (latestEntries ttl (sectionCalls calls past)) key.string
            (some ⟨value, now + ttl⟩) := by
        rw [← latestEntries_set]
        simp [sectionCalls, hcall]
      rw [hset]
      simp only [Config.settle_shared, CacheConfig.withCache, Cache.stored_set, httl]
      exact hagrees.update _ _
  | cleanup _ hcall =>
      rw [hsame (by simp [hcall])]
      exact Cache.agrees_cleanup.trans hagrees

/-- While nothing live is lost, the cache agrees with the ideal map. -/
theorem agrees_of_keepsLive (h : (cacheThreads ttl start calls).Run es c)
    (hkeeps : (cacheThreads ttl start calls).Every KeepsLive es) :
    Expiry.Agrees CacheEntry.expiresAt c.shared.clock c.shared.cache.stored
      (latestEntries ttl (sectionCalls calls es)) := by
  refine h.invariant_of_every (I := fun es c =>
    Expiry.Agrees CacheEntry.expiresAt c.shared.clock c.shared.cache.stored
      (latestEntries ttl (sectionCalls calls es))) .refl ?_ hkeeps
  intro es c e c' hrun _ ih hstep hkeep
  obtain ⟨i, now⟩ := e
  obtain ⟨hlocks, hclock⟩ := locks hrun hstep
  rw [hlocks.clock]
  exact hlocks.agrees (ttl_eq hrun) hkeep (ih.mono hclock)

/-- A `Get` reads the latest value while nothing live is lost. -/
theorem Locks.findsLatest (h : Locks calls i now c c')
    (hagrees : Expiry.Agrees CacheEntry.expiresAt now c.shared.cache.stored
      (latestEntries ttl (sectionCalls calls past))) :
    FindsLatest ttl calls past c (i, now) c' := by
  intro key value setAt hcall hfresh hlatest hlive
  have hread : Expiry.live CacheEntry.expiresAt now (c.shared.cache.stored key.string) =
      some ⟨value, setAt + ttl⟩ := by
    rw [hagrees.live_eq, latestEntries, hlatest, Option.map_some, Expiry.live_some, if_pos hlive]
  obtain ⟨hstored, hentry⟩ := Expiry.live_eq_some.mp hread
  cases h with
  | missing _ hcall' hnone =>
      obtain rfl := CacheOp.get.inj (hcall'.symm.trans hcall)
      rw [hnone] at hstored
      cases hstored
  | expired _ hcall' hstored' hexpired =>
      obtain rfl := CacheOp.get.inj (hcall'.symm.trans hcall)
      obtain rfl := Option.some.inj (hstored'.symm.trans hstored)
      exact absurd hexpired (not_lt.mpr hentry)
  | live _ hcall' hstored' =>
      obtain rfl := CacheOp.get.inj (hcall'.symm.trans hcall)
      obtain rfl := Option.some.inj (hstored'.symm.trans hstored)
      rfl
  | delete hpending => simp [hpending] at hfresh
  | set _ hcall' => cases hcall'.symm.trans hcall
  | cleanup _ hcall' => cases hcall'.symm.trans hcall

/-- No section runs after the clock's latest reading. -/
theorem event_le_clock (h : (cacheThreads ttl start calls).Run es c) {set : ℕ × ℤ}
    (hset : set ∈ es) : set.2 ≤ c.shared.clock := by
  refine h.invariant (I := fun es c => ∀ set ∈ es, set.2 ≤ c.shared.clock) ?_ ?_ set hset
  · intro set hset
    cases hset
  · intro es c e c' hrun ih hstep set hset
    obtain ⟨i, now⟩ := e
    obtain ⟨hlocks, hclock⟩ := locks hrun hstep
    rw [hlocks.clock]
    rcases List.mem_cons.mp hset with rfl | hold
    · exact le_refl _
    · exact (ih set hold).trans hclock

/-- The latest `Set` of a text is no older than any `Set` of it. -/
theorem latestSet_of_mem (h : (cacheThreads ttl start calls).Run es c) {set : ℕ × ℤ}
    {key : CacheKey} {value : V} (hset : set ∈ es) (hcall : calls set.1 = .set key value) :
    ∃ value' setAt, latestSet key.string (sectionCalls calls es) = some (value', setAt) ∧
      set.2 ≤ setAt := by
  refine h.invariant (I := fun es _ => set ∈ es →
    ∃ value' setAt, latestSet key.string (sectionCalls calls es) = some (value', setAt) ∧
      set.2 ≤ setAt) ?_ ?_ hset
  · intro hset
    cases hset
  · intro es c e c' hrun ih hstep hset
    rcases List.mem_cons.mp hset with rfl | hold
    · exact ⟨value, set.2, by simp [sectionCalls, hcall, latestSet], le_refl _⟩
    · obtain ⟨i, now⟩ := e
      obtain ⟨value', setAt, hlatest, hle⟩ := ih hold
      cases hcall' : calls i with
      | get key' =>
          exact ⟨value', setAt, by rwa [latestSet_of_ne_set (by simp [hcall'])], hle⟩
      | cleanup =>
          exact ⟨value', setAt, by rwa [latestSet_of_ne_set (by simp [hcall'])], hle⟩
      | set key' value'' =>
          by_cases hkey : key'.string = key.string
          · refine ⟨value'', now, by simp [sectionCalls, hcall', latestSet, hkey], ?_⟩
            exact (event_le_clock hrun hold).trans (locks hrun hstep).2
          · exact ⟨value', setAt, by simpa [sectionCalls, hcall', latestSet, hkey] using hlatest, hle⟩

/-- While nothing live is lost, a delete that loses nothing live is stale. -/
theorem deletesStale_of_keepsLive (hrun : (cacheThreads ttl start calls).Run past s)
    (hstep : (cacheThreads ttl start calls).step s e = some t)
    (hpast : (cacheThreads ttl start calls).Every KeepsLive past) (h : KeepsLive past s e t) :
    DeletesStale ttl calls past s e t := by
  obtain ⟨i, now⟩ := e
  intro key hcall hthread set hset key' value hcall' hkey
  obtain ⟨hlocks, hclock⟩ := locks hrun hstep
  have hmem : set ∈ past := (List.takeWhile_prefix _).subset hset
  obtain ⟨value', setAt, hlatest, hle⟩ := latestSet_of_mem hrun hmem hcall'
  rw [hkey] at hlatest
  have hagrees := (agrees_of_keepsLive hrun hpast).mono hclock
  by_contra hlive
  have hread : s.shared.cache.stored key.string = some ⟨value', setAt + ttl⟩ := by
    have heq := hagrees.live_eq key.string
    rw [latestEntries, hlatest, Option.map_some, Expiry.live_some, if_pos (by grind)] at heq
    exact (Expiry.live_eq_some.mp heq).1
  have hkept := h key.string _ hread (by grind)
  cases hlocks with
  | missing hfresh => exact hthread hfresh
  | expired hfresh => exact hthread hfresh
  | live hfresh => exact hthread hfresh
  | delete _ hcall'' =>
      obtain rfl := CacheOp.get.inj (hcall.symm.trans hcall'')
      simp [CacheConfig.withCache, Cache.stored_getDelete] at hkept
  | set hfresh => exact hthread hfresh
  | cleanup hfresh => exact hthread hfresh

/-! ## The contract -/

/-- A run loses no live entry, and every `Get` in it finds the latest value of its key
    while that lives, exactly when each delete section comes after the expiry of every
    value stored under its key since the `Get` read. -/
theorem keeps_live_iff (ttl start : ℤ) (calls : ℕ → CacheOp V) (es : List (ℕ × ℤ)) :
    (cacheThreads ttl start calls).Every
        (fun past s e t => KeepsLive past s e t ∧ FindsLatest ttl calls past s e t) es ↔
      (cacheThreads ttl start calls).Every (DeletesStale ttl calls) es := by
  constructor
  · intro hgood
    have hkeeps := hgood.imp fun _ _ _ _ _ _ _ hboth => hboth.1
    exact hkeeps.imp fun past s e t hrun hstep hpast hkeep =>
      deletesStale_of_keepsLive hrun hstep hpast hkeep
  · intro hstale
    have hkeeps := hstale.imp fun past s e t hrun hstep _ hdelete =>
      keepsLive_of_deletesStale hrun hstep hdelete
    refine hkeeps.imp fun past s e t hrun hstep hpast hkeep => ⟨hkeep, ?_⟩
    obtain ⟨hlocks, hclock⟩ := locks hrun hstep
    exact hlocks.findsLatest ((agrees_of_keepsLive hrun hpast).mono hclock)

/-- An answer expires, a `Get` meets it, and before the `Get` deletes it a fresh answer
    is stored. -/
def lateDeleteCalls : ℕ → CacheOp String
  | 0 => .set (epochKey "cpu" []) "old"
  | 1 => .get (epochKey "cpu" [])
  | _ => .set (epochKey "cpu" []) "new"

/-- The late delete removes an entry with nine tenths of its time to go. -/
theorem live_entry_lost : ¬∀ (calls : ℕ → CacheOp String) (es : List (ℕ × ℤ)),
    (cacheThreads 10 0 calls).Every
      (fun past s e t => KeepsLive past s e t ∧ FindsLatest 10 calls past s e t) es := by
  intro hgood
  let past : List (ℕ × ℤ) := [(0, 0), (1, 11), (2, 11)].reverse
  have hrun : (cacheThreads 10 0 lateDeleteCalls).Run past _ := Machine.run_of_replay rfl
  have hlast := hgood lateDeleteCalls ((1, 12) :: past) [] (1, 12) past _ _ rfl hrun rfl
  have hkept := hlast.1 (epochKey "cpu" []).string ⟨"new", 21⟩ rfl (by decide)
  cases hkept

end Chain
