-- SUMMARY: The answer cache run by one caller at a time: it behaves like a map whose entries expire.
import TrueHack.Base.Expiry
import TrueHack.Base.GoMap
import TrueHack.Base.Runs
import TrueHack.Chain.CacheKey

/-!
# The answer cache

`Cache` stores answers under the text of their keys. An entry is removed when
`Get` meets it after its time, or by `Cleanup`; in between, expired entries lie
around. A sequential run cannot tell: what `Get` answers is decided by the
latest `Set` and the clock.
-/

namespace Chain

variable {V : Type}

/-- `CacheEntry`; an answer `V` is a `*LLMResponse`. Instants are in nanoseconds. -/
structure CacheEntry (V : Type) where
  value : V
  expiresAt : ℤ

/-- `Cache`; the lock is the atomicity of the sections below. -/
structure Cache (V : Type) where
  entries : GoMap String (CacheEntry V)
  ttl : ℤ

/-- `now.After(entry.ExpiresAt)` -/
def CacheEntry.expired (entry : CacheEntry V) (now : ℤ) : Bool := entry.expiresAt < now

/-- What the read section of `Get` finds. -/
inductive Found (V : Type) where
  | missing
  | expired
  | live (value : V)

namespace Cache

/-- `NewCache` -/
def new (ttl : ℤ) : Cache V := ⟨∅, ttl⟩

/-- `Cache.Get` under the read lock. -/
def getRead (c : Cache V) (key : CacheKey) (now : ℤ) : Found V :=
  match c.entries.lookup key.string with
  | none => .missing
  | some entry => if entry.expired now then .expired else .live entry.value

/-- `Cache.Get` between `Lock` and `Unlock`: it does not look again. -/
def getDelete (c : Cache V) (key : CacheKey) : Cache V :=
  { c with entries := c.entries.erase key.string }

/-- `Cache.Get` when no other goroutine comes in between. -/
def get (c : Cache V) (key : CacheKey) (now : ℤ) : Option V × Cache V :=
  match c.getRead key now with
  | .missing => (none, c)
  | .expired => (none, c.getDelete key)
  | .live value => (some value, c)

/-- `Cache.Set` -/
def set (c : Cache V) (key : CacheKey) (value : V) (now : ℤ) : Cache V :=
  { c with entries := c.entries.insert key.string ⟨value, now + c.ttl⟩ }

/-- `Cache.Cleanup` -/
def cleanup (c : Cache V) (now : ℤ) : Cache V :=
  { c with entries := c.entries.deleteWhere fun entry => entry.expired now }

/-! ## What the cache stores -/

/-- The entry stored under a text. -/
def stored (c : Cache V) (k : String) : Option (CacheEntry V) := c.entries.lookup k

variable {c : Cache V} {key : CacheKey} {value : V} {now : ℤ}

@[simp] theorem set_ttl : (c.set key value now).ttl = c.ttl := rfl

@[simp] theorem cleanup_ttl : (c.cleanup now).ttl = c.ttl := rfl

@[simp] theorem getDelete_ttl : (c.getDelete key).ttl = c.ttl := rfl

@[simp] theorem get_ttl : (c.get key now).2.ttl = c.ttl := by
  unfold get
  split <;> rfl

theorem stored_set : (c.set key value now).stored =
    Function.update c.stored key.string (some ⟨value, now + c.ttl⟩) := by
  funext k
  by_cases hk : k = key.string
  · subst hk
    simp [stored, set]
  · simp [stored, set, Function.update_of_ne hk, Finmap.lookup_insert_of_ne _ hk]

theorem stored_getDelete : (c.getDelete key).stored =
    Function.update c.stored key.string none := by
  funext k
  by_cases hk : k = key.string
  · subst hk
    simp [stored, getDelete, Finmap.lookup_erase]
  · simp [stored, getDelete, Function.update_of_ne hk, Finmap.lookup_erase_ne hk]

/-- `Cleanup` keeps what a read would see. -/
theorem stored_cleanup {k : String} : (c.cleanup now).stored k =
    Expiry.live CacheEntry.expiresAt now (c.stored k) := by
  simp only [stored, cleanup, GoMap.lookup_deleteWhere, Expiry.live, CacheEntry.expired,
    ← decide_not, not_lt]

/-! ## Reads -/

/-- The read section, in terms of what is stored. -/
theorem getRead_cases (c : Cache V) (key : CacheKey) (now : ℤ) :
    (c.getRead key now = .missing ∧ c.stored key.string = none) ∨
    (∃ entry, c.getRead key now = .expired ∧ c.stored key.string = some entry ∧
      entry.expiresAt < now) ∨
    ∃ entry, c.getRead key now = .live entry.value ∧ c.stored key.string = some entry ∧
      now ≤ entry.expiresAt := by
  unfold getRead stored
  cases hlookup : c.entries.lookup key.string with
  | none => exact .inl ⟨rfl, rfl⟩
  | some entry =>
      right
      by_cases hexpired : entry.expiresAt < now
      · exact .inl ⟨entry, by simp [CacheEntry.expired, hexpired], rfl, hexpired⟩
      · exact .inr ⟨entry, by simp [CacheEntry.expired, hexpired], rfl, not_lt.mp hexpired⟩

/-- `Get` answers with what a read of the stored entry sees. -/
theorem get_fst : (c.get key now).1 =
    (Expiry.live CacheEntry.expiresAt now (c.stored key.string)).map CacheEntry.value := by
  obtain ⟨hread, hstored⟩ | ⟨entry, hread, hstored, hexpired⟩ | ⟨entry, hread, hstored, hlive⟩ :=
    getRead_cases c key now
  · simp [get, hread, hstored]
  · simp [get, hread, hstored, Expiry.live_some, not_le.mpr hexpired]
  · simp [get, hread, hstored, Expiry.live_some, hlive]

/-- A `Get` that finds something leaves the cache as it is. -/
theorem get_of_some (h : (c.get key now).1 = some value) : c.get key now = (some value, c) := by
  unfold get at h ⊢
  split <;> simp_all

/-- After a `Get` that finds nothing, nothing is stored under its key. -/
theorem stored_get_of_none (h : (c.get key now).1 = none) :
    (c.get key now).2.stored key.string = none := by
  obtain ⟨hread, hstored⟩ | ⟨entry, hread, _⟩ | ⟨entry, hread, _⟩ := getRead_cases c key now
  · simpa [get, hread] using hstored
  · simp [get, hread, stored_getDelete]
  · simp [get, hread] at h

/-- `Get` removes at most an expired entry of its own key. -/
theorem stored_get (c : Cache V) (key : CacheKey) (now : ℤ) : (c.get key now).2.stored = c.stored ∨
    ∃ entry, c.stored key.string = some entry ∧ entry.expiresAt < now ∧
      (c.get key now).2.stored = Function.update c.stored key.string none := by
  obtain ⟨hread, _⟩ | ⟨entry, hread, hstored, hexpired⟩ | ⟨entry, hread, _⟩ :=
    getRead_cases c key now
  · exact .inl (by simp [get, hread])
  · exact .inr ⟨entry, hstored, hexpired, by simp [get, hread, stored_getDelete]⟩
  · exact .inl (by simp [get, hread])

/-- `Get` forgets nothing that has not expired. -/
theorem agrees_get : Expiry.Agrees CacheEntry.expiresAt now (c.get key now).2.stored c.stored := by
  rcases stored_get c key now with heq | ⟨entry, hstored, hexpired, heq⟩
  · rw [heq]
    exact .refl
  · rw [heq]
    intro k
    by_cases hk : k = key.string
    · subst hk
      refine .inr ⟨Function.update_self _ _ _, fun entry' h => ?_⟩
      obtain rfl := Option.some.inj (hstored.symm.trans h)
      exact hexpired
    · exact .inl (Function.update_of_ne hk _ _)

/-- `Cleanup` forgets nothing that has not expired. -/
theorem agrees_cleanup :
    Expiry.Agrees CacheEntry.expiresAt now (c.cleanup now).stored c.stored := by
  intro k
  rw [stored_cleanup]
  cases hstored : c.stored k with
  | none => exact .inl rfl
  | some entry =>
      rw [Expiry.live_some]
      split
      · exact .inl rfl
      · rename_i hexpired
        refine .inr ⟨rfl, fun entry' h => ?_⟩
        obtain rfl := Option.some.inj h
        exact not_le.mp hexpired

end Cache

/-! ## Sequential runs -/

/-- A call of the cache. -/
inductive CacheOp (V : Type) where
  | get (key : CacheKey)
  | set (key : CacheKey) (value : V)
  | cleanup

namespace CacheOp

/-- What a call leaves of the cache when the clock reads `now`. -/
def run (c : Cache V) (now : ℤ) : CacheOp V → Cache V
  | .get key => (c.get key now).2
  | .set key value => c.set key value now
  | .cleanup => c.cleanup now

def isSet : CacheOp V → Bool
  | .set _ _ => true
  | _ => false

end CacheOp

/-- A cache and the latest clock reading. -/
structure CacheState (V : Type) where
  cache : Cache V
  clock : ℤ

/-- Calls one after the other, on a clock that never goes back. -/
def cacheRuns (ttl start : ℤ) : Machine (CacheState V) (CacheOp V × ℤ) where
  init := ⟨.new ttl, start⟩
  step s e := if s.clock ≤ e.2 then some ⟨e.1.run s.cache e.2, e.2⟩ else none

/-- The value and the time of the latest `Set` under a key with the text `k`. -/
def latestSet (k : String) : List (CacheOp V × ℤ) → Option (V × ℤ)
  | [] => none
  | (.set key value, setAt) :: es =>
      if key.string = k then some (value, setAt) else latestSet k es
  | _ :: es => latestSet k es

/-- The ideal map: the latest `Set` of every key, for ever. -/
def latestEntries (ttl : ℤ) (es : List (CacheOp V × ℤ)) (k : String) : Option (CacheEntry V) :=
  (latestSet k es).map fun (value, setAt) => ⟨value, setAt + ttl⟩

variable {ttl start now : ℤ} {es es' : List (CacheOp V × ℤ)} {s s' : CacheState V}

theorem latestEntries_set {key : CacheKey} {value : V} {setAt : ℤ} :
    latestEntries ttl ((.set key value, setAt) :: es) =
      Function.update (latestEntries ttl es) key.string (some ⟨value, setAt + ttl⟩) := by
  funext k
  by_cases hk : k = key.string
  · simp [latestEntries, latestSet, hk]
  · simp [latestEntries, latestSet, Function.update_of_ne hk, Ne.symm hk]

/-- Only `Set`s count. -/
theorem latestSet_filter {k : String} :
    latestSet k (es.filter fun e => e.1.isSet) = latestSet k es := by
  induction es with
  | nil => rfl
  | cons e es ih =>
      obtain ⟨op, setAt⟩ := e
      cases op with
      | get key => simpa [CacheOp.isSet, latestSet] using ih
      | set key value =>
          rw [List.filter_cons_of_pos rfl]
          simp only [latestSet, ih]
      | cleanup => simpa [CacheOp.isSet, latestSet] using ih

/-- A call keeps the cache in agreement with the ideal map. -/
theorem CacheOp.agrees_run {c : Cache V} {op : CacheOp V} (httl : c.ttl = ttl)
    (h : Expiry.Agrees CacheEntry.expiresAt now c.stored (latestEntries ttl es)) :
    Expiry.Agrees CacheEntry.expiresAt now (op.run c now).stored
      (latestEntries ttl ((op, now) :: es)) := by
  cases op with
  | get key => exact Cache.agrees_get.trans h
  | set key value =>
      rw [latestEntries_set, CacheOp.run, Cache.stored_set, httl]
      exact h.update _ _
  | cleanup => exact Cache.agrees_cleanup.trans h

/-- In every run the cache has lost nothing but expired entries. -/
theorem cacheRuns_agrees (h : (cacheRuns ttl start).Run es s) :
    s.cache.ttl = ttl ∧
      Expiry.Agrees CacheEntry.expiresAt s.clock s.cache.stored (latestEntries ttl es) := by
  refine h.invariant (I := fun es s => s.cache.ttl = ttl ∧
    Expiry.Agrees CacheEntry.expiresAt s.clock s.cache.stored (latestEntries ttl es)) ?_ ?_
  · exact ⟨rfl, .refl⟩
  · intro es s e t _ ih hstep
    obtain ⟨op, now⟩ := e
    obtain ⟨httl, hagrees⟩ := ih
    obtain ⟨hclock, ht⟩ := Option.ite_none_right_eq_some.mp hstep
    obtain rfl := Option.some.inj ht
    refine ⟨?_, CacheOp.agrees_run httl (hagrees.mono hclock)⟩
    cases op <;> simpa [CacheOp.run] using httl

/-- What `Get` answers after a run, in terms of the run alone. -/
theorem get_eq_latestSet (h : (cacheRuns ttl start).Run es s) (hnow : s.clock ≤ now)
    (key : CacheKey) : (s.cache.get key now).1 =
      ((latestSet key.string es).filter fun (_, setAt) => now ≤ setAt + ttl).map Prod.fst := by
  rw [Cache.get_fst, ((cacheRuns_agrees h).2.mono hnow).live_eq, latestEntries]
  cases latestSet key.string es with
  | none => rfl
  | some set =>
      obtain ⟨value, setAt⟩ := set
      by_cases hlive : now ≤ setAt + ttl <;> simp [Expiry.live_some, Option.filter, hlive]

/-- After any run, `Get` at `now` finds exactly the value of the latest `Set` of its
    key, if that is at most `ttl` old, and two runs with the same `Set`s answer every
    `Get` alike. -/
theorem cache_ttl_map (ttl start : ℤ) {es : List (CacheOp V × ℤ)} {s : CacheState V}
    (h : (cacheRuns ttl start).Run es s) {now : ℤ} (hnow : s.clock ≤ now) (key : CacheKey) :
    (∀ value, (s.cache.get key now).1 = some value ↔
      ∃ setAt, latestSet key.string es = some (value, setAt) ∧ now ≤ setAt + ttl) ∧
    ∀ es' s', (cacheRuns ttl start).Run es' s' → s'.clock ≤ now →
      es'.filter (fun e => e.1.isSet) = es.filter (fun e => e.1.isSet) →
      (s'.cache.get key now).1 = (s.cache.get key now).1 := by
  refine ⟨fun value => ?_, fun es' s' h' hnow' hsets => ?_⟩
  · rw [get_eq_latestSet h hnow, Option.map_eq_some_iff]
    constructor
    · rintro ⟨⟨value', setAt⟩, hfilter, rfl⟩
      obtain ⟨hlatest, hlive⟩ := Option.filter_eq_some_iff.mp hfilter
      exact ⟨setAt, hlatest, by simpa using hlive⟩
    · rintro ⟨setAt, hlatest, hlive⟩
      exact ⟨(value, setAt), by simpa [Option.filter_eq_some_iff, hlatest] using hlive, rfl⟩
  · have hlatest : latestSet key.string es' = latestSet key.string es := by
      rw [← latestSet_filter, hsets, latestSet_filter]
    rw [get_eq_latestSet h hnow, get_eq_latestSet h' hnow', hlatest]

/-- A key about the first second of 1970. -/
def epochKey (question : String) (metrics : List String) : CacheKey :=
  ⟨question, ⟨0, 0, .utc, Go.zero_lt_second⟩, ⟨1, 0, .utc, Go.zero_lt_second⟩, metrics⟩

/-- Two answers for one key, the first one expired when the second is stored. -/
def refreshEvents : List (CacheOp String × ℤ) :=
  [(.set (epochKey "cpu" []) "old", 0), (.get (epochKey "cpu" []), 11), (.cleanup, 12),
    (.set (epochKey "cpu" []) "new", 13)]

/-- The second answer is found until its own time is over. -/
theorem cache_ttl_map_refresh : ∃ s, (cacheRuns 10 0).Run refreshEvents.reverse s ∧
    (s.cache.get (epochKey "cpu" []) 23).1 = some "new" := by
  have hrun : (cacheRuns 10 0).Run refreshEvents.reverse _ := Machine.run_of_replay rfl
  have hget := (cache_ttl_map 10 0 hrun (show _ ≤ 23 by decide) (epochKey "cpu" [])).1 "new"
  exact ⟨_, hrun, hget.mpr ⟨13, by decide, by decide⟩⟩

end Chain
