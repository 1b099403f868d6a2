-- SUMMARY: The analyze endpoint under concurrent requests: its handlers as programs over the locked sections of the cache.
import TrueHack.Base.History
import TrueHack.Chain.CacheSections
import TrueHack.Server.Handle

/-!
# Concurrent requests

Every request runs in a goroutine of its own, and all of them share one cache. A
handler is a program over the locked sections of the cache; what it does between
two sections, the queries and the completion included, is nobody else's business.
Run alone it is `handleAnalyze`.
-/

namespace Server

open Go Collector Chain SharedObject

/-- A handler in the middle. -/
abbrev Handler := Prog (LockedSection LLMResponse) LockedSection.Res Response

/-- `Analyzer.Analyze` from the collection of the data to the parsed reply. -/
def ask (a : Analyzer) (key : CacheKey) (out : Outside) : GoResult LLMResponse :=
  match collectPrometheusData a.loc out.prometheus key.startTime key.endTime key.metrics with
  | .error err => .err s!"failed to collect Prometheus data: {err}"
  | .ok c =>
      match out.chat (a.chatRequest key.question c.result) with
      | .error err => .err s!"failed to get chat completion: {err}"
      | .ok [] => .panic
      | .ok (content :: _) => .ok (parseLLMResponse content)

/-- The rest of the handler once the model has been asked: an answer is stored before it
    is returned. -/
def handleAsked (key : CacheKey) : GoResult LLMResponse → Handler
  | .ok v => .op (.set key v) fun _ => .ret (.json v)
  | .err err => .ret (.error 500 s!"Analysis failed: {err}")
  | .panic => .ret .aborted

/-- The rest of the handler after the read section of `Get`. -/
def handleFound (a : Analyzer) (key : CacheKey) (out : Outside) : Found LLMResponse → Handler
  | .missing => handleAsked key (ask a key out)
  | .expired => .op (.getDelete key) fun _ => handleAsked key (ask a key out)
  | .live v => .ret (.json v)

/-- `Server.handleAnalyze`. The clock readings of `out` are not used: each section reads
    the clock itself. -/
def handler (a : Analyzer) (body : String) (out : Outside) : Handler :=
  match parseRequest a.loc body with
  | .error message => .ret (.error 400 message)
  | .ok key => .op (.getRead key) (handleFound a key out)

/-- The state of the cache and of all handlers. -/
abbrev Serving :=
  Config (CacheState LLMResponse) (LockedSection LLMResponse) LockedSection.Res Response

/-- The body of each request, and what the outside does during it. -/
abbrev Requests := ℕ → String × Outside

/-- The handlers of the requests, their sections in any order. -/
def handlers (a : Analyzer) (reqs : Requests) (i : ℕ) : Handler :=
  handler a (reqs i).1 (reqs i).2

/-- The running server. -/
def serve (a : Analyzer) (ttl start : ℤ) (reqs : Requests) : Machine Serving (ℕ × ℤ) :=
  (cacheObject ttl start).interleave (handlers a reqs)

/-- A section of a request, with its reading of the clock. -/
abbrev Section := Performed (LockedSection LLMResponse) ℤ

/-- The sections that lead to a state, latest first. -/
abbrev Sections (a : Analyzer) (ttl start : ℤ) (reqs : Requests) : List Section → Serving → Prop :=
  (cacheObject ttl start).History (handlers a reqs)

/-- The state with another cache and clock. -/
def Serving.withCache (c : Serving) (cache : Cache LLMResponse) (now : ℤ) : Serving :=
  { c with shared := ⟨cache, now⟩ }

variable {a : Analyzer} {ttl start now : ℤ} {reqs : Requests} {i : ℕ} {key : CacheKey}
  {out : Outside} {cache : Cache LLMResponse} {body : String}

/-! ## One request alone -/

/-- A miss asks, and stores an answer. -/
theorem analyzeMiss_eq (a : Analyzer) (cache : Cache LLMResponse) (key : CacheKey)
    (out : Outside) : (a.analyzeMiss cache key out).result = ask a key out ∧
      (a.analyzeMiss cache key out).cache =
        match ask a key out with
        | .ok v => cache.set key v out.setAt
        | _ => cache := by
  have hmisses := misses a cache key out
  generalize a.analyzeMiss cache key out = outcome at hmisses
  cases hmisses with
  | collectFailed hcollect => simp [ask, hcollect]
  | chatFailed hcollect hchat => simp [ask, hcollect, hchat]
  | noChoice hcollect hchat => simp [ask, hcollect, hchat]
  | answered hcollect hchat => simp [ask, hcollect, hchat]

/-- The outside, with the clock readings of the two calls of the cache. -/
def readAt (out : Outside) (getAt setAt : ℤ) : Outside :=
  { out with getAt := getAt, setAt := setAt }

/-- What the client gets for a result. -/
def respond : GoResult LLMResponse → Response
  | .ok v => .json v
  | .err err => .error 500 s!"Analysis failed: {err}"
  | .panic => .aborted

/-- What a request leaves of the cache when it has asked. -/
def keep (cache : Cache LLMResponse) (key : CacheKey) (setAt : ℤ) :
    GoResult LLMResponse → Cache LLMResponse
  | .ok v => cache.set key v setAt
  | .err _ | .panic => cache

theorem handleAnalyze_eq (h : parseRequest a.loc body = .ok key) :
    (handleAnalyze a cache body out).response = respond (a.analyze cache key out).result ∧
      (handleAnalyze a cache body out).cache = (a.analyze cache key out).cache := by
  rw [handleAnalyze, h]
  refine ⟨?_, rfl⟩
  cases hresult : (a.analyze cache key out).result with
  | ok v => simp [hresult, respond]
  | err err => simp [hresult, respond]
  | panic => simp [hresult, respond]

/-- The last part of a handler, run alone. -/
theorem asked_exec {s t : CacheState LLMResponse} {result : GoResult LLMResponse}
    {response : Response}
    (h : (handleAsked key result).Exec (cacheObject ttl start) s response t) :
    s.clock ≤ t.clock ∧ response = respond result ∧ t.cache = keep s.cache key t.clock result := by
  cases result with
  | ok v =>
      cases h with
      | op happ hret =>
          obtain ⟨hclock, heq⟩ := Option.ite_none_right_eq_some.mp happ
          obtain ⟨_, rfl⟩ := Prod.mk.inj (Option.some.inj heq)
          cases hret
          exact ⟨hclock, rfl, rfl⟩
  | err err =>
      cases h
      exact ⟨le_refl _, rfl, rfl⟩
  | panic =>
      cases h
      exact ⟨le_refl _, rfl, rfl⟩

/-- A request that does not find its answer asks. -/
theorem analyze_readAt (a : Analyzer) (out : Outside) (setAt : ℤ) {rest : Cache LLMResponse}
    {getAt : ℤ} (hget : cache.get key getAt = (none, rest)) :
    (a.analyze cache key (readAt out getAt setAt)).result = ask a key out ∧
      (a.analyze cache key (readAt out getAt setAt)).cache = keep rest key setAt (ask a key out) := by
  have hmiss : a.analyze cache key (readAt out getAt setAt) =
      a.analyzeMiss rest key (readAt out getAt setAt) := by
    simp only [Analyzer.analyze, readAt, hget]
  obtain ⟨hresult, hcache⟩ := analyzeMiss_eq a rest key (readAt out getAt setAt)
  rw [hmiss]
  refine ⟨hresult, hcache.trans ?_⟩
  rw [show ask a key (readAt out getAt setAt) = ask a key out from rfl]
  cases ask a key out <;> rfl

/-- A handler run alone is `handleAnalyze`, at the times when its sections read the clock. -/
theorem handler_exec {s t : CacheState LLMResponse} {response : Response}
    (h : (handler a body out).Exec (cacheObject ttl start) s response t) :
    ∃ getAt, s.clock ≤ getAt ∧ getAt ≤ t.clock ∧
      (handleAnalyze a s.cache body (readAt out getAt t.clock)).response = response ∧
      (handleAnalyze a s.cache body (readAt out getAt t.clock)).cache = t.cache := by
  unfold handler at h
  split at h
  · rename_i message hrejected
    cases h
    refine ⟨s.clock, le_refl _, le_refl _, ?_⟩
    rw [handleAnalyze, hrejected]
    exact ⟨rfl, rfl⟩
  · rename_i key haccepted
    cases h with
    | @op _ _ _ _ _ getAt _ _ happ hrest =>
        obtain ⟨hclock, heq⟩ := Option.ite_none_right_eq_some.mp happ
        obtain ⟨rfl, rfl⟩ := Prod.mk.inj (Option.some.inj heq)
        cases hread : s.cache.getRead key getAt with
        | missing =>
            rw [hread] at hrest
            obtain ⟨hle, rfl, hcache⟩ := asked_exec hrest
            have hget : s.cache.get key getAt = (none, s.cache) := by simp [Cache.get, hread]
            obtain ⟨hresult, hkept⟩ := analyze_readAt a out t.clock hget
            exact ⟨getAt, hclock, hle, (handleAnalyze_eq haccepted).1.trans (congrArg respond hresult),
              (handleAnalyze_eq haccepted).2.trans (hkept.trans hcache.symm)⟩
        | expired =>
            rw [hread] at hrest
            cases hrest with
            | op happ' hrest =>
                obtain ⟨hclock', heq'⟩ := Option.ite_none_right_eq_some.mp happ'
                obtain ⟨_, rfl⟩ := Prod.mk.inj (Option.some.inj heq')
                obtain ⟨hle, rfl, hcache⟩ := asked_exec hrest
                have hget : s.cache.get key getAt = (none, s.cache.getDelete key) := by
                  simp [Cache.get, hread]
                obtain ⟨hresult, hkept⟩ := analyze_readAt a out t.clock hget
                exact ⟨getAt, hclock, hclock'.trans hle,
                  (handleAnalyze_eq haccepted).1.trans (congrArg respond hresult),
                  (handleAnalyze_eq haccepted).2.trans (hkept.trans hcache.symm)⟩
        | live v =>
            rw [hread] at hrest
            cases hrest
            have hget : (s.cache.get key getAt).1 = some v := by simp [Cache.get, hread]
            have hhit : a.analyze s.cache key (readAt out getAt getAt) = ⟨.ok v, s.cache, []⟩ :=
              analyze_hit hget
            refine ⟨getAt, hclock, le_refl _, ?_, ?_⟩
            · rw [(handleAnalyze_eq haccepted).1, hhit]
              rfl
            · rw [(handleAnalyze_eq haccepted).2, hhit]

/-! ## One section -/

variable {c c' : Serving} {h : List Section} {o : LockedSection LLMResponse}

@[simp] theorem withCache_shared : (c.withCache cache now).shared = ⟨cache, now⟩ := rfl

@[simp] theorem withCache_thread : (c.withCache cache now).thread = c.thread := rfl

@[simp] theorem withCache_replies : (c.withCache cache now).replies = c.replies := rfl

/-- The server calls the analyzer for request `i` with the arguments `key`. -/
def Accepts (a : Analyzer) (reqs : Requests) (i : ℕ) (key : CacheKey) : Prop :=
  parseRequest a.loc (reqs i).1 = .ok key

/-- If request `i` asks, it gets the answer `v`. -/
def Answered (a : Analyzer) (reqs : Requests) (i : ℕ) (key : CacheKey) (v : LLMResponse) : Prop :=
  ask a key (reqs i).2 = .ok v

/-- What request `i` can be waiting to do between two sections. -/
inductive Pending (a : Analyzer) (reqs : Requests) (i : ℕ) : Handler → Prop where
  | delete {key : CacheKey} (haccepts : Accepts a reqs i key) :
      Pending a reqs i (handleFound a key (reqs i).2 .expired)
  | store {key : CacheKey} {v : LLMResponse} (haccepts : Accepts a reqs i key)
      (hanswered : Answered a reqs i key v) : Pending a reqs i (handleAsked key (.ok v))

/-- What one section of request `i` can do when the clock reads `now`. -/
inductive Proceeds (a : Analyzer) (reqs : Requests) (i : ℕ) (now : ℤ) (c : Serving) :
    LockedSection LLMResponse → Serving → Prop where
  | hit {key : CacheKey} {entry : CacheEntry LLMResponse} (hfresh : c.thread i = .fresh)
      (haccepts : Accepts a reqs i key)
      (hstored : c.shared.cache.stored key.string = some entry) (hlive : now ≤ entry.expiresAt) :
      Proceeds a reqs i now c (.getRead key)
        ((c.withCache c.shared.cache now).settle i (.ret (.json entry.value)))
  | missing {key : CacheKey} (hfresh : c.thread i = .fresh) (haccepts : Accepts a reqs i key)
      (hstored : c.shared.cache.stored key.string = none) :
      Proceeds a reqs i now c (.getRead key)
        ((c.withCache c.shared.cache now).settle i (handleAsked key (ask a key (reqs i).2)))
  | expired {key : CacheKey} {entry : CacheEntry LLMResponse} (hfresh : c.thread i = .fresh)
      (haccepts : Accepts a reqs i key)
      (hstored : c.shared.cache.stored key.string = some entry)
      (hexpired : entry.expiresAt < now) :
      Proceeds a reqs i now c (.getRead key)
        ((c.withCache c.shared.cache now).settle i (handleFound a key (reqs i).2 .expired))
  | delete {key : CacheKey} (hpending : c.thread i = .running (handleFound a key (reqs i).2 .expired))
      (haccepts : Accepts a reqs i key) :
      Proceeds a reqs i now c (.getDelete key)
        ((c.withCache (c.shared.cache.getDelete key) now).settle i
          (handleAsked key (ask a key (reqs i).2)))
  | store {key : CacheKey} {v : LLMResponse}
      (hpending : c.thread i = .running (handleAsked key (.ok v)))
      (haccepts : Accepts a reqs i key) (hanswered : Answered a reqs i key v) :
      Proceeds a reqs i now c (.set key v)
        ((c.withCache (c.shared.cache.set key v now) now).settle i (.ret (.json v)))

/-- The first section of a request. -/
theorem proceeds_of_fresh {k : o.Res → Handler} {r : o.Res} {s : CacheState LLMResponse}
    (hfresh : c.thread i = .fresh) (hprogram : handlers a reqs i = .op o k)
    (happ : (cacheObject ttl start).apply c.shared o now = some (r, s)) :
    Proceeds a reqs i now c o ({ c with shared := s }.settle i (k r)) := by
  obtain ⟨_, heq⟩ := Option.ite_none_right_eq_some.mp happ
  unfold handlers handler at hprogram
  split at hprogram
  · cases hprogram
  · rename_i key haccepts
    cases hprogram
    obtain ⟨rfl, rfl⟩ := Prod.mk.inj (Option.some.inj heq)
    obtain ⟨hread, hstored⟩ | ⟨entry, hread, hstored, hexpired⟩ | ⟨entry, hread, hstored, hlive⟩ :=
      Cache.getRead_cases c.shared.cache key now
    · rw [hread]
      exact .missing hfresh haccepts hstored
    · rw [hread]
      exact .expired hfresh haccepts hstored hexpired
    · rw [hread]
      exact .hit hfresh haccepts hstored hlive

theorem proceeds_of_pending {p : Handler} {k : o.Res → Handler} {r : o.Res}
    {s : CacheState LLMResponse} (hpending : Pending a reqs i p) (hthread : c.thread i = .running p)
    (hprogram : p = .op o k)
    (happ : (cacheObject ttl start).apply c.shared o now = some (r, s)) :
    Proceeds a reqs i now c o ({ c with shared := s }.settle i (k r)) := by
  obtain ⟨_, heq⟩ := Option.ite_none_right_eq_some.mp happ
  cases hpending with
  | delete haccepts =>
      cases hprogram
      obtain ⟨_, rfl⟩ := Prod.mk.inj (Option.some.inj heq)
      exact .delete hthread haccepts
  | store haccepts hanswered =>
      cases hprogram
      obtain ⟨_, rfl⟩ := Prod.mk.inj (Option.some.inj heq)
      exact .store hthread haccepts hanswered

/-- What a request waits for once it has asked. -/
theorem pending_asked {p : Handler} (haccepts : Accepts a reqs i key)
    (hp : (c.settle i (handleAsked key (ask a key (reqs i).2))).thread i = .running p) :
    Pending a reqs i p := by
  cases hask : ask a key (reqs i).2 with
  | ok v =>
      rw [hask] at hp
      obtain rfl := Thread.running.inj (Config.settle_op_thread_self.symm.trans hp)
      exact .store haccepts hask
  | err err => simp [hask, handleAsked] at hp
  | panic => simp [hask, handleAsked] at hp

theorem Proceeds.pending_self (hproceeds : Proceeds a reqs i now c o c') {p : Handler}
    (hp : c'.thread i = .running p) : Pending a reqs i p := by
  cases hproceeds with
  | hit => simp at hp
  | missing _ haccepts => exact pending_asked haccepts hp
  | expired _ haccepts =>
      obtain rfl := Thread.running.inj (Config.settle_op_thread_self.symm.trans hp)
      exact .delete haccepts
  | delete _ haccepts => exact pending_asked haccepts hp
  | store => simp at hp

theorem Proceeds.thread_ne (hproceeds : Proceeds a reqs i now c o c') {j : ℕ} (hj : j ≠ i) :
    c'.thread j = c.thread j := by
  cases hproceeds <;> exact Config.settle_thread_ne hj

theorem proceeds_of_program {k : o.Res → Handler} {r : o.Res} {s : CacheState LLMResponse}
    (hpending : ∀ p, c.thread i = .running p → Pending a reqs i p)
    (hprogram : (c.thread i).program (handlers a reqs i) = some (.op o k))
    (happ : (cacheObject ttl start).apply c.shared o now = some (r, s)) :
    Proceeds a reqs i now c o ({ c with shared := s }.settle i (k r)) := by
  cases hthread : c.thread i with
  | fresh =>
      rw [hthread] at hprogram
      exact proceeds_of_fresh hthread (Option.some.inj hprogram) happ
  | running p =>
      rw [hthread] at hprogram
      exact proceeds_of_pending (hpending p hthread) hthread (Option.some.inj hprogram) happ
  | returned =>
      rw [hthread] at hprogram
      cases hprogram

/-- Between two sections, a request waits for one of the listed. -/
theorem pending (hsections : Sections a ttl start reqs h c) {p : Handler}
    (hp : c.thread i = .running p) : Pending a reqs i p := by
  induction hsections generalizing i p with
  | init => cases hp
  | @ret h c j response _ hprogram ih =>
      by_cases hij : i = j
      · subst hij
        simp at hp
      · exact ih ((Config.settle_thread_ne hij).symm.trans hp)
  | @op h c j o k now r s _ hprogram happ ih =>
      have hproceeds := proceeds_of_program (fun _ => ih) hprogram happ
      by_cases hij : i = j
      · subst hij
        exact hproceeds.pending_self hp
      · exact ih ((hproceeds.thread_ne hij).symm.trans hp)

/-- Everything a section of a run can do. -/
theorem proceeds {k : o.Res → Handler} {r : o.Res} {s : CacheState LLMResponse}
    (hsections : Sections a ttl start reqs h c)
    (hprogram : (c.thread i).program (handlers a reqs i) = some (.op o k))
    (happ : (cacheObject ttl start).apply c.shared o now = some (r, s)) :
    Proceeds a reqs i now c o ({ c with shared := s }.settle i (k r)) :=
  proceeds_of_program (fun _ => pending hsections) hprogram happ

/-- What a section does to the cache. -/
theorem Proceeds.shared (hproceeds : Proceeds a reqs i now c o c') :
    (∃ key, o = .getRead key ∧ c'.shared = ⟨c.shared.cache, now⟩) ∨
    (∃ key, o = .getDelete key ∧ c'.shared = ⟨c.shared.cache.getDelete key, now⟩) ∨
    ∃ key v, o = .set key v ∧ c'.shared = ⟨c.shared.cache.set key v now, now⟩ := by
  cases hproceeds with
  | hit => exact .inl ⟨_, rfl, Config.settle_shared⟩
  | missing => exact .inl ⟨_, rfl, Config.settle_shared⟩
  | expired => exact .inl ⟨_, rfl, Config.settle_shared⟩
  | delete => exact .inr (.inl ⟨_, rfl, Config.settle_shared⟩)
  | store => exact .inr (.inr ⟨_, _, rfl, Config.settle_shared⟩)

/-- A request that ends without a section is one that is rejected. -/
theorem rejected_of_ret {response : Response} (hsections : Sections a ttl start reqs h c)
    (hprogram : (c.thread i).program (handlers a reqs i) = some (.ret response)) :
    c.thread i = .fresh ∧ ∃ message, parseRequest a.loc (reqs i).1 = .error message ∧
      response = .error 400 message := by
  cases hthread : c.thread i with
  | fresh =>
      rw [hthread] at hprogram
      have hhandler := Option.some.inj hprogram
      simp only [handlers, handler] at hhandler
      split at hhandler
      · rename_i message hrejected
        cases hhandler
        exact ⟨rfl, message, hrejected, rfl⟩
      · cases hhandler
  | running p =>
      rw [hthread] at hprogram
      have hp := Option.some.inj hprogram
      cases pending hsections hthread <;> cases hp
  | returned =>
      rw [hthread] at hprogram
      cases hprogram

/-- The rule of induction for the running server. -/
theorem sections_induction {I : List Section → Serving → Prop}
    (hinit : I [] (serve a ttl start reqs).init)
    (hreject : ∀ h c i message, Sections a ttl start reqs h c → I h c → c.thread i = .fresh →
      parseRequest a.loc (reqs i).1 = .error message → I h (c.settle i (.ret (.error 400 message))))
    (hproceeds : ∀ h c i o now c', Sections a ttl start reqs h c → I h c → c.shared.clock ≤ now →
      Proceeds a reqs i now c o c' → I (⟨i, o, now⟩ :: h) c')
    (hsections : Sections a ttl start reqs h c) : I h c := by
  induction hsections with
  | init => exact hinit
  | ret hsections hprogram ih =>
      obtain ⟨hfresh, message, hrejected, rfl⟩ := rejected_of_ret hsections hprogram
      exact hreject _ _ _ message hsections ih hfresh hrejected
  | op hsections hprogram happ ih =>
      exact hproceeds _ _ _ _ _ _ hsections ih (Option.ite_none_right_eq_some.mp happ).1
        (proceeds hsections hprogram happ)

end Server
