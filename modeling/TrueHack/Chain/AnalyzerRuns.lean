-- SUMMARY: Sequences of analyzer calls: which calls are served from the cache, with whose answer.
import TrueHack.Chain.Analyzer

/-!
# Runs of the analyzer

The log of a run holds every call with its result. The cache is a function of
the log: under each text it has the latest answer that a call with this text got
from the model, until that expires. Calls that fail leave no trace in it.
-/

namespace Chain

open Go Collector

/-- A finished call. -/
structure Call where
  key : CacheKey
  out : Outside
  result : GoResult LLMResponse
  contacts : List Contact

def Contact.isChat : Contact → Bool
  | .chat _ => true
  | _ => false

/-- The answer a call got from the model, and when it was stored. -/
def Call.answer (c : Call) : Option (LLMResponse × ℤ) :=
  match c.result with
  | .ok v => if c.contacts.any Contact.isChat then some (v, c.out.setAt) else none
  | _ => none

/-- The latest answer that a call under the text `k` got from the model. -/
def latestAnswer (k : String) : List Call → Option (LLMResponse × ℤ)
  | [] => none
  | c :: log =>
      if c.key.string = k then
        match c.answer with
        | some answer => some answer
        | none => latestAnswer k log
      else latestAnswer k log

/-- The analyzer's cache, the latest clock reading, and the calls so far, latest first. -/
structure Session where
  cache : Cache LLMResponse
  clock : ℤ
  log : List Call

/-- Calls one after the other, on a clock that never goes back. -/
def analyzeRuns (a : Analyzer) (ttl start : ℤ) : Machine Session (CacheKey × Outside) where
  init := ⟨.new ttl, start, []⟩
  step s e :=
    if s.clock ≤ e.2.getAt ∧ e.2.getAt ≤ e.2.setAt then
      let outcome := a.analyze s.cache e.1 e.2
      some ⟨outcome.cache, e.2.setAt, ⟨e.1, e.2, outcome.result, outcome.contacts⟩ :: s.log⟩
    else none

variable {a : Analyzer} {ttl start : ℤ} {es : List (CacheKey × Outside)} {s t : Session}
  {e : CacheKey × Outside} {key : CacheKey} {out : Outside}

/-! ## One call -/

/-- What a call does to the cache: a hit nothing; a miss drops at most its own expired
    entry, and after an answer of the model it stores that. -/
theorem analyze_cases (a : Analyzer) (cache : Cache LLMResponse) (key : CacheKey)
    (out : Outside) :
    (∃ v, (cache.get key out.getAt).1 = some v ∧ a.analyze cache key out = ⟨.ok v, cache, []⟩) ∨
    ((cache.get key out.getAt).1 = none ∧
      Misses a (cache.get key out.getAt).2 key out (a.analyze cache key out)) := by
  cases hget : (cache.get key out.getAt).1 with
  | some v => exact .inl ⟨v, rfl, analyze_hit hget⟩
  | none =>
      refine .inr ⟨rfl, ?_⟩
      rw [analyze_miss hget]
      exact misses _ _ _ _

/-- The call as it is logged. -/
def logged (a : Analyzer) (cache : Cache LLMResponse) (key : CacheKey) (out : Outside) : Call :=
  ⟨key, out, (a.analyze cache key out).result, (a.analyze cache key out).contacts⟩

/-- A call that got an answer from the model has stored it, and any other call has stored
    nothing. -/
theorem analyze_stored (a : Analyzer) (cache : Cache LLMResponse) (key : CacheKey)
    (out : Outside) :
    (∃ v, (logged a cache key out).answer = some (v, out.setAt) ∧
      (a.analyze cache key out).cache = (cache.get key out.getAt).2.set key v out.setAt) ∨
    ((logged a cache key out).answer = none ∧
      (a.analyze cache key out).cache = (cache.get key out.getAt).2) := by
  rcases analyze_cases a cache key out with ⟨v, hget, heq⟩ | ⟨_, hmiss⟩
  · right
    simp [logged, heq, Call.answer, Cache.get_of_some hget]
  · unfold logged
    generalize a.analyze cache key out = outcome at hmiss
    cases hmiss with
    | collectFailed => exact .inr ⟨rfl, rfl⟩
    | chatFailed => exact .inr ⟨rfl, rfl⟩
    | noChoice => exact .inr ⟨rfl, rfl⟩
    | answered => exact .inl ⟨_, by simp [Call.answer, Contact.isChat], rfl⟩

/-- A call without an answer of its own leaves every entry, but for its own expired
    one. -/
theorem stored_of_no_answer (h : (logged a s.cache key out).answer = none) (k : String) :
    (a.analyze s.cache key out).cache.stored k = s.cache.stored k ∨
      k = key.string ∧ (a.analyze s.cache key out).cache.stored k = none ∧
        ∃ entry, s.cache.stored k = some entry ∧ entry.expiresAt < out.getAt := by
  rcases analyze_stored a s.cache key out with ⟨v, hanswer, _⟩ | ⟨_, hcache⟩
  · rw [hanswer] at h
    cases h
  · rw [hcache]
    rcases Cache.stored_get s.cache key out.getAt with heq | ⟨entry, hstored, hexpired, heq⟩
    · exact .inl (by rw [heq])
    · by_cases hk : k = key.string
      · subst hk
        exact .inr ⟨rfl, by rw [heq, Function.update_self], entry, hstored, hexpired⟩
      · exact .inl (by rw [heq, Function.update_of_ne hk])

/-- What a step of a run is. -/
theorem step_eq (h : (analyzeRuns a ttl start).step s e = some t) :
    s.clock ≤ e.2.getAt ∧ e.2.getAt ≤ e.2.setAt ∧
      t = ⟨(a.analyze s.cache e.1 e.2).cache, e.2.setAt, logged a s.cache e.1 e.2 :: s.log⟩ := by
  obtain ⟨⟨hget, hset⟩, ht⟩ := Option.ite_none_right_eq_some.mp h
  exact ⟨hget, hset, (Option.some.inj ht).symm⟩

/-! ## The cache and the log -/

/-- The ideal map of a log: the latest answer under every text, for ever. -/
def answers (ttl : ℤ) (log : List Call) (k : String) : Option (CacheEntry LLMResponse) :=
  (latestAnswer k log).map fun (v, setAt) => ⟨v, setAt + ttl⟩

theorem answers_of_answer {c : Call} {log : List Call} {v : LLMResponse} {setAt : ℤ}
    (h : c.answer = some (v, setAt)) : answers ttl (c :: log) =
      Function.update (answers ttl log) c.key.string (some ⟨v, setAt + ttl⟩) := by
  funext k
  by_cases hk : k = c.key.string
  · simp [answers, latestAnswer, h, hk]
  · simp [answers, latestAnswer, Function.update_of_ne hk, Ne.symm hk]

theorem answers_of_no_answer {c : Call} {log : List Call} (h : c.answer = none) :
    answers ttl (c :: log) = answers ttl log := by
  funext k
  simp [answers, latestAnswer, h]

/-- A call keeps the cache in agreement with the log. -/
theorem agrees_step (httl : s.cache.ttl = ttl)
    (hagrees : Expiry.Agrees CacheEntry.expiresAt s.clock s.cache.stored (answers ttl s.log))
    (h : (analyzeRuns a ttl start).step s e = some t) :
    t.cache.ttl = ttl ∧
      Expiry.Agrees CacheEntry.expiresAt t.clock t.cache.stored (answers ttl t.log) := by
  obtain ⟨hget, hset, rfl⟩ := step_eq h
  have hread : Expiry.Agrees CacheEntry.expiresAt e.2.setAt
      (s.cache.get e.1 e.2.getAt).2.stored (answers ttl s.log) :=
    (Cache.agrees_get.trans (hagrees.mono hget)).mono hset
  rcases analyze_stored a s.cache e.1 e.2 with ⟨v, hanswer, hcache⟩ | ⟨hanswer, hcache⟩
  · simp only [hcache, Cache.set_ttl, Cache.get_ttl, httl, Cache.stored_set,
      answers_of_answer hanswer, true_and]
    exact hread.update _ _
  · simp only [hcache, Cache.get_ttl, httl, answers_of_no_answer hanswer, true_and]
    exact hread

/-- In every run the cache holds the latest answers of the log, less expired ones. -/
theorem session_agrees (h : (analyzeRuns a ttl start).Run es s) :
    s.cache.ttl = ttl ∧
      Expiry.Agrees CacheEntry.expiresAt s.clock s.cache.stored (answers ttl s.log) := by
  refine h.invariant (I := fun _ s => s.cache.ttl = ttl ∧
    Expiry.Agrees CacheEntry.expiresAt s.clock s.cache.stored (answers ttl s.log)) ⟨rfl, .refl⟩ ?_
  intro es s e t _ ih hstep
  exact agrees_step ih.1 ih.2 hstep

/-- What the cache answers after a run, in terms of the log. -/
theorem get_iff_latestAnswer (h : (analyzeRuns a ttl start).Run es s) (key : CacheKey)
    (hclock : s.clock ≤ out.getAt) {v : LLMResponse} :
    (s.cache.get key out.getAt).1 = some v ↔
      ∃ setAt, latestAnswer key.string s.log = some (v, setAt) ∧ out.getAt ≤ setAt + ttl := by
  rw [Cache.get_fst, ((session_agrees h).2.mono hclock).live_eq, answers]
  cases latestAnswer key.string s.log with
  | none => simp
  | some answer =>
      obtain ⟨v', setAt⟩ := answer
      by_cases hlive : out.getAt ≤ setAt + ttl <;> simp [Expiry.live_some, hlive]

/-! ## After a failure -/

/-- The latest call under the text `k` failed. -/
def LastFailed (k : String) (log : List Call) : Prop :=
  ∃ c err, log.find? (fun c => c.key.string = k) = some c ∧ c.result = .err err

/-- After a failure nothing is stored under the failed call's key. -/
theorem stored_of_lastFailed (h : (analyzeRuns a ttl start).Run es s) {k : String}
    (hfailed : LastFailed k s.log) : s.cache.stored k = none := by
  refine h.invariant (I := fun _ s => LastFailed k s.log → s.cache.stored k = none) ?_ ?_ hfailed
  · intro ⟨c, err, hfind, _⟩
    cases hfind
  · intro es s e t _ ih hstep hfailed
    obtain ⟨_, _, rfl⟩ := step_eq hstep
    obtain ⟨c, err, hfind, herr⟩ := hfailed
    by_cases hk : e.1.string = k
    · subst hk
      have hc : c = logged a s.cache e.1 e.2 := by
        simpa [logged] using hfind.symm
      subst hc
      have hnone : (logged a s.cache e.1 e.2).answer = none := by simp [Call.answer, herr]
      rcases analyze_cases a s.cache e.1 e.2 with ⟨v, _, heq⟩ | ⟨hmiss, _⟩
      · simp [logged, heq] at herr
      · rcases analyze_stored a s.cache e.1 e.2 with ⟨v, hanswer, _⟩ | ⟨_, hcache⟩
        · rw [hanswer] at hnone
          cases hnone
        · rw [hcache]
          exact Cache.stored_get_of_none hmiss
    · have hold : s.cache.stored k = none := ih ⟨c, err, by simpa [logged, hk] using hfind, herr⟩
      have hread : (s.cache.get e.1 e.2.getAt).2.stored k = none := by
        rcases Cache.stored_get s.cache e.1 e.2.getAt with heq | ⟨_, _, _, heq⟩
        · rw [heq, hold]
        · rw [heq, Function.update_of_ne (Ne.symm hk), hold]
      rcases analyze_stored a s.cache e.1 e.2 with ⟨v, _, hcache⟩ | ⟨_, hcache⟩
      · simp only [hcache, Cache.stored_set, Function.update_of_ne (Ne.symm hk), hread]
      · simp only [hcache, hread]

/-! ## The contract -/

/-- After any run, a call asks nobody exactly when the latest answer that the model gave
    under its text is at most `ttl` old, and then it returns that answer; a call that
    fails leaves every entry but its own expired one, and the next call under its text
    asks Prometheus again. -/
theorem memoizes_successes (a : Analyzer) (ttl start : ℤ) {es : List (CacheKey × Outside)}
    {s : Session} (h : (analyzeRuns a ttl start).Run es s) (key : CacheKey) (out : Outside)
    (hclock : s.clock ≤ out.getAt) :
    ((a.analyze s.cache key out).contacts = [] ↔
      ∃ v setAt, latestAnswer key.string s.log = some (v, setAt) ∧ out.getAt ≤ setAt + ttl) ∧
    (∀ v setAt, latestAnswer key.string s.log = some (v, setAt) → out.getAt ≤ setAt + ttl →
      (a.analyze s.cache key out).result = .ok v) ∧
    (∀ err, (a.analyze s.cache key out).result = .err err → ∀ k,
      (a.analyze s.cache key out).cache.stored k = s.cache.stored k ∨
        k = key.string ∧ (a.analyze s.cache key out).cache.stored k = none ∧
          ∃ entry, s.cache.stored k = some entry ∧ entry.expiresAt < out.getAt) ∧
    (LastFailed key.string s.log →
      ∃ contact ∈ (a.analyze s.cache key out).contacts, contact.isPrometheus = true) := by
  refine ⟨?_, ?_, ?_, ?_⟩
  · rw [contacts_eq_nil_iff]
    simp only [get_iff_latestAnswer h key hclock]
  · intro v setAt hlatest hlive
    have hget : (s.cache.get key out.getAt).1 = some v :=
      (get_iff_latestAnswer h key hclock).mpr ⟨setAt, hlatest, hlive⟩
    rw [analyze_hit hget]
  · intro err herr k
    exact stored_of_no_answer (by simp [logged, Call.answer, herr]) k
  · intro hfailed
    have hnone : (s.cache.get key out.getAt).1 = none := by
      rw [Cache.get_fst, stored_of_lastFailed h hfailed]
      rfl
    rw [analyze_miss hnone]
    exact (misses _ _ _ _).prometheus

/-- An analyzer on a machine that runs in UTC. -/
def plainAnalyzer : Analyzer := ⟨"gpt-4o", 1000, ⟨"", ""⟩, .ofUTC⟩

/-- A call during which Prometheus has no data and the model says `content`. -/
def reply (getAt setAt : ℤ) (content : String) : Outside where
  getAt := getAt
  prometheus := ⟨.ok [], fun _ => getAt, fun _ _ => .ok .other⟩
  chat _ := .ok [content]
  setAt := setAt

/-- A call that does not find its answer stores the model's. -/
theorem answer_reply {cache : Cache LLMResponse} {getAt setAt : ℤ} (content : String)
    (hmiss : (cache.get key getAt).1 = none) :
    (logged a cache key (reply getAt setAt content)).answer =
      some (parseLLMResponse content, setAt) := by
  obtain ⟨ms, hms⟩ : ∃ ms, requestedMetrics (reply getAt setAt content).prometheus key.metrics =
      .ok ms := by
    unfold requestedMetrics
    split
    · exact ⟨[], rfl⟩
    · exact ⟨key.metrics, rfl⟩
  have hanalyze : a.analyze cache key (reply getAt setAt content) =
      a.analyzeMiss (cache.get key getAt).2 key (reply getAt setAt content) := analyze_miss hmiss
  have hmisses := misses a (cache.get key getAt).2 key (reply getAt setAt content)
  unfold logged
  rw [hanalyze]
  generalize a.analyzeMiss (cache.get key getAt).2 key (reply getAt setAt content) = outcome
    at hmisses ⊢
  cases hmisses with
  | collectFailed hcollect => simp [collectPrometheusData, hms] at hcollect
  | chatFailed _ hchat => cases hchat
  | noChoice _ hchat => cases hchat
  | answered _ hchat =>
      cases hchat
      simp [Call.answer, Contact.isChat, reply]

/-- The second of two calls within the TTL asks nobody. -/
theorem memoizes_successes_again : ∃ s,
    (analyzeRuns plainAnalyzer 10 0).Run [(epochKey "cpu?" ["up"], reply 0 1 "fine")] s ∧
    (plainAnalyzer.analyze s.cache (epochKey "cpu?" ["up"]) (reply 11 12 "bad")).contacts = [] := by
  have hrun : (analyzeRuns plainAnalyzer 10 0).Run
      [(epochKey "cpu?" ["up"], reply 0 1 "fine")].reverse _ := Machine.run_of_replay rfl
  have hcall := memoizes_successes plainAnalyzer 10 0 hrun (epochKey "cpu?" ["up"])
    (reply 11 12 "bad") (show (1 : ℤ) ≤ 11 by decide)
  exact ⟨_, hrun, hcall.1.mpr ⟨parseLLMResponse "fine", 1, rfl, by decide⟩⟩

end Chain
