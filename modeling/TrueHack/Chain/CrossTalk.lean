-- SUMMARY: Whose answer a cached call gets: exactly when the cache confuses two keys.
import TrueHack.Chain.AnalyzerRuns

/-!
# Cross-talk in the answer cache

A call served from the cache gets the answer of the latest call with the same
key text. That is a call with an equal key unless the two keys collide.
-/

namespace Chain

open Go

variable {a : Analyzer} {ttl start : ℤ} {es : List (CacheKey × Outside)} {s t : Session}
  {e : CacheKey × Outside}

/-- If the call `e` out of the session `s` is served from the cache, its answer was stored
    by an earlier call with an equal key. -/
def ServedByEqual (a : Analyzer) (_ : List (CacheKey × Outside)) (s : Session)
    (e : CacheKey × Outside) (_ : Session) : Prop :=
  (a.analyze s.cache e.1 e.2).contacts = [] →
    ∃ c ∈ s.log, ∃ v setAt, c.answer = some (v, setAt) ∧ c.key.equal e.1 = true ∧
      (a.analyze s.cache e.1 e.2).result = .ok v

/-- The key of the call `e` collides with no earlier one. -/
def CollidesWithNone (_ : List (CacheKey × Outside)) (s : Session) (e : CacheKey × Outside)
    (_ : Session) : Prop :=
  ∀ c ∈ s.log, ¬c.key.Collides e.1

/-- The latest answer under a text is the answer of some call under it. -/
theorem mem_of_latestAnswer {k : String} {log : List Call} {v : LLMResponse} {setAt : ℤ}
    (h : latestAnswer k log = some (v, setAt)) :
    ∃ c ∈ log, c.key.string = k ∧ c.answer = some (v, setAt) := by
  induction log with
  | nil => cases h
  | cons c log ih =>
      by_cases hk : c.key.string = k
      · cases hanswer : c.answer with
        | some answer =>
            simp only [latestAnswer, hk, if_true, hanswer] at h
            exact ⟨c, List.mem_cons_self, hk, by rw [hanswer, h]⟩
        | none =>
            simp only [latestAnswer, hk, if_true, hanswer] at h
            obtain ⟨c', hmem, hc'⟩ := ih h
            exact ⟨c', List.mem_cons_of_mem _ hmem, hc'⟩
      · simp only [latestAnswer, hk, if_false] at h
        obtain ⟨c', hmem, hc'⟩ := ih h
        exact ⟨c', List.mem_cons_of_mem _ hmem, hc'⟩

/-- The keys in the log are those of the run. -/
theorem mem_keys_of_mem_log (h : (analyzeRuns a ttl start).Run es s) {c : Call}
    (hc : c ∈ s.log) : ∃ e ∈ es, e.1 = c.key := by
  refine h.invariant (I := fun es s => ∀ c ∈ s.log, ∃ e ∈ es, e.1 = c.key) ?_ ?_ c hc
  · intro c hc
    cases hc
  · intro es s e t _ ih hstep c hc
    obtain ⟨_, _, rfl⟩ := step_eq hstep
    rcases List.mem_cons.mp hc with rfl | hc
    · exact ⟨e, List.mem_cons_self, rfl⟩
    · obtain ⟨e', hmem, hkey⟩ := ih c hc
      exact ⟨e', List.mem_cons_of_mem _ hmem, hkey⟩

/-- A call whose key collides with no earlier one is served an equal key's answer. -/
theorem servedByEqual (hrun : (analyzeRuns a ttl start).Run es s)
    (hstep : (analyzeRuns a ttl start).step s e = some t)
    (hlog : ∀ c ∈ s.log, c.key.Parsed a.loc) (hkey : e.1.Parsed a.loc)
    (h : CollidesWithNone es s e t) : ServedByEqual a es s e t := by
  intro hhit
  obtain ⟨v, hget⟩ := contacts_eq_nil_iff.mp hhit
  obtain ⟨setAt, hlatest, _⟩ := (get_iff_latestAnswer hrun e.1 (step_eq hstep).1).mp hget
  obtain ⟨c, hmem, htext, hanswer⟩ := mem_of_latestAnswer hlatest
  have hequal := CacheKey.equal_or_collides (hlog c hmem) hkey htext
  exact ⟨c, hmem, v, setAt, hanswer, hequal.resolve_right (h c hmem), by rw [analyze_hit hget]⟩

/-- Two keys with parsed times share a text without being equal exactly when they
    collide, and in every run in which no call's key collides with an earlier one, every
    call served from the cache gets the answer of an earlier call with an equal key. -/
theorem no_cross_talk_iff (a : Analyzer) (ttl start : ℤ) :
    (∀ k₁ k₂ : CacheKey, k₁.Parsed a.loc → k₂.Parsed a.loc →
      ((k₁.string = k₂.string → k₁.equal k₂ = true) ↔ ¬k₁.Collides k₂)) ∧
    ∀ es : List (CacheKey × Outside), (∀ e ∈ es, e.1.Parsed a.loc) →
      (analyzeRuns a ttl start).Every CollidesWithNone es →
      (analyzeRuns a ttl start).Every (ServedByEqual a) es := by
  refine ⟨fun k₁ k₂ h₁ h₂ => CacheKey.string_injective_iff h₁ h₂, ?_⟩
  intro es hparsed hapart later e past s t heq hrun hstep
  have hmem {e' : CacheKey × Outside} (h : e' ∈ e :: past) : e' ∈ es := by
    rw [heq]
    exact List.mem_append_right _ h
  refine servedByEqual hrun hstep ?_ (hparsed e (hmem List.mem_cons_self))
    (hapart later e past s t heq hrun hstep)
  intro c hc
  obtain ⟨e', hpast, hkey⟩ := mem_keys_of_mem_log hrun hc
  rw [← hkey]
  exact hparsed e' (hmem (List.mem_cons_of_mem _ hpast))

theorem epochKey_parsed (question : String) (metrics : List String) :
    (epochKey question metrics).Parsed .ofUTC := by
  have hstart : parseRFC3339 .ofUTC "1970-01-01T00:00:00Z" = some ⟨0, 0, .utc, by decide⟩ := by
    decide
  have hend : parseRFC3339 .ofUTC "1970-01-01T00:00:01Z" = some ⟨1, 0, .utc, by decide⟩ := by
    decide
  exact ⟨⟨_, hstart⟩, ⟨_, hend⟩⟩

/-- A question swallows a time only if the questions differ. -/
theorem epochKey_not_collides {question : String} {ms ms' : List String}
    (h : ms ≠ ms' → (epochKey question ms).metricsText ≠ (epochKey question ms').metricsText) :
    ¬(epochKey question ms).Collides (epochKey question ms') := by
  intro hcollides
  rcases hcollides with hrecut | hswallows | hswallows
  · exact h hrecut.2.2.2.1 hrecut.2.2.2.2
  · exact hswallows.question_ne rfl
  · exact hswallows.question_ne rfl

/-- Two calls with one key. -/
def repeatEvents : List (CacheKey × Outside) :=
  [(epochKey "cpu?" ["up"], reply 2 3 "bad"), (epochKey "cpu?" ["up"], reply 0 1 "fine")]

/-- Two lists of metrics with different texts are told apart, and a repeated call gets
    its own answer. -/
theorem no_cross_talk_repeat :
    ((epochKey "cpu?" ["up"]).string = (epochKey "cpu?" ["load"]).string →
      (epochKey "cpu?" ["up"]).equal (epochKey "cpu?" ["load"]) = true) ∧
    (analyzeRuns plainAnalyzer 10 0).Every (ServedByEqual plainAnalyzer) repeatEvents := by
  have hkey : ∀ e ∈ repeatEvents, e.1 = epochKey "cpu?" ["up"] := by
    simp [repeatEvents]
  refine ⟨?_, (no_cross_talk_iff plainAnalyzer 10 0).2 _ ?_ ?_⟩
  · refine ((no_cross_talk_iff plainAnalyzer 10 0).1 _ _ (epochKey_parsed _ _) (epochKey_parsed _ _)).mpr ?_
    exact epochKey_not_collides fun _ => by decide
  · intro e he
    rw [hkey e he]
    exact epochKey_parsed _ _
  · intro later e past s t heq hrun _ c hc
    obtain ⟨e', hpast, hlogged⟩ := mem_keys_of_mem_log hrun hc
    have hmem {e' : CacheKey × Outside} (h : e' ∈ e :: past) : e' ∈ repeatEvents := by
      rw [heq]
      exact List.mem_append_right _ h
    rw [hkey e (hmem List.mem_cons_self), ← hlogged, hkey e' (hmem (List.mem_cons_of_mem _ hpast))]
    exact epochKey_not_collides fun hne => absurd rfl hne

/-- The metrics `up` and `time`, and the metric `uptime`, make one key text: the second
    question gets the first one's answer. -/
theorem cross_talk :
    ¬(∀ k₁ k₂ : CacheKey, k₁.Parsed .ofUTC → k₂.Parsed .ofUTC →
      k₁.string = k₂.string → k₁.equal k₂ = true) ∧
    ¬∀ es : List (CacheKey × Outside), (∀ e ∈ es, e.1.Parsed .ofUTC) →
      (analyzeRuns plainAnalyzer 10 0).Every (ServedByEqual plainAnalyzer) es := by
  have hdiffer : (epochKey "cpu?" ["up", "time"]).equal (epochKey "cpu?" ["uptime"]) = false := by
    decide
  refine ⟨?_, ?_⟩
  · intro h
    have hequal := h (epochKey "cpu?" ["up", "time"]) (epochKey "cpu?" ["uptime"])
      (epochKey_parsed _ _) (epochKey_parsed _ _) (by decide)
    rw [hdiffer] at hequal
    cases hequal
  · intro h
    let first : CacheKey × Outside := (epochKey "cpu?" ["up", "time"], reply 0 1 "fine")
    let second : CacheKey × Outside := (epochKey "cpu?" ["uptime"], reply 2 3 "bad")
    let s : Session := ⟨(plainAnalyzer.analyze (.new 10) first.1 first.2).cache, 1,
      [logged plainAnalyzer (.new 10) first.1 first.2]⟩
    have hrun : (analyzeRuns plainAnalyzer 10 0).Run [first] s := .step .init rfl
    have hparsed : ∀ e ∈ [second, first], e.1.Parsed .ofUTC := by
      intro e he
      simp only [List.mem_cons, List.not_mem_nil, or_false] at he
      rcases he with rfl | rfl
      · exact epochKey_parsed _ _
      · exact epochKey_parsed _ _
    have hserved := h [second, first] hparsed [] second [first] s _ rfl hrun rfl
    have hclock : s.clock ≤ second.2.getAt := by decide
    have htext : first.1.string = second.1.string := by decide
    have hanswer : (logged plainAnalyzer (.new 10) first.1 first.2).answer =
        some (parseLLMResponse "fine", 1) := answer_reply "fine" rfl
    have hlatest : latestAnswer second.1.string s.log = some (parseLLMResponse "fine", 1) := by
      simp only [s, latestAnswer, logged, htext, if_true]
      simp only [logged] at hanswer
      rw [hanswer]
    have hget := (get_iff_latestAnswer hrun second.1 hclock).mpr ⟨1, hlatest, by decide⟩
    obtain ⟨c, hc, _, _, _, hequal, _⟩ := hserved (contacts_eq_nil_iff.mpr ⟨_, hget⟩)
    obtain rfl := List.mem_singleton.mp hc
    have hfalse := hdiffer.symm.trans hequal
    cases hfalse

end Chain
