-- SUMMARY: What concurrent requests are answered with: whose answer it is, how old it can be, and when a request asks again.
import TrueHack.Chain.CrossTalk
import TrueHack.Server.Threads

/-!
# Answers under concurrency

Two requests for one thing may both ask the model, and a late delete may throw a
fresh answer away. What a client gets is still the answer to a question with the
text of its own, asked by this request or stored not longer ago than an answer
lives.
-/

namespace Server

open Go Collector Chain SharedObject

variable {a : Analyzer} {ttl start now : ℤ} {reqs : Requests} {i j : ℕ} {key : CacheKey}
  {c c' : Serving} {h : List Section} {o : LockedSection LLMResponse} {v : LLMResponse} {k : String}

/-! ## Stores -/

/-- Who stored what under the text `k`, and when, if that is what the section does. -/
def storeOf (k : String) (p : Section) : Option (ℕ × LLMResponse × ℤ) :=
  match p.op with
  | .set key v => if key.string = k then some (p.call, v, p.choice) else none
  | .getRead _ | .getDelete _ | .cleanup => none

/-- The latest store under the text `k`. -/
def latestStore (k : String) (h : List Section) : Option (ℕ × LLMResponse × ℤ) :=
  h.findSome? (storeOf k)

theorem latestStore_cons {p : Section} :
    latestStore k (p :: h) = (storeOf k p).or (latestStore k h) := by
  rw [latestStore, List.findSome?_cons]
  cases storeOf k p <;> rfl

/-- Under every text there is what was stored last, or nothing. -/
def StoresLatest (ttl : ℤ) (h : List Section) (c : Serving) : Prop :=
  c.shared.cache.ttl = ttl ∧ ∀ k entry, c.shared.cache.stored k = some entry →
    ∃ j, latestStore k h = some (j, entry.value, entry.expiresAt - ttl)

theorem storesLatest (hsections : Sections a ttl start reqs h c) : StoresLatest ttl h c := by
  refine sections_induction (I := StoresLatest ttl) ⟨rfl, ?_⟩ ?_ ?_ hsections
  · intro k entry hstored
    cases hstored
  · intro h c i message _ ih _ _
    simpa [StoresLatest] using ih
  · intro h c i o now c' _ ih _ hproceeds
    obtain ⟨httl, hlatest⟩ := ih
    obtain ⟨key, rfl, hshared⟩ | ⟨key, rfl, hshared⟩ | ⟨key, v, rfl, hshared⟩ := hproceeds.shared
    · rw [StoresLatest, hshared]
      exact ⟨httl, by simpa [latestStore_cons, storeOf] using hlatest⟩
    · rw [StoresLatest, hshared]
      refine ⟨httl, fun k entry hstored => ?_⟩
      rw [Cache.stored_getDelete] at hstored
      by_cases hk : k = key.string
      · subst hk
        simp at hstored
      · rw [Function.update_of_ne hk] at hstored
        simpa [latestStore_cons, storeOf] using hlatest k entry hstored
    · rw [StoresLatest, hshared]
      refine ⟨httl, fun k entry hstored => ?_⟩
      rw [Cache.stored_set, httl] at hstored
      by_cases hk : k = key.string
      · subst hk
        rw [Function.update_self, Option.some.injEq] at hstored
        subst hstored
        exact ⟨i, by simp [latestStore_cons, storeOf]⟩
      · rw [Function.update_of_ne hk] at hstored
        simpa [latestStore_cons, storeOf, Ne.symm hk] using hlatest k entry hstored

/-- Every store is of an answer that its request got by asking. -/
theorem answered_of_store (hsections : Sections a ttl start reqs h c) {t : ℤ}
    (hmem : ⟨i, .set key v, t⟩ ∈ h) : Accepts a reqs i key ∧ Answered a reqs i key v := by
  refine sections_induction (I := fun h _ => ∀ i key v t, ⟨i, .set key v, t⟩ ∈ h →
    Accepts a reqs i key ∧ Answered a reqs i key v) ?_ ?_ ?_ hsections i key v t hmem
  · intro i key v t hmem
    cases hmem
  · intro h c i message _ ih _ _
    exact ih
  · intro h c i o now c' _ ih _ hproceeds j key v t hmem
    rcases List.mem_cons.mp hmem with heq | hold
    · obtain ⟨rfl, rfl, rfl⟩ := Performed.mk.inj heq
      cases hproceeds with
      | store _ haccepts hanswered => exact ⟨haccepts, hanswered⟩
    · exact ih j key v t hold

/-- The latest store is a store. -/
theorem exists_store {t : ℤ} (hlatest : latestStore k h = some (j, v, t)) :
    ∃ key : CacheKey, key.string = k ∧ ⟨j, .set key v, t⟩ ∈ h := by
  obtain ⟨⟨call, op, choice⟩, hmem, hstore⟩ := List.exists_of_findSome?_eq_some hlatest
  cases op with
  | set key v' =>
      obtain ⟨hk, heq⟩ := Option.ite_none_right_eq_some.mp hstore
      cases heq
      exact ⟨key, hk, hmem⟩
  | getRead key => cases hstore
  | getDelete key => cases hstore
  | cleanup => cases hstore

/-! ## Whose answer it is -/

/-- Where the answer `v` of request `i` comes from. -/
inductive Origin (a : Analyzer) (ttl : ℤ) (reqs : Requests) (h : List Section) (i : ℕ)
    (v : LLMResponse) : Prop where
  /-- The request asked, and stored its answer. -/
  | asked {key : CacheKey} {setAt : ℤ} (haccepts : Accepts a reqs i key)
      (hanswered : Answered a reqs i key v) (hmem : ⟨i, .set key v, setAt⟩ ∈ h)
  /-- When the request read the cache, the latest store under its text was the answer of
      request `j`, and not expired. -/
  | cached {key key' : CacheKey} {j : ℕ} {readAt setAt : ℤ} {later earlier : List Section}
      (haccepts : Accepts a reqs i key)
      (hsplit : h = later ++ ⟨i, .getRead key, readAt⟩ :: earlier)
      (hlatest : latestStore key.string earlier = some (j, v, setAt)) (hlive : readAt ≤ setAt + ttl)
      (haccepts' : Accepts a reqs j key') (hanswered : Answered a reqs j key' v)
      (hsame : key'.equal key = true ∨ key'.Collides key)

theorem Origin.cons {p : Section} (horigin : Origin a ttl reqs h i v) :
    Origin a ttl reqs (p :: h) i v := by
  cases horigin with
  | asked haccepts hanswered hmem =>
      exact .asked haccepts hanswered (List.mem_cons_of_mem _ hmem)
  | cached haccepts hsplit hlatest hlive haccepts' hanswered hsame =>
      exact .cached haccepts (by rw [hsplit, List.cons_append]) hlatest hlive haccepts' hanswered
        hsame

/-- An entry that is not expired is the answer of a request with the same text. -/
theorem origin_of_hit {entry : CacheEntry LLMResponse} (hsections : Sections a ttl start reqs h c)
    (haccepts : Accepts a reqs i key) (hstored : c.shared.cache.stored key.string = some entry)
    (hlive : now ≤ entry.expiresAt) :
    Origin a ttl reqs (⟨i, .getRead key, now⟩ :: h) i entry.value := by
  obtain ⟨j, hlatest⟩ := (storesLatest hsections).2 key.string entry hstored
  obtain ⟨key', htext, hmem⟩ := exists_store hlatest
  obtain ⟨haccepts', hanswered⟩ := answered_of_store hsections hmem
  have hsame := CacheKey.equal_or_collides (parsed_of_accepted haccepts')
    (parsed_of_accepted haccepts) htext
  exact .cached haccepts (List.nil_append _).symm hlatest (by omega) haccepts' hanswered hsame

/-- Why request `i` gets a reply. -/
inductive Cause (a : Analyzer) (ttl : ℤ) (reqs : Requests) (h : List Section) (i : ℕ) :
    Response → Prop where
  | rejected {message : String} (hrejected : parseRequest a.loc (reqs i).1 = .error message) :
      Cause a ttl reqs h i (.error 400 message)
  | failed {key : CacheKey} {err : String} (haccepts : Accepts a reqs i key)
      (hask : ask a key (reqs i).2 = .err err) :
      Cause a ttl reqs h i (.error 500 s!"Analysis failed: {err}")
  | panicked {key : CacheKey} (haccepts : Accepts a reqs i key)
      (hask : ask a key (reqs i).2 = .panic) : Cause a ttl reqs h i .aborted
  | answered {v : LLMResponse} (horigin : Origin a ttl reqs h i v) :
      Cause a ttl reqs h i (.json v)

theorem Cause.cons {p : Section} {response : Response} (hcause : Cause a ttl reqs h i response) :
    Cause a ttl reqs (p :: h) i response := by
  cases hcause with
  | rejected hrejected => exact .rejected hrejected
  | failed haccepts hask => exact .failed haccepts hask
  | panicked haccepts hask => exact .panicked haccepts hask
  | answered horigin => exact .answered horigin.cons

/-- A request that has asked replies at once if it got no answer. -/
theorem cause_of_asked {response : Response} (haccepts : Accepts a reqs i key)
    (hret : handleAsked key (ask a key (reqs i).2) = .ret response) :
    Cause a ttl reqs h i response := by
  cases hask : ask a key (reqs i).2 with
  | ok v =>
      rw [hask] at hret
      cases hret
  | err err =>
      rw [hask] at hret
      cases hret
      exact .failed haccepts hask
  | panic =>
      rw [hask] at hret
      cases hret
      exact .panicked haccepts hask

/-- Every reply has its cause in the request and in the sections that led to it. -/
theorem cause {response : Response} (hsections : Sections a ttl start reqs h c)
    (hreply : (i, response) ∈ c.replies) : Cause a ttl reqs h i response := by
  refine sections_induction (I := fun h c => ∀ i response, (i, response) ∈ c.replies →
    Cause a ttl reqs h i response) ?_ ?_ ?_ hsections i response hreply
  · intro i response hreply
    cases hreply
  · intro h c i message _ ih _ hrejected j response hreply
    rcases Config.mem_settle_replies.mp hreply with hold | ⟨rfl, hret⟩
    · exact ih j response hold
    · cases hret
      exact .rejected hrejected
  · intro h c i o now c' hsections ih _ hproceeds j response hreply
    cases hproceeds with
    | hit _ haccepts hstored hlive =>
        rcases Config.mem_settle_replies.mp hreply with hold | ⟨rfl, hret⟩
        · exact (ih j response hold).cons
        · cases hret
          exact .answered (origin_of_hit hsections haccepts hstored hlive)
    | missing _ haccepts =>
        rcases Config.mem_settle_replies.mp hreply with hold | ⟨rfl, hret⟩
        · exact (ih j response hold).cons
        · exact cause_of_asked haccepts hret
    | expired =>
        rcases Config.mem_settle_replies.mp hreply with hold | ⟨_, hret⟩
        · exact (ih j response hold).cons
        · cases hret
    | delete _ haccepts =>
        rcases Config.mem_settle_replies.mp hreply with hold | ⟨rfl, hret⟩
        · exact (ih j response hold).cons
        · exact cause_of_asked haccepts hret
    | store _ haccepts hanswered =>
        rcases Config.mem_settle_replies.mp hreply with hold | ⟨rfl, hret⟩
        · exact (ih j response hold).cons
        · cases hret
          exact .answered (.asked haccepts hanswered List.mem_cons_self)

/-- No request is replied to twice, and every reply has its cause. -/
theorem replies_explained (hsections : Sections a ttl start reqs h c) :
    (c.replies.map Prod.fst).Nodup ∧
      ∀ i response, (i, response) ∈ c.replies → Cause a ttl reqs h i response := by
  obtain ⟨es, hrun⟩ := hsections.exists_run
  exact ⟨replies_nodup hrun, fun i response hreply => cause hsections hreply⟩

/-! ## When a request asks again -/

/-- Between the read and the delete section of a request, another one stored an answer
    under the text `k` of both. -/
def Straddled (k : String) (h : List Section) : Prop :=
  ∃ d key deleteAt j key' v setAt readAt, key.string = k ∧ key'.string = k ∧
    [⟨d, .getDelete key, deleteAt⟩, ⟨j, .set key' v, setAt⟩, ⟨d, .getRead key, readAt⟩].Sublist h

theorem Straddled.cons {p : Section} (hstraddled : Straddled k h) : Straddled k (p :: h) := by
  obtain ⟨d, key, deleteAt, j, key', v, setAt, readAt, htext, htext', hsub⟩ := hstraddled
  exact ⟨d, key, deleteAt, j, key', v, setAt, readAt, htext, htext', hsub.cons p⟩

/-- A request that is about to delete under `k` has found nothing alive there. -/
def FoundExpired (a : Analyzer) (ttl : ℤ) (reqs : Requests) (k : String) (h : List Section)
    (c : Serving) : Prop :=
  ∀ d key, c.thread d = .running (handleFound a key (reqs d).2 .expired) → key.string = k →
    ∃ later readAt earlier, h = later ++ ⟨d, .getRead key, readAt⟩ :: earlier ∧
      readAt ≤ c.shared.clock ∧
      ∀ j v setAt, latestStore k earlier = some (j, v, setAt) → setAt + ttl < readAt

/-- The latest store under `k` is still there, unless it has expired. -/
def Remembers (ttl : ℤ) (k : String) (h : List Section) (c : Serving) : Prop :=
  ∀ j v setAt, latestStore k h = some (j, v, setAt) →
    c.shared.cache.stored k = some ⟨v, setAt + ttl⟩ ∨ setAt + ttl < c.shared.clock

/-- A request turns to its delete section when it has read an expired entry. -/
theorem Proceeds.deleting (hproceeds : Proceeds a reqs i now c o c')
    (hthread : c'.thread i = .running (handleFound a key out .expired)) : o = .getRead key ∧
      ∃ entry, c.shared.cache.stored key.string = some entry ∧ entry.expiresAt < now := by
  have hasked {key' : CacheKey} {c : Serving}
      (hasked : (c.settle i (handleAsked key' (ask a key' (reqs i).2))).thread i =
        .running (handleFound a key out .expired)) : False := by
    cases hask : ask a key' (reqs i).2 with
    | ok v => simp [hask, handleAsked, handleFound] at hasked
    | err err => simp [hask, handleAsked] at hasked
    | panic => simp [hask, handleAsked] at hasked
  cases hproceeds with
  | hit => simp at hthread
  | missing => exact (hasked hthread).elim
  | @expired key' entry _ _ hstored hexpired =>
      have hsame := Thread.running.inj (Config.settle_op_thread_self.symm.trans hthread)
      obtain rfl : key' = key := LockedSection.getDelete.inj (Prog.op.inj hsame).1
      exact ⟨rfl, entry, hstored, hexpired⟩
  | delete => exact (hasked hthread).elim
  | store => simp at hthread

theorem foundExpired (hsections : Sections a ttl start reqs h c) :
    FoundExpired a ttl reqs k h c := by
  refine sections_induction (I := FoundExpired a ttl reqs k) ?_ ?_ ?_ hsections
  · intro d key hthread
    cases hthread
  · intro h c i message _ ih _ _ d key hthread htext
    by_cases hij : d = i
    · subst hij
      simp at hthread
    · rw [Config.settle_shared]
      exact ih d key ((Config.settle_thread_ne hij).symm.trans hthread) htext
  · intro h c i o now c' hsections ih hclock hproceeds d key hthread htext
    have hnow : c'.shared.clock = now := by
      obtain ⟨_, _, hshared⟩ | ⟨_, _, hshared⟩ | ⟨_, _, _, hshared⟩ := hproceeds.shared <;> rw [hshared]
    rw [hnow]
    by_cases hij : d = i
    · subst hij
      obtain ⟨rfl, entry, hstored, hexpired⟩ := hproceeds.deleting hthread
      refine ⟨[], now, h, rfl, le_refl _, fun j v setAt hlatest => ?_⟩
      obtain ⟨j', hlatest'⟩ := (storesLatest hsections).2 key.string entry hstored
      rw [htext, hlatest, Option.some.injEq, Prod.mk.injEq, Prod.mk.injEq] at hlatest'
      omega
    · obtain ⟨later, readAt, earlier, hsplit, hle, hstale⟩ :=
        ih d key ((hproceeds.thread_ne hij).symm.trans hthread) htext
      exact ⟨⟨i, o, now⟩ :: later, readAt, earlier, by rw [hsplit, List.cons_append],
        hle.trans hclock, hstale⟩

/-- A delete that straddles no store removes nothing alive. -/
theorem expired_of_delete (hsections : Sections a ttl start reqs h c)
    (hthread : c.thread i = .running (handleFound a key (reqs i).2 .expired))
    (hstraddled : ¬Straddled key.string (⟨i, .getDelete key, now⟩ :: h)) {t : ℤ}
    (hlatest : latestStore key.string h = some (j, v, t)) : t + ttl < c.shared.clock := by
  obtain ⟨later, readAt, earlier, rfl, hle, hstale⟩ := foundExpired hsections i key hthread rfl
  have hlater : latestStore key.string later = none := by
    rw [Option.eq_none_iff_forall_ne_some]
    intro ⟨j', v', t'⟩ hlatest'
    obtain ⟨key', htext, hmem⟩ := exists_store hlatest'
    refine hstraddled ⟨i, key, now, j', key', v', t', readAt, rfl, htext, ?_⟩
    exact .cons_cons _ ((List.singleton_sublist.mpr hmem).append
      (List.singleton_sublist.mpr List.mem_cons_self))
  have hearlier : latestStore key.string earlier = some (j, v, t) := by
    rw [latestStore, List.findSome?_append, ← latestStore, hlater, Option.none_or,
      List.findSome?_cons] at hlatest
    exact hlatest
  exact lt_of_lt_of_le (hstale j v t hearlier) hle

theorem remembers (hsections : Sections a ttl start reqs h c) (hstraddled : ¬Straddled k h) :
    Remembers ttl k h c := by
  refine sections_induction (I := fun h c => ¬Straddled k h → Remembers ttl k h c) ?_ ?_ ?_
    hsections hstraddled
  · intro _ j v setAt hlatest
    cases hlatest
  · intro h c i message _ ih _ _ hstraddled
    simpa [Remembers] using ih hstraddled
  · intro h c i o now c' hsections ih hclock hproceeds hstraddled j v setAt hlatest
    have hold := ih fun h => hstraddled h.cons
    have httl := (storesLatest hsections).1
    obtain ⟨key, rfl, hshared⟩ | ⟨key, rfl, hshared⟩ | ⟨key, v', rfl, hshared⟩ := hproceeds.shared
    · rw [hshared]
      exact (hold j v setAt hlatest).imp_right fun hexpired => lt_of_lt_of_le hexpired hclock
    · rw [hshared, Cache.stored_getDelete]
      by_cases hk : k = key.string
      · subst hk
        cases hproceeds with
        | delete hthread =>
            exact .inr (lt_of_lt_of_le (expired_of_delete hsections hthread hstraddled hlatest) hclock)
      · rw [Function.update_of_ne hk]
        exact (hold j v setAt hlatest).imp_right fun hexpired => lt_of_lt_of_le hexpired hclock
    · rw [hshared, Cache.stored_set, httl]
      rw [latestStore_cons] at hlatest
      by_cases hk : k = key.string
      · subst hk
        rw [Function.update_self]
        simp only [storeOf, if_true, Option.some_or, Option.some.injEq, Prod.mk.injEq] at hlatest
        obtain ⟨_, rfl, rfl⟩ := hlatest
        exact .inl rfl
      · rw [Function.update_of_ne hk]
        have hlatest' : latestStore k h = some (j, v, setAt) := by
          simpa [storeOf, Ne.symm hk] using hlatest
        exact (hold j v setAt hlatest').imp_right fun hexpired => lt_of_lt_of_le hexpired hclock

/-- A request that is accepted begins by reading the cache. -/
theorem read_program (hfresh : c.thread i = .fresh) (haccepts : Accepts a reqs i key) :
    (c.thread i).program (handlers a reqs i) =
      some (.op (.getRead key) (handleFound a key (reqs i).2)) := by
  rw [hfresh, Thread.program, handlers, handler,
    show parseRequest a.loc (reqs i).1 = .ok key from haccepts]

/-- The state after the read section of a request. -/
def afterRead (a : Analyzer) (reqs : Requests) (i : ℕ) (key : CacheKey) (now : ℤ) (c : Serving) :
    Serving :=
  (c.withCache c.shared.cache now).settle i
    (handleFound a key (reqs i).2 (c.shared.cache.getRead key now))

theorem sections_read (hsections : Sections a ttl start reqs h c) (hfresh : c.thread i = .fresh)
    (haccepts : Accepts a reqs i key) (hclock : c.shared.clock ≤ now) :
    Sections a ttl start reqs (⟨i, .getRead key, now⟩ :: h) (afterRead a reqs i key now c) :=
  .op hsections (read_program hfresh haccepts) (if_pos hclock)

theorem step_read (ttl start : ℤ) (hfresh : c.thread i = .fresh) (haccepts : Accepts a reqs i key)
    (hclock : c.shared.clock ≤ now) :
    (serve a ttl start reqs).step c (i, now) = some (afterRead a reqs i key now c) :=
  step_of_op (read_program hfresh haccepts) (if_pos hclock)

/-- A request that has to ask is not answered in its read section. -/
theorem not_answered_asked {c : Serving} :
    (c.settle i (handleAsked key (ask a key out))).replies ≠ c.replies ++ [(i, .json v)] := by
  cases hask : ask a key out with
  | ok v => simp [handleAsked]
  | err err => simp [handleAsked]
  | panic => simp [handleAsked]

/-- As long as no delete has straddled a store of its text, a request is answered from the
    cache exactly when the latest store under its text has not expired, and with what was
    stored. -/
theorem answered_from_cache_iff (hsections : Sections a ttl start reqs h c)
    (hstraddled : ¬Straddled key.string h) (hfresh : c.thread i = .fresh)
    (haccepts : Accepts a reqs i key) (hclock : c.shared.clock ≤ now) :
    ∃ c', (serve a ttl start reqs).step c (i, now) = some c' ∧
      ∀ v, c'.replies = c.replies ++ [(i, .json v)] ↔
        ∃ j setAt, latestStore key.string h = some (j, v, setAt) ∧ now ≤ setAt + ttl := by
  refine ⟨_, step_read ttl start hfresh haccepts hclock, fun v => ?_⟩
  unfold afterRead
  have hremembers := remembers hsections hstraddled
  obtain ⟨hread, hstored⟩ | ⟨entry, hread, hstored, hexpired⟩ | ⟨entry, hread, hstored, hlive⟩ :=
    Cache.getRead_cases c.shared.cache key now
  · rw [hread]
    refine iff_of_false not_answered_asked fun ⟨j, setAt, hlatest, hlive⟩ => ?_
    rcases hremembers j v setAt hlatest with hkept | hexpired
    · rw [hstored] at hkept
      cases hkept
    · omega
  · rw [hread]
    refine iff_of_false (by simp [handleFound]) fun ⟨j, setAt, hlatest, hlive⟩ => ?_
    rcases hremembers j v setAt hlatest with hkept | hexpired'
    · obtain rfl := Option.some.inj (hstored.symm.trans hkept)
      dsimp only at hexpired
      omega
    · omega
  · rw [hread]
    obtain ⟨j, hlatest⟩ := (storesLatest hsections).2 key.string entry hstored
    simp only [handleFound, Config.settle_ret_replies, withCache_replies, List.append_cancel_left_eq,
      List.cons.injEq, Prod.mk.injEq, Response.json.injEq, true_and, and_true, hlatest,
      Option.some.injEq]
    constructor
    · rintro rfl
      exact ⟨j, entry.expiresAt - ttl, ⟨rfl, rfl, rfl⟩, by omega⟩
    · rintro ⟨j', setAt, ⟨_, hv, _⟩, _⟩
      exact hv

/-! ## Two requests -/

/-- Two requests for one thing; the model would answer the second one differently. -/
def twoRequests : Requests := fun i => (epochBody, reply 0 0 (if i = 0 then "fine" else "bad"))

/-- What the first request does. -/
def firstSections : List Section :=
  [⟨0, .set (epochKey "cpu?" ["up"]) (parseLLMResponse "fine"), 1⟩,
    ⟨0, .getRead (epochKey "cpu?" ["up"]), 0⟩]

theorem twoRequests_accepts (i : ℕ) :
    Accepts plainAnalyzer twoRequests i (epochKey "cpu?" ["up"]) := epochBody_accepted

/-- The first request has stored its answer, and the second one has not begun. -/
theorem exists_first : ∃ c, Sections plainAnalyzer 10 0 twoRequests firstSections c ∧
    c.thread 1 = .fresh ∧ c.shared.clock = 1 ∧
    c.shared.cache.getRead (epochKey "cpu?" ["up"]) 11 = .live (parseLLMResponse "fine") := by
  have hread : Sections plainAnalyzer 10 0 twoRequests [⟨0, .getRead (epochKey "cpu?" ["up"]), 0⟩]
    _ := sections_read .init rfl (twoRequests_accepts 0) (le_refl _)
  have hset : Sections plainAnalyzer 10 0 twoRequests firstSections _ := .op hread rfl rfl
  exact ⟨_, hset, rfl, rfl, rfl⟩

/-- The second request is answered with what the first one stored. -/
theorem answered_from_cache_two : ∃ c c', Sections plainAnalyzer 10 0 twoRequests firstSections c ∧
    (serve plainAnalyzer 10 0 twoRequests).step c (1, 11) = some c' ∧
    c'.replies = c.replies ++ [(1, .json (parseLLMResponse "fine"))] := by
  obtain ⟨c, hsections, hfresh, hclock, _⟩ := exists_first
  have hapart : ¬Straddled (epochKey "cpu?" ["up"]).string firstSections := by
    intro ⟨d, key, deleteAt, j, key', v, setAt, readAt, _, _, hsub⟩
    have hdelete := hsub.subset List.mem_cons_self
    simp [firstSections] at hdelete
  obtain ⟨c', hstep, hiff⟩ := answered_from_cache_iff hsections hapart hfresh
    (twoRequests_accepts 1) (show c.shared.clock ≤ 11 by rw [hclock]; decide)
  refine ⟨c, c', hsections, hstep, (hiff _).mpr ⟨0, 1, ?_, by decide⟩⟩
  simp [latestStore, firstSections, storeOf]

/-- That answer has its origin in the sections of the first request. -/
theorem replies_explained_two : ∃ c, Sections plainAnalyzer 10 0 twoRequests
      (⟨1, .getRead (epochKey "cpu?" ["up"]), 11⟩ :: firstSections) c ∧
    Cause plainAnalyzer 10 twoRequests
      (⟨1, .getRead (epochKey "cpu?" ["up"]), 11⟩ :: firstSections) 1
      (.json (parseLLMResponse "fine")) := by
  obtain ⟨c, hsections, hfresh, hclock, hlive⟩ := exists_first
  have hhit := sections_read hsections hfresh (twoRequests_accepts 1)
    (show c.shared.clock ≤ 11 by rw [hclock]; decide)
  refine ⟨_, hhit, (replies_explained hhit).2 1 _ ?_⟩
  rw [afterRead, hlive]
  exact List.mem_append_right _ (List.mem_singleton_self _)

end Server
