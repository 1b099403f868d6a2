-- SUMMARY: The page and the server together: whose answer is on show, from the click over the cache to the model and back.
import TrueHack.Page.Panel
import TrueHack.Server.Answers

/-!
# A session

A tab submits requests, and the server handles them concurrently with those of other
tabs. What the tab gets back for a request is what the server replied to it, or a
failure of the network. So what is on show was said by the model, about a question
with the same cache text as one that was asked in this tab.
-/

namespace Page

open Go Chain Server SharedObject

variable {browser : Browser} {es : List Event} {tab : Tab} {formatFloat : ℚ → List Char}
  {v : LLMResponse} {response : Response} {outcome : Outcome} {a : Analyzer} {ttl start : ℤ}
  {reqs : Requests} {i : ℕ} {h : List Section} {c : Serving}

/-! ## Replies -/

/-- What the handler reads in an answer. -/
def resultOf (formatFloat : ℚ → List Char) (v : LLMResponse) : Result :=
  ⟨v.analysis, formatFloat v.confidence, v.suggestions, v.metrics⟩

theorem readStrings_encode (slice : Option (List String)) :
    readStrings (encodeStrings slice) = some slice := by
  cases slice with
  | none => rfl
  | some elems =>
      have hmap : (elems.map Json.string).mapM readString = some elems := by
        induction elems with
        | nil => rfl
        | cons s elems ih => simp [readString, ih]
      rw [encodeStrings, readStrings, hmap]
      rfl

theorem readResult_encode (formatFloat : ℚ → List Char) (v : LLMResponse) :
    readResult (v.encode formatFloat) = some (resultOf formatFloat v) := by
  have hanalysis : property "analysis" (v.encode formatFloat) = some (.string v.analysis) := rfl
  have hconfidence : property "confidence" (v.encode formatFloat) =
      some (.number (formatFloat v.confidence)) := rfl
  have hsuggestions : property "suggestions" (v.encode formatFloat) =
      some (encodeStrings v.suggestions) := rfl
  have hmetrics : property "relevant_metrics" (v.encode formatFloat) =
      some (encodeStrings v.metrics) := rfl
  simp only [readResult, hanalysis, hconfidence, hsuggestions, hmetrics, Option.bind_some,
    readString, readNumber, readStrings_encode]
  rfl

/-- The page parses what the server writes. -/
theorem jsonParse_body (hformat : ∀ q, Json.isNumber (formatFloat q) = true) (v : LLMResponse) :
    jsonParse (v.body formatFloat) = some (v.encode formatFloat) := by
  have hlength : 2 ≤ (v.body formatFloat).length := by
    rw [LLMResponse.body, String.length_ofList, LLMResponse.encode, Json.print]
    simp only [List.length_append, List.length_singleton]
    omega
  exact Json.parseWithin_mono (v.parseWithin_body hformat) hlength

theorem read_body (hformat : ∀ q, Json.isNumber (formatFloat q) = true) (v : LLMResponse) :
    (Outcome.responded 200 (v.body formatFloat)).read browser =
      some (.ok (resultOf formatFloat v)) := by
  simp [Outcome.read, jsonParse_body hformat, readResult_encode]

/-- Both readers of answers read what the server writes: the parser of replies gets the answer
    itself, with the confidence as written, and the page gets what it reads of it. -/
theorem body_round_trip (browser : Browser) (hformat : ∀ q, Json.isNumber (formatFloat q) = true)
    (v : LLMResponse) {q : ℚ} (hvalue : parseFloat32 (formatFloat v.confidence) = some q) :
    parseLLMResponse (v.body formatFloat) = { v with confidence := q } ∧
      (Outcome.responded 200 (v.body formatFloat)).read browser =
        some (.ok (resultOf formatFloat v)) :=
  ⟨LLMResponse.parse_body hformat v hvalue, read_body hformat v⟩

/-- An answer with a text that has to be escaped, and with a slice that is `nil`. -/
def escapedAnswer : LLMResponse := ⟨"a < \"b\"", 4 / 5, some ["\\"], none⟩

theorem body_round_trip_escaped :
    parseLLMResponse (escapedAnswer.body fun _ => "0.8".toList) = escapedAnswer ∧
      (Outcome.responded 200 (escapedAnswer.body fun _ => "0.8".toList)).read upBrowser =
        some (.ok ⟨"a < \"b\"", "0.8".toList, some ["\\"], none⟩) :=
  body_round_trip upBrowser (fun _ => by decide) escapedAnswer (by decide +kernel)

/-- How a `fetch` can end when the server gives this reply: the network may fail, and
    without a reply it does. -/
def Carries (formatFloat : ℚ → List Char) : Response → Outcome → Prop
  | _, .rejected _ => True
  | .json v, .responded status body => status = 200 ∧ body = v.body formatFloat
  | .error status _, .responded status' _ => status' = status
  | .aborted, .responded _ _ => False

/-- An answer is read as the server has it; the server's errors are no answers. -/
theorem read_ok {result : Result} (hformat : ∀ q, Json.isNumber (formatFloat q) = true)
    (hcause : Cause a ttl reqs h i response) (hcarries : Carries formatFloat response outcome)
    (hread : outcome.read browser = some (.ok result)) :
    ∃ v, Origin a ttl reqs h i v ∧ result = resultOf formatFloat v := by
  cases outcome with
  | rejected message => cases hread
  | responded status body =>
      cases hcause with
      | rejected =>
          obtain rfl : status = 400 := hcarries
          cases hread
      | failed =>
          obtain rfl : status = 500 := hcarries
          cases hread
      | panicked => cases hcarries
      | @answered v horigin =>
          obtain ⟨rfl, rfl⟩ := hcarries
          cases (read_body hformat v).symm.trans hread
          exact ⟨v, horigin, rfl⟩

/-! ## Whose answer is on show -/

/-- The tab and the server belong together: the server knows the tab's request `i` as its
    request `number i`, and what ends a `fetch` is what the server replied, or a failure of
    the network. -/
structure Joined (formatFloat : ℚ → List Char) (number : ℕ → ℕ) (reqs : Requests) (c : Serving)
    (es : List Event) (tab : Tab) : Prop where
  sent : ∀ i body, tab.sent[i]? = some body → (reqs (number i)).1 = body
  settled : ∀ i outcome, .settle i outcome ∈ es → (∃ message, outcome = .rejected message) ∨
    ∃ response, (number i, response) ∈ c.replies ∧ Carries formatFloat response outcome

/-- What has been submitted stays submitted. -/
theorem sent_mono {e : Event} {tab' : Tab} (hmoves : Moves browser tab e tab') {body : String}
    (hsent : tab.sent[i]? = some body) : tab'.sent[i]? = some body := by
  cases hmoves with
  | submit =>
      obtain ⟨hlt, _⟩ := List.getElem?_eq_some_iff.mp hsent
      rw [List.getElem?_append_left hlt, hsent]
  | _ => exact hsent

/-- A request that has ended was submitted. -/
theorem sent_of_settled (hrun : (page browser).Run es tab) (hmem : .settle i outcome ∈ es) :
    ∃ body, tab.sent[i]? = some body := by
  induction hrun with
  | init => cases hmem
  | @step es tab tab' e hrun hstep ih =>
      have hmoves := moves hstep
      rcases List.mem_cons.mp hmem with rfl | hold
      · cases hmoves with
        | settle hpending =>
            have hlt := (consistent hrun).pending.2 i hpending
            exact ⟨tab.sent[i], List.getElem?_eq_getElem hlt⟩
      · obtain ⟨body, hsent⟩ := ih hold
        exact ⟨body, sent_mono hmoves hsent⟩

/-- An answer on show is the answer of some request of the tab. -/
theorem exists_answered {result : Result} (hlast : lastAnswered browser es = some result) :
    ∃ i outcome, .settle i outcome ∈ es ∧ outcome.read browser = some (.ok result) := by
  obtain ⟨e, hmem, hanswered⟩ := List.exists_of_findSome?_eq_some hlast
  unfold answered at hanswered
  split at hanswered
  · rename_i result' hsettled
    cases hanswered
    cases e with
    | settle i outcome => exact ⟨i, outcome, hmem, hsettled⟩
    | click | timeout | metrics => cases hsettled
  · cases hanswered

/-- The server calls the analyzer with the question of the form, and with no metric. -/
theorem asks_question {key : CacheKey} {form : Form} {body : String}
    (hclick : form.click browser.date = some body) (hparse : parseRequest a.loc body = .ok key) :
    key.question = received form.query ∧ key.metrics = [] := by
  obtain ⟨_, _, _, _, hdenotes⟩ := denotes_click hclick
  obtain ⟨hquestion, _, _, hmetrics⟩ := (parseRequest_submitted hdenotes).mp hparse
  exact ⟨hquestion.symm, hmetrics⟩

/-- The lists on show are those of an answer of the model, as it was parsed, to a request
    with the same cache text as one of this tab, whose question is the one in the form. The
    analysis is that answer's as well, unless a later request has failed. -/
theorem onShow_origin (hrun : (page browser).Run es tab) (hsections : Sections a ttl start reqs h c)
    {number : ℕ → ℕ} (hjoined : Joined formatFloat number reqs c es tab)
    (hformat : ∀ q, Json.isNumber (formatFloat q) = true) {result : Result}
    (hlast : lastAnswered browser es = some result) :
    ∃ i v pointer form, .click pointer form ∈ es ∧
      form.click browser.date = some (reqs (number i)).1 ∧
      (∀ key, Accepts a reqs (number i) key → key.question = received form.query) ∧
      Origin a ttl reqs h (number i) v ∧
      tab.panel.suggestions = Panel.items "No suggestions available" v.suggestions ∧
      tab.panel.relevantMetrics = Panel.items "No relevant metrics available" v.metrics ∧
      tab.panel.confidenceValue = s!"{browser.percent (formatFloat v.confidence)}%" ∧
      (lastSettled browser es = some (.ok result) → tab.panel.analysis =
        if v.analysis = "" then "No analysis available" else v.analysis) := by
  obtain ⟨i, outcome, hmem, hread⟩ := exists_answered hlast
  obtain ⟨body, hsent⟩ := sent_of_settled hrun hmem
  obtain ⟨pointer, form, hclick, hbody⟩ :=
    (consistent hrun).sent body (List.mem_of_getElem? hsent)
  have hreq := hjoined.sent i body hsent
  rcases hjoined.settled i outcome hmem with ⟨message, rfl⟩ | ⟨response, hreply, hcarries⟩
  · cases hread
  · obtain ⟨v, horigin, rfl⟩ := read_ok hformat (cause hsections hreply) hcarries hread
    have hshow := onShow hrun
    refine ⟨i, v, pointer, form, hclick, by rw [hreq, hbody], ?_, horigin, ?_, ?_, ?_, ?_⟩
    · intro key haccepts
      rw [Accepts, hreq] at haccepts
      exact (asks_question hbody haccepts).1
    · rw [hshow.suggestions, hlast]
      rfl
    · rw [hshow.relevantMetrics, hlast]
      rfl
    · rw [hshow.confidence, hlast]
      rfl
    · intro hsettled
      rw [hshow.analysis, hsettled]
      rfl

/-- The server writes the confidence that a reply without one has. -/
def writtenConfidence (_ : ℚ) : List Char := "0.8".toList

/-- A tab whose only request is answered by the model. -/
def upRequests : Requests := fun _ => (upBody, reply 0 0 "fine")

def upEvents : List Event :=
  [.settle 0 (.responded 200 ((parseLLMResponse "fine").body writtenConfidence)),
    .click true (upForm false)]

/-- The answer is shown. -/
def upTab : Tab where
  panel := Panel.init.settle upBrowser (.ok (resultOf writtenConfidence (parseLLMResponse "fine")))
  metrics := none
  sent := [upBody]
  pending := []
  timers := 0

theorem upTab_run : (page upBrowser).Run upEvents upTab := by
  have hread : (Outcome.responded 200 ((parseLLMResponse "fine").body writtenConfidence)).read
      upBrowser = some (.ok (resultOf writtenConfidence (parseLLMResponse "fine"))) :=
    read_body (fun _ => rfl) _
  exact .step (.step .init (step_upForm rfl)) (step_settle (List.mem_singleton_self 0) hread)

theorem exists_upSections : ∃ h c, Sections plainAnalyzer 10 0 upRequests h c ∧
    (0, .json (parseLLMResponse "fine")) ∈ c.replies := by
  have haccepts : Accepts plainAnalyzer upRequests 0 momentKey :=
    called_iff.mp (upBody_called (.new 10) (reply 0 0 "fine"))
  have hget : Sections plainAnalyzer 10 0 upRequests [⟨0, .getRead momentKey, 0⟩] _ :=
    sections_read .init rfl haccepts (le_refl _)
  have hset : Sections plainAnalyzer 10 0 upRequests
      [⟨0, .set momentKey (parseLLMResponse "fine"), 1⟩, ⟨0, .getRead momentKey, 0⟩] _ :=
    .op hget rfl rfl
  exact ⟨_, _, hset, Config.mem_settle_replies.mpr (.inr ⟨rfl, rfl⟩)⟩

theorem upJoined (hreply : (0, .json (parseLLMResponse "fine")) ∈ c.replies) :
    Joined writtenConfidence id upRequests c upEvents upTab where
  sent i body hsent := by
    cases i with
    | zero => exact Option.some.inj hsent
    | succ i => cases hsent
  settled i outcome hmem := by
    rcases List.mem_cons.mp hmem with heq | hmem
    · cases heq
      exact .inr ⟨_, hreply, rfl, rfl⟩
    · cases List.mem_singleton.mp hmem

theorem onShow_origin_up : ∃ h c i v, (page upBrowser).Run upEvents upTab ∧
    Sections plainAnalyzer 10 0 upRequests h c ∧ Origin plainAnalyzer 10 upRequests h i v ∧
    upTab.panel.suggestions = Panel.items "No suggestions available" v.suggestions ∧
    upTab.panel.confidenceValue = "80%" := by
  obtain ⟨h, c, hsections, hreply⟩ := exists_upSections
  have hlast : lastAnswered upBrowser upEvents =
      some (resultOf writtenConfidence (parseLLMResponse "fine")) := by
    rw [lastAnswered, upEvents, List.findSome?_cons, answered, settled, read_body fun _ => rfl]
  obtain ⟨i, v, _, _, _, _, _, horigin, hsuggestions, _, hconfidence, _⟩ :=
    onShow_origin upTab_run hsections (upJoined hreply) (fun _ => rfl) hlast
  have hpercent : upBrowser.percent "0.8".toList = "80" := by decide +kernel
  refine ⟨h, c, i, v, upTab_run, hsections, horigin, hsuggestions, ?_⟩
  rw [hconfidence, writtenConfidence, hpercent]
  rfl

end Page
