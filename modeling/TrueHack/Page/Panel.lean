-- SUMMARY: The panel of the page over whole sessions: the handler of the button from its click to its end, the error banner, and what is on show.
import TrueHack.Page.Click
import TrueHack.Server.Encode

/-!
# The panel

The handler of the button greys the button out, waits for the server and shows what
it gets. A greyed out button takes no click of the pointer, but it does take one of
the keyboard, so several requests can be under way. An error of the request takes
the place of the analysis; any other is shown in a banner, for five seconds.
-/

namespace Page

open Go Chain Server

/-! ## Answers -/

/-- An answer as the handler reads it. -/
structure Result where
  analysis : String
  confidence : List Char
  suggestions : Option (List String)
  relevantMetrics : Option (List String)
deriving DecidableEq

/-- A property of an object that `JSON.parse` makes: of two with one name, the last one. -/
def property (name : String) : Json → Option Json
  | .object members => members.reverse.lookup name
  | _ => none

def readString : Json → Option String
  | .string s => some s
  | _ => none

def readNumber : Json → Option (List Char)
  | .number literal => some literal
  | _ => none

/-- A list of texts, or `null` in its place. -/
def readStrings : Json → Option (Option (List String))
  | .null => some none
  | .array elems => (elems.mapM readString).map some
  | _ => none

/-- The properties that the handler reads; `none` where one is missing or of another type,
    as none is that the server sends. -/
def readResult (v : Json) : Option Result := do
  let analysis ← (property "analysis" v).bind readString
  let confidence ← (property "confidence" v).bind readNumber
  let suggestions ← (property "suggestions" v).bind readStrings
  let relevantMetrics ← (property "relevant_metrics" v).bind readStrings
  some ⟨analysis, confidence, suggestions, relevantMetrics⟩

/-- `JSON.parse`: every array and object takes a character, so there is room for all. -/
def jsonParse (text : String) : Option Json := Json.parseWithin text.length text

/-- How a `fetch` ends. -/
inductive Outcome where
  | rejected (message : String)
  | responded (status : ℕ) (body : String)

/-- What the browser decides. -/
structure Browser where
  /-- `new Date` in the user's time zone. -/
  date : String → Option TimeValue
  /-- `Math.round((result.confidence || 0) * 100)` in a text. -/
  percent : List Char → String
  /-- Whether a text can be the width of an element. -/
  isWidth : String → Bool
  /-- The message of `response.json()` for a body that is no JSON. -/
  syntaxError : String → String

/-- What the handler makes of the end of its `fetch`: an answer, or the message of an
    exception. -/
def Outcome.read (browser : Browser) : Outcome → Option (Except String Result)
  | .rejected message => some (.error message)
  | .responded status body =>
      if 200 ≤ status ∧ status < 300 then
        match jsonParse body with
        | none => some (.error (browser.syntaxError body))
        | some v => (readResult v).map .ok
      else some (.error s!"HTTP error! status: {status}")

/-! ## The panel -/

/-- The parts of the page that the script writes to. -/
structure Panel where
  analysis : String
  /-- The width of the bar. -/
  width : String
  confidenceValue : String
  suggestions : List String
  relevantMetrics : List String
  errorMessage : String
  resultHidden : Bool
  errorHidden : Bool
  loadingHidden : Bool
  /-- The button is greyed out, and the pointer does not reach it. -/
  disabled : Bool

namespace Panel

def init : Panel where
  analysis := ""
  width := "0%"
  confidenceValue := "0%"
  suggestions := []
  relevantMetrics := []
  errorMessage := ""
  resultHidden := true
  errorHidden := true
  loadingHidden := true
  disabled := false

/-- The items of a list, or one that says that there are none. -/
def items (missing : String) : Option (List String) → List String
  | some elems => elems
  | none => [missing]

/-- The bar of the confidence. A text that is no width, such as a negative one, is ignored. -/
def bar (browser : Browser) (old percent : String) : String :=
  if browser.isWidth percent then percent else old

/-- The result is shown. -/
def display (browser : Browser) (panel : Panel) (result : Result) : Panel :=
  { panel with
    analysis := if result.analysis = "" then "No analysis available" else result.analysis
    width := bar browser panel.width s!"{browser.percent result.confidence}%"
    confidenceValue := s!"{browser.percent result.confidence}%"
    suggestions := items "No suggestions available" result.suggestions
    relevantMetrics := items "No relevant metrics available" result.relevantMetrics
    resultHidden := false
    errorHidden := true }

/-- The `catch` block. -/
def fail (panel : Panel) (message : String) : Panel :=
  { panel with analysis := s!"Error: {message}", resultHidden := false }

/-- The handler from the end of its `fetch` on, the `finally` block included. -/
def settle (browser : Browser) (panel : Panel) (result : Except String Result) : Panel :=
  { (match result with
      | .ok result => panel.display browser result
      | .error message => panel.fail message) with
    disabled := false
    loadingHidden := true }

end Panel

/-! ## Sessions -/

/-- A tab with the page in it. -/
structure Tab where
  panel : Panel
  /-- The metrics with a checkbox, once they are loaded. -/
  metrics : Option (List String)
  /-- The bodies that were submitted. -/
  sent : List String
  /-- The requests that have not ended, by their numbers. -/
  pending : List ℕ
  /-- How many timers of `showError` are running. -/
  timers : ℕ

namespace Tab

def init : Tab := ⟨.init, none, [], [], 0⟩

/-- `showError` -/
def showError (tab : Tab) (message : String) : Tab :=
  { tab with
    panel := { tab.panel with errorMessage := message, errorHidden := false }
    timers := tab.timers + 1 }

/-- The handler of the button up to its `fetch`. Where a date is invalid it throws. -/
def click (browser : Browser) (tab : Tab) (form : Form) : Tab :=
  match form.click browser.date with
  | some body =>
      { tab with
        panel := { tab.panel with disabled := true, loadingHidden := false }
        sent := tab.sent ++ [body]
        pending := tab.sent.length :: tab.pending }
  | none =>
      if (browser.date form.startTime).isSome ∧ (browser.date form.endTime).isSome then
        tab.showError "Please enter a question"
      else tab

end Tab

/-- What happens in a tab. -/
inductive Event where
  | click (pointer : Bool) (form : Form)
  /-- The `fetch` of a request ends. -/
  | settle (i : ℕ) (outcome : Outcome)
  /-- A timer of `showError` is over. -/
  | timeout
  /-- The list of metrics arrives, or the message of the exception in its place. -/
  | metrics (list : Except String (List String))

/-- The page in a tab. -/
def page (browser : Browser) : Machine Tab Event where
  init := .init
  step tab
    | .click pointer form =>
        if pointer ∧ tab.panel.disabled then none else some (tab.click browser form)
    | .settle i outcome =>
        if i ∈ tab.pending then
          (outcome.read browser).map fun result =>
            { tab with
              panel := tab.panel.settle browser result
              pending := tab.pending.erase i }
        else none
    | .timeout =>
        if tab.timers = 0 then none
        else some { tab with
          panel := { tab.panel with errorHidden := true }
          timers := tab.timers - 1 }
    | .metrics list =>
        if tab.metrics.isSome then none
        else match list with
          | .ok names => some { tab with metrics := some names }
          | .error message =>
              some ({ tab with metrics := some [] }.showError s!"Failed to load metrics: {message}")

variable {browser : Browser} {es : List Event} {e : Event} {tab tab' : Tab} {form : Form}

/-- What one step does. -/
inductive Moves (browser : Browser) (tab : Tab) : Event → Tab → Prop where
  | submit {pointer : Bool} {form : Form} {body : String}
      (hpointer : pointer = true → tab.panel.disabled = false)
      (hbody : form.click browser.date = some body) :
      Moves browser tab (.click pointer form)
        { tab with
          panel := { tab.panel with disabled := true, loadingHidden := false }
          sent := tab.sent ++ [body]
          pending := tab.sent.length :: tab.pending }
  | refuse {pointer : Bool} {form : Form} (hbody : form.click browser.date = none)
      (hdates : (browser.date form.startTime).isSome ∧ (browser.date form.endTime).isSome) :
      Moves browser tab (.click pointer form) (tab.showError "Please enter a question")
  | throw {pointer : Bool} {form : Form} (hbody : form.click browser.date = none)
      (hdates : ¬((browser.date form.startTime).isSome ∧ (browser.date form.endTime).isSome)) :
      Moves browser tab (.click pointer form) tab
  | settle {i : ℕ} {outcome : Outcome} {result : Except String Result} (hpending : i ∈ tab.pending)
      (hread : outcome.read browser = some result) :
      Moves browser tab (.settle i outcome)
        { tab with panel := tab.panel.settle browser result, pending := tab.pending.erase i }
  | timeout (htimers : tab.timers ≠ 0) :
      Moves browser tab .timeout
        { tab with panel := { tab.panel with errorHidden := true }, timers := tab.timers - 1 }
  | load {names : List String} (hmetrics : tab.metrics = none) :
      Moves browser tab (.metrics (.ok names)) { tab with metrics := some names }
  | loadFailed {message : String} (hmetrics : tab.metrics = none) :
      Moves browser tab (.metrics (.error message))
        ({ tab with metrics := some [] }.showError s!"Failed to load metrics: {message}")

theorem moves (hstep : (page browser).step tab e = some tab') : Moves browser tab e tab' := by
  cases e with
  | click pointer form =>
      obtain ⟨hpointer, hclick⟩ := Option.ite_none_left_eq_some.mp hstep
      obtain rfl := Option.some.inj hclick
      unfold Tab.click
      cases hbody : form.click browser.date with
      | some body => exact .submit (by simpa using hpointer) hbody
      | none =>
          dsimp only
          split
          · rename_i hdates
            exact .refuse hbody hdates
          · rename_i hdates
            exact .throw hbody hdates
  | settle i outcome =>
      obtain ⟨hpending, hread⟩ := Option.ite_none_right_eq_some.mp hstep
      obtain ⟨result, hresult, rfl⟩ := Option.map_eq_some_iff.mp hread
      exact .settle hpending hresult
  | timeout =>
      obtain ⟨htimers, heq⟩ := Option.ite_none_left_eq_some.mp hstep
      obtain rfl := Option.some.inj heq
      exact .timeout htimers
  | metrics list =>
      obtain ⟨hmetrics, heq⟩ := Option.ite_none_left_eq_some.mp hstep
      have hnone : tab.metrics = none := by simpa using hmetrics
      cases list with
      | ok names =>
          obtain rfl := Option.some.inj heq
          exact .load hnone
      | error message =>
          obtain rfl := Option.some.inj heq
          exact .loadFailed hnone

/-- A request that is under way can end. -/
theorem step_settle {i : ℕ} {outcome : Outcome} {result : Except String Result}
    (hpending : i ∈ tab.pending) (hread : outcome.read browser = some result) :
    (page browser).step tab (.settle i outcome) = some { tab with
      panel := tab.panel.settle browser result
      pending := tab.pending.erase i } := by
  simp [page, hpending, hread]

/-! ## The controls -/

/-- What holds of the controls, whatever was clicked and however requests ended. -/
structure Consistent (browser : Browser) (es : List Event) (tab : Tab) : Prop where
  loading : tab.panel.loadingHidden = !tab.panel.disabled
  idle : tab.pending = [] → tab.panel.disabled = false
  banner : tab.panel.errorHidden = false → tab.timers ≠ 0
  result : tab.panel.resultHidden = false ↔ ∃ i outcome, .settle i outcome ∈ es
  pending : tab.pending.Nodup ∧ ∀ i ∈ tab.pending, i < tab.sent.length
  sent : ∀ body ∈ tab.sent, ∃ pointer form, .click pointer form ∈ es ∧
    form.click browser.date = some body

theorem settle_panel (browser : Browser) (panel : Panel) (result : Except String Result) :
    (panel.settle browser result).disabled = false ∧
      (panel.settle browser result).loadingHidden = true ∧
      (panel.settle browser result).resultHidden = false ∧
      ((panel.settle browser result).errorHidden = false → panel.errorHidden = false) := by
  cases result with
  | ok result => simp [Panel.settle, Panel.display]
  | error message => simp [Panel.settle, Panel.fail]

theorem consistent (hrun : (page browser).Run es tab) : Consistent browser es tab := by
  induction hrun with
  | init =>
      exact ⟨rfl, fun _ => rfl, nofun, by simp [page, Tab.init, Panel.init],
        by simp [page, Tab.init], nofun⟩
  | @step es tab tab' e hrun hstep ih =>
      have hsent : ∀ body ∈ tab.sent, ∃ pointer form, .click pointer form ∈ e :: es ∧
          form.click browser.date = some body := by
        intro body hbody
        obtain ⟨pointer, form, hmem, hclick⟩ := ih.sent body hbody
        exact ⟨pointer, form, List.mem_cons_of_mem e hmem, hclick⟩
      cases moves hstep with
      | @submit pointer form body hpointer hbody =>
          obtain ⟨hnodup, hbound⟩ := ih.pending
          refine ⟨rfl, nofun, ih.banner, by simpa using ih.result, ⟨?_, ?_⟩, ?_⟩
          · exact List.nodup_cons.mpr ⟨fun hmem => Nat.lt_irrefl _ (hbound _ hmem), hnodup⟩
          · intro j hj
            rw [List.length_append, List.length_singleton]
            rcases List.mem_cons.mp hj with rfl | hj
            · omega
            · have := hbound j hj
              omega
          · intro body' hbody'
            rcases List.mem_append.mp hbody' with hold | hnew
            · exact hsent body' hold
            · obtain rfl := List.mem_singleton.mp hnew
              exact ⟨pointer, form, List.mem_cons_self, hbody⟩
      | refuse hbody =>
          exact ⟨ih.loading, ih.idle, nofun, by simpa [Tab.showError] using ih.result, ih.pending,
            hsent⟩
      | throw hbody =>
          exact ⟨ih.loading, ih.idle, ih.banner, by simpa using ih.result, ih.pending, hsent⟩
      | @settle i outcome result hpending hread =>
          obtain ⟨hdisabled, hloading, hresult, hbanner⟩ := settle_panel browser tab.panel result
          obtain ⟨hnodup, hbound⟩ := ih.pending
          refine ⟨by rw [hdisabled, hloading]; rfl, fun _ => hdisabled,
            fun h => ih.banner (hbanner h),
            iff_of_true hresult ⟨i, outcome, List.mem_cons_self⟩, ⟨hnodup.erase i, ?_⟩, hsent⟩
          intro j hj
          exact hbound j (List.mem_of_mem_erase hj)
      | timeout htimers =>
          exact ⟨ih.loading, ih.idle, nofun, by simpa using ih.result, ih.pending, hsent⟩
      | load hmetrics =>
          exact ⟨ih.loading, ih.idle, ih.banner, by simpa using ih.result, ih.pending, hsent⟩
      | loadFailed hmetrics =>
          exact ⟨ih.loading, ih.idle, nofun, by simpa [Tab.showError] using ih.result, ih.pending,
            hsent⟩

/-- While the button is only clicked with the pointer, there is one request at most, and the
    button is greyed out and the indicator shown exactly while it is under way. -/
theorem pointer_loading (hrun : (page browser).Run es tab)
    (hpointer : ∀ form, .click false form ∉ es) :
    tab.pending.length ≤ 1 ∧ (tab.panel.disabled = true ↔ tab.pending ≠ []) ∧
      (tab.panel.loadingHidden = false ↔ tab.pending ≠ []) := by
  have honly : tab.pending.length ≤ 1 ∧ (tab.panel.disabled = true ↔ tab.pending ≠ []) := by
    induction hrun with
    | init => simp [page, Tab.init, Panel.init]
    | @step es tab tab' e hrun hstep ih =>
        obtain ⟨hlength, hdisabled⟩ := ih fun form hmem => hpointer form (List.mem_cons_of_mem e hmem)
        cases moves hstep with
        | @submit pointer form body hfree hbody =>
            have htrue : pointer = true := by
              by_contra hfalse
              obtain rfl := Bool.eq_false_iff.mpr hfalse
              exact hpointer form List.mem_cons_self
            have hnone : tab.pending = [] := by
              by_contra hne
              exact absurd (hdisabled.mpr hne) (by simp [hfree htrue])
            simp [hnone]
        | refuse | throw | timeout | load | loadFailed => exact ⟨hlength, hdisabled⟩
        | @settle i outcome result hpending hread =>
            obtain ⟨hfree, _⟩ := settle_panel browser tab.panel result
            have hsingle : tab.pending = [i] := by
              have hpos := List.length_pos_of_mem hpending
              obtain ⟨j, hj⟩ := List.length_eq_one_iff.mp (Nat.le_antisymm hlength hpos)
              rw [hj] at hpending ⊢
              rw [List.mem_singleton.mp hpending]
            simp [hsingle, hfree]
  refine ⟨honly.1, honly.2, ?_⟩
  rw [(consistent hrun).loading, Bool.not_eq_false', honly.2]

/-- The controls of the panel, however clicks, answers, errors and timers interleave: the
    indicator and the button go together, neither stays behind when no request is under way,
    a banner always has a timer that will hide it, and the result is shown once a request
    has ended. -/
theorem controls (hrun : (page browser).Run es tab) :
    tab.panel.loadingHidden = !tab.panel.disabled ∧
      (tab.pending = [] → tab.panel.disabled = false) ∧
      (tab.panel.errorHidden = false → tab.timers ≠ 0) ∧
      (tab.panel.resultHidden = false ↔ ∃ i outcome, .settle i outcome ∈ es) :=
  have h := consistent hrun
  ⟨h.loading, h.idle, h.banner, h.result⟩

/-- A browser with a clock in UTC, as it is for numbers that need no rounding to be read. -/
def upBrowser : Browser where
  date := newDate 0
  percent literal := toString (decimal literal * 100 + 1 / 2).floor
  isWidth text := text.front ≠ '-'
  syntaxError body := s!"Unexpected token in {body}"

/-- A tab whose only request gets lost. -/
def lostEvents : List Event :=
  [.settle 0 (.rejected "Failed to fetch"), .click true (upForm false)]

/-- The state after a request. -/
def submitted (tab : Tab) (body : String) : Tab :=
  { tab with
    panel := { tab.panel with disabled := true, loadingHidden := false }
    sent := tab.sent ++ [body]
    pending := tab.sent.length :: tab.pending }

theorem step_upForm (hfree : tab.panel.disabled = false) :
    (page upBrowser).step tab (.click true (upForm false)) = some (submitted tab upBody) := by
  have hbody : (upForm false).click upBrowser.date = some upBody := upForm_click false
  simp [page, Tab.click, hbody, hfree, submitted]

theorem exists_lost : ∃ tab, (page upBrowser).Run lostEvents tab := by
  have hclick : (page upBrowser).Run [.click true (upForm false)] (submitted .init upBody) :=
    .step .init (step_upForm rfl)
  exact ⟨_, .step hclick (step_settle (List.mem_singleton_self 0) rfl)⟩

theorem controls_lost : ∃ tab, (page upBrowser).Run lostEvents tab ∧
    tab.panel.resultHidden = false := by
  obtain ⟨tab, hrun⟩ := exists_lost
  exact ⟨tab, hrun, (controls hrun).2.2.2.mpr ⟨0, _, List.mem_cons_self⟩⟩

theorem pointer_loading_lost : ∃ tab, (page upBrowser).Run lostEvents tab ∧
    tab.pending.length ≤ 1 := by
  obtain ⟨tab, hrun⟩ := exists_lost
  have hpointer : ∀ form, .click false form ∉ lostEvents := by simp [lostEvents]
  exact ⟨tab, hrun, (pointer_loading hrun hpointer).1⟩

/-! ## What is on show -/

/-- What a request comes to, if that is what happens. -/
def settled (browser : Browser) : Event → Option (Except String Result)
  | .settle _ outcome => outcome.read browser
  | _ => none

/-- The answer of a request, if it gets one. -/
def answered (browser : Browser) (e : Event) : Option Result :=
  match settled browser e with
  | some (.ok result) => some result
  | _ => none

/-- The request that ended last. -/
def lastSettled (browser : Browser) (es : List Event) : Option (Except String Result) :=
  es.findSome? (settled browser)

/-- The last request with an answer. -/
def lastAnswered (browser : Browser) (es : List Event) : Option Result :=
  es.findSome? (answered browser)

/-- The text in the place of the analysis. -/
def analysisText : Option (Except String Result) → String
  | none => ""
  | some (.ok result) =>
      if result.analysis = "" then "No analysis available" else result.analysis
  | some (.error message) => s!"Error: {message}"

/-- The analysis is that of the request that ended last, and the rest is that of the last
    one with an answer. -/
structure OnShow (browser : Browser) (es : List Event) (panel : Panel) : Prop where
  analysis : panel.analysis = analysisText (lastSettled browser es)
  confidence : panel.confidenceValue =
    (lastAnswered browser es).elim "0%" fun result => s!"{browser.percent result.confidence}%"
  suggestions : panel.suggestions = (lastAnswered browser es).elim [] fun result =>
    Panel.items "No suggestions available" result.suggestions
  relevantMetrics : panel.relevantMetrics = (lastAnswered browser es).elim [] fun result =>
    Panel.items "No relevant metrics available" result.relevantMetrics

/-- Nothing but the end of a request changes what is on show. -/
theorem OnShow.cons {panel panel' : Panel} (h : OnShow browser es panel)
    (he : settled browser e = none) (hanalysis : panel'.analysis = panel.analysis)
    (hconfidence : panel'.confidenceValue = panel.confidenceValue)
    (hsuggestions : panel'.suggestions = panel.suggestions)
    (hmetrics : panel'.relevantMetrics = panel.relevantMetrics) :
    OnShow browser (e :: es) panel' := by
  have hsettled : lastSettled browser (e :: es) = lastSettled browser es := by
    rw [lastSettled, List.findSome?_cons, he, lastSettled]
  have hanswered : lastAnswered browser (e :: es) = lastAnswered browser es := by
    rw [lastAnswered, List.findSome?_cons, answered, he, lastAnswered]
  constructor
  · rw [hsettled, hanalysis, h.analysis]
  · rw [hanswered, hconfidence, h.confidence]
  · rw [hanswered, hsuggestions, h.suggestions]
  · rw [hanswered, hmetrics, h.relevantMetrics]

theorem OnShow.settle {panel : Panel} {i : ℕ} {outcome : Outcome} {result : Except String Result}
    (h : OnShow browser es panel) (hread : outcome.read browser = some result) :
    OnShow browser (.settle i outcome :: es) (panel.settle browser result) := by
  have hsettled : lastSettled browser (.settle i outcome :: es) = some result := by
    rw [lastSettled, List.findSome?_cons, settled, hread]
  cases result with
  | ok result =>
      have hanswered : lastAnswered browser (.settle i outcome :: es) = some result := by
        rw [lastAnswered, List.findSome?_cons, answered, settled, hread]
      constructor
      · rw [hsettled]
        rfl
      all_goals
        rw [hanswered]
        rfl
  | error message =>
      have hanswered : lastAnswered browser (.settle i outcome :: es) = lastAnswered browser es := by
        rw [lastAnswered, List.findSome?_cons, answered, settled, hread, lastAnswered]
      constructor
      · rw [hsettled]
        rfl
      · rw [hanswered, ← h.confidence]
        rfl
      · rw [hanswered, ← h.suggestions]
        rfl
      · rw [hanswered, ← h.relevantMetrics]
        rfl

/-- What is on show after any run. An error takes the place of the analysis only, so it can
    stand above the suggestions of an older answer. -/
theorem onShow (hrun : (page browser).Run es tab) : OnShow browser es tab.panel := by
  induction hrun with
  | init => exact ⟨rfl, rfl, rfl, rfl⟩
  | step hrun hstep ih =>
      cases moves hstep with
      | submit | refuse | throw | timeout | load | loadFailed =>
          exact ih.cons rfl rfl rfl rfl rfl
      | settle hpending hread => exact ih.settle hread

/-- The analysis on show is that of the request that ended last, its error included; the
    confidence and the lists are those of the last request with an answer, whatever has
    happened since. -/
theorem panel_shown (hrun : (page browser).Run es tab) :
    tab.panel.analysis = analysisText (lastSettled browser es) ∧
      tab.panel.confidenceValue = ((lastAnswered browser es).elim "0%" fun result =>
        s!"{browser.percent result.confidence}%") ∧
      tab.panel.suggestions = ((lastAnswered browser es).elim [] fun result =>
        Panel.items "No suggestions available" result.suggestions) ∧
      tab.panel.relevantMetrics = ((lastAnswered browser es).elim [] fun result =>
        Panel.items "No relevant metrics available" result.relevantMetrics) :=
  have h := onShow hrun
  ⟨h.analysis, h.confidence, h.suggestions, h.relevantMetrics⟩

theorem panel_shown_lost : ∃ tab, (page upBrowser).Run lostEvents tab ∧
    tab.panel.analysis = "Error: Failed to fetch" ∧ tab.panel.suggestions = [] := by
  obtain ⟨tab, hrun⟩ := exists_lost
  obtain ⟨hanalysis, _, hsuggestions, _⟩ := panel_shown hrun
  exact ⟨tab, hrun, hanalysis, hsuggestions⟩

end Page
