-- SUMMARY: The Jaeger collector: one stream of spans for each service, collected completely or not at all.
import TrueHack.Go.Time

/-!
# The Jaeger collector

`Collect` asks Jaeger for its services, and for each of them for the traces that
it takes part in. A stream ends with `io.EOF` or with another error; any error
but the first throws away what was collected. Jaeger is outside the program:
`Jaeger` holds what it answers during one call.
-/

namespace Collector

open Go

/-- `model.Span`, with the service of its process. Identifiers and the duration are what
    their `String` methods print. -/
structure Span where
  traceID : String
  spanID : String
  operationName : String
  startTime : Time
  duration : String
  processID : String
  serviceName : String
deriving DecidableEq

/-- What the calls of `Recv` on a stream return, one after the other. -/
inductive Stream where
  | eof
  | failed (err : String)
  | chunk (spans : List Span) (rest : Stream)

namespace Stream

/-- The chunks of a stream, in order. -/
def chunks : Stream → List (List Span)
  | eof => []
  | failed _ => []
  | chunk spans rest => spans :: rest.chunks

/-- The error that ends a stream, unless it is `io.EOF`. -/
def failure : Stream → Option String
  | eof => none
  | failed err => some err
  | chunk _ rest => rest.failure

/-- All spans of a stream. -/
def spans (stream : Stream) : List Span := stream.chunks.flatten

end Stream

/-- `api_v2.FindTracesRequest` -/
structure FindTracesRequest where
  serviceName : String
  startTimeMin : Time
  startTimeMax : Time

/-- What Jaeger does during one call of `Collect`. Position `i` stands for the `i`-th
    service of the list. -/
structure Jaeger where
  getServices : Except String (List String)
  findTraces : ℕ → FindTracesRequest → Except String Stream

/-- The two results of type `[]string` and `error`; `none` is `nil`. -/
structure Returned where
  slice : Option (List String)
  err : Option String
deriving DecidableEq

/-- `append(slice, lines...)` -/
def appendLines (slice : Option (List String)) : List String → Option (List String)
  | [] => slice
  | line :: lines => some (slice.getD [] ++ line :: lines)

/-- The line of a span in the traces of `serviceName`. -/
def traceLine (serviceName : String) (span : Span) : String :=
  "Trace: [ServiceName=" ++ serviceName ++ ";TraceID=" ++ span.traceID ++ ";SpanID=" ++
    span.spanID ++ ";Duration=" ++ span.duration ++ ";StartTime=" ++ span.startTime.string ++
    ";ProcessID=" ++ span.processID ++ ";OperationName=" ++ span.operationName ++ "]"

/-- The loop of `findTraces`. -/
def recvLoop (serviceName : String) (result : Option (List String)) : Stream → Returned
  | .eof => ⟨result, none⟩
  | .failed err => ⟨none, some ("find traces stream receive: " ++ err)⟩
  | .chunk spans rest =>
      let result := spans.foldl
        (fun result span => appendLines result [traceLine serviceName span]) result
      recvLoop serviceName result rest

/-- `JaegerCollector.findTraces` for the service at position `i`. -/
def findTraces (j : Jaeger) (i : ℕ) (serviceName : String) (startTime endTime : Time) :
    Returned :=
  match j.findTraces i ⟨serviceName, startTime, endTime⟩ with
  | .error err => ⟨none, some ("find traces: " ++ err)⟩
  | .ok stream => recvLoop serviceName none stream

/-- The loop of `Collect`. -/
def servicesLoop (j : Jaeger) (startTime endTime : Time) (result : Option (List String)) :
    List (String × ℕ) → Returned
  | [] => ⟨result, none⟩
  | (service, i) :: services =>
      match findTraces j i service startTime endTime with
      | ⟨_, some err⟩ =>
          ⟨none, some ("find traces for service " ++ service ++ ": " ++ err)⟩
      | ⟨traces, none⟩ =>
          servicesLoop j startTime endTime (appendLines result (traces.getD [])) services

/-- `JaegerCollector.Collect` -/
def collect (j : Jaeger) (startTime endTime : Time) : Returned :=
  match j.getServices with
  | .error err => ⟨none, some ("get services: " ++ err)⟩
  | .ok services => servicesLoop j startTime endTime none services.zipIdx

/-! ## Appending -/

@[simp] theorem appendLines_nil (slice : Option (List String)) : appendLines slice [] = slice := rfl

theorem getD_appendLines (slice : Option (List String)) (lines : List String) :
    (appendLines slice lines).getD [] = slice.getD [] ++ lines := by
  cases lines with
  | nil => rw [appendLines_nil, List.append_nil]
  | cons line lines => rfl

theorem appendLines_append (slice : Option (List String)) (lines lines' : List String) :
    appendLines (appendLines slice lines) lines' = appendLines slice (lines ++ lines') := by
  cases lines with
  | nil => rfl
  | cons line lines =>
      cases lines' with
      | nil => rw [appendLines_nil, List.append_nil]
      | cons line' lines' => simp [appendLines]

/-- Spans appended one by one. -/
theorem foldl_appendLines (serviceName : String) (result : Option (List String))
    (spans : List Span) :
    spans.foldl (fun result span => appendLines result [traceLine serviceName span]) result =
      appendLines result (spans.map (traceLine serviceName)) := by
  induction spans generalizing result with
  | nil => rfl
  | cons span spans ih => rw [List.foldl_cons, ih, appendLines_append, List.map_cons,
      List.singleton_append]

/-! ## One service -/

variable {j : Jaeger} {startTime endTime : Time} {i : ℕ} {service : String}

/-- A stream that ends is read to its end, and one that fails leaves nothing. -/
theorem recvLoop_eq (result : Option (List String)) (stream : Stream) :
    recvLoop service result stream = match stream.failure with
      | none => ⟨appendLines result (stream.spans.map (traceLine service)), none⟩
      | some err => ⟨none, some ("find traces stream receive: " ++ err)⟩ := by
  induction stream generalizing result with
  | eof => rfl
  | failed err => rfl
  | chunk spans rest ih =>
      have hspans : (Stream.chunk spans rest).spans = spans ++ rest.spans := rfl
      rw [recvLoop, foldl_appendLines, ih, hspans, List.map_append, appendLines_append]
      rfl

/-- The call for the service at position `i` fails, at once or in its stream. -/
def FailsAt (j : Jaeger) (startTime endTime : Time) (i : ℕ) (service : String) : Prop :=
  (∃ err, j.findTraces i ⟨service, startTime, endTime⟩ = .error err) ∨
    ∃ stream err, j.findTraces i ⟨service, startTime, endTime⟩ = .ok stream ∧
      stream.failure = some err

/-- The spans received for the service at position `i`. -/
def spansAt (j : Jaeger) (startTime endTime : Time) (i : ℕ) (service : String) : List Span :=
  match j.findTraces i ⟨service, startTime, endTime⟩ with
  | .error _ => []
  | .ok stream => stream.spans

/-- One line for every span, or none and an error. -/
theorem findTraces_cases (j : Jaeger) (i : ℕ) (service : String) (startTime endTime : Time) :
    (FailsAt j startTime endTime i service ∧
      ∃ err, findTraces j i service startTime endTime = ⟨none, some err⟩) ∨
    (¬FailsAt j startTime endTime i service ∧
      findTraces j i service startTime endTime =
        ⟨appendLines none ((spansAt j startTime endTime i service).map (traceLine service)),
          none⟩) := by
  unfold FailsAt findTraces spansAt
  cases j.findTraces i ⟨service, startTime, endTime⟩ with
  | error err => exact .inl ⟨.inl ⟨err, rfl⟩, _, rfl⟩
  | ok stream =>
      dsimp only
      rw [recvLoop_eq]
      cases hfailure : stream.failure with
      | none => exact .inr ⟨by simp [hfailure], rfl⟩
      | some err => exact .inl ⟨.inr ⟨stream, err, rfl, hfailure⟩, _, rfl⟩

/-! ## All services -/

/-- What is received: one entry for every span, under the service it was asked for. -/
def received (j : Jaeger) (startTime endTime : Time) (services : List (String × ℕ)) :
    List (String × Span) :=
  services.flatMap fun (service, i) => (spansAt j startTime endTime i service).map (service, ·)

/-- The lines of what is received. -/
def receivedLines (j : Jaeger) (startTime endTime : Time) (services : List (String × ℕ)) :
    List String :=
  (received j startTime endTime services).map fun (service, span) => traceLine service span

theorem receivedLines_cons (services : List (String × ℕ)) :
    receivedLines j startTime endTime ((service, i) :: services) =
      (spansAt j startTime endTime i service).map (traceLine service) ++
        receivedLines j startTime endTime services := by
  simp [receivedLines, received, Function.comp_def]

variable (j startTime endTime) in
/-- The loop fails exactly at a service that fails. -/
theorem servicesLoop_cases (result : Option (List String)) (services : List (String × ℕ)) :
    ((∃ service i, (service, i) ∈ services ∧ FailsAt j startTime endTime i service) ∧
      ∃ err, servicesLoop j startTime endTime result services = ⟨none, some err⟩) ∨
    ((∀ service i, (service, i) ∈ services → ¬FailsAt j startTime endTime i service) ∧
      servicesLoop j startTime endTime result services =
        ⟨appendLines result (receivedLines j startTime endTime services), none⟩) := by
  induction services generalizing result with
  | nil => exact .inr ⟨by simp, rfl⟩
  | cons first services ih =>
      obtain ⟨service, i⟩ := first
      unfold servicesLoop
      rcases findTraces_cases j i service startTime endTime with ⟨hfails, err, hfind⟩ |
        ⟨hworks, hfind⟩
      · rw [hfind]
        exact .inl ⟨⟨service, i, List.mem_cons_self, hfails⟩, _, rfl⟩
      · simp only [hfind, getD_appendLines, Option.getD_none, List.nil_append]
        rw [receivedLines_cons, ← appendLines_append]
        rcases ih (appendLines result
          ((spansAt j startTime endTime i service).map (traceLine service))) with
          ⟨⟨service', i', hmem, hfails⟩, hloop⟩ | ⟨hwork, hloop⟩
        · exact .inl ⟨⟨service', i', List.mem_cons_of_mem _ hmem, hfails⟩, hloop⟩
        · refine .inr ⟨?_, hloop⟩
          intro service' i' hmem
          cases hmem with
          | head => exact hworks
          | tail _ hmem => exact hwork service' i' hmem

/-- A call that `Collect` reaches fails: the one for the services, or the first one that
    fails for the traces of a service. -/
inductive Fails (j : Jaeger) (startTime endTime : Time) : Prop where
  | services {err : String} (h : j.getServices = .error err)
  | traces {services : List String} {i : ℕ} {service : String}
      (hservices : j.getServices = .ok services) (hservice : services[i]? = some service)
      (hreached : ∀ i' service', i' < i → services[i']? = some service' →
        ¬FailsAt j startTime endTime i' service')
      (hfails : FailsAt j startTime endTime i service)

/-- Where some service fails, there is one that fails first. -/
theorem fails_iff {services : List String} (h : j.getServices = .ok services) :
    Fails j startTime endTime ↔
      ∃ service i, (service, i) ∈ services.zipIdx ∧ FailsAt j startTime endTime i service := by
  constructor
  · intro hfails
    cases hfails with
    | services herror => cases h.symm.trans herror
    | @traces services' i service hservices hservice hreached hfails =>
        cases h.symm.trans hservices
        exact ⟨service, i, List.mem_zipIdx_iff_getElem?.mpr hservice, hfails⟩
  · intro ⟨service, i, hmem, hfails⟩
    classical
    have hsome : ∃ i service, services[i]? = some service ∧
        FailsAt j startTime endTime i service :=
      ⟨i, service, List.mem_zipIdx_iff_getElem?.mp hmem, hfails⟩
    obtain ⟨service', hservice', hfails'⟩ := Nat.find_spec hsome
    apply Fails.traces h hservice' _ hfails'
    intro i' service'' hlt hget hearlier
    exact Nat.find_min hsome hlt ⟨service'', hget, hearlier⟩

/-- Collecting fails exactly when a call fails that it reaches, and then returns nothing
    else; otherwise there is one line for every span received, in the order of the
    services, the chunks and the spans. -/
theorem collect_all_or_nothing (j : Jaeger) (startTime endTime : Time) :
    ((collect j startTime endTime).slice = none ∧ (collect j startTime endTime).err ≠ none ↔
      Fails j startTime endTime) ∧
    (¬Fails j startTime endTime → ∃ services, j.getServices = .ok services ∧
      (collect j startTime endTime).err = none ∧
      (collect j startTime endTime).slice.getD [] = services.zipIdx.flatMap fun (service, i) =>
        (spansAt j startTime endTime i service).map (traceLine service)) := by
  unfold collect
  cases hservices : j.getServices with
  | error err =>
      have hfails : Fails j startTime endTime := .services hservices
      exact ⟨iff_of_true ⟨rfl, nofun⟩ hfails, fun hworks => absurd hfails hworks⟩
  | ok services =>
      dsimp only
      rcases servicesLoop_cases j startTime endTime none services.zipIdx with
        ⟨hfails, err, hloop⟩ | ⟨hwork, hloop⟩
      · rw [← fails_iff hservices] at hfails
        rw [hloop]
        exact ⟨iff_of_true ⟨rfl, nofun⟩ hfails, fun hworks => absurd hfails hworks⟩
      · have hworks : ¬Fails j startTime endTime := by
          rw [fails_iff hservices]
          intro ⟨service, i, hmem, hfails⟩
          exact hwork service i hmem hfails
        rw [hloop]
        refine ⟨iff_of_false (fun h => h.2 rfl) hworks, fun _ => ⟨services, rfl, rfl, ?_⟩⟩
        rw [getD_appendLines, receivedLines, received, List.map_flatMap]
        simp [Function.comp_def]

end Collector
