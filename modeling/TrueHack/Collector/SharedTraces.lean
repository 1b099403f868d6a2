-- SUMMARY: Traces that cross services: which spans the Jaeger collector reports, how often, and under which service.
import Mathlib.Data.List.Flatten
import Mathlib.Data.List.Nodup
import Mathlib.Data.List.Perm.Basic
import Mathlib.Data.List.Perm.Subperm
import TrueHack.Collector.Jaeger

/-!
# Traces that cross services

Jaeger answers for a service with whole traces, so a trace of several services
comes back once for each of them, and all its spans are printed with the service
that was asked for.
-/

namespace Collector

open Go

/-- The traces of a time range; every span is in one of them. -/
structure Traces where
  traces : List (List Span)
  nodup : traces.flatten.Nodup

/-- All spans of the range. -/
def Traces.spans (traces : Traces) : List Span := traces.traces.flatten

/-- The trace has a span of the service. -/
def touches (service : String) (trace : List Span) : Bool :=
  trace.any fun span => span.serviceName = service

/-- What `FindTraces` finds for a service: all spans of every trace that has one of its. -/
def tracesOf (traces : Traces) (service : String) : List Span :=
  (traces.traces.filter (touches service)).flatten

/-- Jaeger answers with these services and traces, in chunks of any size. -/
structure Jaeger.Serves (j : Jaeger) (startTime endTime : Time) (services : List String)
    (traces : Traces) : Prop where
  listed : j.getServices = .ok services
  nodup : services.Nodup
  streamed : ∀ i service, services[i]? = some service → ∃ stream,
    j.findTraces i ⟨service, startTime, endTime⟩ = .ok stream ∧ stream.failure = none ∧
      stream.spans.Perm (tracesOf traces service)

/-- Every span with the service of its own process. -/
def ownSpans (traces : Traces) : List (String × Span) :=
  traces.spans.map fun span => (span.serviceName, span)

/-- All spans of the trace are of one service, and it is listed. -/
def OneService (services : List String) (trace : List Span) : Prop :=
  ∀ span ∈ trace, span.serviceName ∈ services ∧
    ∀ span' ∈ trace, span'.serviceName = span.serviceName

/-- What is received for services that share traces. -/
def sharedSpans (services : List String) (traces : Traces) : List (String × Span) :=
  services.flatMap fun service => (tracesOf traces service).map (service, ·)

variable {j : Jaeger} {startTime endTime : Time} {services : List String} {traces : Traces}
  {service : String}

theorem mem_tracesOf {span : Span} : span ∈ tracesOf traces service ↔
    ∃ trace ∈ traces.traces, touches service trace = true ∧ span ∈ trace := by
  simp [tracesOf, and_assoc]

theorem mem_sharedSpans {span : Span} : (service, span) ∈ sharedSpans services traces ↔
    service ∈ services ∧ ∃ trace ∈ traces.traces, touches service trace = true ∧ span ∈ trace := by
  simp [sharedSpans, mem_tracesOf]

theorem mem_ownSpans {span : Span} : (service, span) ∈ ownSpans traces ↔
    span ∈ traces.spans ∧ span.serviceName = service := by
  constructor
  · intro h
    obtain ⟨span', hmem, heq⟩ := List.mem_map.mp h
    cases heq
    exact ⟨hmem, rfl⟩
  · intro ⟨hmem, hname⟩
    exact List.mem_map.mpr ⟨span, hmem, by rw [hname]⟩

theorem ownSpans_nodup : (ownSpans traces).Nodup := by
  apply List.Nodup.map _ traces.nodup
  intro span span' h
  exact (Prod.mk.inj h).2

/-- No span is received twice for one service. -/
theorem sharedSpans_nodup (h : services.Nodup) : (sharedSpans services traces).Nodup := by
  rw [sharedSpans, List.nodup_flatMap]
  constructor
  · intro service _
    apply List.Nodup.map (Prod.mk_right_injective service)
    exact traces.nodup.sublist (List.filter_sublist.flatten)
  · apply h.imp
    intro service service' hne x hx hx'
    obtain ⟨span, _, rfl⟩ := List.mem_map.mp hx
    obtain ⟨span', _, heq⟩ := List.mem_map.mp hx'
    exact hne (Prod.mk.inj heq).1.symm

/-- Services that share no traces receive every span once, and its own service does. -/
theorem sharedSpans_perm_iff (h : services.Nodup) :
    (sharedSpans services traces).Perm (ownSpans traces) ↔
      ∀ trace ∈ traces.traces, OneService services trace := by
  rw [List.perm_ext_iff_of_nodup (sharedSpans_nodup h) ownSpans_nodup]
  constructor
  · intro hsame trace htrace span hspan
    have hlisted (span : Span) (hspan : span ∈ trace) : span.serviceName ∈ services :=
      (mem_sharedSpans.mp ((hsame (span.serviceName, span)).mpr
        (mem_ownSpans.mpr ⟨List.mem_flatten.mpr ⟨trace, htrace, hspan⟩, rfl⟩))).1
    refine ⟨hlisted span hspan, ?_⟩
    intro span' hspan'
    have htouches : touches span'.serviceName trace = true :=
      List.any_eq_true.mpr ⟨span', hspan', by simp⟩
    have hshared : (span'.serviceName, span) ∈ sharedSpans services traces :=
      mem_sharedSpans.mpr ⟨hlisted span' hspan', trace, htrace, htouches, hspan⟩
    exact (mem_ownSpans.mp ((hsame _).mp hshared)).2.symm
  · intro hone ⟨service, span⟩
    rw [mem_sharedSpans, mem_ownSpans]
    constructor
    · intro ⟨_, trace, htrace, htouches, hspan⟩
      obtain ⟨span', hspan', hname⟩ := List.any_eq_true.mp htouches
      refine ⟨List.mem_flatten.mpr ⟨trace, htrace, hspan⟩, ?_⟩
      rw [← of_decide_eq_true hname]
      exact (hone trace htrace span' hspan').2 span hspan
    · intro ⟨hmem, hname⟩
      obtain ⟨trace, htrace, hspan⟩ := List.mem_flatten.mp hmem
      refine ⟨hname ▸ (hone trace htrace span hspan).1, trace, htrace, ?_, hspan⟩
      exact List.any_eq_true.mpr ⟨span, hspan, by simpa using hname⟩

/-! ## What is received -/

/-- What is received is the same up to the order in which the spans are streamed. -/
theorem received_perm (h : j.Serves startTime endTime services traces) :
    (received j startTime endTime services.zipIdx).Perm (sharedSpans services traces) := by
  have hfst : sharedSpans services traces = services.zipIdx.flatMap fun service =>
      (tracesOf traces service.1).map (service.1, ·) := by
    rw [sharedSpans, ← List.flatMap_map Prod.fst fun service =>
      (tracesOf traces service).map (service, ·), List.zipIdx_map_fst]
  rw [hfst, received]
  apply List.Perm.flatMap_left
  intro service hmem
  obtain ⟨stream, hfind, _, hspans⟩ :=
    h.streamed service.2 service.1 (List.mem_zipIdx_iff_getElem?.mp hmem)
  simp only [spansAt, hfind]
  exact hspans.map _

/-- Nothing fails. -/
theorem collect_serves (h : j.Serves startTime endTime services traces) :
    (collect j startTime endTime).err = none ∧
      (collect j startTime endTime).slice.getD [] =
        receivedLines j startTime endTime services.zipIdx := by
  unfold collect
  rw [h.listed]
  dsimp only
  rcases servicesLoop_cases j startTime endTime none services.zipIdx with
    ⟨⟨service, i, hmem, hfails⟩, _⟩ | ⟨_, hloop⟩
  · obtain ⟨stream, hfind, hend, _⟩ := h.streamed i service (List.mem_zipIdx_iff_getElem?.mp hmem)
    cases hfails with
    | inl herror =>
        obtain ⟨err, herror⟩ := herror
        cases hfind.symm.trans herror
    | inr hstream =>
        obtain ⟨stream', err, hfind', hfailure⟩ := hstream
        cases hfind.symm.trans hfind'
        cases hend.symm.trans hfailure
  · rw [hloop]
    exact ⟨rfl, by rw [getD_appendLines, Option.getD_none, List.nil_append]⟩

/-- The line of every span of the range, with the service of its own process. -/
def ownLines (traces : Traces) : List String :=
  traces.spans.map fun span => traceLine span.serviceName span

/-- Where every span's service is listed, as many lines as spans means that there is
    nothing else. -/
theorem sharedSpans_perm_of_length
    (hlisted : ∀ span ∈ traces.spans, span.serviceName ∈ services)
    (hlength : (sharedSpans services traces).length = (ownSpans traces).length) :
    (sharedSpans services traces).Perm (ownSpans traces) := by
  have hsub : ownSpans traces ⊆ sharedSpans services traces := by
    intro ⟨service, span⟩ hmem
    obtain ⟨hspan, hname⟩ := mem_ownSpans.mp hmem
    obtain ⟨trace, htrace, hin⟩ := List.mem_flatten.mp hspan
    refine mem_sharedSpans.mpr ⟨hname ▸ hlisted span hspan, trace, htrace, ?_, hin⟩
    exact List.any_eq_true.mpr ⟨span, hin, by simpa using hname⟩
  exact ((ownSpans_nodup.subperm hsub).perm_of_length_le hlength.le).symm

/-- The lines are those of what is received. Every span of the range is received once,
    for its own service, exactly when no trace crosses services and every service is
    listed; and where every span's service is listed, that is also exactly when the lines
    are one for each span, with its own service. -/
theorem reported_once_iff (j : Jaeger) (startTime endTime : Time) (services : List String)
    (traces : Traces) (h : j.Serves startTime endTime services traces) :
    ((collect j startTime endTime).slice.getD [] =
      (received j startTime endTime services.zipIdx).map
        fun (service, span) => traceLine service span) ∧
    ((received j startTime endTime services.zipIdx).Perm (ownSpans traces) ↔
      ∀ trace ∈ traces.traces, OneService services trace) ∧
    ((∀ span ∈ traces.spans, span.serviceName ∈ services) →
      (((collect j startTime endTime).slice.getD []).Perm (ownLines traces) ↔
        ∀ trace ∈ traces.traces, OneService services trace)) := by
  have hreceived := received_perm h
  have hlines := (collect_serves h).2
  refine ⟨hlines, ?_, ?_⟩
  · rw [hreceived.congr_left]
    exact sharedSpans_perm_iff h.nodup
  · intro hlisted
    rw [← sharedSpans_perm_iff h.nodup, hlines]
    constructor
    · intro hperm
      apply sharedSpans_perm_of_length hlisted
      have hlength := hperm.length_eq
      rw [receivedLines, List.length_map, hreceived.length_eq, ownLines, List.length_map]
        at hlength
      rw [hlength, ownSpans, List.length_map]
    · intro hperm
      have hmap := (hreceived.trans hperm).map fun (service, span) => traceLine service span
      rwa [ownSpans, List.map_map] at hmap

/-- A Jaeger that has just these services and traces, and streams what it finds at once. -/
def plainJaeger (services : List String) (traces : Traces) : Jaeger where
  getServices := .ok services
  findTraces _ request := .ok (.chunk (tracesOf traces request.serviceName) .eof)

theorem plainJaeger_serves (h : services.Nodup) :
    (plainJaeger services traces).Serves startTime endTime services traces where
  listed := rfl
  nodup := h
  streamed i service _ := by
    refine ⟨_, rfl, rfl, ?_⟩
    simp [Stream.spans, Stream.chunks]

/-- 1970-01-01T00:00:00Z -/
def dayOne : Time := ⟨0, 0, .utc, zero_lt_second⟩

/-- A span of the service at the start of a trace. -/
def plainSpan (serviceName spanID : String) : Span :=
  ⟨"0000000000000001", spanID, "SubmitSolution", dayOne, "1ms", "p1", serviceName⟩

/-- Two spans of one service. -/
theorem reported_once_server :
    ((collect (plainJaeger ["server"] ⟨[[plainSpan "server" "01", plainSpan "server" "02"]],
      by decide⟩) dayOne dayOne).slice.getD []).Perm
    (ownLines ⟨[[plainSpan "server" "01", plainSpan "server" "02"]], by decide⟩) := by
  have hiff := reported_once_iff (plainJaeger ["server"]
    ⟨[[plainSpan "server" "01", plainSpan "server" "02"]], by decide⟩) dayOne dayOne ["server"] _
    (plainJaeger_serves (by decide))
  have hlisted : ∀ span ∈ [plainSpan "server" "01", plainSpan "server" "02"],
      span.serviceName ∈ ["server"] := by decide
  refine (hiff.2.2 hlisted).mpr ?_
  intro trace htrace
  cases List.mem_singleton.mp htrace
  intro span hspan
  refine ⟨hlisted span hspan, ?_⟩
  have hsame : ∀ span' ∈ [plainSpan "server" "01", plainSpan "server" "02"],
    span'.serviceName = "server" := by decide
  intro span' hspan'
  rw [hsame span' hspan', hsame span hspan]

/-- A call from a client to a server is reported four times, not twice. -/
theorem shared_trace_repeated : ¬∀ j startTime endTime services traces,
    j.Serves startTime endTime services traces →
    ((collect j startTime endTime).slice.getD []).Perm (ownLines traces) := by
  intro h
  let traces : Traces := ⟨[[plainSpan "client" "01", plainSpan "server" "02"]], by decide⟩
  have hserves : (plainJaeger ["client", "server"] traces).Serves dayOne dayOne
    ["client", "server"] traces := plainJaeger_serves (by decide)
  have hlength := (h _ _ _ _ _ hserves).length_eq
  have hfour : ((collect (plainJaeger ["client", "server"] traces) dayOne dayOne).slice.getD
    []).length = 4 := rfl
  rw [hfour] at hlength
  exact absurd hlength (by decide)

end Collector
