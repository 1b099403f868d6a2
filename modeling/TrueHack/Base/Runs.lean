-- SUMMARY: Runs of a step function: traces, the states they reach, and properties of every step along them.
import Mathlib.Data.List.Basic

/-!
# Runs

A machine takes one event at a time. Its runs are the finite event lists it
accepts from its initial state, kept with the latest event first, so that a run
grows at the head and every statement about "what happened before this step" is
a statement about the tail.

The step function is deterministic: whatever the environment decides (which
thread moves, what the clock reads, in which order a map is walked) is part of
the event.
-/

universe u v

/-- A machine with one initial state. An event that a state does not admit has
    no step. -/
structure Machine (State : Type u) (Event : Type v) where
  init : State
  step : State → Event → Option State

namespace Machine

variable {State : Type u} {Event : Type v} {M : Machine State Event}

/-- `M.Run es s`: the events `es`, latest first, lead from `M.init` to `s`. -/
inductive Run (M : Machine State Event) : List Event → State → Prop where
  | init : M.Run [] M.init
  | step {es : List Event} {s t : State} {e : Event} :
      M.Run es s → M.step s e = some t → M.Run (e :: es) t

/-- A list of events reaches at most one state. -/
theorem Run.deterministic {es : List Event} {s t : State}
    (hs : M.Run es s) (ht : M.Run es t) : s = t := by
  induction hs generalizing t with
  | init => cases ht; rfl
  | step _ hstep ih =>
      cases ht with
      | step hrun hstep' =>
          obtain rfl := ih hrun
          exact Option.some.inj (hstep.symm.trans hstep')

/-- The events of a run, cut anywhere: the earlier part is a run of its own. -/
theorem Run.earlier {later earlier : List Event} {t : State}
    (h : M.Run (later ++ earlier) t) : ∃ s, M.Run earlier s := by
  induction later generalizing t with
  | nil => exact ⟨t, h⟩
  | cons e later ih =>
      cases h with
      | step hrun _ => exact ih hrun

/-- The run `es` comes through the state `s`, its last state included. -/
def Visits (M : Machine State Event) (es : List Event) (s : State) : Prop :=
  ∃ later earlier, es = later ++ earlier ∧ M.Run earlier s

theorem Run.visits {es : List Event} {s : State} (h : M.Run es s) : M.Visits es s :=
  ⟨[], es, rfl, h⟩

theorem visits_init (es : List Event) : M.Visits es M.init :=
  ⟨es, [], (List.append_nil es).symm, .init⟩

theorem Visits.cons {es : List Event} {s : State} (h : M.Visits es s) (e : Event) :
    M.Visits (e :: es) s := by
  obtain ⟨later, earlier, rfl, hrun⟩ := h
  exact ⟨e :: later, earlier, rfl, hrun⟩

/-! ## Invariants -/

/-- A relation between the past and the state that holds at the start and
    survives every step holds of every run. -/
theorem Run.invariant {I : List Event → State → Prop} (hinit : I [] M.init)
    (hstep : ∀ es s e t, M.Run es s → I es s → M.step s e = some t → I (e :: es) t)
    {es : List Event} {s : State} (h : M.Run es s) : I es s := by
  induction h with
  | init => exact hinit
  | step hrun hs ih => exact hstep _ _ _ _ hrun ih hs

/-! ## Properties of every step -/

/-- Every step along the run `es` satisfies `P`, which may look at the past, the
    state before, the event, and the state after. -/
def Every (M : Machine State Event) (P : List Event → State → Event → State → Prop)
    (es : List Event) : Prop :=
  ∀ later e earlier s t, es = later ++ e :: earlier →
    M.Run earlier s → M.step s e = some t → P earlier s e t

variable {P Q : List Event → State → Event → State → Prop}

theorem every_cons {es : List Event} {s t : State} {e : Event}
    (hrun : M.Run es s) (hstep : M.step s e = some t) :
    M.Every P (e :: es) ↔ M.Every P es ∧ P es s e t := by
  constructor
  · intro h
    refine ⟨fun later e' earlier s' t' heq => ?_, h [] e es s t rfl hrun hstep⟩
    exact h (e :: later) e' earlier s' t' (by rw [heq, List.cons_append])
  · rintro ⟨hes, hlast⟩ later e' earlier s' t' heq hrun' hstep'
    cases later with
    | nil =>
        obtain ⟨rfl, rfl⟩ := List.cons.inj heq
        obtain rfl := hrun.deterministic hrun'
        obtain rfl := Option.some.inj (hstep.symm.trans hstep')
        exact hlast
    | cons e'' later =>
        exact hes later e' earlier s' t' (List.cons.inj heq).2 hrun' hstep'

/-- What every step satisfies along a run, every step satisfies along its
    earlier part. -/
theorem Every.earlier {later es : List Event} (h : M.Every P (later ++ es)) : M.Every P es :=
  fun later' e earlier s t heq hrun hstep =>
    h (later ++ later') e earlier s t (by rw [heq, List.append_assoc]) hrun hstep

/-- To replace a property of every step by another one, take each step with the
    knowledge that all steps before it have the first. -/
theorem Every.imp {es : List Event} (h : M.Every P es)
    (himp : ∀ past s e t, M.Run past s → M.step s e = some t → M.Every P past →
      P past s e t → Q past s e t) : M.Every Q es := by
  intro later e past s t heq hrun hstep
  have hpast : M.Every P past := by
    have hsplit : M.Every P ((later ++ [e]) ++ past) := by simpa [heq] using h
    exact hsplit.earlier
  exact himp past s e t hrun hstep hpast (h later e past s t heq hrun hstep)

/-- The invariant rule for runs whose steps are all known to satisfy `P`. -/
theorem Run.invariant_of_every {I : List Event → State → Prop} (hinit : I [] M.init)
    (hstep : ∀ es s e t, M.Run es s → M.Every P es → I es s → M.step s e = some t →
      P es s e t → I (e :: es) t)
    {es : List Event} {s : State} (h : M.Run es s) (hP : M.Every P es) : I es s := by
  induction h with
  | init => exact hinit
  | step hrun hs ih =>
      obtain ⟨hes, hlast⟩ := (every_cons hrun hs).mp hP
      exact hstep _ _ _ _ hrun hes (ih hes) hs hlast

/-- What holds at every step out of a reachable state holds along every run. -/
theorem every_of_step {es : List Event}
    (hstep : ∀ es s e t, M.Run es s → M.step s e = some t → P es s e t) : M.Every P es :=
  fun _ _ _ _ _ _ hrun hs => hstep _ _ _ _ hrun hs

/-! ## Replaying a given event list -/

/-- Take the events in the order they are listed. -/
def replay (M : Machine State Event) (s : State) : List Event → Option State
  | [] => some s
  | e :: es => (M.step s e).bind fun t => M.replay t es

theorem Run.replay {es es' : List Event} {s t : State} (h : M.Run es s)
    (hr : M.replay s es' = some t) : M.Run (es'.reverse ++ es) t := by
  induction es' generalizing es s with
  | nil =>
      obtain rfl := Option.some.inj hr
      exact h
  | cons e es' ih =>
      simp only [Machine.replay, Option.bind_eq_some_iff] at hr
      obtain ⟨u, hu, hr⟩ := hr
      simpa using ih (h.step hu) hr

/-- A list of events that replays from the initial state is a run. -/
theorem run_of_replay {es : List Event} {s : State} (h : M.replay M.init es = some s) :
    M.Run es.reverse s := by
  simpa using Run.init.replay h

end Machine
