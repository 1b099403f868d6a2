-- SUMMARY: Which calls the interceptor refuses, and which requests are to blame.
import TrueHack.Contest.Intercept

/-!
# The flags of the interceptor

The flags are read one after the other while other goroutines write them. Each
reading sees the latest write, and each write was asked for by a debug request,
even by one that is then answered 400.
-/

namespace Truetech

open Storage Control SharedObject

variable {reqs : ℕ → ServerRequest} {req : ServerRequest} {c c' : ServerState} {i : ℕ}
  {h : List (Performed (Op String Team ⊕ FlagOp) (List Team))} {rawQuery : List UInt8}
  {o : Op String Team ⊕ FlagOp} {k : EitherRes Op.Res FlagOp.Res o → ServerCall} {p : ServerCall}

/-! ## What a call can do next -/

/-- Where a call can be. -/
inductive Stage (req : ServerRequest) : ServerCall → Prop where
  | intercept {r : Request} (hreq : req = .rpc r) : Stage req (intercept r.handler)
  | panic {r : Request} (hreq : req = .rpc r) : Stage req interceptPanic
  | delay {r : Request} (hreq : req = .rpc r) : Stage req (interceptDelay r.handler)
  | error {r : Request} (hreq : req = .rpc r) : Stage req (interceptError r.handler)
  | handler (q : Handler) : Stage req q.passed
  | refused (refusal : Refusal) : Stage req (.ret (.inr refusal))
  | control {rawQuery : List UInt8} (hreq : req = .control rawQuery) :
      Stage req (controlHandle rawQuery)
  | controlPanic {rawQuery : List UInt8} (hreq : req = .control rawQuery) :
      Stage req (controlPanic rawQuery)
  | controlDelay {rawQuery : List UInt8} (hreq : req = .control rawQuery)
      (hpanic : ¬Invalid "panic" rawQuery) : Stage req (controlDelay rawQuery)
  | controlError {rawQuery : List UInt8} (hreq : req = .control rawQuery)
      (hpanic : ¬Invalid "panic" rawQuery) (hdelay : ¬Invalid "delay" rawQuery) :
      Stage req (controlError rawQuery)

/-- The next operation of a call, and what the call comes to after it. -/
inductive Asks (req : ServerRequest) :
    (o : Op String Team ⊕ FlagOp) → (EitherRes Op.Res FlagOp.Res o → ServerCall) → Prop where
  | mustPanic {r : Request} (hreq : req = .rpc r) : Asks req (.inr .mustPanic)
      fun (mustPanic : Bool) => if mustPanic then interceptPanic else interceptDelay r.handler
  | panic {r : Request} (hreq : req = .rpc r) :
      Asks req (.inr .panic) fun _ => .ret (.inr .crashed)
  | mustDelay {r : Request} (hreq : req = .rpc r) :
      Asks req (.inr .mustDelay) fun (_ : Bool) => interceptError r.handler
  | mustError {r : Request} (hreq : req = .rpc r) : Asks req (.inr .mustError)
      fun (mustError : Bool) =>
        if mustError then .ret (.inr (.internal "must error")) else r.handler.passed
  | handler (o : Op String Team) (k : o.Res → Handler) :
      Asks req (.inl o) fun r => (k r).passed
  | arrive {rawQuery : List UInt8} (hreq : req = .control rawQuery) :
      Asks req (.inr .arrive) fun _ => controlPanic rawQuery
  | setPanic {rawQuery : List UInt8} {value : Bool} (hreq : req = .control rawQuery)
      (hpanic : given "panic" rawQuery = some value) :
      Asks req (.inr (.setPanic value)) fun _ => controlDelay rawQuery
  | setDelay {rawQuery : List UInt8} {value : Bool} (hreq : req = .control rawQuery)
      (hpanic : ¬Invalid "panic" rawQuery) (hdelay : given "delay" rawQuery = some value) :
      Asks req (.inr (.setDelay value)) fun _ => controlError rawQuery
  | setError {rawQuery : List UInt8} {value : Bool} (hreq : req = .control rawQuery)
      (hpanic : ¬Invalid "panic" rawQuery) (hdelay : ¬Invalid "delay" rawQuery)
      (herror : given "error" rawQuery = some value) :
      Asks req (.inr (.setError value)) fun _ => .ret (.inr (.controlled none))

theorem not_invalid_of_empty {key : String} (h : getParam (parseQuery rawQuery) key = []) :
    ¬Invalid key rawQuery :=
  fun hinvalid => hinvalid.1 h

theorem not_invalid_of_given {key : String} {value : Bool} (h : given key rawQuery = some value) :
    ¬Invalid key rawQuery := by
  intro hinvalid
  rw [hinvalid.2] at h
  cases h

theorem asks_of_controlError (hreq : req = .control rawQuery) (hpanic : ¬Invalid "panic" rawQuery)
    (hdelay : ¬Invalid "delay" rawQuery) (hp : controlError rawQuery = .op o k) : Asks req o k := by
  unfold controlError at hp
  rcases setParam_cases (getParam (parseQuery rawQuery) "error")
    "Invalid value for error parameter" .setError (.ret (.inr (.controlled none))) with
    ⟨_, heq⟩ | ⟨_, _, heq⟩ | ⟨value, _, hgiven, heq⟩
  · rw [heq] at hp
    cases hp
  · rw [heq] at hp
    cases hp
  · rw [heq] at hp
    cases hp
    exact .setError hreq hpanic hdelay hgiven

theorem asks_of_controlDelay (hreq : req = .control rawQuery) (hpanic : ¬Invalid "panic" rawQuery)
    (hp : controlDelay rawQuery = .op o k) : Asks req o k := by
  unfold controlDelay at hp
  rcases setParam_cases (getParam (parseQuery rawQuery) "delay")
    "Invalid value for delay parameter" .setDelay (controlError rawQuery) with
    ⟨hempty, heq⟩ | ⟨_, _, heq⟩ | ⟨value, _, hgiven, heq⟩
  · rw [heq] at hp
    exact asks_of_controlError hreq hpanic (not_invalid_of_empty hempty) hp
  · rw [heq] at hp
    cases hp
  · rw [heq] at hp
    cases hp
    exact .setDelay hreq hpanic hgiven

theorem asks_of_controlPanic (hreq : req = .control rawQuery)
    (hp : controlPanic rawQuery = .op o k) : Asks req o k := by
  unfold controlPanic at hp
  rcases setParam_cases (getParam (parseQuery rawQuery) "panic")
    "Invalid value for panic parameter" .setPanic (controlDelay rawQuery) with
    ⟨hempty, heq⟩ | ⟨_, _, heq⟩ | ⟨value, _, hgiven, heq⟩
  · rw [heq] at hp
    exact asks_of_controlDelay hreq (not_invalid_of_empty hempty) hp
  · rw [heq] at hp
    cases hp
  · rw [heq] at hp
    cases hp
    exact .setPanic hreq hgiven

theorem asks_of_stage (hstage : Stage req (.op o k)) : Asks req o k := by
  generalize hp : Prog.op o k = p at hstage
  cases hstage with
  | intercept hreq =>
      cases hp
      exact .mustPanic hreq
  | panic hreq =>
      cases hp
      exact .panic hreq
  | delay hreq =>
      cases hp
      exact .mustDelay hreq
  | error hreq =>
      cases hp
      exact .mustError hreq
  | handler q =>
      cases q with
      | ret a => cases hp
      | op o k =>
          cases hp
          exact .handler o k
  | refused refusal => cases hp
  | control hreq =>
      cases hp
      exact .arrive hreq
  | controlPanic hreq => exact asks_of_controlPanic hreq hp.symm
  | controlDelay hreq hpanic => exact asks_of_controlDelay hreq hpanic hp.symm
  | controlError hreq hpanic hdelay => exact asks_of_controlError hreq hpanic hdelay hp.symm

/-- An operation leads from one stage to the next. -/
theorem Asks.stage (hasks : Asks req o k) (r : EitherRes Op.Res FlagOp.Res o) : Stage req (k r) := by
  cases hasks with
  | mustPanic hreq =>
      cases r with
      | true => exact .panic hreq
      | false => exact .delay hreq
  | panic => exact .refused _
  | mustDelay hreq => exact .error hreq
  | mustError hreq =>
      cases r with
      | true => exact .refused _
      | false => exact .handler _
  | handler o k => exact .handler (k r)
  | arrive hreq => exact .controlPanic hreq
  | setPanic hreq hpanic => exact .controlDelay hreq (not_invalid_of_given hpanic)
  | setDelay hreq hpanic hdelay => exact .controlError hreq hpanic (not_invalid_of_given hdelay)
  | setError => exact .refused _

theorem stage_call (req : ServerRequest) : Stage req req.call := by
  cases req with
  | rpc r => exact .intercept rfl
  | control rawQuery => exact .control rfl

theorem stage (hhistory : ServerHistory reqs h c)
    (hp : (c.thread i).program (reqs i).call = some p) : Stage (reqs i) p :=
  hhistory.program (P := fun i p => Stage (reqs i) p) (fun i => stage_call (reqs i))
    (fun _ _ _ r hstage => (asks_of_stage hstage).stage r) hp

/-- Every operation of a run is one that its call can ask for. -/
theorem asks (hhistory : ServerHistory reqs h c)
    (hp : (c.thread i).program (reqs i).call = some (.op o k)) : Asks (reqs i) o k :=
  asks_of_stage (stage hhistory hp)

/-! ## What the flags read -/

/-- What an operation writes to the flag of panics, and so on. -/
def FlagOp.panicWrite : FlagOp → Option Bool
  | .setPanic value => some value
  | _ => none

def FlagOp.delayWrite : FlagOp → Option Bool
  | .setDelay value => some value
  | _ => none

def FlagOp.errorWrite : FlagOp → Option Bool
  | .setError value => some value
  | _ => none

/-- What one operation of a history writes. -/
def writeOf (write : FlagOp → Option Bool) (p : Performed (Op String Team ⊕ FlagOp) (List Team)) :
    Option Bool :=
  match p.op with
  | .inl _ => none
  | .inr o => write o

/-- The latest value written; a flag is off at first. -/
def written (write : FlagOp → Option Bool)
    (h : List (Performed (Op String Team ⊕ FlagOp) (List Team))) : Bool :=
  (h.findSome? (writeOf write)).getD false

theorem written_cons {write : FlagOp → Option Bool}
    {p : Performed (Op String Team ⊕ FlagOp) (List Team)} :
    written write (p :: h) = (writeOf write p).getD (written write h) := by
  rw [written, List.findSome?_cons]
  cases writeOf write p <;> rfl

/-- A flag that is on was written by some operation. -/
theorem exists_write {write : FlagOp → Option Bool} (hwritten : written write h = true) :
    ∃ p ∈ h, ∃ o, p.op = .inr o ∧ write o = some true := by
  unfold written at hwritten
  cases hfind : h.findSome? (writeOf write) with
  | none => simp [hfind] at hwritten
  | some value =>
      obtain ⟨⟨i, op, x⟩, hmem, hwrite⟩ := List.exists_of_findSome?_eq_some hfind
      obtain rfl : value = true := by simpa [hfind] using hwritten
      cases op with
      | inl o => cases hwrite
      | inr o => exact ⟨_, hmem, o, rfl, hwrite⟩

/-- What an operation leaves of the flags. -/
theorem flags_apply {d d' : Debug} {o : FlagOp} {x : List Team} {r : FlagOp.Res o}
    (happ : flags.apply d o x = some (r, d')) :
    d'.interceptor = ⟨o.panicWrite.getD d.interceptor.mustPanic,
      o.delayWrite.getD d.interceptor.mustDelay, o.errorWrite.getD d.interceptor.mustError⟩ ∧
    (d'.crashed = true ↔ d.crashed = true ∨ o = .panic) := by
  cases o <;> cases happ <;>
    simp [FlagOp.panicWrite, FlagOp.delayWrite, FlagOp.errorWrite]

/-- Each flag has the latest value written to it. -/
theorem interceptor_eq (hhistory : ServerHistory reqs h c) : c.shared.2.interceptor =
    ⟨written FlagOp.panicWrite h, written FlagOp.delayWrite h, written FlagOp.errorWrite h⟩ := by
  induction hhistory with
  | init => rfl
  | ret _ _ ih => simpa using ih
  | @op h c i o k x r s _ _ happ ih =>
      rw [Config.settle_shared, written_cons, written_cons, written_cons]
      cases o with
      | inl o =>
          obtain ⟨_, _, hsame⟩ := apply_inl happ
          rw [hsame, ih]
          rfl
      | inr o =>
          obtain ⟨_, hflags, _⟩ := apply_inr happ
          rw [(flags_apply hflags).1, ih]
          rfl

/-- What a call finds in the panic flag, and in the error flag. -/
theorem mustPanic_read {x : List Team} {r : Bool} {s : InMemory String Team × Debug}
    (hhistory : ServerHistory reqs h c)
    (happ : serverObject.apply c.shared (.inr .mustPanic) x = some (r, s)) :
    r = written FlagOp.panicWrite h := by
  obtain ⟨_, hflags, _⟩ := apply_inr happ
  obtain ⟨rfl, _⟩ := Prod.mk.inj (Option.some.inj hflags)
  rw [interceptor_eq hhistory]

theorem mustError_read {x : List Team} {r : Bool} {s : InMemory String Team × Debug}
    (hhistory : ServerHistory reqs h c)
    (happ : serverObject.apply c.shared (.inr .mustError) x = some (r, s)) :
    r = written FlagOp.errorWrite h := by
  obtain ⟨_, hflags, _⟩ := apply_inr happ
  obtain ⟨rfl, _⟩ := Prod.mk.inj (Option.some.inj hflags)
  rw [interceptor_eq hhistory]

/-! ## Who is refused -/

/-- The call looks at the error flag when the latest write has switched it on. -/
def SeesError (i : ℕ) (p : Performed (Op String Team ⊕ FlagOp) (List Team))
    (earlier : List (Performed (Op String Team ⊕ FlagOp) (List Team))) : Prop :=
  p.call = i ∧ p.op = .inr .mustError ∧ written FlagOp.errorWrite earlier = true

/-- The call looks at the panic flag when the latest write has switched it on. -/
def SeesPanic (i : ℕ) (p : Performed (Op String Team ⊕ FlagOp) (List Team))
    (earlier : List (Performed (Op String Team ⊕ FlagOp) (List Team))) : Prop :=
  p.call = i ∧ p.op = .inr .mustPanic ∧ written FlagOp.panicWrite earlier = true

theorem passed_ne_refusal (q : Handler) (refusal : Refusal) :
    (q.passed : ServerCall) ≠ .ret (.inr refusal) := by
  cases q <;> simp [Prog.passed]

theorem call_ne_ret (i : ℕ) (a : Reply ⊕ Refusal) : (reqs i).call ≠ .ret a := by
  cases reqs i <;> simp [ServerRequest.call, intercept, controlHandle]

/-- Looking at a parameter refuses with an answer of the endpoint, if at all. -/
theorem setParam_ne_internal {param : List UInt8} {message internal : String}
    {set : Bool → FlagOp} {rest : ServerCall} (hrest : rest ≠ .ret (.inr (.internal internal))) :
    setParam param message set rest ≠ .ret (.inr (.internal internal)) := by
  rcases setParam_cases param message set rest with ⟨_, heq⟩ | ⟨_, _, heq⟩ | ⟨_, _, _, heq⟩
  · rwa [heq]
  · simp [heq]
  · simp [heq]

theorem controlError_ne_internal (rawQuery : List UInt8) (message : String) :
    controlError rawQuery ≠ .ret (.inr (.internal message)) :=
  setParam_ne_internal (by simp)

theorem controlDelay_ne_internal (rawQuery : List UInt8) (message : String) :
    controlDelay rawQuery ≠ .ret (.inr (.internal message)) :=
  setParam_ne_internal (controlError_ne_internal rawQuery message)

theorem controlPanic_ne_internal (rawQuery : List UInt8) (message : String) :
    controlPanic rawQuery ≠ .ret (.inr (.internal message)) :=
  setParam_ne_internal (controlDelay_ne_internal rawQuery message)

/-- No operation but a look at the error flag makes a call refuse. -/
theorem refuses_iff {x : List Team} {r : EitherRes Op.Res FlagOp.Res o}
    {s : InMemory String Team × Debug} (hhistory : ServerHistory reqs h c)
    (hprogram : (c.thread i).program (reqs i).call = some (.op o k))
    (happ : serverObject.apply c.shared o x = some (r, s)) (message : String) :
    k r = .ret (.inr (.internal message)) ↔
      message = "must error" ∧ SeesError i ⟨i, o, x⟩ h := by
  cases asks hhistory hprogram with
  | mustError =>
      have hread := mustError_read hhistory happ
      cases r with
      | true => simp [SeesError, ← hread, eq_comm]
      | false => simp [SeesError, ← hread, passed_ne_refusal]
  | mustPanic => cases r <;> simp [SeesError, interceptPanic, interceptDelay]
  | panic => simp [SeesError]
  | mustDelay => simp [SeesError, interceptError]
  | handler o k => simp [SeesError, passed_ne_refusal]
  | arrive => simp [SeesError, controlPanic_ne_internal]
  | setPanic => simp [SeesError, controlDelay_ne_internal]
  | setDelay => simp [SeesError, controlError_ne_internal]
  | setError => simp [SeesError]

/-- A refused call has seen the error flag switched on. -/
theorem seenError {message : String} (hhistory : ServerHistory reqs h c)
    (hmem : (i, .inr (.internal message)) ∈ c.replies) :
    message = "must error" ∧ Sometime (SeesError i) h := by
  induction hhistory with
  | init => cases hmem
  | ret hhistory hprogram =>
      exact absurd hprogram (hhistory.not_ret (fun i a => call_ne_ret i a) _ _)
  | op hhistory hprogram happ ih =>
      rcases Config.mem_settle_replies.mp hmem with hold | ⟨rfl, hrefused⟩
      · obtain ⟨hmessage, hsees⟩ := ih hold
        exact ⟨hmessage, .inr hsees⟩
      · obtain ⟨hmessage, hsees⟩ := (refuses_iff hhistory hprogram happ message).mp hrefused
        exact ⟨hmessage, .inl hsees⟩

/-- A call that sees the error flag switched on is refused. -/
theorem internal_of_seen (hhistory : ServerHistory reqs h c) (hsees : Sometime (SeesError i) h) :
    (i, .inr (.internal "must error")) ∈ c.replies := by
  induction hhistory with
  | init => cases hsees
  | ret hhistory hprogram =>
      exact absurd hprogram (hhistory.not_ret (fun i a => call_ne_ret i a) _ _)
  | op hhistory hprogram happ ih =>
      rw [Config.mem_settle_replies]
      rcases hsees with hnow | hsees
      · obtain rfl := hnow.1
        exact .inr ⟨rfl, (refuses_iff hhistory hprogram happ "must error").mpr ⟨rfl, hnow⟩⟩
      · exact .inl (ih hsees)

/-- A call is refused exactly if the error flag was on when it looked. -/
theorem internal_iff (hhistory : ServerHistory reqs h c) (i : ℕ) (message : String) :
    (i, .inr (.internal message)) ∈ c.replies ↔
      message = "must error" ∧ Sometime (SeesError i) h := by
  refine ⟨seenError hhistory, ?_⟩
  rintro ⟨rfl, hsees⟩
  exact internal_of_seen hhistory hsees

/-- Two debug requests, the first one with a mistake in it, and two registrations. -/
def faultRequests : ℕ → ServerRequest
  | 0 => .control (bytes "panic=true&delay=soon")
  | 1 => .control (bytes "error=true")
  | 2 => .rpc (.registerTeam "red" ["ann"])
  | _ => .rpc (.registerTeam "blue" ["bob"])

/-- The first registration meets the error flag. -/
def refusedHistory : List (Performed (Op String Team ⊕ FlagOp) (List Team)) :=
  [⟨2, .inr .mustError, []⟩, ⟨2, .inr .mustDelay, []⟩, ⟨2, .inr .mustPanic, []⟩,
    ⟨1, .inr (.setError true), []⟩, ⟨1, .inr .arrive, []⟩]

theorem exists_refused : ∃ c, ServerHistory faultRequests refusedHistory c := by
  have hset : ServerHistory faultRequests
      [⟨1, .inr (.setError true), []⟩, ⟨1, .inr .arrive, []⟩] _ := .op (.op .init rfl rfl) rfl rfl
  exact ⟨_, .op (.op (.op hset rfl rfl) rfl rfl) rfl rfl⟩

theorem internal_iff_refused : ∃ c, ServerHistory faultRequests refusedHistory c ∧
    (2, .inr (.internal "must error")) ∈ c.replies := by
  obtain ⟨c, hhistory⟩ := exists_refused
  exact ⟨c, hhistory, (internal_iff hhistory 2 "must error").mpr ⟨rfl, .inl ⟨rfl, rfl, rfl⟩⟩⟩

/-! ## Who is to blame -/

theorem passed_ne_panic (q : Handler) : q.passed ≠ interceptPanic := by
  cases q <;> simp [Prog.passed, interceptPanic]

/-- A call is about to panic because it has just seen the panic flag switched on. -/
theorem seesPanic {x : List Team} {r : EitherRes Op.Res FlagOp.Res o}
    {s : InMemory String Team × Debug} (hhistory : ServerHistory reqs h c)
    (hprogram : (c.thread i).program (reqs i).call = some (.op o k))
    (happ : serverObject.apply c.shared o x = some (r, s)) (hpanic : k r = interceptPanic) :
    SeesPanic i ⟨i, o, x⟩ h := by
  have hasks := asks hhistory hprogram
  have hrpc : ∃ q, reqs i = .rpc q := by
    have hstage := hasks.stage r
    rw [hpanic] at hstage
    cases asks_of_stage hstage with
    | panic hreq => exact ⟨_, hreq⟩
  obtain ⟨q, hq⟩ := hrpc
  cases hasks with
  | mustPanic =>
      have hread := mustPanic_read hhistory happ
      cases r with
      | true => exact ⟨rfl, rfl, hread.symm⟩
      | false => simp [interceptPanic, interceptDelay] at hpanic
  | panic => cases hpanic
  | mustDelay => simp [interceptPanic, interceptError] at hpanic
  | mustError =>
      cases r with
      | true => cases hpanic
      | false => exact absurd hpanic (passed_ne_panic _)
  | handler o k => exact absurd hpanic (passed_ne_panic _)
  | arrive hreq => cases hq.symm.trans hreq
  | setPanic hreq => cases hq.symm.trans hreq
  | setDelay hreq => cases hq.symm.trans hreq
  | setError hreq => cases hq.symm.trans hreq

theorem seenPanic (hhistory : ServerHistory reqs h c)
    (hp : (c.thread i).program (reqs i).call = some interceptPanic) :
    Sometime (SeesPanic i) h := by
  induction hhistory with
  | init =>
      have hcall := Option.some.inj hp
      cases hreq : reqs i <;>
        simp [hreq, ServerRequest.call, intercept, controlHandle, interceptPanic] at hcall
  | ret hhistory hprogram =>
      exact absurd hprogram (hhistory.not_ret (fun i a => call_ne_ret i a) _ _)
  | @op h c j o k x r s hhistory hprogram happ ih =>
      by_cases hij : i = j
      · subst hij
        exact .inl (seesPanic hhistory hprogram happ (Config.eq_of_settle_program hp))
      · rw [Config.settle_thread_ne hij] at hp
        exact .inr (ih hp)

/-- The process ends with a panic, and with nothing else. -/
theorem crashed_apply {u t : InMemory String Team × Debug} {x : List Team}
    {r : EitherRes Op.Res FlagOp.Res o} (happ : serverObject.apply u o x = some (r, t)) :
    t.2.crashed = true ↔ o = .inr .panic := by
  cases o with
  | inl o =>
      obtain ⟨hup, _, hsame⟩ := apply_inl happ
      rw [hsame]
      simpa using hup
  | inr o =>
      obtain ⟨hup, hflags, _⟩ := apply_inr happ
      have hrunning : u.2.crashed = false := by simpa using hup
      rw [(flags_apply hflags).2, hrunning]
      simp

/-- The last operation of a process that has ended is the panic of a call that had seen the
    panic flag switched on. -/
theorem seen_of_crashed (hhistory : ServerHistory reqs h c) (hcrashed : c.shared.2.crashed = true) :
    ∃ i x earlier, h = ⟨i, .inr .panic, x⟩ :: earlier ∧ Sometime (SeesPanic i) earlier := by
  cases hhistory with
  | init => cases hcrashed
  | ret hhistory hprogram =>
      exact absurd hprogram (hhistory.not_ret (fun i a => call_ne_ret i a) _ _)
  | @op h c i o k x r s hhistory hprogram happ =>
      rw [Config.settle_shared, crashed_apply happ] at hcrashed
      subst hcrashed
      refine ⟨i, x, h, rfl, seenPanic hhistory ?_⟩
      cases asks hhistory hprogram with
      | panic => exact hprogram

/-- After a panic the process has ended. -/
theorem crashed_of_panic {x : List Team}
    (hhistory : ServerHistory reqs (⟨i, .inr .panic, x⟩ :: h) c) : c.shared.2.crashed = true := by
  generalize hg : (⟨i, .inr .panic, x⟩ :: h : List (Performed (Op String Team ⊕ FlagOp) _)) = g
    at hhistory
  cases hhistory with
  | init => cases hg
  | ret hhistory hprogram =>
      exact absurd hprogram (hhistory.not_ret (fun i a => call_ne_ret i a) _ _)
  | op _ _ happ =>
      obtain ⟨hperformed, _⟩ := List.cons.inj hg
      rw [Config.settle_shared, crashed_apply happ, ← (Performed.mk.inj hperformed).2.1]

/-- A process that has ended does nothing any more. -/
theorem stopped (hhistory : ServerHistory reqs h c) (hcrashed : c.shared.2.crashed = true)
    (e : ℕ × List Team) : (server reqs).step c e = none := by
  obtain ⟨i, x⟩ := e
  cases hstep : (server reqs).step c (i, x) with
  | none => rfl
  | some c' =>
      obtain ⟨a, hprogram, _⟩ | ⟨o, k, r, s, _, happ, _⟩ := step_cases hstep
      · exact absurd hprogram (hhistory.not_ret (fun i a => call_ne_ret i a) _ _)
      · have hup : c.shared.2.crashed = false := by
          cases o with
          | inl o => simpa using (apply_inl happ).1
          | inr o => simpa using (apply_inr happ).1
        rw [hup] at hcrashed
        cases hcrashed

/-- The process has ended exactly if the last operation was the panic of a call that had
    seen the panic flag switched on; and then no call can go on. -/
theorem crashed_iff (hhistory : ServerHistory reqs h c) :
    (c.shared.2.crashed = true ↔
      ∃ i x earlier, h = ⟨i, .inr .panic, x⟩ :: earlier ∧ Sometime (SeesPanic i) earlier) ∧
    (c.shared.2.crashed = true → ∀ e, (server reqs).step c e = none) := by
  refine ⟨⟨seen_of_crashed hhistory, ?_⟩, stopped hhistory⟩
  rintro ⟨i, x, earlier, rfl, _⟩
  exact crashed_of_panic hhistory

/-- The second registration meets the panic flag. -/
def crashedHistory : List (Performed (Op String Team ⊕ FlagOp) (List Team)) :=
  ⟨3, .inr .panic, []⟩ :: ⟨3, .inr .mustPanic, []⟩ :: ⟨0, .inr (.setPanic true), []⟩ ::
    ⟨0, .inr .arrive, []⟩ :: refusedHistory

theorem exists_crashed : ∃ c, ServerHistory faultRequests crashedHistory c := by
  have hset : ServerHistory faultRequests
      [⟨1, .inr (.setError true), []⟩, ⟨1, .inr .arrive, []⟩] _ := .op (.op .init rfl rfl) rfl rfl
  have hrefused : ServerHistory faultRequests refusedHistory _ :=
    .op (.op (.op hset rfl rfl) rfl rfl) rfl rfl
  exact ⟨_, .op (.op (.op (.op hrefused rfl rfl) rfl rfl) rfl rfl) rfl rfl⟩

/-- The request that set the flag is answered 400 for its delay. -/
theorem crashed_iff_crashed : ∃ c, ServerHistory faultRequests crashedHistory c ∧
    c.shared.2.crashed = true ∧ ∀ e, (server faultRequests).step c e = none := by
  obtain ⟨c, hhistory⟩ := exists_crashed
  obtain ⟨hiff, hstopped⟩ := crashed_iff hhistory
  have hcrashed := hiff.mpr ⟨3, [], _, rfl, .inl ⟨rfl, rfl, rfl⟩⟩
  exact ⟨c, hhistory, hcrashed, hstopped hcrashed⟩

/-- The operations of a run are ones that their calls can ask for. -/
theorem asked (hhistory : ServerHistory reqs h c) {p : Performed (Op String Team ⊕ FlagOp) (List Team)}
    (hp : p ∈ h) : ∃ k, Asks (reqs p.call) p.op k := by
  induction hhistory with
  | init => cases hp
  | ret _ _ ih => exact ih hp
  | op hhistory hprogram _ ih =>
      rcases List.mem_cons.mp hp with rfl | hp
      · exact ⟨_, asks hhistory hprogram⟩
      · exact ih hp

/-- A debug request switches the error flag on. Its other parameters passed their checks. -/
def SwitchesError (req : ServerRequest) : Prop :=
  ∃ rawQuery, req = .control rawQuery ∧ ¬Invalid "panic" rawQuery ∧ ¬Invalid "delay" rawQuery ∧
    given "error" rawQuery = some true

/-- A debug request switches the panic flag on, whatever its other parameters are. -/
def SwitchesPanic (req : ServerRequest) : Prop :=
  ∃ rawQuery, req = .control rawQuery ∧ given "panic" rawQuery = some true

theorem switchesError (hhistory : ServerHistory reqs h c) (hsees : Sometime (SeesError i) h) :
    ∃ j, c.thread j ≠ .fresh ∧ SwitchesError (reqs j) := by
  obtain ⟨_, earlier, ⟨_, _, hwritten⟩, hsub⟩ := exists_of_sometime hsees
  obtain ⟨⟨j, o, x⟩, hmem, o', rfl, hwrite⟩ := exists_write hwritten
  obtain ⟨k, hasks⟩ := asked hhistory (hsub hmem)
  cases hasks with
  | setError hreq hpanic hdelay herror =>
      cases hwrite
      exact ⟨j, hhistory.begun (hsub hmem), _, hreq, hpanic, hdelay, herror⟩
  | _ => cases hwrite

theorem switchesPanic (hhistory : ServerHistory reqs h c) (hsees : Sometime (SeesPanic i) h) :
    ∃ j, c.thread j ≠ .fresh ∧ SwitchesPanic (reqs j) := by
  obtain ⟨_, earlier, ⟨_, _, hwritten⟩, hsub⟩ := exists_of_sometime hsees
  obtain ⟨⟨j, o, x⟩, hmem, o', rfl, hwrite⟩ := exists_write hwritten
  obtain ⟨k, hasks⟩ := asked hhistory (hsub hmem)
  cases hasks with
  | setPanic hreq hpanic =>
      cases hwrite
      exact ⟨j, hhistory.begun (hsub hmem), _, hreq, hpanic⟩
  | _ => cases hwrite

/-- No call fails and the process goes on, unless a debug request that has arrived asked for
    it. -/
theorem faults_asked {es : List (ℕ × List Team)} (hrun : (server reqs).Run es c) :
    (c.shared.2.crashed = true → ∃ j, c.thread j ≠ .fresh ∧ SwitchesPanic (reqs j)) ∧
      ∀ i message, (i, .inr (.internal message)) ∈ c.replies →
        ∃ j, c.thread j ≠ .fresh ∧ SwitchesError (reqs j) := by
  obtain ⟨h, hhistory⟩ := exists_history hrun
  constructor
  · intro hcrashed
    obtain ⟨i, x, earlier, rfl, hsees⟩ := seen_of_crashed hhistory hcrashed
    exact switchesPanic hhistory (.inr hsees)
  · intro i message hmem
    exact switchesError hhistory (seenError hhistory hmem).2

theorem faults_asked_crashed : ∃ c es, (server faultRequests).Run es c ∧
    ∃ j, c.thread j ≠ .fresh ∧ SwitchesPanic (faultRequests j) := by
  obtain ⟨c, hhistory⟩ := exists_crashed
  obtain ⟨es, hrun⟩ := hhistory.exists_run
  exact ⟨c, es, hrun, (faults_asked hrun).1 (crashed_of_panic hhistory)⟩

end Truetech
