-- SUMMARY: The contest server with its fault injection: the interceptor in front of the handlers, and the debug endpoint beside it.
import TrueHack.Base.Guard
import TrueHack.Base.History
import TrueHack.Contest.Control
import TrueHack.Contest.Invariant

/-!
# The server with fault injection

Every gRPC call passes `Intercept` before its handler runs, and every request to
`/debug/control` sets the flags that `Intercept` looks at. Both happen in goroutines
of their own: the flags are read and written one at a time, without a lock. A panic
in the interceptor is recovered by nobody and ends the process.
-/

namespace Truetech

open Storage Control SharedObject

/-! ## The flags -/

/-- The interceptor's flags, and whether a panic has ended the process. -/
structure Debug where
  interceptor : ControlInterceptor
  crashed : Bool

/-- What goroutines do to the flags: read one, write one, or panic. A debug request that
    arrives does none of these yet. -/
inductive FlagOp where
  | arrive
  | mustPanic
  | mustDelay
  | mustError
  | panic
  | setPanic (value : Bool)
  | setDelay (value : Bool)
  | setError (value : Bool)
deriving DecidableEq

abbrev FlagOp.Res : FlagOp → Type
  | .mustPanic | .mustDelay | .mustError => Bool
  | .arrive | .panic | .setPanic _ | .setDelay _ | .setError _ => Unit

/-- The flags as a shared object; nothing about them is left to chance. -/
def flags : SharedObject Debug (List Team) FlagOp FlagOp.Res where
  init := ⟨⟨false, false, false⟩, false⟩
  apply d o _ := some (match o with
    | .arrive => ((), d)
    | .mustPanic => (d.interceptor.mustPanic, d)
    | .mustDelay => (d.interceptor.mustDelay, d)
    | .mustError => (d.interceptor.mustError, d)
    | .panic => ((), { d with crashed := true })
    | .setPanic value => ((), { d with interceptor := { d.interceptor with mustPanic := value } })
    | .setDelay value => ((), { d with interceptor := { d.interceptor with mustDelay := value } })
    | .setError value => ((), { d with interceptor := { d.interceptor with mustError := value } }))

/-! ## Calls -/

/-- What a caller gets that is not the reply of a handler. -/
inductive Refusal where
  /-- A status with the code `Internal`. -/
  | internal (message : String)
  /-- The connection breaks. -/
  | crashed
  /-- An answer of the debug endpoint: the message of a 400, or nothing for a 200. -/
  | controlled (message : Option String)
deriving DecidableEq

/-- A call of the server in the middle. -/
abbrev ServerCall := Prog (Op String Team ⊕ FlagOp) (EitherRes Op.Res FlagOp.Res) (Reply ⊕ Refusal)

/-- `Intercept` from `log.Panic` on. -/
def interceptPanic : ServerCall := .op (.inr .panic) fun _ => .ret (.inr .crashed)

/-- `Intercept` from its last check on. -/
def interceptError (handler : Handler) : ServerCall :=
  .op (.inr .mustError) fun (mustError : Bool) =>
    if mustError then .ret (.inr (.internal "must error")) else handler.passed

/-- `Intercept` from its second check on. A delay lets other goroutines run, and so does
    every step. -/
def interceptDelay (handler : Handler) : ServerCall :=
  .op (.inr .mustDelay) fun (_ : Bool) => interceptError handler

/-- `controlInterceptor.Intercept` -/
def intercept (handler : Handler) : ServerCall :=
  .op (.inr .mustPanic) fun (mustPanic : Bool) =>
    if mustPanic then interceptPanic else interceptDelay handler

/-- One parameter of `controlInterceptor.handle`: it is checked, its flag is set, and the
    next parameter is looked at. -/
def setParam (param : List UInt8) (message : String) (set : Bool → FlagOp) (rest : ServerCall) :
    ServerCall :=
  if param ≠ [] then
    match parseBool param with
    | none => .ret (.inr (.controlled (some message)))
    | some value => .op (.inr (set value)) fun _ => rest
  else rest

/-- `controlInterceptor.handle` from its third parameter on. -/
def controlError (rawQuery : List UInt8) : ServerCall :=
  setParam (getParam (parseQuery rawQuery) "error") "Invalid value for error parameter" .setError
    (.ret (.inr (.controlled none)))

/-- `controlInterceptor.handle` from its second parameter on. -/
def controlDelay (rawQuery : List UInt8) : ServerCall :=
  setParam (getParam (parseQuery rawQuery) "delay") "Invalid value for delay parameter" .setDelay
    (controlError rawQuery)

/-- `controlInterceptor.handle` from its first parameter on. -/
def controlPanic (rawQuery : List UInt8) : ServerCall :=
  setParam (getParam (parseQuery rawQuery) "panic") "Invalid value for panic parameter" .setPanic
    (controlDelay rawQuery)

/-- `controlInterceptor.handle` as a goroutine. -/
def controlHandle (rawQuery : List UInt8) : ServerCall :=
  .op (.inr .arrive) fun _ => controlPanic rawQuery

/-- A gRPC call, or a request to the debug endpoint. -/
inductive ServerRequest where
  | rpc (req : Request)
  | control (rawQuery : List UInt8)

def ServerRequest.call : ServerRequest → ServerCall
  | .rpc req => intercept req.handler
  | .control rawQuery => controlHandle rawQuery

/-- The storage behind the interceptor. -/
def serverObject : SharedObject (InMemory String Team × Debug) (List Team) (Op String Team ⊕ FlagOp)
    (EitherRes Op.Res FlagOp.Res) :=
  object.guarded flags fun d => !d.crashed

/-- The state of the running server. -/
abbrev ServerState :=
  Config (InMemory String Team × Debug) (Op String Team ⊕ FlagOp) (EitherRes Op.Res FlagOp.Res)
    (Reply ⊕ Refusal)

/-- The running server: call `i` is `reqs i`. -/
def server (reqs : ℕ → ServerRequest) : Machine ServerState (ℕ × List Team) :=
  serverObject.interleave fun i => (reqs i).call

/-- The operations that lead to a state of the server, latest first. -/
abbrev ServerHistory (reqs : ℕ → ServerRequest) :
    List (Performed (Op String Team ⊕ FlagOp) (List Team)) → ServerState → Prop :=
  serverObject.History fun i => (reqs i).call

/-! ## One call alone -/

variable {reqs : ℕ → ServerRequest} {rawQuery : List UInt8} {rest : ServerCall}
  {param : List UInt8} {message : String} {set : Bool → FlagOp}

/-- What looking at one parameter comes to. -/
theorem setParam_cases (param : List UInt8) (message : String) (set : Bool → FlagOp)
    (rest : ServerCall) :
    (param = [] ∧ setParam param message set rest = rest) ∨
    (param ≠ [] ∧ parseBool param = none ∧
      setParam param message set rest = .ret (.inr (.controlled (some message)))) ∨
    ∃ value, param ≠ [] ∧ parseBool param = some value ∧
      setParam param message set rest = .op (.inr (set value)) fun _ => rest := by
  by_cases hparam : param = []
  · exact .inl ⟨hparam, by simp [setParam, hparam]⟩
  · cases hparse : parseBool param with
    | none => exact .inr (.inl ⟨hparam, rfl, by simp [setParam, hparam, hparse]⟩)
    | some value => exact .inr (.inr ⟨value, hparam, rfl, by simp [setParam, hparam, hparse]⟩)

theorem setParam_rejects {s : InMemory String Team × Debug} {flag : Bool}
    (h : setFlag param flag = none) :
    (setParam param message set rest).Exec serverObject s
      (.inr (.controlled (some message))) s := by
  rcases setParam_cases param message set rest with ⟨hempty, _⟩ | ⟨_, _, heq⟩ | ⟨value, hne, hsome, _⟩
  · simp [setFlag, hempty] at h
  · rw [heq]
    exact .ret
  · simp [setFlag, hne, hsome] at h

/-- A parameter leaves its flag as `setFlag` says, and the next one is looked at. -/
theorem setParam_sets {s : InMemory String Team × Debug} {flag value : Bool}
    (update : Bool → Debug) {a : Reply ⊕ Refusal} {t : InMemory String Team × Debug}
    (h : setFlag param flag = some value)
    (hset : ∀ value, ∃ r, serverObject.apply (s.1, update flag) (.inr (set value)) [] =
      some (r, (s.1, update value)))
    (hrest : rest.Exec serverObject (s.1, update value) a t) :
    (setParam param message set rest).Exec serverObject (s.1, update flag) a t := by
  rcases setParam_cases param message set rest with
    ⟨hempty, heq⟩ | ⟨hne, hnone, _⟩ | ⟨value', hne, hsome, heq⟩
  · obtain rfl : flag = value := by simpa [setFlag, hempty] using h
    rwa [heq]
  · simp [setFlag, hne, hnone] at h
  · obtain rfl : value' = value := by simpa [setFlag, hne, hsome] using h
    obtain ⟨r, happ⟩ := hset value'
    rw [heq]
    exact .op happ hrest

/-- Run alone, a debug request does what `ControlInterceptor.handle` does. -/
theorem control_exec (s : InMemory String Team) (i : ControlInterceptor)
    (rawQuery : List UInt8) :
    (controlHandle rawQuery).Exec serverObject (s, ⟨i, false⟩)
      (.inr (.controlled (i.handle rawQuery).2)) (s, ⟨(i.handle rawQuery).1, false⟩) := by
  refine .op (x := []) (r := ()) rfl ?_
  unfold ControlInterceptor.handle
  dsimp only
  split
  · rename_i hpanic
    exact setParam_rejects hpanic
  rename_i panicValue hpanic
  refine setParam_sets (s := (s, ⟨i, false⟩))
    (fun value => ⟨{ i with mustPanic := value }, false⟩) hpanic (fun _ => ⟨(), rfl⟩) ?_
  split
  · rename_i hdelay
    exact setParam_rejects hdelay
  rename_i delayValue hdelay
  refine setParam_sets (s := (s, ⟨i, false⟩))
    (fun value => ⟨{ i with mustPanic := panicValue, mustDelay := value }, false⟩) hdelay
    (fun _ => ⟨(), rfl⟩) ?_
  split
  · rename_i herror
    exact setParam_rejects herror
  rename_i errorValue herror
  exact setParam_sets (s := (s, ⟨i, false⟩))
    (fun value => ⟨⟨panicValue, delayValue, value⟩, false⟩) herror (fun _ => ⟨(), rfl⟩) .ret

/-- While no flag asks for a failure, a call is what its handler makes of it. -/
theorem intercept_exec {s t : InMemory String Team} {handler : Handler} {a : Reply}
    {i : ControlInterceptor} (hpanic : i.mustPanic = false) (herror : i.mustError = false)
    (h : handler.Exec object s a t) :
    (intercept handler).Exec serverObject (s, ⟨i, false⟩) (.inl a) (t, ⟨i, false⟩) := by
  have hpass : (interceptDelay handler).Exec serverObject (s, ⟨i, false⟩) (.inl a)
      (t, ⟨i, false⟩) := by
    refine .op (x := []) (r := i.mustDelay) rfl (.op (x := []) (r := i.mustError) rfl ?_)
    rw [herror]
    exact exec_passed rfl h
  refine .op (x := []) (r := i.mustPanic) rfl ?_
  rw [hpanic]
  exact hpass

end Truetech
