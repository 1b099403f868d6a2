-- SUMMARY: The debug endpoint of the contest server: three flags, set one after the other from the query string.
import TrueHack.Base.Runs

/-!
# The debug endpoint

A request to `/debug/control` sets the flags of fault injection. Each parameter is
checked and stored before the next one is looked at, so a request that is
rejected for its second or third parameter may have changed a flag already. A
query string is a list of bytes.
-/

namespace Control

/-! ## The query string -/

/-- The bytes of a text. -/
def bytes (s : String) : List UInt8 := s.toUTF8.data.toList

/-- `strings.Cut` -/
def cut (sep : UInt8) (s : List UInt8) : List UInt8 × List UInt8 :=
  (s.takeWhile (· ≠ sep), (s.dropWhile (· ≠ sep)).tail)

/-- `ishex` and `unhex` -/
def unhex (c : UInt8) : Option UInt8 :=
  if 48 ≤ c ∧ c ≤ 57 then some (c - 48)
  else if 97 ≤ c ∧ c ≤ 102 then some (c - 97 + 10)
  else if 65 ≤ c ∧ c ≤ 70 then some (c - 65 + 10)
  else none

/-- `url.QueryUnescape`: a percent sign and two digits are a byte, a plus sign is a
    space. -/
def queryUnescape : List UInt8 → Option (List UInt8)
  | [] => some []
  | 37 :: a :: b :: s => do
      let hi ← unhex a
      let lo ← unhex b
      let rest ← queryUnescape s
      some ((16 * hi + lo) :: rest)
  | 37 :: _ => none
  | c :: s => do
      let rest ← queryUnescape s
      some ((if c = 43 then 32 else c) :: rest)

/-- One pair of the query; `none` where it is empty or malformed, and skipped. -/
def parsePair (pair : List UInt8) : Option (List UInt8 × List UInt8) :=
  if pair.contains 59 then none
  else if pair = [] then none
  else do
    let (key, value) := cut 61 pair
    let key ← queryUnescape key
    let value ← queryUnescape value
    some (key, value)

/-- `URL.Query`: the pairs in the order of the query. -/
def parseQuery (rawQuery : List UInt8) : List (List UInt8 × List UInt8) :=
  (rawQuery.splitOn 38).filterMap parsePair

/-- `Values.Get`: the first value of the key, or the empty text. -/
def getParam (queryParams : List (List UInt8 × List UInt8)) (key : String) : List UInt8 :=
  (queryParams.lookup (bytes key)).getD []

/-! ## The handler -/

/-- `controlInterceptor` -/
structure ControlInterceptor where
  mustPanic : Bool
  mustDelay : Bool
  mustError : Bool
deriving DecidableEq

/-- `parseBool` -/
def parseBool (value : List UInt8) : Option Bool :=
  if value = bytes "true" then some true
  else if value = bytes "false" then some false
  else none

/-- What a flag becomes: its parameter where there is one. -/
def setFlag (param : List UInt8) (flag : Bool) : Option Bool :=
  if param ≠ [] then parseBool param else some flag

/-- `controlInterceptor.handle`, with the message of the answer 400 if that is the
    answer. -/
def ControlInterceptor.handle (i : ControlInterceptor) (rawQuery : List UInt8) :
    ControlInterceptor × Option String :=
  let queryParams := parseQuery rawQuery
  match setFlag (getParam queryParams "panic") i.mustPanic with
  | none => (i, some "Invalid value for panic parameter")
  | some panicValue =>
      let i := { i with mustPanic := panicValue }
      match setFlag (getParam queryParams "delay") i.mustDelay with
      | none => (i, some "Invalid value for delay parameter")
      | some delayValue =>
          let i := { i with mustDelay := delayValue }
          match setFlag (getParam queryParams "error") i.mustError with
          | none => (i, some "Invalid value for error parameter")
          | some errorValue => ({ i with mustError := errorValue }, none)

/-- Requests handled one at a time. -/
def control (i : ControlInterceptor) : Machine ControlInterceptor (List UInt8) where
  init := i
  step i rawQuery := some (i.handle rawQuery).1

/-! ## One request -/

/-- The value that a request gives for a flag; `none` also where it is no boolean. -/
def given (key : String) (rawQuery : List UInt8) : Option Bool :=
  parseBool (getParam (parseQuery rawQuery) key)

/-- The request has the parameter, and it is no boolean. -/
def Invalid (key : String) (rawQuery : List UInt8) : Prop :=
  getParam (parseQuery rawQuery) key ≠ [] ∧ given key rawQuery = none

instance (key : String) (rawQuery : List UInt8) : Decidable (Invalid key rawQuery) :=
  inferInstanceAs (Decidable (_ ∧ _))

/-- A request that gives a value gives the one the flag has. -/
def Repeats (key : String) (rawQuery : List UInt8) (flag : Bool) : Prop :=
  ∀ value, given key rawQuery = some value → value = flag

/-- No flag is changed before a parameter that is invalid. -/
structure Whole (i : ControlInterceptor) (rawQuery : List UInt8) : Prop where
  delay : ¬Invalid "panic" rawQuery → Invalid "delay" rawQuery →
    Repeats "panic" rawQuery i.mustPanic
  error : ¬Invalid "panic" rawQuery → ¬Invalid "delay" rawQuery → Invalid "error" rawQuery →
    Repeats "panic" rawQuery i.mustPanic ∧ Repeats "delay" rawQuery i.mustDelay

variable {i : ControlInterceptor} {rawQuery : List UInt8} {key : String} {flag : Bool}

theorem setFlag_invalid (h : Invalid key rawQuery) :
    setFlag (getParam (parseQuery rawQuery) key) flag = none := by
  rw [setFlag, if_pos h.1]
  exact h.2

theorem setFlag_valid (h : ¬Invalid key rawQuery) :
    setFlag (getParam (parseQuery rawQuery) key) flag = some ((given key rawQuery).getD flag) := by
  unfold setFlag
  split
  · rename_i hpresent
    cases hgiven : given key rawQuery with
    | none => exact absurd ⟨hpresent, hgiven⟩ h
    | some value => exact hgiven
  · rename_i habsent
    have hempty : getParam (parseQuery rawQuery) key = [] := not_not.mp habsent
    rw [given, hempty]
    rfl

theorem getD_eq_iff : (given key rawQuery).getD flag = flag ↔ Repeats key rawQuery flag := by
  unfold Repeats
  cases given key rawQuery with
  | none => simp
  | some value => simp

/-- Everything a request can do: the flags it leaves, and the message of a rejection. -/
inductive Handles (i : ControlInterceptor) (rawQuery : List UInt8) :
    ControlInterceptor × Option String → Prop where
  | badPanic (hpanic : Invalid "panic" rawQuery) :
      Handles i rawQuery (i, some "Invalid value for panic parameter")
  | badDelay (hpanic : ¬Invalid "panic" rawQuery) (hdelay : Invalid "delay" rawQuery) :
      Handles i rawQuery
        ({ i with mustPanic := (given "panic" rawQuery).getD i.mustPanic },
          some "Invalid value for delay parameter")
  | badError (hpanic : ¬Invalid "panic" rawQuery) (hdelay : ¬Invalid "delay" rawQuery)
      (herror : Invalid "error" rawQuery) :
      Handles i rawQuery
        ({ i with
            mustPanic := (given "panic" rawQuery).getD i.mustPanic
            mustDelay := (given "delay" rawQuery).getD i.mustDelay },
          some "Invalid value for error parameter")
  | accepted (hpanic : ¬Invalid "panic" rawQuery) (hdelay : ¬Invalid "delay" rawQuery)
      (herror : ¬Invalid "error" rawQuery) :
      Handles i rawQuery
        (⟨(given "panic" rawQuery).getD i.mustPanic, (given "delay" rawQuery).getD i.mustDelay,
          (given "error" rawQuery).getD i.mustError⟩, none)

theorem handles (i : ControlInterceptor) (rawQuery : List UInt8) :
    Handles i rawQuery (i.handle rawQuery) := by
  unfold ControlInterceptor.handle
  by_cases hpanic : Invalid "panic" rawQuery
  · simp only [setFlag_invalid hpanic]
    exact .badPanic hpanic
  simp only [setFlag_valid hpanic]
  by_cases hdelay : Invalid "delay" rawQuery
  · simp only [setFlag_invalid hdelay]
    exact .badDelay hpanic hdelay
  simp only [setFlag_valid hdelay]
  by_cases herror : Invalid "error" rawQuery
  · simp only [setFlag_invalid herror]
    exact .badError hpanic hdelay herror
  · simp only [setFlag_valid herror]
    exact .accepted hpanic hdelay herror

/-- The request is answered 200. -/
def Accepted (rawQuery : List UInt8) : Prop :=
  ¬Invalid "panic" rawQuery ∧ ¬Invalid "delay" rawQuery ∧ ¬Invalid "error" rawQuery

instance (rawQuery : List UInt8) : Decidable (Accepted rawQuery) :=
  inferInstanceAs (Decidable (_ ∧ _))

/-- The answer does not depend on the flags. -/
theorem accepted_iff (i : ControlInterceptor) (rawQuery : List UInt8) :
    (i.handle rawQuery).2 = none ↔ Accepted rawQuery := by
  have hhandles := handles i rawQuery
  generalize i.handle rawQuery = outcome at hhandles
  cases hhandles with
  | badPanic hpanic => exact iff_of_false nofun fun h => h.1 hpanic
  | badDelay _ hdelay => exact iff_of_false nofun fun h => h.2.1 hdelay
  | badError _ _ herror => exact iff_of_false nofun fun h => h.2.2 herror
  | accepted hpanic hdelay herror => exact iff_of_true rfl ⟨hpanic, hdelay, herror⟩

/-- A rejected request changes nothing exactly when it is whole. -/
theorem whole_iff :
    ((i.handle rawQuery).2 ≠ none → (i.handle rawQuery).1 = i) ↔ Whole i rawQuery := by
  have hhandles := handles i rawQuery
  generalize i.handle rawQuery = outcome at hhandles
  cases hhandles with
  | badPanic hpanic => exact iff_of_true (fun _ => rfl) ⟨absurd hpanic, absurd hpanic⟩
  | badDelay hpanic hdelay =>
      constructor
      · intro h
        exact ⟨fun _ _ => getD_eq_iff.mp (congrArg ControlInterceptor.mustPanic (h nofun)),
          fun _ hvalid => absurd hdelay hvalid⟩
      · intro hwhole _
        rw [getD_eq_iff.mpr (hwhole.delay hpanic hdelay)]
  | badError hpanic hdelay herror =>
      constructor
      · intro h
        refine ⟨fun _ hinvalid => absurd hinvalid hdelay, fun _ _ _ => ⟨?_, ?_⟩⟩
        · exact getD_eq_iff.mp (congrArg ControlInterceptor.mustPanic (h nofun))
        · exact getD_eq_iff.mp (congrArg ControlInterceptor.mustDelay (h nofun))
      · intro hwhole _
        obtain ⟨hrepeatsPanic, hrepeatsDelay⟩ := hwhole.error hpanic hdelay herror
        rw [getD_eq_iff.mpr hrepeatsPanic, getD_eq_iff.mpr hrepeatsDelay]
  | accepted hpanic hdelay herror =>
      exact iff_of_true (fun h => absurd rfl h)
        ⟨fun _ hinvalid => absurd hinvalid hdelay, fun _ _ hinvalid => absurd hinvalid herror⟩

/-! ## Runs -/

/-- The value of the parameter in the last accepted request that gave it; the latest
    request is the first of the list. -/
def lastGiven (key : String) : List (List UInt8) → Option Bool
  | [] => none
  | rawQuery :: earlier =>
      if Accepted rawQuery then (given key rawQuery).or (lastGiven key earlier)
      else lastGiven key earlier

/-- The flags are what the accepted requests made of them. -/
structure FollowsAccepted (i : ControlInterceptor) (requests : List (List UInt8))
    (i' : ControlInterceptor) : Prop where
  panic : i'.mustPanic = (lastGiven "panic" requests).getD i.mustPanic
  delay : i'.mustDelay = (lastGiven "delay" requests).getD i.mustDelay
  error : i'.mustError = (lastGiven "error" requests).getD i.mustError

theorem getD_lastGiven_cons {requests : List (List UInt8)} (h : Accepted rawQuery) :
    (lastGiven key (rawQuery :: requests)).getD flag =
      (given key rawQuery).getD ((lastGiven key requests).getD flag) := by
  rw [lastGiven, if_pos h]
  cases given key rawQuery with
  | none => rfl
  | some value => rfl

/-- One request. -/
theorem FollowsAccepted.step {requests : List (List UInt8)} {i' : ControlInterceptor}
    (h : FollowsAccepted i requests i') (hwhole : Whole i' rawQuery) :
    FollowsAccepted i (rawQuery :: requests) (i'.handle rawQuery).1 := by
  by_cases haccepted : Accepted rawQuery
  · have hhandles := handles i' rawQuery
    generalize i'.handle rawQuery = outcome at hhandles
    cases hhandles with
    | badPanic hpanic => exact absurd hpanic haccepted.1
    | badDelay _ hdelay => exact absurd hdelay haccepted.2.1
    | badError _ _ herror => exact absurd herror haccepted.2.2
    | accepted =>
        constructor
        · rw [getD_lastGiven_cons haccepted, ← h.panic]
        · rw [getD_lastGiven_cons haccepted, ← h.delay]
        · rw [getD_lastGiven_cons haccepted, ← h.error]
  · have hrejected : (i'.handle rawQuery).2 ≠ none := mt (accepted_iff i' rawQuery).mp haccepted
    have hsame (key : String) : lastGiven key (rawQuery :: requests) = lastGiven key requests :=
      if_neg haccepted
    rw [whole_iff.mpr hwhole hrejected]
    constructor
    · rw [hsame, h.panic]
    · rw [hsame, h.delay]
    · rw [hsame, h.error]

/-- Along a run the rejected requests change nothing exactly if all requests are whole. -/
theorem every_whole_iff {i : ControlInterceptor} {requests : List (List UInt8)} :
    (control i).Every (fun _ before rawQuery after =>
      (before.handle rawQuery).2 ≠ none → after = before) requests ↔
    (control i).Every (fun _ before rawQuery _ => Whole before rawQuery) requests := by
  constructor
  · intro h
    refine h.imp ?_
    intro past before rawQuery after _ hstep _ hsame
    cases hstep
    exact whole_iff.mp hsame
  · intro h
    refine h.imp ?_
    intro past before rawQuery after _ hstep _ hwhole hrejected
    cases hstep
    exact whole_iff.mpr hwhole hrejected

/-- Along a run the rejected requests change nothing, and the flags are what the accepted
    requests made of them, exactly if all requests are whole. -/
theorem rejected_changes_nothing (i i' : ControlInterceptor) (requests : List (List UInt8))
    (hrun : (control i).Run requests i') :
    ((control i).Every (fun _ before rawQuery after =>
        (before.handle rawQuery).2 ≠ none → after = before) requests ∧
      FollowsAccepted i requests i') ↔
    (control i).Every (fun _ before rawQuery _ => Whole before rawQuery) requests := by
  refine ⟨fun h => every_whole_iff.mp h.1, fun hwhole => ⟨every_whole_iff.mpr hwhole, ?_⟩⟩
  apply hrun.invariant_of_every (I := FollowsAccepted i) ⟨rfl, rfl, rfl⟩ _ hwhole
  intro requests before rawQuery after _ _ hfollows hstep hwhole
  cases hstep
  exact hfollows.step hwhole

/-- A request that is rejected, but asks for nothing new, and one that is accepted. -/
theorem rejected_changes_nothing_two :
    FollowsAccepted ⟨true, false, false⟩ [bytes "error=true", bytes "panic=true&delay=1"]
      ⟨true, false, true⟩ := by
  have hrejected : (control ⟨true, false, false⟩).step ⟨true, false, false⟩
      (bytes "panic=true&delay=1") = some ⟨true, false, false⟩ := by decide +kernel
  have haccepted : (control ⟨true, false, false⟩).step ⟨true, false, false⟩
      (bytes "error=true") = some ⟨true, false, true⟩ := by decide +kernel
  have hfirst : (control ⟨true, false, false⟩).Run _ _ := Machine.Run.init.step hrejected
  refine ((rejected_changes_nothing _ _ _ (hfirst.step haccepted)).mpr ?_).2
  refine (Machine.every_cons hfirst haccepted).mpr ⟨?_, whole_iff.mp (by decide +kernel)⟩
  refine (Machine.every_cons .init hrejected).mpr ⟨?_, whole_iff.mp (by decide +kernel)⟩
  intro later rawQuery earlier before after hempty
  cases later <;> cases hempty

/-- Panics are switched on by a request that is rejected for its delay. -/
theorem rejected_changes : ¬∀ i i' requests, (control i).Run requests i' →
    (control i).Every (fun _ before rawQuery after =>
      (before.handle rawQuery).2 ≠ none → after = before) requests ∧
    FollowsAccepted i requests i' := by
  intro h
  have hrun : (control ⟨false, false, false⟩).Run [bytes "panic=true&delay=1"]
      ⟨true, false, false⟩ := Machine.Run.init.step (by decide +kernel)
  have hpanic := (h _ _ _ hrun).2.panic
  exact absurd hpanic (by decide +kernel)

end Control
