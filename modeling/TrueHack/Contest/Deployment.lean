-- SUMMARY: The contest as it is deployed: client processes, debug requests and the server, and what this closed system guarantees.
import TrueHack.Contest.Faults
import TrueHack.Contest.Registration
import TrueHack.Contest.Linearizable
import TrueHack.Contest.Worker

/-!
# The deployed contest

Any number of client processes work against one server while debug requests set its
flags. A worker waits for the reply to its request, but not for long: it gives up and
goes on, and the server finishes the call all the same. So even one client can have
several calls in progress. The only requests are those of workers, which is why more
holds here than for any callers.
-/

namespace Truetech

open Storage SharedObject

/-! ## The system -/

/-- A client process: the map of its worker, and the call that the worker waits for. -/
structure Client where
  teams : Teams
  waiting : Option ℕ

/-- All client processes, the requests sent so far, and the server. Call `i` of the server
    is the request with the number `i`. -/
structure Deployment where
  client : ℕ → Client
  sent : List ServerRequest
  server : ServerState

/-- What happens in the deployed contest. -/
inductive Deployed where
  /-- A worker does its job up to the call. -/
  | work (w : ℕ) (draw : Draw)
  /-- It gets the reply. -/
  | receive (w : ℕ)
  /-- Its timeout is over, or the connection is lost. -/
  | giveUp (w : ℕ)
  /-- Somebody sends a debug request. -/
  | control (rawQuery : List UInt8)
  /-- The server goes on with a call. -/
  | serve (i : ℕ) (order : List Team)

/-- The call with the number `i`; there is none beyond the requests sent. -/
def callsOf (sent : List ServerRequest) (i : ℕ) : ServerRequest := sent.getD i (.control [])

namespace Deployment

/-- Client `w` in another state. -/
def setClient (d : Deployment) (w : ℕ) (client : Client) : Deployment :=
  { d with client := Function.update d.client w client }

/-- Client `w` has sent a request, and waits for the reply. -/
def send (d : Deployment) (w : ℕ) (teams : Teams) (req : Request) : Deployment :=
  { d.setClient w ⟨teams, some d.sent.length⟩ with sent := d.sent ++ [.rpc req] }

end Deployment

/-- The deployed contest. -/
def deployment : Machine Deployment Deployed where
  init := ⟨fun _ => ⟨.init, none⟩, [], (server fun _ => .control []).init⟩
  step d
    | .work w draw =>
        if (d.client w).waiting = none then
          ((d.client w).teams.work draw).map fun (teams, req) => d.send w teams req
        else none
    | .receive w =>
        match (d.client w).waiting with
        | none => none
        | some i =>
            if i ∈ d.server.replies.map Prod.fst then
              some (d.setClient w ⟨(d.client w).teams, none⟩)
            else none
    | .giveUp w =>
        if (d.client w).waiting = none then none
        else some (d.setClient w ⟨(d.client w).teams, none⟩)
    | .control rawQuery => some { d with sent := d.sent ++ [.control rawQuery] }
    | .serve i order =>
        if i < d.sent.length then
          ((server (callsOf d.sent)).step d.server (i, order)).map fun s => { d with server := s }
        else none

variable {es : List Deployed} {e : Deployed} {d d' : Deployment} {reqs : ℕ → ServerRequest} {i : ℕ}
  {order : List Team} {s : ServerState}

/-- What one step of the system does. -/
inductive Deploys (d : Deployment) : Deployed → Deployment → Prop where
  | work {w : ℕ} {draw : Draw} {teams : Teams} {req : Request}
      (hidle : (d.client w).waiting = none)
      (hwork : (d.client w).teams.work draw = some (teams, req)) :
      Deploys d (.work w draw) (d.send w teams req)
  | receive {w i : ℕ} (hwaiting : (d.client w).waiting = some i)
      (hreply : ∃ a, (i, a) ∈ d.server.replies) :
      Deploys d (.receive w) (d.setClient w ⟨(d.client w).teams, none⟩)
  | giveUp {w : ℕ} : Deploys d (.giveUp w) (d.setClient w ⟨(d.client w).teams, none⟩)
  | control (rawQuery : List UInt8) :
      Deploys d (.control rawQuery) { d with sent := d.sent ++ [.control rawQuery] }
  | serve {i : ℕ} {order : List Team} {s : ServerState} (hsent : i < d.sent.length)
      (hstep : (server (callsOf d.sent)).step d.server (i, order) = some s) :
      Deploys d (.serve i order) { d with server := s }

theorem deploys (hstep : deployment.step d e = some d') : Deploys d e d' := by
  cases e with
  | work w draw =>
      obtain ⟨hidle, hmap⟩ := Option.ite_none_right_eq_some.mp hstep
      obtain ⟨⟨teams, req⟩, hwork, rfl⟩ := Option.map_eq_some_iff.mp hmap
      exact .work hidle hwork
  | receive w =>
      cases hwaiting : (d.client w).waiting with
      | none => simp [deployment, hwaiting] at hstep
      | some i =>
          simp only [deployment, hwaiting] at hstep
          obtain ⟨hreply, heq⟩ := Option.ite_none_right_eq_some.mp hstep
          obtain rfl := Option.some.inj heq
          exact .receive hwaiting (by simpa using hreply)
  | giveUp w =>
      obtain ⟨_, heq⟩ := Option.ite_none_left_eq_some.mp hstep
      obtain rfl := Option.some.inj heq
      exact .giveUp
  | control rawQuery =>
      obtain rfl := Option.some.inj hstep
      exact .control rawQuery
  | serve i order =>
      obtain ⟨hsent, hmap⟩ := Option.ite_none_right_eq_some.mp hstep
      obtain ⟨s, hserve, rfl⟩ := Option.map_eq_some_iff.mp hmap
      exact .serve hsent hserve

/-! ## The server in the system -/

/-- The calls of the server begin with the requests sent. -/
def Extends (reqs : ℕ → ServerRequest) (sent : List ServerRequest) : Prop :=
  ∀ i req, sent[i]? = some req → reqs i = req

theorem Extends.of_append {sent : List ServerRequest} {req : ServerRequest}
    (h : Extends reqs (sent ++ [req])) : Extends reqs sent := by
  intro i req' hget
  obtain ⟨hlt, _⟩ := List.getElem?_eq_some_iff.mp hget
  exact h i req' (by rw [List.getElem?_append_left hlt, hget])

theorem extends_callsOf (sent : List ServerRequest) : Extends (callsOf sent) sent := by
  intro i req hget
  rw [callsOf, List.getD_eq_getElem?_getD, hget]
  rfl

/-- A step of one call depends on no other call. -/
theorem step_of_extends (hextends : Extends reqs d.sent) (hsent : i < d.sent.length)
    (hstep : (server (callsOf d.sent)).step d.server (i, order) = some s) :
    (server reqs).step d.server (i, order) = some s := by
  have hget : d.sent[i]? = some d.sent[i] := List.getElem?_eq_getElem hsent
  have hsame : callsOf d.sent i = reqs i :=
    (extends_callsOf d.sent i _ hget).trans (hextends i _ hget).symm
  simpa [server, interleave, advance, hsame] using hstep

/-- Whatever the clients do, the server runs on their requests. -/
theorem server_run (hrun : deployment.Run es d) (hextends : Extends reqs d.sent) :
    ∃ es', (server reqs).Run es' d.server := by
  induction hrun with
  | init => exact ⟨[], .init⟩
  | step hrun hstep ih =>
      cases deploys hstep with
      | work => exact ih hextends.of_append
      | receive => exact ih hextends
      | giveUp => exact ih hextends
      | control => exact ih hextends.of_append
      | serve hsent hserve =>
          obtain ⟨es', hrun'⟩ := ih hextends
          exact ⟨_, hrun'.step (step_of_extends hextends hsent hserve)⟩

/-- Some worker can send the request with the map that it has at some point of the run. -/
def Worked (es : List Deployed) (req : Request) : Prop :=
  ∃ d w, deployment.Visits es d ∧ Sends (d.client w).teams req

/-- At some point of the run, the team is an entry of the map of some worker. -/
def Entered (es : List Deployed) (teamName : String) (teamMembers : List String) : Prop :=
  ∃ d w, deployment.Visits es d ∧ (d.client w).teams.map.lookup teamName = some teamMembers

theorem Worked.cons {req : Request} (h : Worked es req) (e : Deployed) : Worked (e :: es) req := by
  obtain ⟨d, w, hvisits, hsends⟩ := h
  exact ⟨d, w, hvisits.cons e, hsends⟩

/-- Every call is one of a worker, or a debug request. -/
theorem worked_of_sent (hrun : deployment.Run es d) {req : Request} (hmem : .rpc req ∈ d.sent) :
    Worked es req := by
  induction hrun with
  | init => cases hmem
  | @step es d d' e hrun hstep ih =>
      cases deploys hstep with
      | @work w draw teams req' hidle hwork =>
          rcases List.mem_append.mp hmem with hold | hnew
          · exact (ih hold).cons _
          · cases List.mem_singleton.mp hnew
            exact ⟨d, w, hrun.visits.cons _, sends_of_work hwork⟩
      | receive => exact (ih hmem).cons _
      | giveUp => exact (ih hmem).cons _
      | control =>
          rcases List.mem_append.mp hmem with hold | hnew
          · exact (ih hold).cons _
          · cases List.mem_singleton.mp hnew
      | serve => exact (ih hmem).cons _

/-- The request of a handler was sent by a worker. -/
theorem worked_requests (hrun : deployment.Run es d) (i : ℕ) :
    Worked es (requests (callsOf d.sent) i) := by
  unfold requests
  cases hreq : callsOf d.sent i with
  | control rawQuery => exact ⟨_, 0, Machine.visits_init es, .leaderboard true⟩
  | rpc req =>
      refine worked_of_sent hrun ?_
      unfold callsOf at hreq
      rw [List.getD_eq_getElem?_getD] at hreq
      cases hget : d.sent[i]? with
      | none => simp [hget] at hreq
      | some req' =>
          rw [hget] at hreq
          obtain rfl : req' = .rpc req := hreq
          exact List.mem_of_getElem? hget

/-! ## Safety -/

theorem Worked.entered {req : Request} {teamName : String} {teamMembers : List String}
    (h : Worked es req) (hreq : req = .registerTeam teamName teamMembers) :
    Entered es teamName teamMembers := by
  obtain ⟨d, w, hvisits, hsends⟩ := h
  cases hsends with
  | register hentry =>
      cases hreq
      exact ⟨d, w, hvisits, hentry⟩
  | submit => cases hreq
  | leaderboard => cases hreq

theorem Worked.solution {req : Request} {teamName solution : String} (h : Worked es req)
    (hreq : req = .submitSolution teamName solution) : solution = "best-solution" := by
  obtain ⟨_, _, _, hsends⟩ := h
  cases hsends with
  | register => cases hreq
  | submit =>
      cases hreq
      rfl
  | leaderboard => cases hreq

theorem Entered.known {teamName : String} {teamMembers : List String}
    (h : Entered es teamName teamMembers) : Known teamName teamMembers := by
  obtain ⟨d, w, _, hentry⟩ := h
  exact (d.client w).teams.known _ _ hentry

/-- Whatever happens in the deployed contest, timeouts, injected faults and races included:
    every stored team was an entry of a worker's map, with its members, and has score zero
    and no solution but the workers'; no call is answered as invalid; and a leaderboard has no
    row but those of teams that were entries, with score zero. -/
theorem deployment_safe (hrun : deployment.Run es d) :
    (∀ k team, d.server.shared.1.get k = some team → team.name = k ∧
      Entered es k team.members ∧ Known k team.members ∧ team.score = 0 ∧
      (team.solution = "" ∨ team.solution = "best-solution")) ∧
    (∀ i message, (i, .inl (.error .invalidArgument message)) ∉ d.server.replies) ∧
    ∀ i scores, (i, .inl (.leaderboard scores)) ∈ d.server.replies → ∀ row ∈ scores,
      row.score = 0 ∧ ∃ members, Entered es row.teamName members ∧ Known row.teamName members := by
  obtain ⟨es', hserver⟩ := server_run hrun (extends_callsOf d.sent)
  obtain ⟨es'', c, _, hcontest, hpasses⟩ :=
    exists_passes (fun i => guards_call (callsOf d.sent i)) hserver
  have hworked := worked_requests hrun
  have hreplies (i : ℕ) (reply : Reply) (hmem : (i, .inl reply) ∈ d.server.replies) :
      (i, reply) ∈ c.replies := by
    rw [hpasses.replies]
    exact mem_passedReplies.mpr hmem
  refine ⟨fun k team hget => ?_, fun i message hmem => ?_, fun i scores hmem row hrow => ?_⟩
  · rw [← hpasses.shared] at hget
    have hstored := (consistent hcontest).stored k team hget
    obtain ⟨⟨i, _, hregister⟩, hsolution⟩ := (allSourced hcontest).stored k team hget
    have hentered := (hworked i).entered hregister
    refine ⟨hstored.name, hentered, hentered.known, hstored.score, hsolution.imp_right ?_⟩
    rintro ⟨j, _, hsubmit⟩
    exact (hworked j).solution hsubmit
  · obtain ⟨_, _, _, hsends⟩ := hworked i
    exact hsends.valid (invalid_of_reply hcontest (hreplies i _ hmem))
  · obtain ⟨hscore, j, members, hregister⟩ := leaderboard_rows hcontest (hreplies i _ hmem) hrow
    have hentered := (hworked j).entered hregister
    exact ⟨hscore, members, hentered, hentered.known⟩

/-- A worker that registers the best team, and again when it has made up another one. -/
def registerDraw (order : List ((_ : String) × List String)) : Draw where
  job := .register
  createTeam := true
  order := order
  nameTime := "noon"
  memberTime := "noon"
  injected := false

def bestTeam : (_ : String) × List String := ⟨"best-team", ["member-1", "member-2", "member-3"]⟩

def registerEvents : List Deployed :=
  [.work 0 (registerDraw [bestTeam]), .serve 0 [], .serve 0 [], .serve 0 [], .serve 0 [],
    .serve 0 [], .receive 0, .work 0 (registerDraw [⟨"team-noon", ["member-noon"]⟩, bestTeam]),
    .serve 1 [], .serve 1 [], .serve 1 [], .serve 1 [], .receive 0]

theorem deployment_safe_register : ∃ d, deployment.Run registerEvents.reverse d ∧
    ∀ i message, (i, .inl (.error .invalidArgument message)) ∉ d.server.replies := by
  have hrun : deployment.Run registerEvents.reverse _ := Machine.run_of_replay rfl
  exact ⟨_, hrun, (deployment_safe hrun).2.1⟩

/-! ## One patient client -/

/-- What stands in a list with one more element at its end. -/
theorem snoc_getElem? {α : Type} {l : List α} {x y : α} (h : (l ++ [x])[i]? = some y) :
    l[i]? = some y ∨ i = l.length ∧ y = x := by
  rcases Nat.lt_trichotomy i l.length with hlt | rfl | hgt
  · rw [List.getElem?_append_left hlt] at h
    exact .inl h
  · exact .inr ⟨rfl, by simpa using h.symm⟩
  · rw [List.getElem?_eq_none (by simp; omega)] at h
    cases h

/-- Only one client works, and it waits for every reply. -/
structure Patient (es : List Deployed) : Prop where
  single : ∀ w draw, .work w draw ∈ es → w = 0
  waits : ∀ w, .giveUp w ∉ es

theorem Patient.of_cons (h : Patient (e :: es)) : Patient es where
  single w draw hmem := h.single w draw (List.mem_cons_of_mem e hmem)
  waits w hmem := h.waits w (List.mem_cons_of_mem e hmem)

/-- Every call of the client but the one that it waits for has returned. -/
def OneCall (d : Deployment) : Prop :=
  ∀ i req, d.sent[i]? = some (.rpc req) → d.server.thread i ≠ .returned →
    (d.client 0).waiting = some i

theorem oneCall (hrun : deployment.Run es d) (hpatient : Patient es) : OneCall d := by
  induction hrun with
  | init =>
      intro i req hsent
      cases hsent
  | @step es d d' e hrun hstep ih =>
      have hone := ih hpatient.of_cons
      cases deploys hstep with
      | @work w draw teams req hidle hwork =>
          obtain rfl := hpatient.single w draw List.mem_cons_self
          intro i req' hsent hthread
          rcases snoc_getElem? hsent with hold | ⟨rfl, _⟩
          · exact absurd (hidle.symm.trans (hone i req' hold hthread)) nofun
          · simp [Deployment.send, Deployment.setClient]
      | @receive w i hwaiting hreply =>
          intro j req hsent hthread
          have hold := hone j req hsent hthread
          have hw : w ≠ 0 := by
            rintro rfl
            obtain rfl := Option.some.inj (hwaiting.symm.trans hold)
            obtain ⟨es', hserver⟩ := server_run hrun (extends_callsOf d.sent)
            exact hthread ((mem_replies_iff hserver i).mp hreply)
          simpa [Deployment.setClient, Function.update_of_ne hw.symm] using hold
      | giveUp => exact absurd List.mem_cons_self (hpatient.waits _)
      | control rawQuery =>
          intro i req hsent hthread
          rcases snoc_getElem? hsent with hold | ⟨_, hcontrol⟩
          · exact hone i req hold hthread
          · cases hcontrol
      | @serve i order s hsent hserve =>
          intro j req hget hthread
          by_cases hij : j = i
          · subst hij
            exact hone j req hget (step_thread_ne_returned hserve)
          · exact hone j req hget (by rwa [← step_thread_ne hserve hij])

/-- The server works on no request that was not sent. -/
theorem lt_of_begun (hrun : deployment.Run es d) (hbegun : d.server.thread i ≠ .fresh) :
    i < d.sent.length := by
  induction hrun with
  | init => exact absurd rfl hbegun
  | step hrun hstep ih =>
      cases deploys hstep with
      | work | control => exact (ih hbegun).trans_le (by simp [Deployment.send])
      | receive | giveUp => exact ih hbegun
      | @serve j order s hsent hserve =>
          by_cases hij : i = j
          · rwa [hij]
          · exact ih (by rwa [← step_thread_ne hserve hij])

/-- The client waits for the registration that is in progress. -/
theorem waiting_of_register (hone : OneCall d) (hextends : Extends reqs d.sent)
    (hlt : i < d.sent.length) (hthread : d.server.thread i ≠ .returned) {name : String}
    {members : List String} (hreq : requests reqs i = .registerTeam name members) :
    (d.client 0).waiting = some i := by
  have hget := List.getElem?_eq_getElem hlt
  have hsame := hextends i _ hget
  unfold requests at hreq
  cases hrpc : reqs i with
  | control rawQuery =>
      rw [hrpc] at hreq
      cases hreq
  | rpc req => exact hone i req (by rw [hget, ← hsame, hrpc]) hthread

/-- So no registration begins while another one is in progress. -/
theorem apart_of_oneCall (hrun : deployment.Run es d) (hone : OneCall d)
    (hextends : Extends reqs d.sent) {c : Contest} (hpasses : ServerPasses reqs d.server c)
    (hlt : i < d.sent.length) (hthread : d.server.thread i ≠ .returned) :
    Apart (requests reqs) c i := by
  intro name members hreq hfresh j members' p hreq' hrunning
  have hbegun : d.server.thread j ≠ .fresh ∧ d.server.thread j ≠ .returned := by
    have hj := hpasses.threads j
    rw [hrunning] at hj
    generalize d.server.thread j = t at hj
    cases hj
    exact ⟨nofun, nofun⟩
  have hi := waiting_of_register hone hextends hlt hthread hreq
  have hj := waiting_of_register hone hextends (lt_of_begun hrun hbegun.1) hbegun.2 hreq'
  obtain rfl := Option.some.inj (hi.symm.trans hj)
  rw [hrunning] at hfresh
  cases hfresh

/-- With one patient client, the handlers run a contest whose registrations of one name do
    not overlap. -/
theorem patient_contest (hrun : deployment.Run es d) (hpatient : Patient es)
    (hextends : Extends reqs d.sent) :
    ∃ es' c, (contest (requests reqs)).Run es' c ∧ ServerPasses reqs d.server c ∧
      (contest (requests reqs)).Every (fun _ s e _ => Apart (requests reqs) s e.1) es' := by
  induction hrun with
  | init =>
      refine ⟨[], _, .init, ⟨rfl, rfl, fun i => .waiting rfl (guards_call (reqs i))⟩, ?_⟩
      intro later e earlier s t hsplit
      simp at hsplit
  | @step es d d' e hrun hstep ih =>
      cases deploys hstep with
      | work => exact ih hpatient.of_cons hextends.of_append
      | receive => exact ih hpatient.of_cons hextends
      | giveUp => exact ih hpatient.of_cons hextends
      | control => exact ih hpatient.of_cons hextends.of_append
      | @serve i order s hsent hserve =>
          have hextends' : Extends reqs d.sent := hextends
          obtain ⟨es', c, hcontest, hpasses, hapart⟩ := ih hpatient.of_cons hextends'
          have hserve' := step_of_extends hextends' hsent hserve
          rcases hpasses.step hserve' with hsame | ⟨c', hstep', hpasses'⟩
          · exact ⟨es', c, hcontest, hsame, hapart⟩
          · have hnow := apart_of_oneCall hrun (oneCall hrun hpatient.of_cons) hextends' hpasses
              hsent (step_thread_ne_returned hserve)
            exact ⟨(i, order) :: es', c', hcontest.step hstep', hpasses',
              (Machine.every_cons hcontest hstep').mpr ⟨hapart, hnow⟩⟩

/-- With one patient client, whatever faults are injected, no name is registered twice:
    of all its registrations of a name, at most one is answered with success. -/
theorem patient_registers_once (hrun : deployment.Run es d) (hpatient : Patient es)
    {i j : ℕ} {name : String} {members members' : List String}
    (hi : d.sent[i]? = some (.rpc (.registerTeam name members)))
    (hj : d.sent[j]? = some (.rpc (.registerTeam name members')))
    (hi' : (i, .inl .empty) ∈ d.server.replies) (hj' : (j, .inl .empty) ∈ d.server.replies) :
    i = j := by
  have hextends := extends_callsOf d.sent
  obtain ⟨es', c, hcontest, hpasses, hapart⟩ := patient_contest hrun hpatient hextends
  have hsettled := settled hcontest (putsFreeName_of_apart hapart)
  have hreq {k : ℕ} {ms : List String} (hk : d.sent[k]? = some (.rpc (.registerTeam name ms))) :
      requests (callsOf d.sent) k = .registerTeam name ms := by
    rw [requests, hextends k _ hk]
    rfl
  refine hsettled.once name i j members members' (hreq hi) (hreq hj) ?_ ?_
  · rw [hpasses.replies]
    exact mem_passedReplies.mpr hi'
  · rw [hpasses.replies]
    exact mem_passedReplies.mpr hj'

/-- Once the best team is registered, no other registration of it has succeeded. -/
theorem patient_registers_once_register : ∃ d, deployment.Run registerEvents.reverse d ∧
    ∀ j members, d.sent[j]? = some (.rpc (.registerTeam "best-team" members)) →
      (j, .inl .empty) ∈ d.server.replies → 0 = j := by
  have hrun : deployment.Run registerEvents.reverse _ := Machine.run_of_replay rfl
  have hpatient : Patient registerEvents.reverse := by
    constructor
    · intro w draw hmem
      simp [registerEvents] at hmem
      tauto
    · intro w hmem
      simp [registerEvents] at hmem
  exact ⟨_, hrun, fun j members hj hj' =>
    patient_registers_once hrun hpatient rfl hj (.head _) hj'⟩

end Truetech
