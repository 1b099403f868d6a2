-- SUMMARY: What fault injection does to the contest behind the interceptor: nothing.
import TrueHack.Contest.Intercept

/-!
# Fault injection

Behind the interceptor the contest goes on as if the refused calls had not been
made, so every invariant of the store survives.
-/

namespace Truetech

open Storage Control SharedObject

variable {reqs : ℕ → ServerRequest} {es : List (ℕ × List Team)} {c c' : ServerState} {i : ℕ}
  {h : List (Performed (Op String Team ⊕ FlagOp) (List Team))} {rawQuery : List UInt8}

/-! ## Behind the interceptor -/

theorem guards_intercept (handler : Handler) : handler.Guards (intercept handler) := by
  have herror : handler.Guards (interceptError handler) := by
    refine .ask FlagOp.mustError _ fun mustError => ?_
    cases mustError with
    | true => exact .refuse _
    | false => exact .pass
  refine .ask FlagOp.mustPanic _ fun mustPanic => ?_
  cases mustPanic with
  | true => exact .ask FlagOp.panic _ fun _ => .refuse _
  | false => exact .ask FlagOp.mustDelay _ fun _ => herror

theorem guards_setParam {handler : Handler} {param : List UInt8} {message : String}
    {set : Bool → FlagOp} {rest : ServerCall} (hrest : handler.Guards rest) :
    handler.Guards (setParam param message set rest) := by
  rcases setParam_cases param message set rest with ⟨_, heq⟩ | ⟨_, _, heq⟩ | ⟨value, _, _, heq⟩
  · rwa [heq]
  · rw [heq]
    exact .refuse _
  · rw [heq]
    exact .ask (set value) _ fun _ => hrest

/-- The request of a gRPC call. A debug request runs no handler, so any does for it. -/
def ServerRequest.request : ServerRequest → Request
  | .rpc req => req
  | .control _ => .getLeaderboard true

theorem guards_call (req : ServerRequest) : req.request.handler.Guards req.call := by
  cases req with
  | rpc req => exact guards_intercept req.handler
  | control rawQuery =>
      exact .ask FlagOp.arrive _ fun _ =>
        guards_setParam (guards_setParam (guards_setParam (.refuse _)))

/-- The contest that the server's handlers run. -/
def requests (reqs : ℕ → ServerRequest) (i : ℕ) : Request := (reqs i).request

/-- The server is in the state `c`, and the contest alone in the state `d`. -/
abbrev ServerPasses (reqs : ℕ → ServerRequest) (c : ServerState) (d : Contest) : Prop :=
  Passes (fun i => (requests reqs i).handler) (fun i => (reqs i).call) c d

/-- Every run of the server is one of the contest, with the same store and with the
    replies of the calls that passed. -/
theorem server_passes (hrun : (server reqs).Run es c) :
    ∃ es' d, es'.Sublist es ∧ (contest (requests reqs)).Run es' d ∧ ServerPasses reqs c d :=
  exists_passes (fun i => guards_call (reqs i)) hrun

/-- A registration that passes while one that came later has been refused. -/
def passingRequests : ℕ → ServerRequest
  | 0 => .rpc (.registerTeam "red" ["ann"])
  | 1 => .control (bytes "error=true")
  | 2 => .rpc (.registerTeam "red" ["bob"])
  | _ => .rpc (.getLeaderboard false)

def passingEvents : List (ℕ × List Team) :=
  [(0, []), (0, []), (0, []), (1, []), (1, []), (2, []), (2, []), (2, []), (0, []), (0, [])]

theorem server_passes_refused :
    ∃ c es' d, (server passingRequests).Run passingEvents.reverse c ∧
      es'.Sublist passingEvents.reverse ∧ (contest (requests passingRequests)).Run es' d ∧
      d.replies = [(0, .empty)] := by
  have hrun : (server passingRequests).Run passingEvents.reverse _ := Machine.run_of_replay rfl
  obtain ⟨es', d, hsub, hrun', hpasses⟩ := server_passes hrun
  exact ⟨_, es', d, hrun, hsub, hrun', hpasses.replies⟩

/-- Some `RegisterTeam` call for `name` has passed and succeeded. -/
def RegisteredRpc (reqs : ℕ → ServerRequest) (c : ServerState) (name : String) : Prop :=
  ∃ i teamMembers, reqs i = .rpc (.registerTeam name teamMembers) ∧ (i, .inl .empty) ∈ c.replies

theorem mem_passedReplies {replies : List (ℕ × (Reply ⊕ Refusal))} {reply : Reply} :
    (i, reply) ∈ passedReplies replies ↔ (i, .inl reply) ∈ replies := by
  simp only [passedReplies, List.mem_filterMap]
  constructor
  · rintro ⟨⟨j, r⟩, hmem, heq⟩
    cases r with
    | inl a =>
        cases heq
        exact hmem
    | inr b => cases heq
  · intro hmem
    exact ⟨_, hmem, rfl⟩

theorem registeredRpc_iff {d : Contest} (hpasses : ServerPasses reqs c d) {k : String} :
    RegisteredRpc reqs c k ↔ Registered (requests reqs) d k := by
  simp only [RegisteredRpc, Registered, hpasses.replies, mem_passedReplies]
  have hreq (i : ℕ) (teamMembers : List String) :
      reqs i = .rpc (.registerTeam k teamMembers) ↔
        requests reqs i = .registerTeam k teamMembers := by
    unfold requests
    cases reqs i <;> simp [ServerRequest.request]
  simp only [hreq]

/-- The store of the server, whatever faults are injected: each stored pair is well formed,
    the stored names are those that a call has registered, no step loses one, and a
    leaderboard shows each of them once and nothing else. -/
theorem server_store (hrun : (server reqs).Run es c) :
    (∀ k team, c.shared.1.get k = some team → team.StoredAs k) ∧
    (∀ k, (c.shared.1.get k).isSome ↔ RegisteredRpc reqs c k) ∧
    (server reqs).Every (fun _ s e t =>
      (∀ k, (s.shared.1.get k).isSome → (t.shared.1.get k).isSome) ∧
      ∀ scores, t.replies = s.replies ++ [(e.1, .inl (.leaderboard scores))] →
        (scores.map TeamScore.teamName).Nodup ∧
        ∀ k, k ∈ scores.map TeamScore.teamName ↔ RegisteredRpc reqs s k) es := by
  obtain ⟨es', d, _, hrun', hpasses⟩ := exists_passes (fun i => guards_call (reqs i)) hrun
  have hd := consistent hrun'
  rw [← hpasses.shared]
  refine ⟨hd.stored, fun k => (hd.registered k).trans (registeredRpc_iff hpasses).symm,
    Machine.every_of_step ?_⟩
  intro es s e t hrun hstep
  obtain ⟨i, order⟩ := e
  obtain ⟨es', d, _, hrun', hpasses⟩ := exists_passes (fun i => guards_call (reqs i)) hrun
  rcases hpasses.step hstep with hsame | ⟨d', hstep', hpasses'⟩
  · rw [← hpasses.shared, ← hsame.shared]
    refine ⟨fun k hk => hk, fun scores hreplies => ?_⟩
    have hgrown := hsame.replies.symm.trans hpasses.replies
    rw [hreplies] at hgrown
    simp [passedReplies] at hgrown
  · have hmoves := moves hrun' hstep'
    rw [← hpasses.shared, ← hpasses'.shared]
    refine ⟨fun k hk => hmoves.get_isSome hk, fun scores hreplies => ?_⟩
    have hgrown : d'.replies = d.replies ++ [(i, .leaderboard scores)] := by
      rw [hpasses'.replies, hreplies, hpasses.replies]
      simp [passedReplies]
    obtain ⟨hnodup, hnames⟩ := hmoves.leaderboard (consistent hrun') hgrown
    exact ⟨hnodup, fun k => (hnames k).trans (registeredRpc_iff hpasses).symm⟩

theorem server_store_refused :
    ∃ c, (server passingRequests).Run passingEvents.reverse c ∧
      ∀ k, (c.shared.1.get k).isSome ↔ RegisteredRpc passingRequests c k := by
  have hrun : (server passingRequests).Run passingEvents.reverse _ := Machine.run_of_replay rfl
  exact ⟨_, hrun, (server_store hrun).2.1⟩

end Truetech
