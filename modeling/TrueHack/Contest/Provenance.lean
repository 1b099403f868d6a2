-- SUMMARY: Where the records of the contest and its refusals come from: no call invents either.
import TrueHack.Contest.Invariant

/-!
# Provenance

Registrations of one name may race and submissions may write back what they read
long ago. Still every record is made of what callers sent for its name: its members
all come from one registration, and its solution from a submission.
-/

namespace Truetech

open Storage SharedObject

variable {reqs : ℕ → Request} {c c' : Contest} {i j : ℕ} {k : String} {team : Team}

/-- Call `i` has begun. -/
def Begun (c : Contest) (i : ℕ) : Prop := c.thread i ≠ .fresh

/-- The record is made of what calls that have begun sent for the name `k`. -/
structure Sourced (reqs : ℕ → Request) (c : Contest) (k : String) (team : Team) : Prop where
  members : ∃ i, Begun c i ∧ reqs i = .registerTeam k team.members
  solution : team.solution = "" ∨ ∃ i, Begun c i ∧ reqs i = .submitSolution k team.solution

theorem Sourced.mono (h : Sourced reqs c k team) (hbegun : ∀ i, Begun c i → Begun c' i) :
    Sourced reqs c' k team where
  members := by
    obtain ⟨i, hi, hreq⟩ := h.members
    exact ⟨i, hbegun i hi, hreq⟩
  solution := by
    rcases h.solution with hempty | ⟨i, hi, hreq⟩
    · exact .inl hempty
    · exact .inr ⟨i, hbegun i hi, hreq⟩

/-- The records in the store and on their way there. -/
structure AllSourced (reqs : ℕ → Request) (c : Contest) : Prop where
  stored : ∀ k team, c.shared.get k = some team → Sourced reqs c k team
  pending : ∀ i name team, reqs i = .submitSolution name team.solution →
    c.thread i = .running (submitSolutionPut name team) → Sourced reqs c name team

/-- After its step a call has begun. -/
theorem Moves.begun_self (h : Moves reqs i c c') : Begun c' i := by
  cases h <;> simp [Begun, registerTeamPut, submitSolutionPut]

theorem Moves.begun (h : Moves reqs i c c') (hi : ∀ j, j ≠ i → c'.thread j = c.thread j) (j : ℕ)
    (hj : Begun c j) : Begun c' j := by
  by_cases hij : j = i
  · subst hij
    exact h.begun_self
  · rwa [Begun, hi j hij]

theorem Moves.allSourced (h : Moves reqs i c c') (hi : ∀ j, j ≠ i → c'.thread j = c.thread j)
    (hc : AllSourced reqs c) : AllSourced reqs c' where
  stored := by
    intro k team hget
    have hold (hget : c.shared.get k = some team) : Sourced reqs c' k team :=
      (hc.stored k team hget).mono (h.begun hi)
    cases h with
    | answer => exact hold (by simpa using hget)
    | registerGet => exact hold (by simpa using hget)
    | @registerPut teamName teamMembers _ hreq =>
        simp only [Config.settle_shared, InMemory.get_put] at hget
        split at hget
        · rename_i hk
          obtain rfl := Option.some.inj hget
          subst hk
          exact ⟨⟨i, by simp [Begun], hreq⟩, .inl rfl⟩
        · exact hold hget
    | submitGet => exact hold (by simpa using hget)
    | @submitPut teamName team' hpending hreq =>
        simp only [Config.settle_shared, InMemory.get_put] at hget
        split at hget
        · rename_i hk
          obtain rfl := Option.some.inj hget
          subst hk
          exact (hc.pending i k team' hreq hpending).mono
            ((Moves.submitPut hpending hreq).begun hi)
        · exact hold hget
  pending := by
    intro j name team hreq hthread
    by_cases hij : j = i
    · subst hij
      cases h with
      | answer => simp at hthread
      | registerGet _ hreq' => cases hreq.symm.trans hreq'
      | registerPut _ hreq' => cases hreq.symm.trans hreq'
      | @submitGet teamName solution stored hfresh hreq' hget =>
          have hmoves := Moves.submitGet hfresh hreq' hget
          obtain ⟨hmembers, _⟩ := (hc.stored _ _ hget).mono (hmoves.begun hi)
          cases Thread.running.inj (Config.settle_op_thread_self.symm.trans hthread)
          exact ⟨hmembers, .inr ⟨j, hmoves.begun_self, hreq'⟩⟩
      | submitPut => simp at hthread
    · exact (hc.pending j name team hreq ((hi j hij).symm.trans hthread)).mono (h.begun hi)

theorem allSourced {es : List (ℕ × List Team)} (hrun : (contest reqs).Run es c) :
    AllSourced reqs c := by
  refine hrun.invariant (I := fun _ c => AllSourced reqs c) ⟨?_, ?_⟩ ?_
  · intro k team hget
    cases hget
  · intro i name team _ hthread
    cases hthread
  · rintro es c ⟨i, order⟩ c' hrun ih hstep
    exact (moves hrun hstep).allSourced (fun j hj => step_thread_ne hstep hj) ih

/-- In every run, racing registrations included, the members of a stored team are those of
    one registration of its name, all of them, and its solution is empty or that of one
    submission for its name. -/
theorem store_provenance {es : List (ℕ × List Team)} (hrun : (contest reqs).Run es c)
    (hget : c.shared.get k = some team) :
    (∃ i, Begun c i ∧ reqs i = .registerTeam k team.members) ∧
      (team.solution = "" ∨ ∃ i, Begun c i ∧ reqs i = .submitSolution k team.solution) :=
  have h := (allSourced hrun).stored k team hget
  ⟨h.members, h.solution⟩

/-- After the race the record is that of the second registration. -/
theorem store_provenance_race :
    ∃ c team, (contest raceRequests).Run raceEvents.reverse c ∧ c.shared.get "red" = some team ∧
      ∃ i, Begun c i ∧ raceRequests i = .registerTeam "red" team.members := by
  have hrun : (contest raceRequests).Run raceEvents.reverse _ := Machine.run_of_replay rfl
  exact ⟨_, _, hrun, rfl, (store_provenance hrun rfl).1⟩

/-! ## Leaderboards -/

/-- A row of a leaderboard is the record that was stored under its name. -/
theorem exec_row {s t : InMemory String Team} {req : Request} {scores : List TeamScore}
    {row : TeamScore} (hexec : req.handler.Exec object s (.leaderboard scores) t)
    (hrow : row ∈ scores) : ∃ k team, s.get k = some team ∧ row = ⟨team.name, team.score⟩ := by
  obtain ⟨teams, hteams, rfl⟩ := exec_leaderboard hexec
  obtain ⟨team, hteam, rfl⟩ := List.mem_map.mp hrow
  rw [← Multiset.mem_coe, hteams] at hteam
  obtain ⟨⟨k, _⟩, hentry, rfl⟩ := Multiset.mem_map.mp hteam
  exact ⟨k, _, GoMap.mem_entries.mp hentry, rfl⟩

/-- Every row that a call was ever answered with is that of a registration, with score
    zero. -/
theorem leaderboard_rows {es : List (ℕ × List Team)} (hrun : (contest reqs).Run es c)
    {scores : List TeamScore} (hmem : (j, .leaderboard scores) ∈ c.replies) {row : TeamScore}
    (hrow : row ∈ scores) :
    row.score = 0 ∧ ∃ i members, reqs i = .registerTeam row.teamName members := by
  refine hrun.invariant (I := fun _ c => ∀ j scores, (j, .leaderboard scores) ∈ c.replies →
    ∀ row ∈ scores, row.score = 0 ∧ ∃ i members, reqs i = .registerTeam row.teamName members)
    ?_ ?_ j scores hmem row hrow
  · intro j scores hmem
    cases hmem
  · rintro es c ⟨i, order⟩ c' hrun ih hstep j scores hmem row hrow
    cases moves hrun hstep with
    | answer _ hexec =>
        rcases Config.mem_settle_replies.mp hmem with hold | ⟨rfl, hret⟩
        · exact ih j scores hold row hrow
        · cases hret
          obtain ⟨k, team, hget, rfl⟩ := exec_row hexec hrow
          have hstored := (consistent hrun).stored k team hget
          obtain ⟨i, _, hreq⟩ := ((allSourced hrun).stored k team hget).members
          exact ⟨hstored.score, i, team.members, by rw [hreq, hstored.name]⟩
    | registerGet | registerPut | submitGet | submitPut =>
        rcases Config.mem_settle_replies.mp hmem with hold | ⟨_, hret⟩
        · exact ih j scores hold row hrow
        · cases hret

/-! ## Refusals -/

/-- What makes a request invalid. -/
def Request.Invalid : Request → Prop
  | .registerTeam teamName teamMembers => teamName = "" ∨ teamMembers = []
  | .submitSolution .. | .getLeaderboard _ => False

/-- Only an invalid request is answered as one. -/
theorem exec_invalid {req : Request} {s t : InMemory String Team} {message : String}
    (hexec : req.handler.Exec object s (.error .invalidArgument message) t) : req.Invalid := by
  cases req with
  | registerTeam teamName teamMembers =>
      by_contra hvalid
      obtain ⟨hname, hmembers⟩ := not_or.mp hvalid
      rw [Request.handler, registerTeam_of_valid hname hmembers] at hexec
      cases hexec with
      | @op _ _ _ _ _ _ found _ _ hk =>
          cases found with
          | none =>
              cases hk with
              | op _ hk => cases hk
          | some team => cases hk
  | submitSolution teamName solution =>
      cases hexec with
      | @op _ _ _ _ _ _ found _ _ hk =>
          cases found with
          | none => cases hk
          | some team =>
              cases hk with
              | op _ hk => cases hk
  | getLeaderboard injected =>
      simp only [Request.handler, getLeaderboard] at hexec
      split at hexec
      · cases hexec
      · cases hexec with
        | op _ hk => cases hk

theorem invalid_of_reply {es : List (ℕ × List Team)} (hrun : (contest reqs).Run es c)
    {message : String} (hmem : (j, .error .invalidArgument message) ∈ c.replies) :
    (reqs j).Invalid := by
  refine hrun.invariant (I := fun _ c => ∀ j message,
    (j, .error .invalidArgument message) ∈ c.replies → (reqs j).Invalid) ?_ ?_ j message hmem
  · intro j message hmem
    cases hmem
  · rintro es c ⟨i, order⟩ c' hrun ih hstep j message hmem
    cases moves hrun hstep with
    | answer _ hexec =>
        rcases Config.mem_settle_replies.mp hmem with hold | ⟨rfl, hret⟩
        · exact ih j message hold
        · cases hret
          exact exec_invalid hexec
    | registerGet | registerPut | submitGet | submitPut =>
        rcases Config.mem_settle_replies.mp hmem with hold | ⟨_, hret⟩
        · exact ih j message hold
        · cases hret

end Truetech
