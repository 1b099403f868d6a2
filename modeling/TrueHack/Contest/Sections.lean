-- SUMMARY: The sections of the contest handlers: everything one step of the service can do.
import TrueHack.Contest.Service

/-!
# Sections of the handlers

A handler runs in at most two sections: up to its `Get`, and its `Put`. `Moves`
lists what a section can do, and `moves` says that nothing else happens. Every
invariant of the service is proved by cases on `Moves`.
-/

namespace Truetech

open Storage SharedObject

variable {reqs : ℕ → Request} {c c' : Contest} {i j : ℕ} {order : List Team}

/-- What call `i` can be waiting to do between two sections. -/
inductive Pending (reqs : ℕ → Request) (i : ℕ) : Handler → Prop where
  | register {teamName : String} {teamMembers : List String}
      (hreq : reqs i = .registerTeam teamName teamMembers)
      (hname : teamName ≠ "") (hmembers : teamMembers ≠ []) :
      Pending reqs i (registerTeamPut teamName teamMembers)
  | submit {teamName : String} {team : Team}
      (hreq : reqs i = .submitSolution teamName team.solution) :
      Pending reqs i (submitSolutionPut teamName team)

/-- What one section of call `i` can do. -/
inductive Moves (reqs : ℕ → Request) (i : ℕ) (c : Contest) : Contest → Prop where
  /-- The call ends in its first section without writing: a rejected argument, a name
      already taken, an unknown team, an injected error or a leaderboard. -/
  | answer {a : Reply} (hfresh : c.thread i = .fresh)
      (hexec : (reqs i).handler.Exec object c.shared a c.shared) (hne : a ≠ .empty) :
      Moves reqs i c (c.settle i (.ret a))
  | registerGet {teamName : String} {teamMembers : List String}
      (hfresh : c.thread i = .fresh) (hreq : reqs i = .registerTeam teamName teamMembers)
      (hname : teamName ≠ "") (hmembers : teamMembers ≠ [])
      (hget : c.shared.get teamName = none) :
      Moves reqs i c (c.settle i (registerTeamPut teamName teamMembers))
  | registerPut {teamName : String} {teamMembers : List String}
      (hpending : c.thread i = .running (registerTeamPut teamName teamMembers))
      (hreq : reqs i = .registerTeam teamName teamMembers)
      (hname : teamName ≠ "") (hmembers : teamMembers ≠ []) :
      Moves reqs i c
        ({ c with shared := c.shared.put teamName (newTeam teamName teamMembers) }.settle i
          (.ret .empty))
  | submitGet {teamName solution : String} {team : Team}
      (hfresh : c.thread i = .fresh) (hreq : reqs i = .submitSolution teamName solution)
      (hget : c.shared.get teamName = some team) :
      Moves reqs i c (c.settle i (submitSolutionPut teamName { team with solution := solution }))
  | submitPut {teamName : String} {team : Team}
      (hpending : c.thread i = .running (submitSolutionPut teamName team))
      (hreq : reqs i = .submitSolution teamName team.solution) :
      Moves reqs i c ({ c with shared := c.shared.put teamName team }.settle i (.ret .empty))

/-! ## The handlers run alone -/

theorem registerTeam_of_valid {teamName : String} {teamMembers : List String}
    (hname : teamName ≠ "") (hmembers : teamMembers ≠ []) :
    registerTeam teamName teamMembers =
      .op (.get teamName) (registerTeamFound teamName teamMembers) := by
  simp [registerTeam, hname, hmembers]

/-- A registration of a free name with valid arguments stores the new team. -/
theorem registerTeam_exec {s : InMemory String Team} {teamName : String}
    {teamMembers : List String} (hname : teamName ≠ "") (hmembers : teamMembers ≠ [])
    (hget : s.get teamName = none) :
    (registerTeam teamName teamMembers).Exec object s .empty
      (s.put teamName (newTeam teamName teamMembers)) := by
  rw [registerTeam_of_valid hname hmembers]
  refine .op (x := []) apply_get ?_
  rw [hget]
  exact .op (x := []) apply_put .ret

/-- A submission for a stored team stores it with the new solution. -/
theorem submitSolution_exec {s : InMemory String Team} {teamName solution : String} {team : Team}
    (hget : s.get teamName = some team) :
    (submitSolution teamName solution).Exec object s .empty
      (s.put teamName { team with solution := solution }) := by
  refine .op (x := []) apply_get ?_
  rw [hget]
  exact .op (x := []) apply_put .ret

/-- A leaderboard run alone lists the stored teams in some order. -/
theorem exec_leaderboard {req : Request} {s t : InMemory String Team} {scores : List TeamScore}
    (h : req.handler.Exec object s (.leaderboard scores) t) :
    ∃ teams : List Team, (teams : Multiset Team) = s.data.values ∧
      scores = teams.map fun team => ⟨team.name, team.score⟩ := by
  cases req with
  | registerTeam teamName teamMembers =>
      simp only [Request.handler, registerTeam] at h
      split at h
      · cases h
      split at h
      · cases h
      cases h with
      | @op _ _ _ _ _ _ found _ happ hk =>
          cases found with
          | some team => cases hk
          | none =>
              cases hk with
              | op _ hk => cases hk
  | submitSolution teamName solution =>
      cases h with
      | @op _ _ _ _ _ _ found _ happ hk =>
          cases found with
          | none => cases hk
          | some team =>
              cases hk with
              | op _ hk => cases hk
  | getLeaderboard injected =>
      simp only [Request.handler, getLeaderboard] at h
      split at h
      · cases h
      cases h with
      | op happ hk =>
          obtain ⟨hvalues, rfl⟩ := apply_getAll happ
          cases hk
          exact ⟨_, hvalues, rfl⟩

/-! ## One step -/

/-- The first section of a call that stops before touching the storage. -/
private theorem moves_of_ret {a : Reply} (hfresh : c.thread i = .fresh)
    (h : (reqs i).handler = .ret a) : Moves reqs i c (c.settle i (.ret a)) := by
  refine .answer hfresh (by rw [h]; exact .ret) ?_
  rintro rfl
  cases hreq : reqs i with
  | registerTeam teamName teamMembers =>
      simp only [hreq, Request.handler, registerTeam] at h
      split at h
      · cases h
      split at h <;> cases h
  | submitSolution teamName solution =>
      rw [hreq] at h
      cases h
  | getLeaderboard injected =>
      simp only [hreq, Request.handler, getLeaderboard] at h
      split at h <;> cases h

/-- The first section of a call that reaches the storage. -/
private theorem moves_of_op {o : Op String Team} {k : o.Res → Handler} {r : o.Res}
    {s : InMemory String Team} (hfresh : c.thread i = .fresh)
    (h : (reqs i).handler = .op o k) (happ : object.apply c.shared o order = some (r, s)) :
    Moves reqs i c ({ c with shared := s }.settle i (k r)) := by
  cases hreq : reqs i with
  | registerTeam teamName teamMembers =>
      rw [hreq] at h
      by_cases hvalid : teamName ≠ "" ∧ teamMembers ≠ []
      · obtain ⟨hname, hmembers⟩ := hvalid
        simp only [Request.handler, registerTeam_of_valid hname hmembers] at h
        cases h
        cases happ
        cases hget : c.shared.get teamName with
        | none => exact .registerGet hfresh hreq hname hmembers hget
        | some team =>
            refine .answer hfresh ?_ (by simp)
            rw [hreq, Request.handler, registerTeam_of_valid hname hmembers]
            exact .op (x := order) apply_get (by rw [hget]; exact .ret)
      · simp only [Request.handler, registerTeam] at h
        split at h
        · cases h
        split at h
        · cases h
        · simp_all
  | submitSolution teamName solution =>
      rw [hreq] at h
      cases h
      cases happ
      cases hget : c.shared.get teamName with
      | none =>
          refine .answer hfresh ?_ (by simp)
          rw [hreq]
          exact .op (x := order) apply_get (by rw [hget]; exact .ret)
      | some team => exact .submitGet hfresh hreq hget
  | getLeaderboard injected =>
      simp only [hreq, Request.handler, getLeaderboard] at h
      split at h
      · cases h
      · rename_i hinjected
        cases h
        obtain ⟨_, rfl⟩ := apply_getAll happ
        refine .answer hfresh ?_ (by simp)
        simp only [hreq, Request.handler, getLeaderboard, if_neg hinjected]
        exact .op happ .ret

/-- A step of the service is one of the listed moves. -/
theorem moves_of_pending (hpending : ∀ p, c.thread i = .running p → Pending reqs i p)
    (h : (contest reqs).step c (i, order) = some c') : Moves reqs i c c' := by
  cases hthread : c.thread i with
  | fresh =>
      obtain ⟨a, hp, rfl⟩ | ⟨o, k, r, s, hp, happ, rfl⟩ := step_cases h
      · exact moves_of_ret hthread (Option.some.inj (by simpa [hthread, Thread.program] using hp))
      · exact moves_of_op hthread (Option.some.inj (by simpa [hthread, Thread.program] using hp))
          happ
  | running p =>
      obtain ⟨a, hp, rfl⟩ | ⟨o, k, r, s, hp, happ, rfl⟩ := step_cases h
      · simp only [hthread, Thread.program, Option.some.injEq] at hp
        cases hpending p hthread <;> cases hp
      · simp only [hthread, Thread.program, Option.some.injEq] at hp
        cases hpending p hthread with
        | register hreq hname hmembers =>
            cases hp
            cases happ
            exact .registerPut hthread hreq hname hmembers
        | submit hreq =>
            cases hp
            cases happ
            exact .submitPut hthread hreq
  | returned => exact absurd hthread (step_thread_ne_returned h)

/-- A move leaves its own call with a listed continuation, or done. -/
theorem Moves.pending_self (h : Moves reqs i c c') {p : Handler}
    (hp : c'.thread i = .running p) : Pending reqs i p := by
  cases h with
  | answer => simp at hp
  | registerGet _ hreq hname hmembers =>
      cases Thread.running.inj (Config.settle_op_thread_self.symm.trans hp)
      exact .register hreq hname hmembers
  | registerPut => simp at hp
  | submitGet _ hreq =>
      cases Thread.running.inj (Config.settle_op_thread_self.symm.trans hp)
      exact .submit hreq
  | submitPut => simp at hp

/-- In every run, a call between two sections waits for one of the listed `Put`s. -/
theorem pending {es : List (ℕ × List Team)} (h : (contest reqs).Run es c) {p : Handler}
    (hp : c.thread i = .running p) : Pending reqs i p := by
  refine h.invariant (I := fun _ c => ∀ i p, c.thread i = .running p → Pending reqs i p)
    ?_ ?_ i p hp
  · intro i p hp
    cases hp
  · rintro es c ⟨j, order⟩ c' _ ih hstep i p hp
    by_cases hij : i = j
    · subst hij
      exact (moves_of_pending (ih i) hstep).pending_self hp
    · exact ih i p ((step_thread_ne hstep hij).symm.trans hp)

/-- Everything a step of a run can do. -/
theorem moves {es : List (ℕ × List Team)} (hrun : (contest reqs).Run es c)
    (h : (contest reqs).step c (i, order) = some c') : Moves reqs i c c' :=
  moves_of_pending (fun _ hp => pending hrun hp) h

end Truetech
