-- SUMMARY: When registration is exclusive and final: exactly in the runs whose registrations never race.
import TrueHack.Contest.Invariant

/-!
# Registration

`RegisterTeam` looks the name up and stores the team in two separate operations.
A second registration of the same name that slips in between is accepted too, and
the later `Put` replaces the first team's members and throws away its solution.
-/

namespace Truetech

open Storage SharedObject

variable {reqs : ℕ → Request} {c c' : Contest} {i : ℕ} {order : List Team}

/-- Registration is exclusive and final as far as the step from `c` to `c'` shows:
    at most one registration of a name has succeeded, the members of a registered
    name stay, and after an acknowledged submission the stored solution is a
    submitted one. -/
structure Exclusive (reqs : ℕ → Request) (c c' : Contest) : Prop where
  once : ∀ name i j teamMembers teamMembers', reqs i = .registerTeam name teamMembers →
    reqs j = .registerTeam name teamMembers' →
    (i, .empty) ∈ c'.replies → (j, .empty) ∈ c'.replies → i = j
  members : ∀ name, Registered reqs c name →
    (c'.shared.get name).map Team.members = (c.shared.get name).map Team.members
  solution : ∀ name i solution, reqs i = .submitSolution name solution →
    (i, .empty) ∈ c'.replies → ∃ j solution' team, reqs j = .submitSolution name solution' ∧
      (j, .empty) ∈ c'.replies ∧ c'.shared.get name = some team ∧ team.solution = solution'

/-- Call `i` does not do the `Put` of a registration whose name is taken by now. -/
def PutsFreeName (reqs : ℕ → Request) (c : Contest) (i : ℕ) : Prop :=
  ∀ name teamMembers, reqs i = .registerTeam name teamMembers →
    c.thread i = .running (registerTeamPut name teamMembers) → c.shared.get name = none

/-- What the runs without racing registrations maintain. The last field is about the
    record a submission is about to write back: its members are still the stored ones. -/
structure Settled (reqs : ℕ → Request) (c : Contest) : Prop where
  once : ∀ name i j teamMembers teamMembers', reqs i = .registerTeam name teamMembers →
    reqs j = .registerTeam name teamMembers' →
    (i, .empty) ∈ c.replies → (j, .empty) ∈ c.replies → i = j
  solution : ∀ name i solution, reqs i = .submitSolution name solution →
    (i, .empty) ∈ c.replies → ∃ j solution' team, reqs j = .submitSolution name solution' ∧
      (j, .empty) ∈ c.replies ∧ c.shared.get name = some team ∧ team.solution = solution'
  pending : ∀ i name team, reqs i = .submitSolution name team.solution →
    c.thread i = .running (submitSolutionPut name team) →
    (c.shared.get name).map Team.members = some team.members

/-! ## One step -/

/-- A move that is no registration's `Put` on a taken name keeps the members of every
    stored team. -/
theorem Moves.members (h : Moves reqs i c c') (hfree : PutsFreeName reqs c i)
    (hs : Settled reqs c) {name : String} (hname : (c.shared.get name).isSome) :
    (c'.shared.get name).map Team.members = (c.shared.get name).map Team.members := by
  cases h with
  | answer => simp
  | registerGet => simp
  | @registerPut teamName teamMembers hpending hreq =>
      have hget := hfree teamName teamMembers hreq hpending
      have hne : name ≠ teamName := by
        rintro rfl
        simp [hget] at hname
      simp [InMemory.get_put_ne _ _ hne]
  | submitGet => simp
  | @submitPut teamName team hpending hreq =>
      simp only [Config.settle_shared, InMemory.get_put]
      split
      · rename_i hn
        subst hn
        exact (hs.pending i name team hreq hpending).symm
      · rfl

/-- A success is an old one, or the move is its `Put`. -/
theorem Moves.success (h : Moves reqs i c c') {j : ℕ} (hmem : (j, .empty) ∈ c'.replies) :
    (j, .empty) ∈ c.replies ∨ j = i ∧ c'.replies = c.replies ++ [(i, .empty)] := by
  cases h with
  | answer _ _ hne =>
      simp only [Config.settle_ret_replies, List.mem_append, List.mem_singleton, Prod.mk.injEq,
        Ne.symm hne, and_false, or_false] at hmem
      exact .inl hmem
  | registerGet => exact .inl hmem
  | registerPut =>
      simp only [Config.settle_ret_replies, List.mem_append, List.mem_singleton, Prod.mk.injEq,
        and_true] at hmem
      exact hmem.imp_right fun hj => ⟨hj, rfl⟩
  | submitGet => exact .inl hmem
  | submitPut =>
      simp only [Config.settle_ret_replies, List.mem_append, List.mem_singleton, Prod.mk.injEq,
        and_true] at hmem
      exact hmem.imp_right fun hj => ⟨hj, rfl⟩

theorem Moves.replies_mono (h : Moves reqs i c c') {reply : ℕ × Reply}
    (hmem : reply ∈ c.replies) : reply ∈ c'.replies := by
  cases h with
  | answer => exact List.mem_append_left _ hmem
  | registerGet => exact hmem
  | registerPut => exact List.mem_append_left _ hmem
  | submitGet => exact hmem
  | submitPut => exact List.mem_append_left _ hmem

/-- The `Put` of a successful registration found the name free. -/
theorem Moves.registers_free (h : Moves reqs i c c') (hfree : PutsFreeName reqs c i)
    (hnew : c'.replies = c.replies ++ [(i, .empty)]) {name : String} {teamMembers : List String}
    (hreq : reqs i = .registerTeam name teamMembers) : c.shared.get name = none := by
  cases h with
  | answer _ _ hne => simp [hne] at hnew
  | registerGet => simp [registerTeamPut] at hnew
  | registerPut hpending hreq' =>
      cases hreq.symm.trans hreq'
      exact hfree name teamMembers hreq hpending
  | submitGet => simp [submitSolutionPut] at hnew
  | submitPut _ hreq' => cases hreq.symm.trans hreq'

/-- The `Put` of a successful submission stores its solution. -/
theorem Moves.submits (h : Moves reqs i c c') (hnew : c'.replies = c.replies ++ [(i, .empty)])
    {name solution : String} (hreq : reqs i = .submitSolution name solution) :
    ∃ team, c'.shared.get name = some team ∧ team.solution = solution := by
  cases h with
  | answer _ _ hne => simp [hne] at hnew
  | registerGet => simp [registerTeamPut] at hnew
  | registerPut _ hreq' => cases hreq.symm.trans hreq'
  | submitGet => simp [submitSolutionPut] at hnew
  | @submitPut teamName team _ hreq' =>
      cases hreq.symm.trans hreq'
      exact ⟨team, by simp, rfl⟩

/-- What is stored under a taken name stays, or a submission replaces it. -/
theorem Moves.get_kept (h : Moves reqs i c c') (hfree : PutsFreeName reqs c i) {name : String}
    (hname : (c.shared.get name).isSome) : c'.shared.get name = c.shared.get name ∨
      ∃ solution, reqs i = .submitSolution name solution ∧
        c'.replies = c.replies ++ [(i, .empty)] := by
  cases h with
  | answer => exact .inl rfl
  | registerGet => exact .inl rfl
  | @registerPut teamName teamMembers hpending hreq =>
      have hget := hfree teamName teamMembers hreq hpending
      have hne : name ≠ teamName := by
        rintro rfl
        simp [hget] at hname
      exact .inl (InMemory.get_put_ne _ _ hne)
  | submitGet => exact .inl rfl
  | @submitPut teamName team _ hreq =>
      by_cases hn : name = teamName
      · subst hn
        exact .inr ⟨team.solution, hreq, rfl⟩
      · exact .inl (InMemory.get_put_ne _ _ hn)

theorem Moves.settled (h : Moves reqs i c c') (hi : ∀ j, j ≠ i → c'.thread j = c.thread j)
    (hfree : PutsFreeName reqs c i) (hc : Consistent reqs c) (hs : Settled reqs c) :
    Settled reqs c' where
  once := by
    intro name j j' ms ms' hreq hreq' hmem hmem'
    -- Two successes, one of them new: the other one had stored the name.
    have hstored {j : ℕ} {ms : List String} (hreq : reqs j = .registerTeam name ms)
        (hold : (j, .empty) ∈ c.replies) : c.shared.get name ≠ none :=
      Option.isSome_iff_ne_none.mp ((hc.registered name).mpr ⟨j, ms, hreq, hold⟩)
    cases h.success hmem with
    | inl hold =>
        cases h.success hmem' with
        | inl hold' => exact hs.once name j j' ms ms' hreq hreq' hold hold'
        | inr hnew' =>
            obtain ⟨rfl, hnew'⟩ := hnew'
            exact absurd (h.registers_free hfree hnew' hreq') (hstored hreq hold)
    | inr hnew =>
        obtain ⟨rfl, hnew⟩ := hnew
        cases h.success hmem' with
        | inl hold' => exact absurd (h.registers_free hfree hnew hreq) (hstored hreq' hold')
        | inr hnew' => exact hnew'.1.symm
  solution := by
    intro name j sol hreq hmem
    cases h.success hmem with
    | inl hold =>
        obtain ⟨j', sol', team, hreq', hmem', hget, hsol⟩ := hs.solution name j sol hreq hold
        cases h.get_kept hfree (Option.isSome_of_mem hget) with
        | inl hkept =>
            exact ⟨j', sol', team, hreq', h.replies_mono hmem', hkept.trans hget, hsol⟩
        | inr hsubmitted =>
            obtain ⟨sol'', hreqi, hnew⟩ := hsubmitted
            obtain ⟨team', hget', hsol'⟩ := h.submits hnew hreqi
            exact ⟨i, sol'', team', hreqi, by simp [hnew], hget', hsol'⟩
    | inr hnew =>
        obtain ⟨rfl, hnew⟩ := hnew
        obtain ⟨team, hget, hsol⟩ := h.submits hnew hreq
        exact ⟨j, sol, team, hreq, hmem, hget, hsol⟩
  pending := by
    intro j name team hreq hthread
    by_cases hij : j = i
    · subst hij
      cases h with
      | answer => simp at hthread
      | registerGet _ hreq' => cases hreq.symm.trans hreq'
      | registerPut _ hreq' => cases hreq.symm.trans hreq'
      | submitGet _ _ hget =>
          cases Thread.running.inj (Config.settle_op_thread_self.symm.trans hthread)
          simp [hget]
      | submitPut => simp at hthread
    · have hold := (hi j hij).symm.trans hthread
      rw [h.members hfree hs (hc.pending j name team hreq hold).2]
      exact hs.pending j name team hreq hold

/-- A registration that puts a taken name has succeeded a second time. -/
theorem Moves.putsFreeName (h : Moves reqs i c c') (hret : c.thread i ≠ .returned)
    (hreplied : ∀ j, (∃ a, (j, a) ∈ c.replies) → c.thread j = .returned)
    (hc : Consistent reqs c) (hx : Exclusive reqs c c') : PutsFreeName reqs c i := by
  intro name teamMembers hreq hthread
  cases hget : c.shared.get name with
  | none => rfl
  | some team =>
      obtain ⟨j, ms, hreqj, hj⟩ := (hc.registered name).mp (by simp [hget])
      cases h with
      | answer hfresh => simp [hfresh] at hthread
      | registerGet hfresh => simp [hfresh] at hthread
      | registerPut =>
          have hij := hx.once name i j teamMembers ms hreq hreqj (by simp) (by simp [hj])
          exact absurd (hreplied i ⟨_, hij ▸ hj⟩) hret
      | submitGet hfresh => simp [hfresh] at hthread
      | submitPut _ hreq' => cases hreq.symm.trans hreq'

/-! ## Runs -/

theorem settled {es : List (ℕ × List Team)} (h : (contest reqs).Run es c)
    (hfree : (contest reqs).Every (fun _ s e _ => PutsFreeName reqs s e.1) es) :
    Settled reqs c := by
  refine h.invariant_of_every (I := fun _ c => Settled reqs c) ⟨?_, ?_, ?_⟩ ?_ hfree
  · intro name i j ms ms' _ _ hmem
    cases hmem
  · intro name i sol _ hmem
    cases hmem
  · intro i name team _ hthread
    cases hthread
  · rintro es c ⟨i, order⟩ c' hrun _ ih hstep hput
    exact (moves hrun hstep).settled (fun j hj => step_thread_ne hstep hj) hput
      (consistent hrun) ih

/-- Registration is exclusive and final along a run exactly if no registration does
    its `Put` when the name has been taken since its `Get`. -/
theorem registration_exclusive_iff (reqs : ℕ → Request) (es : List (ℕ × List Team)) :
    (contest reqs).Every (fun _ s _ t => Exclusive reqs s t) es ↔
      (contest reqs).Every (fun _ s e _ => PutsFreeName reqs s e.1) es := by
  constructor
  · intro hx later e earlier s t heq hrun hstep
    exact (moves hrun hstep).putsFreeName (step_thread_ne_returned hstep)
      (fun j => (mem_replies_iff hrun j).mp) (consistent hrun)
      (hx later e earlier s t heq hrun hstep)
  · intro hfree later e earlier s t heq hrun hstep
    have hbefore : (contest reqs).Every (fun _ s e _ => PutsFreeName reqs s e.1)
        (e :: earlier) := by
      rw [heq] at hfree
      exact hfree.earlier
    obtain ⟨hearlier, hput⟩ := (Machine.every_cons hrun hstep).mp hbefore
    have hs := settled hrun hearlier
    have ht := settled (hrun.step hstep) hbefore
    exact
      { once := ht.once
        members := fun name hname => (moves hrun hstep).members hput hs
          (((consistent hrun).registered name).mpr hname)
        solution := ht.solution }

/-- The race: both registrations succeed, and the second one replaces the members
    and the acknowledged solution of the first. -/
theorem registration_race :
    ∃ c, (contest raceRequests).Run raceEvents.reverse c ∧
      (0, .empty) ∈ c.replies ∧ (1, .empty) ∈ c.replies ∧ (2, .empty) ∈ c.replies ∧
      c.shared.get "red" = some (newTeam "red" ["bob"]) ∧
      ¬ (contest raceRequests).Every (fun _ s _ t => Exclusive raceRequests s t)
        raceEvents.reverse := by
  have hrun : (contest raceRequests).Run raceEvents.reverse _ := Machine.run_of_replay rfl
  refine ⟨_, hrun, by decide, by decide, by decide, by decide, fun hx => ?_⟩
  cases hrun with
  | step hrun hstep =>
      have hlast := ((Machine.every_cons hrun hstep).mp hx).2
      exact absurd (hlast.once "red" 0 1 ["ann"] ["bob"] rfl rfl (by decide) (by decide))
        (by decide)

end Truetech
