-- SUMMARY: Linearizability of the contest service in the runs whose registrations of one name do not overlap.
import TrueHack.Contest.Registration

/-!
# Linearizability

A call occupies the time from its first section to its last. When registrations
of one name do not overlap, every call takes effect in its last section: a
registration's `Put` still finds the name free, and the record a submission
writes back differs from the stored one in the solution alone. So the order in
which the calls answer explains the run.
-/

namespace Truetech

open Storage SharedObject

variable {reqs : ℕ → Request} {c c' : Contest} {i : ℕ} {order : List Team}

/-- Call `i`, about to move, does not begin a registration while another
    registration of the same name is between its sections. -/
def Apart (reqs : ℕ → Request) (c : Contest) (i : ℕ) : Prop :=
  ∀ name teamMembers, reqs i = .registerTeam name teamMembers → c.thread i = .fresh →
    ∀ j teamMembers' p, reqs j = .registerTeam name teamMembers' → c.thread j ≠ .running p

/-- At most one registration of a name is in progress, and while it is, the name is
    free. -/
structure OneRegistering (reqs : ℕ → Request) (c : Contest) : Prop where
  unique : ∀ name i j ms ms' p p', reqs i = .registerTeam name ms →
    reqs j = .registerTeam name ms' → c.thread i = .running p → c.thread j = .running p' → i = j
  free : ∀ name i ms p, reqs i = .registerTeam name ms → c.thread i = .running p →
    c.shared.get name = none

/-! ## Registrations that do not overlap do not race -/

theorem Moves.oneRegistering (h : Moves reqs i c c') (hi : ∀ j, j ≠ i → c'.thread j = c.thread j)
    (hapart : Apart reqs c i) (hc : Consistent reqs c) (ho : OneRegistering reqs c) :
    OneRegistering reqs c' where
  unique := by
    intro name j j' ms ms' p p' hreq hreq' hj hj'
    by_cases hji : j = i
    · subst hji
      by_cases hji' : j' = j
      · exact hji'.symm
      · rw [hi j' hji'] at hj'
        cases h with
        | answer => simp at hj
        | registerGet hfresh => exact absurd hj' (hapart name ms hreq hfresh j' ms' p' hreq')
        | registerPut => simp at hj
        | submitGet _ hreqj => cases hreq.symm.trans hreqj
        | submitPut => simp at hj
    · rw [hi j hji] at hj
      by_cases hji' : j' = i
      · subst hji'
        cases h with
        | answer => simp at hj'
        | registerGet hfresh => exact absurd hj (hapart name ms' hreq' hfresh j ms p hreq)
        | registerPut => simp at hj'
        | submitGet _ hreqj => cases hreq'.symm.trans hreqj
        | submitPut => simp at hj'
      · rw [hi j' hji'] at hj'
        exact ho.unique name j j' ms ms' p p' hreq hreq' hj hj'
  free := by
    intro name j ms p hreq hj
    by_cases hji : j = i
    · subst hji
      cases h with
      | answer => simp at hj
      | registerGet _ hreqj _ _ hget =>
          cases hreq.symm.trans hreqj
          simpa using hget
      | registerPut => simp at hj
      | submitGet _ hreqj => cases hreq.symm.trans hreqj
      | submitPut => simp at hj
    · have hold := (hi j hji).symm.trans hj
      have hget := ho.free name j ms p hreq hold
      cases h with
      | answer => simpa using hget
      | registerGet => simpa using hget
      | @registerPut teamName teamMembers hpending hreqi =>
          have hne : name ≠ teamName := by
            rintro rfl
            exact hji (ho.unique name j i ms teamMembers _ _ hreq hreqi hold hpending)
          simpa [InMemory.get_put_ne _ _ hne] using hget
      | submitGet => simpa using hget
      | @submitPut teamName team hpending hreqi =>
          have hne : name ≠ teamName := by
            rintro rfl
            simpa [hget] using (hc.pending i name team hreqi hpending).2
          simpa [InMemory.get_put_ne _ _ hne] using hget

theorem oneRegistering {es : List (ℕ × List Team)} (h : (contest reqs).Run es c)
    (hapart : (contest reqs).Every (fun _ s e _ => Apart reqs s e.1) es) :
    OneRegistering reqs c := by
  refine h.invariant_of_every (I := fun _ c => OneRegistering reqs c) ⟨?_, ?_⟩ ?_ hapart
  · intro name i j ms ms' p p' _ _ hthread
    cases hthread
  · intro name i ms p _ hthread
    cases hthread
  · rintro es c ⟨i, order⟩ c' hrun _ ih hstep hi
    exact (moves hrun hstep).oneRegistering (fun j hj => step_thread_ne hstep hj) hi
      (consistent hrun) ih

/-- Registrations that do not overlap put free names only. -/
theorem putsFreeName_of_apart {es : List (ℕ × List Team)}
    (hapart : (contest reqs).Every (fun _ s e _ => Apart reqs s e.1) es) :
    (contest reqs).Every (fun _ s e _ => PutsFreeName reqs s e.1) es := by
  intro later e earlier s t heq hrun hstep name ms hreq hthread
  rw [heq] at hapart
  have hearlier : (contest reqs).Every (fun _ s e _ => Apart reqs s e.1) earlier :=
    ((Machine.every_cons hrun hstep).mp hapart.earlier).1
  exact (oneRegistering hrun hearlier).free name e.1 ms _ hreq hthread

/-! ## Every call takes effect in its last section -/

/-- The record a submission is about to write back is the stored one with the new
    solution in it. -/
theorem pending_eq_stored (hc : Consistent reqs c) (hs : Settled reqs c) {name : String}
    {team : Team} (hreq : reqs i = .submitSolution name team.solution)
    (hpending : c.thread i = .running (submitSolutionPut name team)) :
    ∃ stored, c.shared.get name = some stored ∧
      team = { stored with solution := team.solution } := by
  obtain ⟨stored, hget, hmembers⟩ := Option.map_eq_some_iff.mp (hs.pending i name team hreq hpending)
  have hteam := (hc.pending i name team hreq hpending).1
  have hstored := hc.stored name stored hget
  refine ⟨stored, hget, ?_⟩
  cases team
  simp only [Team.mk.injEq, and_true]
  exact ⟨hteam.name.trans hstored.name.symm, hmembers.symm, hteam.score.trans hstored.score.symm⟩

theorem Moves.commits (h : Moves reqs i c c') (hfree : PutsFreeName reqs c i)
    (hc : Consistent reqs c) (hs : Settled reqs c) (es : List (ℕ × List Team)) :
    object.Commits (fun i => (reqs i).handler) es c (i, order) c' := by
  cases h with
  | answer _ hexec =>
      refine ⟨fun h => by simp at h, fun a h => ?_⟩
      simp only [Config.settle_ret_replies, List.append_cancel_left_eq, List.cons.injEq,
        Prod.mk.injEq, true_and, and_true] at h
      simpa [← h] using hexec
  | registerGet => exact ⟨fun _ => by simp, fun a h => by simp [registerTeamPut] at h⟩
  | @registerPut teamName teamMembers hpending hreq hname hmembers =>
      refine ⟨fun h => by simp at h, fun a h => ?_⟩
      simp only [Config.settle_ret_replies, List.append_cancel_left_eq, List.cons.injEq,
        Prod.mk.injEq, true_and, and_true] at h
      subst h
      simp only [hreq, Config.settle_shared]
      exact registerTeam_exec hname hmembers (hfree teamName teamMembers hreq hpending)
  | submitGet => exact ⟨fun _ => by simp, fun a h => by simp [submitSolutionPut] at h⟩
  | @submitPut teamName team hpending hreq =>
      refine ⟨fun h => by simp at h, fun a h => ?_⟩
      simp only [Config.settle_ret_replies, List.append_cancel_left_eq, List.cons.injEq,
        Prod.mk.injEq, true_and, and_true] at h
      subst h
      obtain ⟨stored, hget, hteam⟩ := pending_eq_stored hc hs hreq hpending
      have hexec : (submitSolution teamName team.solution).Exec object c.shared .empty
          (c.shared.put teamName { stored with solution := team.solution }) :=
        submitSolution_exec hget
      rw [← hteam] at hexec
      simp only [hreq, Config.settle_shared]
      exact hexec

/-- A submission changes nothing but the solution of its team. -/
theorem Moves.submit_keeps (h : Moves reqs i c c') (hc : Consistent reqs c)
    (hs : Settled reqs c) {name solution : String}
    (hreq : reqs i = .submitSolution name solution) (k : String) :
    (c'.shared.get k).map (fun team => (team.name, team.members, team.score)) =
      (c.shared.get k).map (fun team => (team.name, team.members, team.score)) := by
  cases h with
  | answer => simp
  | registerGet => simp
  | registerPut _ hreq' => cases hreq.symm.trans hreq'
  | submitGet => simp
  | @submitPut teamName team hpending hreq' =>
      obtain ⟨stored, hget, hteam⟩ := pending_eq_stored hc hs hreq' hpending
      simp only [Config.settle_shared, InMemory.get_put]
      split
      · rename_i hk
        rw [hk, hget, hteam]
        rfl
      · rfl

/-! ## The solution that stays -/

/-- The solution the acknowledged submissions leave, replies taken in order. A
    submission's `Put` and its reply are one step, so this is the order of the `Put`s. -/
def lastSolution (reqs : ℕ → Request) (name : String) (replies : List (ℕ × Reply)) : String :=
  replies.foldl (fun last r => match reqs r.1, r.2 with
    | .submitSolution teamName solution, .empty => if teamName = name then solution else last
    | _, _ => last) ""

theorem lastSolution_append (reqs : ℕ → Request) (name : String) (replies : List (ℕ × Reply))
    (i : ℕ) (a : Reply) :
    lastSolution reqs name (replies ++ [(i, a)]) = match reqs i, a with
      | .submitSolution teamName solution, .empty =>
          if teamName = name then solution else lastSolution reqs name replies
      | _, _ => lastSolution reqs name replies := by
  simp only [lastSolution, List.foldl_append, List.foldl_cons, List.foldl_nil]

theorem Moves.lastSolution (h : Moves reqs i c c') (hfree : PutsFreeName reqs c i) (name : String)
    (hlast : ((c.shared.get name).map Team.solution).getD "" =
      lastSolution reqs name c.replies) :
    ((c'.shared.get name).map Team.solution).getD "" =
      Truetech.lastSolution reqs name c'.replies := by
  cases h with
  | @answer a _ _ hne =>
      rw [Config.settle_ret_replies, lastSolution_append]
      split
      · exact absurd rfl hne
      · simpa using hlast
  | registerGet => simpa [registerTeamPut] using hlast
  | @registerPut teamName teamMembers hpending hreq =>
      rw [Config.settle_ret_replies, lastSolution_append, hreq, ← hlast]
      simp only [Config.settle_shared, InMemory.get_put]
      split
      · rename_i hn
        rw [hn, hfree teamName teamMembers hreq hpending]
        rfl
      · rfl
  | submitGet => simpa [submitSolutionPut] using hlast
  | @submitPut teamName team hpending hreq =>
      rw [Config.settle_ret_replies, lastSolution_append, hreq]
      simp only [Config.settle_shared, InMemory.get_put]
      by_cases hn : name = teamName
      · simp [hn]
      · simp [hn, Ne.symm hn, hlast]

theorem solution_eq_last {es : List (ℕ × List Team)} (h : (contest reqs).Run es c)
    (hfree : (contest reqs).Every (fun _ s e _ => PutsFreeName reqs s e.1) es) (name : String) :
    ((c.shared.get name).map Team.solution).getD "" = lastSolution reqs name c.replies := by
  refine h.invariant_of_every (I := fun _ c =>
    ((c.shared.get name).map Team.solution).getD "" = lastSolution reqs name c.replies) rfl ?_ hfree
  rintro es c ⟨i, order⟩ c' hrun _ ih hstep hput
  exact (moves hrun hstep).lastSolution hput name ih

/-! ## The contract -/

/-- If registrations of one name never overlap, the completed calls have a sequential
    order that respects real time, in which each of them, run alone, gives the reply it
    gave and the last one leaves the store. No submission changes a team's name, members
    or score, and a team's solution is that of the submission whose `Put` came last. -/
theorem linearizable (reqs : ℕ → Request) {es : List (ℕ × List Team)} {c : Contest}
    (h : (contest reqs).Run es c)
    (hapart : (contest reqs).Every (fun _ s e _ => Apart reqs s e.1) es) :
    (∃ order : List (ℕ × Reply),
      (order.map Prod.fst).Nodup ∧ (∀ i a, (i, a) ∈ order ↔ (i, a) ∈ c.replies) ∧
      object.Serial (fun i => (reqs i).handler) order c.shared ∧
      ∀ later earlier c₁ i j, es = later ++ earlier → (contest reqs).Run earlier c₁ →
        c₁.thread i = .returned → c₁.thread j = .fresh → c.thread j = .returned →
        [i, j].Sublist (order.map Prod.fst)) ∧
    (contest reqs).Every (fun _ s e t => ∀ name solution,
      reqs e.1 = .submitSolution name solution → ∀ k,
        (t.shared.get k).map (fun team => (team.name, team.members, team.score)) =
          (s.shared.get k).map (fun team => (team.name, team.members, team.score))) es ∧
    ∀ name team, c.shared.get name = some team →
      team.solution = lastSolution reqs name c.replies := by
  have hfree := putsFreeName_of_apart hapart
  have hprefix : ∀ later e earlier s t, es = later ++ e :: earlier →
      (contest reqs).Run earlier s → (contest reqs).step s e = some t →
      PutsFreeName reqs s e.1 ∧ Settled reqs s := by
    intro later e earlier s t heq hrun hstep
    rw [heq] at hfree
    obtain ⟨hearlier, hput⟩ := (Machine.every_cons hrun hstep).mp hfree.earlier
    exact ⟨hput, settled hrun hearlier⟩
  refine ⟨⟨c.replies, replies_nodup h, fun i a => Iff.rfl, ?_, ?_⟩, ?_, ?_⟩
  · refine serial_of_commits h fun later e earlier s t heq hrun hstep => ?_
    obtain ⟨hput, hs⟩ := hprefix later e earlier s t heq hrun hstep
    exact (moves hrun hstep).commits hput (consistent hrun) hs earlier
  · intro later earlier c₁ i j heq h₁ hi hj hj'
    exact replies_realTime (heq ▸ h) h₁ hi hj hj'
  · intro later e earlier s t heq hrun hstep name solution hreq k
    obtain ⟨_, hs⟩ := hprefix later e earlier s t heq hrun hstep
    exact (moves hrun hstep).submit_keeps (consistent hrun) hs hreq k
  · intro name team hget
    have hlast := solution_eq_last h hfree name
    rwa [hget] at hlast

/-- One team, two submissions that both read the record before either writes it back,
    and a leaderboard at the end. -/
def overlapRequests : ℕ → Request
  | 0 => .registerTeam "red" ["ann"]
  | 1 => .submitSolution "red" "first"
  | 2 => .submitSolution "red" "second"
  | _ => .getLeaderboard false

def overlapEvents : List (ℕ × List Team) :=
  [(0, []), (0, []), (1, []), (2, []), (2, []), (1, []),
   (3, [{ newTeam "red" ["ann"] with solution := "first" }])]

theorem linearizable_overlap :
    ∃ c order, (contest overlapRequests).Run overlapEvents.reverse c ∧
      (∀ i a, (i, a) ∈ order ↔ (i, a) ∈ c.replies) ∧
      object.Serial (fun i => (overlapRequests i).handler) order c.shared ∧
      ∀ name team, c.shared.get name = some team →
        team.solution = lastSolution overlapRequests name c.replies := by
  have hrun : (contest overlapRequests).Run overlapEvents.reverse _ := Machine.run_of_replay rfl
  have honly : ∀ i name ms, overlapRequests i = .registerTeam name ms → i = 0 := by
    intro i name ms hreq
    match i with
    | 0 => rfl
    | 1 => cases hreq
    | 2 => cases hreq
    | i + 3 => cases hreq
  have hapart : (contest overlapRequests).Every (fun _ s e _ => Apart overlapRequests s e.1)
      overlapEvents.reverse := by
    refine Machine.every_of_step fun es s e t _ _ name ms hreq hfresh j ms' p hreq' hj => ?_
    rw [honly _ _ _ hreq] at hfresh
    rw [honly _ _ _ hreq', hfresh] at hj
    cases hj
  obtain ⟨⟨order, _, hmem, hserial, _⟩, _, hlast⟩ := linearizable overlapRequests hrun hapart
  exact ⟨_, order, hrun, hmem, hserial, hlast⟩

end Truetech
