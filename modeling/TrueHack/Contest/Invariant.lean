-- SUMMARY: The store of the contest service under every interleaving: what it holds, and what a leaderboard shows of it.
import TrueHack.Contest.Sections

/-!
# The store invariant

The invariant speaks about the store and, since handlers write back what they
read, about the record in the hands of every half-finished submission.
-/

namespace Truetech

open Storage SharedObject

variable {reqs : ℕ → Request} {c c' : Contest} {i : ℕ} {k : String}

/-- Some `RegisterTeam` handler for `name` has done its `Put`. That is its last
    operation, so the handler's success is recorded in the same step. -/
def Registered (reqs : ℕ → Request) (c : Contest) (name : String) : Prop :=
  ∃ i teamMembers, reqs i = .registerTeam name teamMembers ∧ (i, .empty) ∈ c.replies

/-- A record fit to stand under the name `k`. -/
structure Team.StoredAs (team : Team) (k : String) : Prop where
  name : team.name = k
  nonempty : k ≠ ""
  members : team.members ≠ []
  score : team.score = 0

theorem newTeam_storedAs {teamName : String} {teamMembers : List String}
    (hname : teamName ≠ "") (hmembers : teamMembers ≠ []) :
    (newTeam teamName teamMembers).StoredAs teamName :=
  ⟨rfl, hname, hmembers, rfl⟩

/-- A new solution does not disturb the rest of the record. -/
theorem Team.StoredAs.withSolution {team : Team} (h : team.StoredAs k) (solution : String) :
    { team with solution := solution }.StoredAs k :=
  ⟨h.name, h.nonempty, h.members, h.score⟩

/-- The invariant of the running service. -/
structure Consistent (reqs : ℕ → Request) (c : Contest) : Prop where
  stored : ∀ k team, c.shared.get k = some team → team.StoredAs k
  pending : ∀ i name team, reqs i = .submitSolution name team.solution →
    c.thread i = .running (submitSolutionPut name team) →
    team.StoredAs name ∧ (c.shared.get name).isSome
  registered : ∀ k, (c.shared.get k).isSome ↔ Registered reqs c k

/-! ## One step -/

/-- Stored names stay stored. -/
theorem Moves.get_isSome (h : Moves reqs i c c') (hk : (c.shared.get k).isSome) :
    (c'.shared.get k).isSome := by
  cases h with
  | answer => simpa using hk
  | registerGet => simpa using hk
  | registerPut =>
      simp only [Config.settle_shared, InMemory.get_put]
      split
      · rfl
      · exact hk
  | submitGet => simpa using hk
  | submitPut =>
      simp only [Config.settle_shared, InMemory.get_put]
      split
      · rfl
      · exact hk

/-- A move registers a name only if it is a `RegisterTeam` that succeeds. -/
theorem Moves.registered_iff (h : Moves reqs i c c') :
    Registered reqs c' k ↔ Registered reqs c k ∨
      ∃ teamMembers, reqs i = .registerTeam k teamMembers ∧
        c'.replies = c.replies ++ [(i, .empty)] := by
  have hnew : ∀ c₀ : Contest, c₀.replies = c.replies ++ [(i, .empty)] →
      (Registered reqs c₀ k ↔ Registered reqs c k ∨
        ∃ teamMembers, reqs i = .registerTeam k teamMembers ∧
          c₀.replies = c.replies ++ [(i, .empty)]) := by
    intro c₀ hrep
    simp only [Registered, hrep, List.mem_append, List.mem_singleton, Prod.mk.injEq, and_true]
    constructor
    · rintro ⟨j, ms, hreq, hmem | rfl⟩
      · exact .inl ⟨j, ms, hreq, hmem⟩
      · exact .inr ⟨ms, hreq⟩
    · rintro (⟨j, ms, hreq, hmem⟩ | ⟨ms, hreq⟩)
      · exact ⟨j, ms, hreq, .inl hmem⟩
      · exact ⟨i, ms, hreq, .inr rfl⟩
  cases h with
  | answer _ _ hne => simp [Registered, hne, Ne.symm hne]
  | registerGet => simp [Registered, registerTeamPut]
  | registerPut => exact hnew _ rfl
  | submitGet => simp [Registered, submitSolutionPut]
  | submitPut => exact hnew _ rfl

theorem Moves.consistent (h : Moves reqs i c c') (hi : ∀ j, j ≠ i → c'.thread j = c.thread j)
    (hc : Consistent reqs c) : Consistent reqs c' where
  stored := by
    intro k team hget
    cases h with
    | answer => exact hc.stored k team (by simpa using hget)
    | registerGet => exact hc.stored k team (by simpa using hget)
    | @registerPut teamName teamMembers _ _ hname hmembers =>
        simp only [Config.settle_shared, InMemory.get_put] at hget
        split at hget
        · rename_i hk
          obtain rfl := Option.some.inj hget
          subst hk
          exact newTeam_storedAs hname hmembers
        · exact hc.stored k team hget
    | submitGet => exact hc.stored k team (by simpa using hget)
    | @submitPut teamName team' hpending hreq =>
        simp only [Config.settle_shared, InMemory.get_put] at hget
        split at hget
        · rename_i hk
          obtain rfl := Option.some.inj hget
          exact hk ▸ (hc.pending i teamName team' hreq hpending).1
        · exact hc.stored k team hget
  pending := by
    intro j name team hreq hthread
    by_cases hij : j = i
    · subst hij
      cases h with
      | answer => simp at hthread
      | registerGet _ hreq' => cases hreq.symm.trans hreq'
      | registerPut _ hreq' => cases hreq.symm.trans hreq'
      | @submitGet teamName solution team' _ _ hget =>
          cases Thread.running.inj (Config.settle_op_thread_self.symm.trans hthread)
          exact ⟨(hc.stored _ _ hget).withSolution solution, by simp [hget]⟩
      | submitPut => simp at hthread
    · obtain ⟨hstored, hname⟩ := hc.pending j name team hreq ((hi j hij).symm.trans hthread)
      exact ⟨hstored, h.get_isSome hname⟩
  registered := by
    intro k
    rw [h.registered_iff, ← hc.registered k]
    cases h with
    | answer _ _ hne => simp [hne]
    | registerGet => simp [registerTeamPut]
    | @registerPut teamName teamMembers _ hreq =>
        simp only [Config.settle_shared, InMemory.get_put, hreq, Request.registerTeam.injEq]
        by_cases hk : k = teamName
        · simp [hk]
        · simp [hk, Ne.symm hk]
    | submitGet => simp [submitSolutionPut]
    | @submitPut teamName team hpending hreq =>
        simp only [Config.settle_shared, InMemory.get_put, hreq, reduceCtorEq, false_and,
          exists_false, or_false]
        by_cases hk : k = teamName
        · subst hk
          simp [(hc.pending i k team hreq hpending).2]
        · simp [hk]

/-- The invariant holds in every run, racing registrations included. -/
theorem consistent {es : List (ℕ × List Team)} (h : (contest reqs).Run es c) :
    Consistent reqs c := by
  refine h.invariant (I := fun _ c => Consistent reqs c) ⟨?_, ?_, ?_⟩ ?_
  · intro k team hget
    cases hget
  · intro i name team _ hthread
    cases hthread
  · intro k
    simp [contest, Registered]
  · rintro es c ⟨i, order⟩ c' hrun ih hstep
    exact (moves hrun hstep).consistent (fun j hj => step_thread_ne hstep hj) ih

/-! ## Leaderboards -/

/-- In a consistent state the stored records carry the registered names, each once. -/
theorem Consistent.names {teams : List Team} (hc : Consistent reqs c)
    (hteams : (teams : Multiset Team) = c.shared.data.values) :
    (teams.map Team.name).Nodup ∧ ∀ k, k ∈ teams.map Team.name ↔ Registered reqs c k := by
  have hkeys : ((teams.map Team.name : List String) : Multiset String) =
      c.shared.data.keys.val := by
    rw [← Multiset.map_coe, hteams]
    exact GoMap.map_values_eq_keys fun k team hget => (hc.stored k team hget).name
  refine ⟨Multiset.coe_nodup.mp (hkeys ▸ c.shared.data.keys.nodup), fun k => ?_⟩
  rw [← hc.registered k, ← Multiset.mem_coe, hkeys, Finset.mem_val, Finmap.mem_keys,
    ← Finmap.lookup_isSome]
  rfl

/-- A leaderboard is the list of the registered names at the moment it is read. -/
theorem Moves.leaderboard (h : Moves reqs i c c') (hc : Consistent reqs c)
    {scores : List TeamScore} (hrep : c'.replies = c.replies ++ [(i, .leaderboard scores)]) :
    (scores.map TeamScore.teamName).Nodup ∧
      ∀ k, k ∈ scores.map TeamScore.teamName ↔ Registered reqs c k := by
  cases h with
  | answer _ hexec =>
      simp only [Config.settle_ret_replies, List.append_cancel_left_eq, List.cons.injEq,
        Prod.mk.injEq, true_and, and_true] at hrep
      obtain ⟨teams, hteams, rfl⟩ := exec_leaderboard (hrep ▸ hexec)
      have hnames : (teams.map fun team => (⟨team.name, team.score⟩ : TeamScore)).map
          TeamScore.teamName = teams.map Team.name := by
        simp
      rw [hnames]
      exact hc.names hteams
  | registerGet => simp [registerTeamPut] at hrep
  | registerPut => simp at hrep
  | submitGet => simp [submitSolutionPut] at hrep
  | submitPut => simp at hrep

/-! ## The contract -/

/-- In every state any interleaving reaches, each stored pair is well formed and the
    stored names are the registered ones; every step keeps the stored names, and every
    leaderboard it answers shows each registered name once and nothing else, whatever
    the iteration order. -/
theorem store_invariant (reqs : ℕ → Request) {es : List (ℕ × List Team)} {c : Contest}
    (h : (contest reqs).Run es c) :
    (∀ k team, c.shared.get k = some team →
      team.name = k ∧ k ≠ "" ∧ team.members ≠ [] ∧ team.score = 0) ∧
    (∀ k, (c.shared.get k).isSome ↔ Registered reqs c k) ∧
    (contest reqs).Every (fun _ s e t =>
      (∀ k, (s.shared.get k).isSome → (t.shared.get k).isSome) ∧
      ∀ scores, t.replies = s.replies ++ [(e.1, .leaderboard scores)] →
        (scores.map TeamScore.teamName).Nodup ∧
        ∀ k, k ∈ scores.map TeamScore.teamName ↔ Registered reqs s k) es := by
  have hc := consistent h
  refine ⟨fun k team hget => ?_, hc.registered, Machine.every_of_step ?_⟩
  · have hteam := hc.stored k team hget
    exact ⟨hteam.name, hteam.nonempty, hteam.members, hteam.score⟩
  · rintro es s ⟨i, order⟩ t hrun hstep
    have hmove := moves hrun hstep
    exact ⟨fun k hk => hmove.get_isSome hk,
      fun scores hrep => hmove.leaderboard (consistent hrun) hrep⟩

/-- Two overlapping registrations of one name, with a submission in between. -/
def raceRequests : ℕ → Request
  | 0 => .registerTeam "red" ["ann"]
  | 1 => .registerTeam "red" ["bob"]
  | _ => .submitSolution "red" "code"

def raceEvents : List (ℕ × List Team) :=
  [(0, []), (1, []), (0, []), (2, []), (2, []), (1, [])]

/-- Even the race leaves a well-formed record under the contested name. -/
theorem store_invariant_race :
    ∃ c, (contest raceRequests).Run raceEvents.reverse c ∧
      (∀ k team, c.shared.get k = some team →
        team.name = k ∧ k ≠ "" ∧ team.members ≠ [] ∧ team.score = 0) ∧
      ∀ k, (c.shared.get k).isSome ↔ Registered raceRequests c k := by
  have hrun : (contest raceRequests).Run raceEvents.reverse _ := Machine.run_of_replay rfl
  obtain ⟨hstored, hnames, _⟩ := store_invariant raceRequests hrun
  exact ⟨_, hrun, hstored, hnames⟩

end Truetech
