-- SUMMARY: The contest client: the jobs of its worker, and the team names it knows.
import TrueHack.Contest.Provenance

/-!
# The contest client

Every tick the worker draws a job: register a team, submit a solution, or ask for the
leaderboard. It picks its team from a map that it adds made-up teams to, and the team
it picks is the one that the iteration over the map ends with.
-/

namespace Truetech

open Storage SharedObject

/-! ## Teams -/

/-- A team of the client's map: the best one, or one that a worker has made up from two
    readings of the clock. -/
inductive Known : String → List String → Prop where
  | best : Known "best-team" ["member-1", "member-2", "member-3"]
  | made (nameTime memberTime : String) : Known ("team-" ++ nameTime) ["member-" ++ memberTime]

theorem Known.name_ne {teamName : String} {teamMembers : List String}
    (h : Known teamName teamMembers) : teamName ≠ "" := by
  cases h with
  | best => decide
  | made nameTime memberTime =>
      intro hempty
      have hlength := congrArg String.length hempty
      simp [String.length_append] at hlength

theorem Known.members_ne {teamName : String} {teamMembers : List String}
    (h : Known teamName teamMembers) : teamMembers ≠ [] := by
  cases h <;> simp

/-- The variable `teams`: a map of known teams that is never empty. -/
structure Teams where
  map : GoMap String (List String)
  known : ∀ teamName teamMembers, map.lookup teamName = some teamMembers →
    Known teamName teamMembers
  nonempty : ∃ teamName, teamName ∈ map

namespace Teams

/-- The map that the program starts with. -/
def init : Teams where
  map := Finmap.singleton "best-team" ["member-1", "member-2", "member-3"]
  known := by
    intro teamName teamMembers hlookup
    by_cases hname : teamName = "best-team"
    · subst hname
      rw [Finmap.lookup_singleton_eq] at hlookup
      cases hlookup
      exact .best
    · rw [Finmap.lookup_eq_none.mpr (by simpa using hname)] at hlookup
      cases hlookup
  nonempty := ⟨"best-team", by simp⟩

/-- A made-up team is added. -/
def add (teams : Teams) (nameTime memberTime : String) : Teams where
  map := teams.map.insert ("team-" ++ nameTime) ["member-" ++ memberTime]
  known := by
    intro teamName teamMembers hlookup
    by_cases hname : teamName = "team-" ++ nameTime
    · subst hname
      rw [Finmap.lookup_insert] at hlookup
      cases hlookup
      exact .made nameTime memberTime
    · rw [Finmap.lookup_insert_of_ne _ hname] at hlookup
      exact teams.known teamName teamMembers hlookup
  nonempty := ⟨"team-" ++ nameTime, by simp⟩

end Teams

/-! ## Jobs -/

/-- The three ranges of `chance`: below 0.1, below 0.4, and the rest. -/
inductive Job where
  | register
  | submit
  | leaderboard

/-- What is left to chance in one tick: the two draws, the order of the iteration over the
    map, the two readings of the clock, and the draw that the server makes for a
    leaderboard. -/
structure Draw where
  job : Job
  createTeam : Bool
  order : List ((_ : String) × List String)
  nameTime : String
  memberTime : String
  injected : Bool

/-- The variables after `for key, value := range teams`. -/
def pick (order : List ((_ : String) × List String)) : String × List String :=
  order.foldl (fun _ entry => (entry.1, entry.2)) ("", [])

/-- `Worker.do`: the request that it sends, and the map that it leaves. -/
def Teams.work (teams : Teams) (draw : Draw) : Option (Teams × Request) :=
  if (draw.order : Multiset ((_ : String) × List String)) = teams.map.entries then
    let (teamName, members) := pick draw.order
    match draw.job with
    | .register =>
        some (if draw.createTeam then teams.add draw.nameTime draw.memberTime else teams,
          .registerTeam teamName members)
    | .submit => some (teams, .submitSolution teamName "best-solution")
    | .leaderboard => some (teams, .getLeaderboard draw.injected)
  else none

variable {teams teams' : Teams} {draw : Draw} {req : Request}

/-- The iteration ends with an entry of the map. -/
theorem pick_lookup (horder : (draw.order : Multiset ((_ : String) × List String)) =
    teams.map.entries) : teams.map.lookup (pick draw.order).1 = some (pick draw.order).2 := by
  obtain ⟨teamName, hmem⟩ := teams.nonempty
  rcases List.eq_nil_or_concat draw.order with hnil | ⟨before, entry, hsnoc⟩
  · obtain ⟨teamMembers, hlookup⟩ := Finmap.mem_iff.mp hmem
    have hentry := GoMap.mem_entries.mpr hlookup
    rw [← horder, hnil] at hentry
    cases hentry
  · have hentry : entry ∈ teams.map.entries := by
      rw [← horder, hsnoc]
      simp
    have hpick : pick draw.order = (entry.1, entry.2) := by
      rw [hsnoc, pick, List.concat_eq_append, List.foldl_append]
      rfl
    rw [hpick]
    exact GoMap.mem_entries.mp hentry

/-- What a worker with this map can send. -/
inductive Sends (teams : Teams) : Request → Prop where
  | register {teamName : String} {teamMembers : List String}
      (hentry : teams.map.lookup teamName = some teamMembers) :
      Sends teams (.registerTeam teamName teamMembers)
  | submit {teamName : String} {teamMembers : List String}
      (hentry : teams.map.lookup teamName = some teamMembers) :
      Sends teams (.submitSolution teamName "best-solution")
  | leaderboard (injected : Bool) : Sends teams (.getLeaderboard injected)

theorem sends_of_work (hwork : teams.work draw = some (teams', req)) : Sends teams req := by
  obtain ⟨horder, hjob⟩ := Option.ite_none_right_eq_some.mp hwork
  have hentry := pick_lookup horder
  cases hdraw : draw.job with
  | register =>
      simp only [hdraw, Option.some.injEq, Prod.mk.injEq] at hjob
      rw [← hjob.2]
      exact .register hentry
  | submit =>
      simp only [hdraw, Option.some.injEq, Prod.mk.injEq] at hjob
      rw [← hjob.2]
      exact .submit hentry
  | leaderboard =>
      simp only [hdraw, Option.some.injEq, Prod.mk.injEq] at hjob
      rw [← hjob.2]
      exact .leaderboard draw.injected

/-- No worker sends an invalid request. -/
theorem Sends.valid (hsends : Sends teams req) : ¬req.Invalid := by
  cases hsends with
  | register hentry =>
      have hknown := teams.known _ _ hentry
      exact not_or.mpr ⟨hknown.name_ne, hknown.members_ne⟩
  | submit => exact id
  | leaderboard => exact id

end Truetech
