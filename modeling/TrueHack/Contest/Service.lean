-- SUMMARY: The contest service: its handlers as programs over the storage.
import TrueHack.Contest.Storage

/-!
# The contest service

Each handler is translated line by line into a program over the team storage.
Spans and contexts leave no trace in a reply and are left out.
-/

namespace Truetech

open Storage

/-- `model.Team` -/
structure Team where
  name : String
  members : List String
  score : Int32
  solution : String
deriving DecidableEq, Repr

/-- The gRPC status codes the handlers use. An error without a status travels as
    `unknown`. -/
inductive Code where
  | invalidArgument
  | alreadyExists
  | notFound
  | unknown
deriving DecidableEq, Repr

/-- `api.TeamScore` -/
structure TeamScore where
  teamName : String
  score : Int32
deriving DecidableEq, Repr

/-- What a handler returns: `emptypb.Empty`, a leaderboard, or an error. -/
inductive Reply where
  | empty
  | leaderboard (scores : List TeamScore)
  | error (code : Code) (message : String)
deriving DecidableEq, Repr

/-- A handler in the middle of a call. -/
abbrev Handler := Prog (Op String Team) Op.Res Reply

/-- The record `RegisterTeam` stores. -/
def newTeam (teamName : String) (teamMembers : List String) : Team where
  name := teamName
  members := teamMembers
  score := 0
  solution := ""

/-- `Service.RegisterTeam` from its `Put` on. -/
def registerTeamPut (teamName : String) (teamMembers : List String) : Handler :=
  .op (.put teamName (newTeam teamName teamMembers)) fun _ => .ret .empty

/-- `Service.RegisterTeam` once its `Get` has answered. -/
def registerTeamFound (teamName : String) (teamMembers : List String) : Option Team → Handler
  | some _ => .ret (.error .alreadyExists s!"team {teamName} already exists")
  | none => registerTeamPut teamName teamMembers

/-- `Service.RegisterTeam` -/
def registerTeam (teamName : String) (teamMembers : List String) : Handler :=
  if teamName = "" then
    .ret (.error .invalidArgument "team name is required")
  else if teamMembers.length = 0 then
    .ret (.error .invalidArgument "team members is required")
  else
    .op (.get teamName) (registerTeamFound teamName teamMembers)

/-- `Service.SubmitSolution` from its `Put` on; `team` is the record it read, with
    the new solution in it. -/
def submitSolutionPut (teamName : String) (team : Team) : Handler :=
  .op (.put teamName team) fun _ => .ret .empty

/-- `Service.SubmitSolution` once its `Get` has answered. -/
def submitSolutionFound (teamName solution : String) : Option Team → Handler
  | none => .ret (.error .notFound s!"team {teamName} not found")
  | some team => submitSolutionPut teamName { team with solution := solution }

/-- `Service.SubmitSolution` -/
def submitSolution (teamName solution : String) : Handler :=
  .op (.get teamName) (submitSolutionFound teamName solution)

/-- `Service.GetLeaderboard`; `injected` is the outcome of `rand.Float64() < 0.2`. -/
def getLeaderboard (injected : Bool) : Handler :=
  if injected then
    .ret (.error .unknown "injected random error")
  else
    .op .getAll fun (teams : List Team) =>
      .ret (.leaderboard (teams.map fun team => ⟨team.name, team.score⟩))

/-- One call of the service with its arguments, and for a leaderboard the random
    draw it makes. -/
inductive Request where
  | registerTeam (teamName : String) (teamMembers : List String)
  | submitSolution (teamName solution : String)
  | getLeaderboard (injected : Bool)

def Request.handler : Request → Handler
  | .registerTeam teamName teamMembers => Truetech.registerTeam teamName teamMembers
  | .submitSolution teamName solution => Truetech.submitSolution teamName solution
  | .getLeaderboard injected => Truetech.getLeaderboard injected

/-- The state of the running service. -/
abbrev Contest := Config (InMemory String Team) (Op String Team) Op.Res Reply

/-- The running service: call `i` carries the request `reqs i`, and the storage
    operations of all calls interleave freely. -/
def contest (reqs : ℕ → Request) : Machine Contest (ℕ × List Team) :=
  object.interleave fun i => (reqs i).handler

end Truetech
