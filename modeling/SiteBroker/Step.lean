import SiteBroker.Desk
import SiteBroker.Double.Reader

/-! The steps of a workflow. A step whose result is in the progress of the job is passed over;
any other asks the local service, and ends in a result or in a task to wait for. -/

namespace SiteBroker

namespace Json

/-- Flags as the local service writes them. -/
def isTruthy : Json → Bool
  | .bool b => b
  | .int i => i != 0
  | .float x => !x.isZero
  | .str s => ["1", "true", "t", "yes", "y"].contains (Text.trim s).toLower
  | _ => false

/-- Amounts as the local service writes them. -/
def double? : Json → Option Double
  | .int i => some (Double.ofInt i)
  | .float x => some x
  | .str s => Double.ofText? (Text.trim s)
  | _ => none

/-- The text that an answer to a lookup gives: an object has it under a name, any other value is
it. -/
def foundText? (name : String) (found : Json) : Option String :=
  (match found with
    | .obj _ => (found.field? name).bind text?
    | a => a.text?).filter (!·.isEmpty)

/-- The text that an object has under a name. -/
def entryText? (name : String) (found : Json) : Option String := (found.field? name).bind text?

end Json

/-- A task that a step completes, possibly spared by a lookup. -/
structure Milestone where
  operation : Operation
  role : Option Role := none
  /-- Whether the progress already holds the result. -/
  isReached : Progress → Bool
  /-- What to look up first, and with which fields beside those of the job. -/
  lookup : Option (LookupKind × (Job → Fields)) := none
  /-- What an answer to the lookup makes of the progress; nothing if it does not settle it. -/
  ofFound : Job → Json → Except ServiceError (Option Progress) := fun _ _ => .ok none
  /-- The fields of the task beside those of the job. -/
  extra : Job → Fields := fun _ => ∅
  /-- What the task, once it was successful, makes of the progress. -/
  ofTask : Job → TaskRecord → Except ServiceError Progress

/-- A step of a workflow. -/
inductive Step where
  /-- A task to complete. -/
  | milestone (m : Milestone)
  /-- Something taken over from the packet. -/
  | adopt (f : Job → Except ServiceError Progress)
  /-- The records of the transaction to drop at the local service. -/
  | clear
  /-- A project to look for that was set up before. -/
  | findProject

/-- How a step ended. -/
inductive StepResult where
  | done
  /-- The task has to be finished first. -/
  | waiting (t : TaskRecord)
  /-- Nothing else is left to do. -/
  | settled

namespace Milestone

variable {σ : Type} (s : Services σ)

/-- What the lookup of a milestone settles. A job that has the task is not looked up. -/
def look (m : Milestone) : Work σ (Option Progress) := do
  match m.lookup with
  | none => return none
  | some (kind, extra) =>
    let job ← Desk.currentJob
    if s.hasTask job m.operation then return none
    else
      match ← s.lookup kind m.role (extra job) with
      | none => return none
      | some found => Desk.lift (m.ofFound job found)

/-- Runs the task of a milestone. -/
def perform (m : Milestone) : Work σ StepResult := do
  let job ← Desk.currentJob
  let t ← s.runTask m.operation m.role (m.extra job)
  if t.state = .successful then
    let progress ← Desk.lift (m.ofTask job t)
    Desk.setProgress progress
    return .done
  else return .waiting t

def run (m : Milestone) : Work σ StepResult := do
  let job ← Desk.currentJob
  if m.isReached job.progress then return .done
  else
    match ← m.look s with
    | some progress =>
      Desk.setProgress progress
      return .done
    | none => m.perform s

end Milestone

namespace Job

/-- Whether a project for the request can have been set up before: the request names its record,
and nothing has been done for it yet. -/
def mayBeProvisioned (job : Job) : Bool :=
  job.progress.projectId.isNone && (job.field? "RecordID").isSome && job.tasks.isEmpty

/-- What is known of a project that was found. -/
def ofFoundProject (job : Job) (found : Json) : Except ServiceError Progress :=
  match found.foundText? "ProjectID" with
  | none => .error (.internal "project task lookup returned no ProjectID")
  | some projectId => .ok
    { job.progress with
      projectId := some projectId
      personId := (found.entryText? "PiPersonID").or job.progress.personId
      remoteSiteLogin := (found.entryText? "PiRemoteSiteLogin").or job.progress.remoteSiteLogin
      serviceUnitsAllocated := (found.field? "ServiceUnitsAllocated").bind Json.double?
      startDate := found.entryText? "StartDate"
      endDate := found.entryText? "EndDate" }

end Job

namespace Step

variable {σ : Type} (s : Services σ)

def runClear : Work σ StepResult := do
  let job ← Desk.currentJob
  if job.progress.transactionCleared = some true then return .done
  else
    s.clear
    Desk.setProgress { job.progress with transactionCleared := some true }
    return .done

def runFindProject : Work σ StepResult := do
  let job ← Desk.currentJob
  if !job.mayBeProvisioned then return .done
  else
    match ← s.lookup .projectTask none ∅ with
    | none => return .done
    | some found =>
      let progress ← Desk.lift (job.ofFoundProject found)
      Desk.setProgress progress
      return .settled

def run : Step → Work σ StepResult
  | milestone m => m.run s
  | adopt f => do
    let job ← Desk.currentJob
    let progress ← Desk.lift (f job)
    Desk.setProgress progress
    return .done
  | clear => runClear s
  | findProject => runFindProject s

/-- Runs steps in order until one does not end in a result. -/
def runAll : List Step → Work σ StepResult
  | [] => return .done
  | step :: rest => do
    match ← step.run s with
    | .done => runAll rest
    | result => return result

end Step

end SiteBroker
