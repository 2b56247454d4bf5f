import SiteBroker.Job
import SiteBroker.Role
import SiteBroker.World

/-! The desk at which a job is worked on: requests made from its fields, and tasks that are
recorded in it so that none is submitted twice. -/

namespace SiteBroker

/-- A job and the world it is worked on in. -/
structure Desk (σ : Type) where
  job : Job
  world : World σ

/-- Work on a job. What it did before an error stays done. -/
abbrev Work (σ α : Type) : Type := EStateM ServiceError (Desk σ) α

namespace Desk

variable {σ : Type}

def currentJob : Work σ Job := do return (← get).job

def setJob (job : Job) : Work σ Unit := modify fun d => { d with job }

def setProgress (progress : Progress) : Work σ Unit :=
  modify fun d => { d with job := { d.job with progress } }

def lift {α : Type} : Except ServiceError α → Work σ α
  | .ok a => pure a
  | .error e => throw e

/-- Lifts a validation of a request. -/
def validated {α : Type} : Except ValidationError α → Work σ α
  | .ok a => pure a
  | .error e => throw (.validation e)

/-- Runs work that needs no job. -/
def outside {α : Type} (x : EStateM ServiceError (World σ) α) : Work σ α := fun d =>
  match x d.world with
  | .ok a world => .ok a { d with world }
  | .error e world => .error e { d with world }

end Desk

namespace Job

/-- The fields a request is made from: those of the packet as a role sees them, under `extra`. -/
def requestFields (job : Job) (role : Option Role) (extra : Fields) : Fields :=
  let fields := match role with
    | some role => role.strip job.fields
    | none => job.fields
  Fields.overlay fields extra

/-- The fields of a task request, which name the role where the operation is about a person. -/
def taskFields (job : Job) (operation : Operation) (role : Option Role) (extra : Fields) :
    Fields :=
  let fields := job.requestFields role extra
  match role with
  | some role =>
    if operation = .chooseOrAddPerson ∨ operation = .activatePerson then
      fields.insert "person_role" (.str role.camel)
    else fields
  | none => fields

end Job

namespace TaskRecord

/-- A failed task is a failed request, and an errored task an error. -/
def settled (t : TaskRecord) : Except ServiceError TaskRecord :=
  match t.state with
  | .failed => .error (.requestFailed (t.message?.getD "task failed"))
  | .errored => .error (.internal (t.name ++ ": " ++ t.message?.getD "task errored"))
  | _ => .ok t

/-- Whether a task has to be submitted again: it was never taken up, or it was cleared. -/
def isOpen (t : TaskRecord) : Bool := t.state == .nascent || t.state == .cleared

end TaskRecord

namespace Services

variable {σ : Type} (s : Services σ)

/-- Whether the job has a task for an operation. -/
def hasTask (job : Job) (operation : Operation) : Bool :=
  (s.taskName? operation).any fun name => (job.tasks.get? name).isSome

/-- Submits a task and records it in the job. -/
def submit (operation : Operation) (name : String) (role : Option Role) (extra : Fields) :
    Work σ TaskRecord := do
  let job ← Desk.currentJob
  let now ← Desk.outside s.now
  let fields := job.taskFields operation role extra
  let request ← Desk.validated
    (TaskRequest.ofPacketFields operation job.taskKeys name now fields)
  let t ← Desk.outside (s.call (.submit request))
  Desk.setJob (job.putTask t)
  return t

/-- The recorded task of an operation, or the task that is submitted for it. -/
def runTask (operation : Operation) (role : Option Role) (extra : Fields) :
    Work σ TaskRecord := do
  match s.taskName? operation with
  | none => throw (.requestFailed "Unsupported operation")
  | some name =>
    let job ← Desk.currentJob
    match (job.tasks.get? name).filter (!·.isOpen) with
    | some t => Desk.lift t.settled
    | none =>
      let t ← s.submit operation name role extra
      Desk.lift t.settled

/-- Looks something up; nothing means that it does not exist yet. -/
def lookup (kind : LookupKind) (role : Option Role) (extra : Fields) :
    Work σ (Option Json) := do
  let job ← Desk.currentJob
  let request ← Desk.validated (LookupRequest.ofPacketFields kind (job.requestFields role extra))
  Desk.outside (s.call (.lookup request))

/-- Has the local service drop its records of the job's transaction. -/
def clear : Work σ Unit := do
  let job ← Desk.currentJob
  Desk.outside (s.call (.clear job.transactionId))

end Services

end SiteBroker
