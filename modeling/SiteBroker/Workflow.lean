import SiteBroker.Workflow.Milestones

/-! Workflows: for each type of packet the steps that serve it, and the reply at their end. -/

namespace SiteBroker

/-- What one round of work on a job came to. -/
inductive Outcome where
  /-- A task has to be finished first. -/
  | pending (t : TaskRecord)
  /-- Everything is done. -/
  | reply (p : Packet)

/-- The steps that serve a job, and its reply. -/
structure Workflow where
  steps : Job → List Step
  reply : Job → Packet

namespace Job

/-- Puts fields of the packet into a reply. -/
def copyTo (job : Job) (names : List String) (reply : Packet) : Packet :=
  names.foldl (fun reply name => match job.field? name with
    | some a => reply.set name a
    | none => reply) reply

/-- What kind of allocation a project request asks for. -/
def allocationType (job : Job) : String := (job.fieldText? "AllocationType").getD ""

end Job

namespace Packet

/-- Sets a field that has a text. -/
def setText (p : Packet) (name : String) : Option String → Packet
  | some s => p.set name (.str s)
  | none => p

end Packet

namespace Workflow

/-- Walks through the steps from the start; those that are done are passed over. -/
def work {σ : Type} (w : Workflow) (s : Services σ) : Work σ Outcome := do
  let job ← Desk.currentJob
  match ← Step.runAll s (w.steps job) with
  | .waiting t => return .pending t
  | _ =>
    let job ← Desk.currentJob
    return .reply (w.reply job)

/-- The reply to a request with some of its fields. -/
def echo (names : List String) (job : Job) : Packet := job.copyTo names job.reply

def accountReply (job : Job) : Packet :=
  let reply := job.copyTo ["UserFirstName", "UserLastName", "UserOrganization", "UserOrgCode",
    "AcademicDegree", "ResourceList"] job.reply
  (((reply.setText "AccountActivityTime" job.progress.accountActivityTime).setText
    "ProjectID" (job.progress.projectId.or (job.fieldText? "ProjectID"))).setText
    "UserPersonID" job.progress.personId).set
    "UserRemoteSiteLogin" (.str (job.progress.accountLogin.getD ""))

/-- Sets up the user and an account on the project. -/
def accountCreate : Workflow where
  steps _ := [.milestone (.orgCode .user), .milestone (.person .user),
    .milestone (.activePerson .user), .milestone .account, .milestone .notice]
  reply := accountReply

def projectReply (job : Job) : Packet :=
  let p := job.progress
  let reply := job.copyTo ["GrantNumber", "PfosNumber", "PiOrgCode", "ProjectTitle",
    "ResourceList"] job.reply
  let reply := ((reply.setText "PiPersonID" p.personId).setText
    "PiRemoteSiteLogin" (p.remoteSiteLogin.or p.personId)).setText "ProjectID" p.projectId
  let units := p.serviceUnitsAllocated.or
    ((job.field? "ServiceUnitsAllocated").bind Json.double?)
  let reply := match units with
    | some units => reply.set "ServiceUnitsAllocated" (Json.ofDouble units)
    | none => reply
  (reply.setText "StartDate" (p.startDate.or (job.fieldText? "StartDate"))).setText
    "EndDate" (p.endDate.or (job.fieldText? "EndDate"))

/-- The project that a request names, if none was found or set up for it. -/
def adoptProject (job : Job) : Except ServiceError Progress :=
  match job.progress.projectId, job.fieldText? "ProjectID" with
  | some _, _ => .ok job.progress
  | none, some id => .ok { job.progress with projectId := some id }
  | none, none => .error (.validation (.missing ["ProjectID"]))

/-- What a request for a new project takes, and one that concerns a project there is. -/
def provision (allocation : String) : List Step :=
  if allocation = "new" then
    [.milestone .siteGrantKey, .milestone .projectNameBase, .milestone .project]
  else [.adopt adoptProject, .milestone .allocation]

/-- Sets up a new project, or changes the allocation of one. A project that was set up before for
the same record is reported at once. -/
def projectCreate : Workflow where
  steps job := [.findProject, .milestone (.orgCode .pi), .milestone (.person .pi),
      .milestone (.activePerson .pi)] ++
    (if job.allocationType = "new" ∨ job.allocationType = "renewal" then
      [.milestone .localFos] else []) ++
    provision job.allocationType ++ [.milestone .notice]
  reply := projectReply

/-- The person and the project that a request names. -/
def adoptIds (job : Job) : Except ServiceError Progress :=
  .ok { job.progress with
    personId := job.progress.personId.or (job.fieldText? "PersonID")
    projectId := job.progress.projectId.or (job.fieldText? "ProjectID") }

def accountInactivate : Workflow where
  steps _ := [.milestone .accountEnd]
  reply := echo ["PersonID", "ProjectID", "ResourceList"]

/-- Reactivates the person, tells them, then restores the account. -/
def accountReactivate : Workflow where
  steps _ := [.adopt adoptIds, .milestone (.activePerson .user), .milestone .notice,
    .milestone .accountReturn]
  reply := echo ["PersonID", "ProjectID", "ResourceList"]

def projectInactivate : Workflow where
  steps _ := [.milestone .projectEnd]
  reply := echo ["ProjectID", "ResourceList"]

def projectReactivate : Workflow where
  steps _ := [.milestone .projectReturn]
  reply := echo ["ProjectID", "ResourceList"]

def userModify : Workflow where
  steps _ := [.milestone .userChange]
  reply := echo ["ActionType", "PersonID"]

def personMerge : Workflow where
  steps _ := [.milestone .personMerge]
  reply := echo []

/-- Ends a transaction that created something: the local service drops its records of it. -/
def conclude : Workflow where
  steps _ := [.clear]
  reply := echo []

/-- The workflow for a type of packet. -/
def ofType? : PacketType → Option Workflow
  | .requestAccountCreate => some accountCreate
  | .requestProjectCreate => some projectCreate
  | .requestAccountInactivate => some accountInactivate
  | .requestAccountReactivate => some accountReactivate
  | .requestProjectInactivate => some projectInactivate
  | .requestProjectReactivate => some projectReactivate
  | .requestUserModify => some userModify
  | .requestPersonMerge => some personMerge
  | .dataAccountCreate | .dataProjectCreate => some conclude
  | _ => none

end Workflow

/-- Who works on the jobs of a type of packet. -/
abbrev Registry (σ : Type) : Type := PacketType → Option (Work σ Outcome)

namespace Registry

variable {σ : Type}

/-- All workflows. -/
def catalog (s : Services σ) : Registry σ := fun t => (Workflow.ofType? t).map (·.work s)

/-- A packet of a type that no one works on is answered with failure. -/
def refuse : Work σ Outcome := do
  let job ← Desk.currentJob
  return .reply (job.failureReply (job.packet.type.name ++ " not implemented"))

def work (registry : Registry σ) (t : PacketType) : Work σ Outcome := (registry t).getD refuse

end Registry

end SiteBroker
