import SiteBroker.Step

/-! The milestones on the way to an account, a project or an allocation. -/

namespace SiteBroker

namespace Job

/-- A field as it concerns a role: under the name with the role's prefix, or without it. -/
def roleText? (job : Job) (role : Role) (name : String) : Option String :=
  (job.fieldText? (role.camel ++ name)).or (job.fieldText? name)

end Job

namespace Milestone

/-- The error of a successful task that does not tell its result. -/
def lacking (t : TaskRecord) (product : String) : ServiceError :=
  .internal ("task '" ++ t.name ++ "' succeeded without a " ++ product ++ " product")

def needText (t : TaskRecord) (product : String) : Except ServiceError String :=
  match t.productText? product with
  | some s => .ok s
  | none => .error (lacking t product)

def textFields (entries : List (String × Option String)) : Fields :=
  Fields.ofOptions (entries.map fun (k, s) => (k, s.map .str))

def orgCode (role : Role) : Milestone where
  operation := .chooseOrAddOrg
  role := some role
  isReached p := p.orgCode.isSome
  lookup := some (.org, fun _ => ∅)
  ofFound job found :=
    match (found.foundText? "OrgCode").or (job.roleText? role "OrgCode") with
    | some code => .ok (some { job.progress with orgCode := some code })
    | none => .error (.internal "org lookup returned no OrgCode")
  ofTask job t :=
    match (t.productText? "OrgCode").or (job.roleText? role "OrgCode") with
    | some code => .ok { job.progress with orgCode := some code }
    | none => .error (lacking t "OrgCode")

/-- The progress once a person is known. -/
def withPerson (p : Progress) (personId : String) (login siteOrg : Option String)
    (active : Bool) : Progress :=
  { p with
    personId := some personId
    remoteSiteLogin := login.or p.remoteSiteLogin
    siteOrg
    personActive := some active }

def person (role : Role) : Milestone where
  operation := .chooseOrAddPerson
  role := some role
  isReached p := p.personId.isSome
  lookup := some (.person, fun _ => ∅)
  ofFound job found :=
    match found.foundText? "PersonID" with
    | some id => .ok (some (withPerson job.progress id (found.entryText? "RemoteSiteLogin")
        (found.entryText? "site_org") ((found.field? "active").any Json.isTruthy)))
    | none => .error (.internal "person lookup returned no PersonID")
  ofTask job t := do
    let id ← needText t "PersonID"
    .ok (withPerson job.progress id (t.productText? "RemoteSiteLogin")
      (t.productText? "site_org") ((t.product? "active").any Json.isTruthy))

/-- A person who was activated counts as active unless the task denies it. -/
def activePerson (role : Role) : Milestone where
  operation := .activatePerson
  role := some role
  isReached p := p.personActive == some true
  extra job := textFields [("PersonID", job.progress.personId.or (job.roleText? role "PersonID"))]
  ofTask job t :=
    .ok { job.progress with personActive := some ((t.product? "active").all Json.isTruthy) }

def localFos : Milestone where
  operation := .chooseOrAddLocalFos
  isReached p := p.localFos.isSome
  lookup := some (.localFos, fun _ => ∅)
  ofFound job found := .ok <| (found.foundText? "areaOfInterest").map fun area =>
    { job.progress with localFos := some area }
  ofTask job t := do
    let area ← needText t "areaOfInterest"
    .ok { job.progress with localFos := some area }

def siteGrantKey : Milestone where
  operation := .chooseOrAddGrant
  isReached p := p.siteGrantKey.isSome
  lookup := some (.grant, fun _ => ∅)
  ofFound job found := .ok <| (found.foundText? "site_grant_key").map fun key =>
    { job.progress with siteGrantKey := some key }
  extra job := textFields [("PiPersonID", job.progress.personId),
    ("local_fos", job.progress.localFos)]
  ofTask job t := do
    let key ← needText t "site_grant_key"
    .ok { job.progress with siteGrantKey := some key }

def nameBaseFields (job : Job) : Fields :=
  textFields [("site_grant_key", job.progress.siteGrantKey), ("site_org", job.progress.siteOrg)]

def projectNameBase : Milestone where
  operation := .chooseOrAddProjectNameBase
  isReached p := p.projectNameBase.isSome
  lookup := some (.projectNameBase, nameBaseFields)
  ofFound job found := .ok <| (found.foundText? "project_name_base").map fun base =>
    { job.progress with projectNameBase := some base }
  extra := nameBaseFields
  ofTask job t := do
    let base ← needText t "project_name_base"
    .ok { job.progress with projectNameBase := some base }

def project : Milestone where
  operation := .createProject
  isReached p := p.projectId.isSome
  extra job := textFields [
    ("local_fos", job.progress.localFos),
    ("project_name_base", job.progress.projectNameBase),
    ("site_grant_key", job.progress.siteGrantKey),
    ("site_org", job.progress.siteOrg),
    ("PiPersonID", job.progress.personId),
    ("RemoteSiteLogin", job.progress.remoteSiteLogin)]
  ofTask job t := do
    let id ← needText t "ProjectID"
    .ok { job.progress with
      projectId := some id
      serviceUnitsAllocated := (t.product? "ServiceUnitsAllocated").bind Json.double?
      startDate := t.productText? "StartDate"
      endDate := t.productText? "EndDate"
      remoteSiteLogin := (t.productText? "PiRemoteSiteLogin").or job.progress.remoteSiteLogin }

def account : Milestone where
  operation := .createAccount
  isReached p := p.accountLogin.isSome
  extra job := textFields [("PersonID", job.progress.personId),
    ("ProjectID", job.progress.projectId)]
  ofTask job t :=
    .ok { job.progress with
      accountLogin :=
        some (((t.productText? "RemoteSiteLogin").or job.progress.remoteSiteLogin).getD "")
      accountActivityTime := t.productText? "AccountActivityTime"
      projectId :=
        ((t.productText? "ProjectID").or (job.fieldText? "ProjectID")).or job.progress.projectId }

def allocation : Milestone where
  operation := .updateAllocation
  isReached p := p.serviceUnitsAllocated.isSome
  extra job := textFields [("ProjectID", job.progress.projectId)]
  ofTask job t :=
    match ((t.product? "ServiceUnitsAllocated").bind Json.double?).or
        ((job.field? "ServiceUnitsAllocated").bind Json.double?) with
    | some units => .ok
      { job.progress with
        serviceUnitsAllocated := some units
        startDate := t.productText? "StartDate"
        endDate := t.productText? "EndDate"
        resourceName := t.productText? "resource_name" }
    | none => .error (lacking t "ServiceUnitsAllocated")

/-- A task whose only result is that it was done. -/
def flagged (operation : Operation) (flag : Progress → Option Bool)
    (raise : Progress → Progress) (extra : Job → Fields) : Milestone where
  operation := operation
  isReached p := flag p == some true
  extra := extra
  ofTask job _ := .ok (raise job.progress)

def notice : Milestone :=
  flagged .notifyUser (·.userNotified) (fun p => { p with userNotified := some true }) fun job =>
    textFields [
      ("project_id", job.progress.projectId),
      ("person_id", job.progress.personId),
      ("RemoteSiteLogin",
        (job.progress.accountLogin.filter (!·.isEmpty)).or job.progress.remoteSiteLogin),
      ("resource_name", job.progress.resourceName)]

def userChange : Milestone :=
  flagged .modifyUser (·.userModified) (fun p => { p with userModified := some true }) fun _ => ∅

def personMerge : Milestone :=
  flagged .mergePerson (·.personMerged) (fun p => { p with personMerged := some true }) fun _ => ∅

def projectEnd : Milestone :=
  flagged .inactivateProject (·.projectInactivated)
    (fun p => { p with projectInactivated := some true }) fun _ => ∅

def projectReturn : Milestone :=
  flagged .reactivateProject (·.projectReactivated)
    (fun p => { p with projectReactivated := some true }) fun _ => ∅

def accountEnd : Milestone :=
  flagged .inactivateAccount (·.accountInactivated)
    (fun p => { p with accountInactivated := some true }) fun _ => ∅

def accountReturn : Milestone :=
  flagged .reactivateAccount (·.accountReactivated)
    (fun p => { p with accountReactivated := some true }) fun _ => ∅

end Milestone

end SiteBroker
