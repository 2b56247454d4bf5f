import SiteBroker.FieldRule

/-! The work that the local service does as tasks, what it can be asked about, and the fields
that go with each. -/

namespace SiteBroker

/-- What is told of a person who may have to be added. -/
def personFields : List String :=
  ["AcademicDegree", "BusinessPhoneComment", "BusinessPhoneExtension", "BusinessPhoneNumber",
   "CitizenshipList", "City", "Country", "Department", "Email", "FirstName", "GlobalID",
   "HomePhoneComment", "HomePhoneExtension", "HomePhoneNumber", "LastName", "MiddleName",
   "Organization", "OrgCode", "SitePersonID", "State", "Title", "RemoteSiteLogin",
   "RequestedLoginList", "person_role"]

/-- What can be changed about a person. -/
def userModifyFields : List String :=
  ["ActionType", "AcademicDegree", "BusinessPhoneComment", "BusinessPhoneExtension",
   "BusinessPhoneNumber", "CitizenshipList", "City", "Country", "Department", "DnList", "Email",
   "FirstName", "HomePhoneComment", "HomePhoneExtension", "HomePhoneNumber", "LastName",
   "MiddleName", "NsfStatusCode", "Organization", "OrgCode", "PersonID", "State",
   "StreetAddress", "StreetAddress2", "Title", "Zip"]

/-- What the name of a project is derived from. -/
def projectNameBaseFields : List String :=
  ["BoardType", "ChargeNumber", "GrantNumber", "GrantType", "NsfStatusCode", "PfosNumber",
   "PiCity", "PiCountry", "PiPersonID", "PiOrganization", "PiOrgCode", "PiState", "ProjectID",
   "ProjectTitle", "site_org", "site_grant_key"]

/-- The kinds of tasks. -/
inductive Operation where
  | chooseOrAddOrg
  | chooseOrAddPerson
  | activatePerson
  | updatePersonIdentifiers
  | mergePerson
  | chooseOrAddGrant
  | chooseOrAddLocalFos
  | chooseOrAddProjectNameBase
  | createProject
  | inactivateProject
  | reactivateProject
  | createAccount
  | inactivateAccount
  | reactivateAccount
  | updateAllocation
  | modifyUser
  | notifyUser
  deriving DecidableEq

namespace Operation

def all : List Operation :=
  [chooseOrAddOrg, chooseOrAddPerson, activatePerson, updatePersonIdentifiers, mergePerson,
   chooseOrAddGrant, chooseOrAddLocalFos, chooseOrAddProjectNameBase, createProject,
   inactivateProject, reactivateProject, createAccount, inactivateAccount, reactivateAccount,
   updateAllocation, modifyUser, notifyUser]

def name : Operation → String
  | chooseOrAddOrg => "choose_or_add_org"
  | chooseOrAddPerson => "choose_or_add_person"
  | activatePerson => "activate_person"
  | updatePersonIdentifiers => "update_person_identifiers"
  | mergePerson => "merge_person"
  | chooseOrAddGrant => "choose_or_add_grant"
  | chooseOrAddLocalFos => "choose_or_add_local_fos"
  | chooseOrAddProjectNameBase => "choose_or_add_project_name_base"
  | createProject => "create_project"
  | inactivateProject => "inactivate_project"
  | reactivateProject => "reactivate_project"
  | createAccount => "create_account"
  | inactivateAccount => "inactivate_account"
  | reactivateAccount => "reactivate_account"
  | updateAllocation => "update_allocation"
  | modifyUser => "modify_user"
  | notifyUser => "notify_user"

def ofName? (name : String) : Option Operation := all.find? (·.name == name)

/-- The fields an operation accepts beside the keys of its task. -/
def allowed : Operation → List String
  | chooseOrAddOrg =>
    ["City", "Country", "Organization", "OrgCode", "State"]
  | chooseOrAddPerson => personFields
  | activatePerson =>
    ["Email", "FirstName", "GlobalID", "LastName", "MiddleName", "PersonID", "SitePersonID",
     "RemoteSiteLogin", "person_role"]
  | updatePersonIdentifiers =>
    ["PersonID", "GlobalID", "DnList"]
  | mergePerson =>
    ["KeepGlobalID", "DeleteGlobalID", "KeepPersonID", "DeletePersonID", "KeepPortalLogin",
     "DeletePortalLogin"]
  | chooseOrAddGrant =>
    ["GrantNumber", "GrantType", "PfosNumber", "local_fos", "PiPersonID", "PiFirstName",
     "PiLastName", "PiDepartment", "ProjectTitle", "StartDate", "EndDate"]
  | chooseOrAddLocalFos =>
    ["Abstract", "GrantNumber", "PfosNumber", "ProjectTitle", "PiDepartment"]
  | chooseOrAddProjectNameBase => projectNameBaseFields
  | createProject =>
    ["local_fos", "project_name_base", "site_grant_key", "site_org", "Abstract",
     "AllocatedResource", "BoardType", "ChargeNumber", "EndDate", "GrantNumber", "GrantType",
     "NsfStatusCode", "PfosNumber", "PiPersonID", "ProjectID", "ProjectTitle", "RecordID",
     "RemoteSiteLogin", "Resource", "RoleList", "ServiceUnitsAllocated", "Sfos", "StartDate"]
  | inactivateProject =>
    ["site_grant_key", "GrantNumber", "AllocatedResource", "Comment", "EndDate", "ProjectID",
     "Resource", "ServiceUnitsAllocated", "ServiceUnitsRemaining", "StartDate"]
  | reactivateProject =>
    ["GrantNumber", "AllocatedResource", "Comment", "EndDate", "PiPersonID", "ProjectID",
     "Resource", "ServiceUnitsAllocated", "ServiceUnitsRemaining", "StartDate"]
  | createAccount =>
    ["site_grant_key", "GrantNumber", "ProjectID", "PersonID", "Resource"]
  | inactivateAccount | reactivateAccount =>
    ["Comment", "PersonID", "ProjectID", "Resource"]
  | updateAllocation =>
    ["AllocationType", "EndDate", "ProjectID", "Resource", "ServiceUnitsAllocated", "StartDate"]
  | modifyUser => userModifyFields
  | notifyUser =>
    ["BusinessPhoneNumber", "contingent_resources", "Email", "PersonID", "person_id",
     "project_id", "ProjectID", "RemoteSiteLogin", "Resource", "ResourceList", "resource_name",
     "Username"]

/-- The fields an operation needs. -/
def required : Operation → List FieldRule
  | chooseOrAddOrg =>
    [.anyOf ["OrgCode", "Organization"]]
  | chooseOrAddPerson =>
    [.anyOf ["FirstName", "LastName"], .one "Organization"]
  | activatePerson | updatePersonIdentifiers =>
    [.one "PersonID"]
  | mergePerson =>
    [.one "KeepGlobalID", .one "DeleteGlobalID", .one "KeepPersonID", .one "DeletePersonID"]
  | chooseOrAddGrant =>
    [.one "GrantNumber", .one "PfosNumber", .one "PiPersonID", .one "PiFirstName",
     .one "PiLastName", .one "StartDate", .one "EndDate"]
  | chooseOrAddLocalFos =>
    [.one "PfosNumber"]
  | chooseOrAddProjectNameBase =>
    [.one "GrantNumber", .one "PfosNumber", .one "PiOrganization", .one "PiOrgCode",
     .one "site_grant_key"]
  | createProject =>
    [.one "local_fos", .one "project_name_base", .one "site_grant_key", .one "EndDate",
     .one "GrantNumber", .one "PfosNumber", .one "PiPersonID", .one "RemoteSiteLogin",
     .one "Resource", .one "ServiceUnitsAllocated", .one "StartDate"]
  | inactivateProject | reactivateProject =>
    [.one "ProjectID", .one "Resource"]
  | createAccount =>
    [.anyOf ["ProjectID", "site_grant_key"], .one "PersonID", .one "Resource"]
  | inactivateAccount | reactivateAccount =>
    [.one "PersonID", .one "ProjectID", .one "Resource"]
  | updateAllocation =>
    [.one "AllocationType", .one "EndDate", .one "ProjectID", .one "Resource",
     .one "ServiceUnitsAllocated", .one "StartDate"]
  | modifyUser =>
    [.one "ActionType", .one "PersonID"]
  | notifyUser =>
    [.anyOf ["project_id", "ProjectID"], .anyOf ["person_id", "RemoteSiteLogin"],
     .anyOf ["Resource", "ResourceList", "resource_name"]]

def table (o : Operation) : FieldTable := ⟨o.allowed, o.required⟩

end Operation

/-- What can be looked up without a task. -/
inductive LookupKind where
  | org
  | person
  | grant
  | localFos
  | projectNameBase
  | projectTask
  deriving DecidableEq

namespace LookupKind

def all : List LookupKind := [org, person, grant, localFos, projectNameBase, projectTask]

def name : LookupKind → String
  | org => "org"
  | person => "person"
  | grant => "grant"
  | localFos => "local_fos"
  | projectNameBase => "project_name_base"
  | projectTask => "project_task"

def ofName? (name : String) : Option LookupKind := all.find? (·.name == name)

/-- The fields a lookup accepts. -/
def allowed : LookupKind → List String
  | org =>
    ["OrgCode"]
  | person =>
    ["PersonID", "GlobalID"]
  | grant =>
    ["GrantNumber"]
  | localFos =>
    ["PfosNumber"]
  | projectNameBase => projectNameBaseFields
  | projectTask =>
    ["RecordID"]

/-- The fields a lookup needs. -/
def required : LookupKind → List FieldRule
  | org =>
    [.one "OrgCode"]
  | person => []
  | grant =>
    [.one "GrantNumber"]
  | localFos =>
    [.one "PfosNumber"]
  | projectNameBase =>
    [.one "GrantNumber", .one "PfosNumber", .one "PiOrganization",
     .anyOf ["PiOrgCode", "site_org"], .one "site_grant_key"]
  | projectTask =>
    [.one "RecordID"]

def table (k : LookupKind) : FieldTable := ⟨k.allowed, k.required⟩

end LookupKind

end SiteBroker
