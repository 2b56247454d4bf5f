/-! The types of packets, and what the exchange lays down for each: the reply it may get and the
fields it must carry. -/

namespace SiteBroker

inductive PacketType where
  | requestAccountCreate
  | notifyAccountCreate
  | dataAccountCreate
  | requestProjectCreate
  | notifyProjectCreate
  | dataProjectCreate
  | requestAccountInactivate
  | notifyAccountInactivate
  | requestAccountReactivate
  | notifyAccountReactivate
  | requestProjectInactivate
  | notifyProjectInactivate
  | requestProjectReactivate
  | notifyProjectReactivate
  | requestUserModify
  | requestPersonMerge
  | informTransactionComplete
  | other (name : String)
  deriving DecidableEq

namespace PacketType

/-- The types the exchange names. -/
def named : List PacketType := [
  .requestAccountCreate, .notifyAccountCreate, .dataAccountCreate, .requestProjectCreate,
  .notifyProjectCreate, .dataProjectCreate, .requestAccountInactivate, .notifyAccountInactivate,
  .requestAccountReactivate, .notifyAccountReactivate, .requestProjectInactivate,
  .notifyProjectInactivate, .requestProjectReactivate, .notifyProjectReactivate,
  .requestUserModify, .requestPersonMerge, .informTransactionComplete]

def name : PacketType → String
  | requestAccountCreate => "request_account_create"
  | notifyAccountCreate => "notify_account_create"
  | dataAccountCreate => "data_account_create"
  | requestProjectCreate => "request_project_create"
  | notifyProjectCreate => "notify_project_create"
  | dataProjectCreate => "data_project_create"
  | requestAccountInactivate => "request_account_inactivate"
  | notifyAccountInactivate => "notify_account_inactivate"
  | requestAccountReactivate => "request_account_reactivate"
  | notifyAccountReactivate => "notify_account_reactivate"
  | requestProjectInactivate => "request_project_inactivate"
  | notifyProjectInactivate => "notify_project_inactivate"
  | requestProjectReactivate => "request_project_reactivate"
  | notifyProjectReactivate => "notify_project_reactivate"
  | requestUserModify => "request_user_modify"
  | requestPersonMerge => "request_person_merge"
  | informTransactionComplete => "inform_transaction_complete"
  | other name => name

/-- The named type of that name, or another type. -/
def ofName (name : String) : PacketType :=
  (named.find? (·.name == name)).getD (.other name)

/-- Whether packets of the type close their transaction. -/
def closes (t : PacketType) : Bool := t == .informTransactionComplete

/-- The types a reply to a packet of the type may have. -/
def expectedReplies : PacketType → List PacketType
  | requestAccountCreate => [notifyAccountCreate]
  | notifyAccountCreate => [dataAccountCreate]
  | requestProjectCreate => [notifyProjectCreate]
  | notifyProjectCreate => [dataProjectCreate]
  | requestAccountInactivate => [notifyAccountInactivate]
  | requestAccountReactivate => [notifyAccountReactivate]
  | requestProjectInactivate => [notifyProjectInactivate]
  | requestProjectReactivate => [notifyProjectReactivate]
  | dataAccountCreate | dataProjectCreate | notifyAccountInactivate | notifyAccountReactivate
  | notifyProjectInactivate | notifyProjectReactivate | requestUserModify
  | requestPersonMerge => [informTransactionComplete]
  | informTransactionComplete | other _ => []

/-- The fields the body of a packet of the type must carry. -/
def requiredFields : PacketType → List String
  | requestAccountCreate =>
    ["GrantNumber", "ResourceList", "UserFirstName", "UserLastName", "UserOrganization",
      "UserOrgCode"]
  | requestProjectCreate =>
    ["AllocationType", "GrantNumber", "PfosNumber", "PiFirstName", "PiLastName",
      "PiOrganization", "PiOrgCode", "ProjectTitle", "ResourceList", "ServiceUnitsAllocated",
      "StartDate", "EndDate"]
  | dataAccountCreate | dataProjectCreate => ["PersonID", "ProjectID"]
  | requestAccountInactivate | requestAccountReactivate => ["PersonID", "ProjectID", "ResourceList"]
  | requestProjectInactivate | requestProjectReactivate => ["ProjectID", "ResourceList"]
  | requestUserModify => ["ActionType", "PersonID"]
  | requestPersonMerge => ["KeepGlobalID", "KeepPersonID", "DeleteGlobalID", "DeletePersonID"]
  | informTransactionComplete => ["StatusCode", "DetailCode", "Message"]
  | _ => []

end PacketType

end SiteBroker
