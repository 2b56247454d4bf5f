import SiteBroker.Double
import SiteBroker.Fields

/-! What the steps of a workflow have found out or done for a packet so far. -/

namespace SiteBroker

structure Progress where
  orgCode : Option String := none
  personId : Option String := none
  remoteSiteLogin : Option String := none
  siteOrg : Option String := none
  personActive : Option Bool := none
  localFos : Option String := none
  siteGrantKey : Option String := none
  projectNameBase : Option String := none
  projectId : Option String := none
  serviceUnitsAllocated : Option Double := none
  startDate : Option String := none
  endDate : Option String := none
  accountLogin : Option String := none
  accountActivityTime : Option String := none
  resourceName : Option String := none
  userNotified : Option Bool := none
  userModified : Option Bool := none
  personMerged : Option Bool := none
  projectInactivated : Option Bool := none
  projectReactivated : Option Bool := none
  accountInactivated : Option Bool := none
  accountReactivated : Option Bool := none
  transactionCleared : Option Bool := none
  deriving DecidableEq

namespace Progress

/-- What is known, by name. -/
def fields (p : Progress) : Fields :=
  Fields.ofOptions [
    ("org_code", p.orgCode.map .str),
    ("person_id", p.personId.map .str),
    ("remote_site_login", p.remoteSiteLogin.map .str),
    ("site_org", p.siteOrg.map .str),
    ("person_active", p.personActive.map .bool),
    ("local_fos", p.localFos.map .str),
    ("site_grant_key", p.siteGrantKey.map .str),
    ("project_name_base", p.projectNameBase.map .str),
    ("project_id", p.projectId.map .str),
    ("service_units_allocated", p.serviceUnitsAllocated.map Json.ofDouble),
    ("start_date", p.startDate.map .str),
    ("end_date", p.endDate.map .str),
    ("account_login", p.accountLogin.map .str),
    ("account_activity_time", p.accountActivityTime.map .str),
    ("resource_name", p.resourceName.map .str),
    ("user_notified", p.userNotified.map .bool),
    ("user_modified", p.userModified.map .bool),
    ("person_merged", p.personMerged.map .bool),
    ("project_inactivated", p.projectInactivated.map .bool),
    ("project_reactivated", p.projectReactivated.map .bool),
    ("account_inactivated", p.accountInactivated.map .bool),
    ("account_reactivated", p.accountReactivated.map .bool),
    ("transaction_cleared", p.transactionCleared.map .bool)]

end Progress

end SiteBroker
