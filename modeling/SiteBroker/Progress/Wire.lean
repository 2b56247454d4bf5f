import SiteBroker.Json.Decode
import SiteBroker.Progress

/-! Setting what is known by name, from JSON. -/

namespace SiteBroker

namespace Progress

/-- A number from JSON. -/
def number? : Json → Option Double
  | .int i => some (Double.ofInt i)
  | .float x => some x
  | _ => none

/-- What is known after the part of some name was set to a value; null clears it. Other names are
ignored. -/
def set? (p : Progress) (name : String) (a : Json) : Option Progress :=
  let text := fun (f : Option String → Progress) => (Json.optional? Json.str? (some a)).map f
  let flag := fun (f : Option Bool → Progress) => (Json.optional? Json.bool? (some a)).map f
  match name with
  | "org_code" => text fun v => { p with orgCode := v }
  | "person_id" => text fun v => { p with personId := v }
  | "remote_site_login" => text fun v => { p with remoteSiteLogin := v }
  | "site_org" => text fun v => { p with siteOrg := v }
  | "person_active" => flag fun v => { p with personActive := v }
  | "local_fos" => text fun v => { p with localFos := v }
  | "site_grant_key" => text fun v => { p with siteGrantKey := v }
  | "project_name_base" => text fun v => { p with projectNameBase := v }
  | "project_id" => text fun v => { p with projectId := v }
  | "service_units_allocated" =>
    (Json.optional? number? (some a)).map fun v => { p with serviceUnitsAllocated := v }
  | "start_date" => text fun v => { p with startDate := v }
  | "end_date" => text fun v => { p with endDate := v }
  | "account_login" => text fun v => { p with accountLogin := v }
  | "account_activity_time" => text fun v => { p with accountActivityTime := v }
  | "resource_name" => text fun v => { p with resourceName := v }
  | "user_notified" => flag fun v => { p with userNotified := v }
  | "user_modified" => flag fun v => { p with userModified := v }
  | "person_merged" => flag fun v => { p with personMerged := v }
  | "project_inactivated" => flag fun v => { p with projectInactivated := v }
  | "project_reactivated" => flag fun v => { p with projectReactivated := v }
  | "account_inactivated" => flag fun v => { p with accountInactivated := v }
  | "account_reactivated" => flag fun v => { p with accountReactivated := v }
  | "transaction_cleared" => flag fun v => { p with transactionCleared := v }
  | _ => some p

/-- What is known after the parts named in an object were set. -/
def setAll? (p : Progress) : Json → Option Progress
  | .obj entries => entries.foldlM (fun p (name, a) => p.set? name a) p
  | _ => none

end Progress

end SiteBroker
