import Mathlib.Data.List.Nodup
import SiteBroker.Workflow

/-! What milestones make of the progress: each brings the result of its own operation, and no more
than is said here of the results of others. -/

namespace SiteBroker

/-- The progress has the result of an operation. -/
def Progress.shows (p : Progress) : Operation → Bool
  | .chooseOrAddOrg => p.orgCode.isSome
  | .chooseOrAddPerson => p.personId.isSome
  | .activatePerson => p.personActive == some true
  | .updatePersonIdentifiers => false
  | .mergePerson => p.personMerged == some true
  | .chooseOrAddGrant => p.siteGrantKey.isSome
  | .chooseOrAddLocalFos => p.localFos.isSome
  | .chooseOrAddProjectNameBase => p.projectNameBase.isSome
  | .createProject => p.projectId.isSome
  | .inactivateProject => p.projectInactivated == some true
  | .reactivateProject => p.projectReactivated == some true
  | .createAccount => p.accountLogin.isSome
  | .inactivateAccount => p.accountInactivated == some true
  | .reactivateAccount => p.accountReactivated == some true
  | .updateAllocation => p.serviceUnitsAllocated.isSome
  | .modifyUser => p.userModified == some true
  | .notifyUser => p.userNotified == some true

/-- The other results that a task may bring along: a new project comes with its allocation, and an
account names its project. -/
def Operation.strays : Operation → List Operation
  | .createProject => [.updateAllocation]
  | .createAccount => [.createProject]
  | _ => []

/-- The name of the value that a lookup is for. -/
def LookupKind.value : LookupKind → String
  | org => "OrgCode"
  | person => "PersonID"
  | grant => "site_grant_key"
  | localFos => "areaOfInterest"
  | projectNameBase => "project_name_base"
  | projectTask => "ProjectID"

/-- An answer gives the value that was looked up. An organization that was found may leave its code
to the packet. -/
def Json.Supplies (found : Json) (kind : LookupKind) (job : Job) (role : Option Role) : Prop :=
  (found.foundText? kind.value).isSome = true ∨
    kind = .org ∧ ∃ r, role = some r ∧ (job.roleText? r "OrgCode").isSome = true

/-- A person is said to be active. -/
def ReportsActive (active : Option Json) : Prop := active.any Json.isTruthy = true

namespace Milestone

/-- The results in the progress that is made of an answer or a task are due to it, to the progress
before, or to what it says of the person. -/
structure Regular (m : Milestone) : Prop where
  isReached_eq : ∀ p, m.isReached p = p.shows m.operation
  supplies : ∀ {kind extra job found p}, m.lookup = some (kind, extra) →
    m.ofFound job found = .ok (some p) → found.Supplies kind job m.role
  ofFound : ∀ {kind extra job found p}, m.lookup = some (kind, extra) →
    m.ofFound job found = .ok (some p) → ∀ operation, p.shows operation = true →
    operation = m.operation ∨ job.progress.shows operation = true ∨
      operation = .activatePerson ∧ kind = .person ∧ ReportsActive (found.field? "active")
  ofTask : ∀ {job t p}, m.ofTask job t = .ok p → ∀ operation, p.shows operation = true →
    operation = m.operation ∨ operation ∈ m.operation.strays ∨
      job.progress.shows operation = true ∨
      operation = .activatePerson ∧ m.operation = .chooseOrAddPerson ∧
        ReportsActive (t.product? "active")

@[simp] theorem regular_orgCode (role : Role) : (orgCode role).Regular where
  isReached_eq _ := rfl
  supplies {kind extra job found p} hk h := by
    cases hk
    cases hf : found.foundText? "OrgCode" with
    | some code => exact .inl (by simp [LookupKind.value, hf])
    | none =>
      refine .inr ⟨rfl, role, rfl, ?_⟩
      cases hr : job.roleText? role "OrgCode" with
      | some code => rfl
      | none => simp [orgCode, hf, hr] at h
  ofFound {kind extra job found p} _ h operation hs := by
    simp only [orgCode] at h
    split at h <;> cases h
    cases operation <;> simp_all [Progress.shows, orgCode]
  ofTask {job t p} h operation hs := by
    simp only [orgCode] at h
    split at h <;> cases h
    cases operation <;> simp_all [Progress.shows, orgCode]

theorem shows_withPerson {p : Progress} {id : String} {login siteOrg : Option String}
    {active : Bool} {operation : Operation}
    (h : (withPerson p id login siteOrg active).shows operation = true) :
    operation = .chooseOrAddPerson ∨ p.shows operation = true ∨
      operation = .activatePerson ∧ active = true := by
  cases operation <;> simp_all [Progress.shows, withPerson]

@[simp] theorem regular_person (role : Role) : (person role).Regular where
  isReached_eq _ := rfl
  supplies {kind extra job found p} hk h := by
    cases hk
    cases hf : found.foundText? "PersonID" with
    | some id => exact .inl (by simp [LookupKind.value, hf])
    | none => simp [person, hf] at h
  ofFound {kind extra job found p} hk h operation hs := by
    cases hk
    simp only [person] at h
    split at h <;> cases h
    rcases shows_withPerson hs with h | h | ⟨h, ha⟩
    · exact .inl h
    · exact .inr (.inl h)
    · exact .inr (.inr ⟨h, rfl, ha⟩)
  ofTask {job t p} h operation hs := by
    simp only [person, needText] at h
    cases hp : t.productText? "PersonID" with
    | none => simp [hp, bind, Except.bind] at h
    | some id =>
      simp only [hp, bind, Except.bind, Except.ok.injEq] at h
      cases h
      rcases shows_withPerson hs with h | h | ⟨h, ha⟩
      · exact .inl h
      · exact .inr (.inr (.inl h))
      · exact .inr (.inr (.inr ⟨h, rfl, ha⟩))

@[simp] theorem regular_activePerson (role : Role) : (activePerson role).Regular where
  isReached_eq _ := rfl
  supplies hk := by cases hk
  ofFound hk := by cases hk
  ofTask {job t p} h operation hs := by
    cases h
    cases operation <;> simp_all [Progress.shows, activePerson]

theorem regular_of_text {m : Milestone} {kind : LookupKind} {extra : Job → Fields}
    {product : String} (set : Progress → String → Progress)
    (hreached : ∀ p, m.isReached p = p.shows m.operation) (hlookup : m.lookup = some (kind, extra))
    (hfound : ∀ job found,
      m.ofFound job found = .ok ((found.foundText? kind.value).map (set job.progress)))
    (htask : ∀ job t, m.ofTask job t = (needText t product).map (set job.progress))
    (hset : ∀ p s operation, (set p s).shows operation = true →
      operation = m.operation ∨ p.shows operation = true) : m.Regular where
  isReached_eq := hreached
  supplies {kind' extra' job found p} hk h := by
    rw [hlookup] at hk
    cases hk
    rw [hfound, Except.ok.injEq, Option.map_eq_some_iff] at h
    obtain ⟨s, hs, -⟩ := h
    exact .inl (by rw [hs]; rfl)
  ofFound {kind' extra' job found p} _ h operation hs := by
    rw [hfound, Except.ok.injEq, Option.map_eq_some_iff] at h
    obtain ⟨s, -, rfl⟩ := h
    rcases hset _ _ _ hs with h | h
    · exact .inl h
    · exact .inr (.inl h)
  ofTask {job t p} h operation hs := by
    rw [htask] at h
    cases hn : needText t product with
    | error e => simp [hn, Except.map] at h
    | ok s =>
      simp only [hn, Except.map, Except.ok.injEq] at h
      subst h
      rcases hset _ _ _ hs with h | h
      · exact .inl h
      · exact .inr (.inr (.inl h))

@[simp] theorem regular_localFos : localFos.Regular :=
  regular_of_text (fun p s => { p with localFos := some s }) (fun _ => rfl) rfl (fun _ _ => rfl)
    (fun _ t => by simp only [localFos]; cases needText t "areaOfInterest" <;> rfl)
    fun p s operation h => by cases operation <;> simp_all [Progress.shows, localFos]

@[simp] theorem regular_siteGrantKey : siteGrantKey.Regular :=
  regular_of_text (fun p s => { p with siteGrantKey := some s }) (fun _ => rfl) rfl (fun _ _ => rfl)
    (fun _ t => by simp only [siteGrantKey]; cases needText t "site_grant_key" <;> rfl)
    fun p s operation h => by cases operation <;> simp_all [Progress.shows, siteGrantKey]

@[simp] theorem regular_projectNameBase : projectNameBase.Regular :=
  regular_of_text (fun p s => { p with projectNameBase := some s }) (fun _ => rfl) rfl
    (fun _ _ => rfl)
    (fun _ t => by simp only [projectNameBase]; cases needText t "project_name_base" <;> rfl)
    fun p s operation h => by cases operation <;> simp_all [Progress.shows, projectNameBase]

@[simp] theorem regular_project : project.Regular where
  isReached_eq _ := rfl
  supplies hk := by cases hk
  ofFound hk := by cases hk
  ofTask {job t p} h operation hs := by
    simp only [project] at h
    cases hn : needText t "ProjectID" with
    | error e => simp [hn, bind, Except.bind] at h
    | ok id =>
      simp only [hn, bind, Except.bind, Except.ok.injEq] at h
      subst h
      cases operation <;> simp_all [Progress.shows, project, Operation.strays]

@[simp] theorem regular_account : account.Regular where
  isReached_eq _ := rfl
  supplies hk := by cases hk
  ofFound hk := by cases hk
  ofTask {job t p} h operation hs := by
    cases h
    cases operation <;> simp_all [Progress.shows, account, Operation.strays]

@[simp] theorem regular_allocation : allocation.Regular where
  isReached_eq _ := rfl
  supplies hk := by cases hk
  ofFound hk := by cases hk
  ofTask {job t p} h operation hs := by
    simp only [allocation] at h
    split at h <;> cases h
    cases operation <;> simp_all [Progress.shows, allocation]

theorem regular_flagged {operation : Operation} {flag : Progress → Option Bool}
    {raise : Progress → Progress} (extra : Job → Fields)
    (hreached : ∀ p, (flag p == some true) = p.shows operation)
    (hraise : ∀ p o, (raise p).shows o = true → o = operation ∨ p.shows o = true) :
    (flagged operation flag raise extra).Regular where
  isReached_eq := hreached
  supplies hk := by cases hk
  ofFound hk := by cases hk
  ofTask {job t p} h o hs := by
    cases h
    rcases hraise _ o hs with h | h
    · exact .inl h
    · exact .inr (.inr (.inl h))

@[simp] theorem regular_notice : notice.Regular :=
  regular_flagged _ (fun _ => rfl) fun p o h => by cases o <;> simp_all [Progress.shows]

@[simp] theorem regular_userChange : userChange.Regular :=
  regular_flagged _ (fun _ => rfl) fun p o h => by cases o <;> simp_all [Progress.shows]

@[simp] theorem regular_personMerge : personMerge.Regular :=
  regular_flagged _ (fun _ => rfl) fun p o h => by cases o <;> simp_all [Progress.shows]

@[simp] theorem regular_projectEnd : projectEnd.Regular :=
  regular_flagged _ (fun _ => rfl) fun p o h => by cases o <;> simp_all [Progress.shows]

@[simp] theorem regular_projectReturn : projectReturn.Regular :=
  regular_flagged _ (fun _ => rfl) fun p o h => by cases o <;> simp_all [Progress.shows]

@[simp] theorem regular_accountEnd : accountEnd.Regular :=
  regular_flagged _ (fun _ => rfl) fun p o h => by cases o <;> simp_all [Progress.shows]

@[simp] theorem regular_accountReturn : accountReturn.Regular :=
  regular_flagged _ (fun _ => rfl) fun p o h => by cases o <;> simp_all [Progress.shows]

end Milestone

def Step.milestone? : Step → Option Milestone
  | milestone m => some m
  | _ => none

def milestones (steps : List Step) : List Milestone := steps.filterMap Step.milestone?

def operations (steps : List Step) : List Operation := (milestones steps).map (·.operation)

theorem mem_milestones {steps : List Step} {m : Milestone} :
    m ∈ milestones steps ↔ .milestone m ∈ steps := by
  unfold milestones
  rw [List.mem_filterMap]
  constructor
  · rintro ⟨step, hs, hm⟩
    cases step <;> cases hm
    exact hs
  · exact fun hm => ⟨.milestone m, hm, rfl⟩

theorem mem_operations {steps : List Step} {m : Milestone} (hm : .milestone m ∈ steps) :
    m.operation ∈ operations steps := List.mem_map_of_mem (mem_milestones.mpr hm)

/-- Each result in the progress is brought by one of the steps, and by no other. -/
structure Coherent (steps : List Step) : Prop where
  regular : ∀ m, .milestone m ∈ steps → m.Regular
  nodup : (operations steps).Nodup
  apart : ∀ o ∈ operations steps, ∀ o' ∈ operations steps, o' ∉ o.strays
  adopts : ∀ {f job p o}, .adopt f ∈ steps → f job = .ok p → o ∈ operations steps →
    p.shows o = true → job.progress.shows o = true
  clears : .clear ∈ steps → ∀ step ∈ steps, step = .clear

theorem Coherent.alone {steps : List Step} (h : Coherent steps) {m m' : Milestone}
    (hm : .milestone m ∈ steps) (hm' : .milestone m' ∈ steps) (ho : m.operation = m'.operation) :
    m = m' :=
  List.inj_on_of_nodup_map h.nodup (mem_milestones.mpr hm) (mem_milestones.mpr hm') ho

theorem Coherent.of_operations {steps : List Step} (ops : List Operation)
    (ho : operations steps = ops) (hr : ∀ m, .milestone m ∈ steps → m.Regular) (hd : ops.Nodup)
    (ha : ∀ o ∈ ops, ∀ o' ∈ ops, o' ∉ o.strays) (hc : .clear ∉ steps)
    (hf : ∀ {f job p o}, .adopt f ∈ steps → f job = .ok p → o ∈ ops → p.shows o = true →
      job.progress.shows o = true) : Coherent steps where
  regular := hr
  nodup := ho ▸ hd
  apart := ho ▸ ha
  adopts h hp hm := hf h hp (ho ▸ hm)
  clears h := absurd h hc

theorem coherent_singleton {m : Milestone} (hm : m.Regular)
    (hs : m.operation ∉ m.operation.strays) : Coherent [.milestone m] where
  regular := by simpa using hm
  nodup := List.nodup_singleton _
  apart := by simpa [operations, milestones, Step.milestone?] using hs
  adopts h := by simp at h
  clears h := by simp at h

namespace Workflow

theorem shows_adoptIds {job : Job} {p : Progress} (h : adoptIds job = .ok p) {o : Operation}
    (hs : p.shows o = true) :
    o = .chooseOrAddPerson ∨ o = .createProject ∨ job.progress.shows o = true := by
  cases h
  cases o <;> simp_all [Progress.shows]

/-- Where no project is created, the project that is adopted brings no result of a step. -/
theorem shows_of_adoptProject {ops : List Operation} (hops : .createProject ∉ ops) {job : Job}
    {p : Progress} (h : adoptProject job = .ok p) {o : Operation} (ho : o ∈ ops)
    (hs : p.shows o = true) : job.progress.shows o = true := by
  unfold adoptProject at h
  split at h <;> cases h
  · exact hs
  · cases o <;> simp_all [Progress.shows]

theorem coherent_accountCreate (job : Job) : Coherent (accountCreate.steps job) :=
  .of_operations [.chooseOrAddOrg, .chooseOrAddPerson, .activatePerson, .createAccount, .notifyUser]
    rfl (by simp [accountCreate]) (by decide) (by decide)
    (by simp [accountCreate]) fun h => by simp [accountCreate] at h

theorem coherent_accountReactivate (job : Job) : Coherent (accountReactivate.steps job) :=
  .of_operations [.activatePerson, .notifyUser, .reactivateAccount]
    rfl (by simp [accountReactivate]) (by decide) (by decide)
    (by simp [accountReactivate]) fun {f _ _ o} h hp ho hs => by
      obtain rfl : f = adoptIds := by simpa [accountReactivate] using h
      rcases shows_adoptIds hp hs with rfl | rfl | hs
      · simp at ho
      · simp at ho
      · exact hs

def projectIntake : List Step :=
  [.findProject, .milestone (.orgCode .pi), .milestone (.person .pi),
    .milestone (.activePerson .pi)]

theorem coherent_newProject : Coherent (projectIntake ++ [.milestone .localFos] ++
    [.milestone .siteGrantKey, .milestone .projectNameBase, .milestone .project] ++
    [.milestone .notice]) :=
  .of_operations [.chooseOrAddOrg, .chooseOrAddPerson, .activatePerson, .chooseOrAddLocalFos,
      .chooseOrAddGrant, .chooseOrAddProjectNameBase, .createProject, .notifyUser]
    rfl (by simp [projectIntake]) (by decide) (by decide)
    (by simp [projectIntake]) fun h => by simp [projectIntake] at h

theorem coherent_renewal : Coherent (projectIntake ++ [.milestone .localFos] ++
    [.adopt adoptProject, .milestone .allocation] ++ [.milestone .notice]) :=
  .of_operations [.chooseOrAddOrg, .chooseOrAddPerson, .activatePerson, .chooseOrAddLocalFos,
      .updateAllocation, .notifyUser]
    rfl (by simp [projectIntake]) (by decide) (by decide)
    (by simp [projectIntake]) fun {f _ _ o} h hp ho hs => by
      obtain rfl : f = adoptProject := by simpa [projectIntake] using h
      exact shows_of_adoptProject (by decide) hp ho hs

theorem coherent_allocation : Coherent (projectIntake ++ [] ++
    [.adopt adoptProject, .milestone .allocation] ++ [.milestone .notice]) :=
  .of_operations [.chooseOrAddOrg, .chooseOrAddPerson, .activatePerson, .updateAllocation,
      .notifyUser]
    rfl (by simp [projectIntake]) (by decide) (by decide)
    (by simp [projectIntake]) fun {f _ _ o} h hp ho hs => by
      obtain rfl : f = adoptProject := by simpa [projectIntake] using h
      exact shows_of_adoptProject (by decide) hp ho hs

theorem coherent_projectCreate (job : Job) : Coherent (projectCreate.steps job) := by
  simp only [projectCreate, provision]
  by_cases hn : job.allocationType = "new"
  · rw [if_pos (.inl hn), if_pos hn]
    exact coherent_newProject
  · by_cases hr : job.allocationType = "renewal"
    · rw [if_pos (.inr hr), if_neg hn]
      exact coherent_renewal
    · rw [if_neg (not_or.mpr ⟨hn, hr⟩), if_neg hn]
      exact coherent_allocation

theorem coherent_conclude (job : Job) : Coherent (conclude.steps job) where
  regular := by simp [conclude]
  nodup := List.nodup_nil
  apart _ ho := by cases ho
  adopts h := by simp [conclude] at h
  clears := by simp [conclude]

variable {t : PacketType} {w : Workflow}

theorem coherent_steps (hw : ofType? t = some w) (job : Job) : Coherent (w.steps job) := by
  unfold ofType? at hw
  split at hw <;> cases hw
  · exact coherent_accountCreate job
  · exact coherent_projectCreate job
  · exact coherent_singleton Milestone.regular_accountEnd (by decide)
  · exact coherent_accountReactivate job
  · exact coherent_singleton Milestone.regular_projectEnd (by decide)
  · exact coherent_singleton Milestone.regular_projectReturn (by decide)
  · exact coherent_singleton Milestone.regular_userChange (by decide)
  · exact coherent_singleton Milestone.regular_personMerge (by decide)
  · exact coherent_conclude job
  · exact coherent_conclude job

theorem steps_congr (hw : ofType? t = some w) {job job' : Job} (hp : job'.packet = job.packet) :
    w.steps job' = w.steps job := by
  have ha : job'.allocationType = job.allocationType := by
    simp only [Job.allocationType, Job.fieldText?, Job.field?, Job.fields, hp]
  unfold ofType? at hw
  split at hw <;> cases hw <;> try rfl
  simp only [projectCreate, ha]

/-- Only a request for a project looks for one that was set up before. -/
theorem type_of_findProject (hw : ofType? t = some w) {job : Job} (h : .findProject ∈ w.steps job) :
    t = .requestProjectCreate := by
  unfold ofType? at hw
  split at hw <;> cases hw <;> first | rfl | simp [accountCreate, accountInactivate,
    accountReactivate, projectInactivate, projectReactivate, userModify, personMerge, conclude] at h

end Workflow

end SiteBroker
