import SiteBroker.Proofs.Demands

/-! Where the fields of later requests come from: what earlier steps found out is known when it is
needed, and is never an empty text. -/

namespace SiteBroker

open Program Desk

/-- A text that the work on a job finds out and that later requests are made from. -/
inductive Finding where
  | person
  | login
  | fos
  | grantKey
  | nameBase
  | project
  deriving DecidableEq

/-- A text is there and is not empty. -/
def HasText (text? : Option String) : Prop := ∃ text, text? = some text ∧ text ≠ ""

instance : DecidablePred HasText := fun text? =>
  match text? with
  | none => .isFalse fun ⟨_, h, _⟩ => by cases h
  | some text =>
    if h : text = "" then .isFalse fun ⟨_, ht, hne⟩ => hne (Option.some.inj ht ▸ h)
    else .isTrue ⟨text, rfl, h⟩

/-- What the answer to a lookup tells, beside what was looked up, that requests are made from. -/
def LookupKind.tells : LookupKind → List String
  | person => ["RemoteSiteLogin"]
  | projectTask => ["PiPersonID", "PiRemoteSiteLogin"]
  | org | grant | localFos | projectNameBase => []

/-- What a task tells that requests are made from. -/
def Operation.tells : Operation → List String
  | chooseOrAddPerson => ["PersonID", "RemoteSiteLogin"]
  | chooseOrAddGrant => ["site_grant_key"]
  | chooseOrAddLocalFos => ["areaOfInterest"]
  | chooseOrAddProjectNameBase => ["project_name_base"]
  | createProject => ["ProjectID", "PiRemoteSiteLogin"]
  | createAccount => ["ProjectID"]
  | _ => []

namespace Progress

variable {t : PacketType} {p q : Progress}

@[simp] def finding? (p : Progress) : Finding → Option String
  | .person => p.personId
  | .login => p.remoteSiteLogin
  | .fos => p.localFos
  | .grantKey => p.siteGrantKey
  | .nameBase => p.projectNameBase
  | .project => p.projectId

/-- One more text is found out. -/
def put (p : Progress) (f : Finding) (text : String) : Progress :=
  match f with
  | .person => { p with personId := some text }
  | .login => { p with remoteSiteLogin := some text }
  | .fos => { p with localFos := some text }
  | .grantKey => { p with siteGrantKey := some text }
  | .nameBase => { p with projectNameBase := some text }
  | .project => { p with projectId := some text }

theorem finding?_put (p : Progress) (f g : Finding) (text : String) :
    (p.put f text).finding? g = if g = f then some text else p.finding? g := by
  cases f <;> cases g <;> rfl

theorem accountLogin_put (p : Progress) (f : Finding) (text : String) :
    (p.put f text).accountLogin = p.accountLogin := by
  cases f <;> rfl

/-- What is known is fit to make requests from. A new person comes with a login, and an account with
a project. -/
structure Stocked (t : PacketType) (p : Progress) : Prop where
  filled : ∀ f, p.finding? f ≠ some ""
  login : t = .requestProjectCreate → p.personId.isSome = true → p.remoteSiteLogin.isSome = true
  account : p.accountLogin.isSome = true → p.projectId.isSome = true

theorem Stocked.hasText (h : p.Stocked t) {f : Finding} (hf : (p.finding? f).isSome = true) :
    HasText (p.finding? f) := by
  obtain ⟨text, ht⟩ := Option.isSome_iff_exists.mp hf
  exact ⟨text, ht, fun he => h.filled f (by rw [ht, he])⟩

/-- One progress has all findings of the other, and some more. -/
structure Finds (t : PacketType) (brings : List Finding) (p q : Progress) : Prop where
  stocked : q.Stocked t
  keeps : ∀ f, (p.finding? f).isSome = true → (q.finding? f).isSome = true
  brings : ∀ f ∈ brings, (q.finding? f).isSome = true

theorem Stocked.finds {brings : List Finding} (h : p.Stocked t)
    (hf : ∀ f, q.finding? f = p.finding? f ∨ HasText (q.finding? f))
    (hlogin : t = .requestProjectCreate → q.personId.isSome = true →
      q.remoteSiteLogin.isSome = true)
    (haccount : q.accountLogin.isSome = true → q.projectId.isSome = true)
    (hb : ∀ f ∈ brings, (q.finding? f).isSome = true) : p.Finds t brings q where
  stocked :=
    ⟨fun f he => by
      rcases hf f with hsame | ⟨text, ht, hne⟩
      · exact h.filled f (hsame ▸ he)
      · exact hne (Option.some.inj (ht.symm.trans he)), hlogin, haccount⟩
  keeps f hp := by
    rcases hf f with hsame | ⟨text, ht, -⟩
    · rw [hsame, hp]
    · rw [ht]
      rfl
  brings := hb

theorem Stocked.finds_of_same (h : p.Stocked t) (hf : ∀ f, q.finding? f = p.finding? f)
    (ha : q.accountLogin = p.accountLogin) : p.Finds t [] q := by
  have hperson : q.personId = p.personId := hf .person
  have hlogin : q.remoteSiteLogin = p.remoteSiteLogin := hf .login
  have hproject : q.projectId = p.projectId := hf .project
  refine h.finds (fun f => .inl (hf f)) ?_ ?_ (List.forall_mem_nil _)
  · rw [hperson, hlogin]
    exact h.login
  · rw [ha, hproject]
    exact h.account

/-- To find out who the person is takes more than an id. -/
theorem Stocked.finds_put (h : p.Stocked t) {f : Finding} (hf : f ≠ .person) {text : String}
    (hne : text ≠ "") : p.Finds t [f] (p.put f text) := by
  have hkeeps : ∀ g, (p.finding? g).isSome = true → ((p.put f text).finding? g).isSome = true := by
    intro g hg
    rw [finding?_put]
    split
    · rfl
    · exact hg
  have hperson : (p.put f text).personId = p.personId :=
    (finding?_put p f .person text).trans (if_neg hf.symm)
  refine h.finds (fun g => ?_) (fun ht hid => ?_) (fun ha => ?_)
    (List.forall_mem_singleton.mpr (by rw [finding?_put, if_pos rfl]; rfl))
  · rw [finding?_put]
    split
    · exact .inr ⟨text, rfl, hne⟩
    · exact .inl rfl
  · exact hkeeps .login (h.login ht (hperson ▸ hid))
  · exact hkeeps .project (h.account (accountLogin_put p f text ▸ ha))

end Progress

open Progress

/-- A milestone of a workflow for a packet: its requests lack nothing but what the packet excuses,
and it adds to what was found. -/
structure Milestone.Supplied (p : Packet) (m : Milestone) (needs brings : List Finding) :
    Prop extends m.Clean where
  unmet : ∀ {job names}, job.packet = p → job.progress.Stocked p.type →
    (∀ f ∈ needs, HasText (job.progress.finding? f)) → m.Unmet job names → p.Excuses names
  reached : ∀ {q}, q.Stocked p.type → m.isReached q = true →
    ∀ f ∈ brings, (q.finding? f).isSome = true
  found : ∀ {job found kind extra q}, job.progress.Stocked p.type → m.lookup = some (kind, extra) →
    (∀ name ∈ kind.tells, HasText (found.entryText? name)) → m.ofFound job found = .ok (some q) →
    job.progress.Finds p.type brings q
  done : ∀ {job u q}, job.progress.Stocked p.type →
    (∀ name ∈ m.operation.tells, HasText (u.productText? name)) → m.ofTask job u = .ok q →
    job.progress.Finds p.type brings q

namespace Milestone

variable {p : Packet}

/-- Requests that are made from what a packet tells of a person. -/
theorem excuses_of_unmet {job : Job} {names : List String} {role : Role} {m : Milestone}
    (hp : job.packet.Ready) (ht : job.packet.type = role.request) (hrole : m.role = some role)
    (hlookup : ∀ kind extra, m.lookup = some (kind, extra) → extra job = ∅ ∧ kind.table.Personal)
    (hextra : m.extra job = ∅) (htable : m.operation.table.Personal) (h : m.Unmet job names) :
    job.packet.Excuses names := by
  have hfields : job.requestFields (some role) ∅ = role.strip job.fields := Fields.overlay_empty _
  rcases h with ⟨kind, extra, hl, rfl⟩ | rfl
  · obtain ⟨he, hkind⟩ := hlookup kind extra hl
    rw [hrole, he, hfields]
    exact Job.excuses_person hp ht (fun _ _ => rfl) hkind
  · rw [hrole, hextra]
    refine Job.excuses_person hp ht (fun name hname => ?_) htable
    have hne : "person_role" ≠ name := by
      rintro rfl
      simp [Role.demands] at hname
    unfold Job.taskFields
    dsimp only
    rw [hfields]
    split
    · simp [Std.ExtTreeMap.getElem?_insert, hne]
    · rfl

theorem supplied_orgCode {role : Role} (hp : p.Ready) (ht : p.type = role.request) :
    (orgCode role).Supplied p [] [] where
  ofFound job found v h := by
    simp only [orgCode] at h
    split at h <;> cases h
  ofTask job t v h := by
    simp only [orgCode, lacking] at h
    split at h <;> cases h
  unmet {job names} hj _ _ h := by
    subst hj
    have horg : (Operation.table .chooseOrAddOrg).Personal := by decide
    refine excuses_of_unmet hp ht rfl (fun kind extra hl => ?_) rfl horg h
    cases hl
    exact ⟨rfl, by decide⟩
  reached _ _ := List.forall_mem_nil _
  found hs _ _ h := by
    simp only [orgCode] at h
    split at h <;> cases h
    exact hs.finds_of_same (fun f => by cases f <;> rfl) rfl
  done hs _ h := by
    simp only [orgCode] at h
    split at h <;> cases h
    exact hs.finds_of_same (fun f => by cases f <;> rfl) rfl

theorem finds_withPerson {t : PacketType} {q : Progress} (hs : q.Stocked t) {id : String}
    (hid : id ≠ "") {login : Option String} (hlogin : HasText login) (siteOrg : Option String)
    (active : Bool) : q.Finds t [.person] (withPerson q id login siteOrg active) := by
  obtain ⟨text, rfl, hne⟩ := hlogin
  refine hs.finds (fun f => ?_) (fun _ _ => rfl) hs.account (List.forall_mem_singleton.mpr rfl)
  cases f with
  | person => exact .inr ⟨id, rfl, hid⟩
  | login => exact .inr ⟨text, rfl, hne⟩
  | fos | grantKey | nameBase | project => exact .inl rfl

theorem foundText_ne_empty {name text : String} {found : Json}
    (h : found.foundText? name = some text) : text ≠ "" := by
  obtain ⟨-, hne⟩ := Option.filter_eq_some_iff.mp h
  simpa using hne

theorem exists_needText {u : TaskRecord} {product : String} (h : HasText (u.productText? product)) :
    ∃ text, needText u product = .ok text ∧ text ≠ "" := by
  obtain ⟨text, ht, hne⟩ := h
  exact ⟨text, by simp [needText, ht], hne⟩

theorem supplied_person {role : Role} (hp : p.Ready) (ht : p.type = role.request) :
    (person role).Supplied p [] [.person] where
  ofFound job found v h := by
    simp only [person] at h
    split at h <;> cases h
  ofTask job t v h := by
    simp only [person, needText, lacking] at h
    split at h <;> cases h
  unmet {job names} hj _ _ h := by
    subst hj
    have hperson : (Operation.table .chooseOrAddPerson).Personal := by decide
    refine excuses_of_unmet hp ht rfl (fun kind extra hl => ?_) rfl hperson h
    cases hl
    exact ⟨rfl, by decide⟩
  reached _ hr := List.forall_mem_singleton.mpr hr
  found hs hl htold h := by
    cases hl
    simp only [person] at h
    split at h <;> cases h
    next id hid =>
      exact finds_withPerson hs (foundText_ne_empty hid) (htold "RemoteSiteLogin" (by decide)) _ _
  done hs htold h := by
    obtain ⟨id, hid, hne⟩ := exists_needText (htold "PersonID" List.mem_cons_self)
    simp only [person, hid] at h
    cases h
    have hlogin := htold "RemoteSiteLogin" (by simp [person, Operation.tells])
    exact finds_withPerson hs hne hlogin _ _

theorem supplied_activePerson (role : Role) (p : Packet) :
    (activePerson role).Supplied p [.person] [] where
  ofFound job found v h := by cases h
  ofTask job t v h := by cases h
  unmet {job names} _ _ hneeds h := by
    obtain ⟨id, hid, hne⟩ := hneeds .person (by decide)
    have hid : job.progress.personId = some id := hid
    rcases h with ⟨kind, extra, hl, rfl⟩ | rfl
    · cases hl
    · refine .inl (FieldTable.unmet_eq_nil_iff.mpr (List.forall_mem_singleton.mpr ?_))
      show FieldRule.hasValue
        ((job.requestFields (some role) _).insert "person_role" _) "PersonID" = true
      rw [FieldRule.hasValue_congr (Std.ExtTreeMap.getElem?_insert.trans (if_neg (by decide)))]
      exact FieldRule.hasValue_overlay_of_upper
        (hasValue_textFields (by simp) (List.mem_singleton.mpr (by rw [hid]; rfl)) hne)
  reached _ _ := List.forall_mem_nil _
  found _ _ _ h := by cases h
  done hs _ h := by
    cases h
    exact hs.finds_of_same (fun f => by cases f <;> rfl) rfl

theorem excuses_of_unmet_eq_nil {job : Job} {names : List String} {m : Milestone}
    (hrole : m.role = none)
    (hlookup : ∀ kind extra, m.lookup = some (kind, extra) →
      kind.table.unmet (job.requestFields none (extra job)) = [])
    (htask : m.operation.table.unmet (job.requestFields none (m.extra job)) = [])
    (h : m.Unmet job names) : p.Excuses names := by
  rcases h with ⟨kind, extra, hl, rfl⟩ | rfl
  · rw [hrole]
    exact .inl (hlookup kind extra hl)
  · rw [hrole]
    exact .inl htask

/-- A milestone that is for one text, which is not who the person is. -/
theorem supplied_of_text {m : Milestone} {kind : LookupKind} {extra : Job → Fields}
    {product : String} {needs : List Finding} {f : Finding} (hperson : f ≠ .person)
    (hreached : ∀ q, m.isReached q = (q.finding? f).isSome)
    (hlookup : m.lookup = some (kind, extra))
    (hfound : ∀ job found,
      m.ofFound job found = .ok ((found.foundText? kind.value).map (job.progress.put f)))
    (htask : ∀ job u, m.ofTask job u = needText u product >>= fun s => .ok (job.progress.put f s))
    (htells : product ∈ m.operation.tells)
    (hunmet : ∀ {job : Job}, job.packet = p → (∀ f ∈ needs, HasText (job.progress.finding? f)) →
      kind.table.unmet (job.requestFields none (extra job)) = [] ∧
      m.operation.table.unmet (job.requestFields none (m.extra job)) = [])
    (hrole : m.role = none) : m.Supplied p needs [f] where
  ofFound job found v h := by
    rw [hfound] at h
    cases h
  ofTask job u v h := by
    rw [htask] at h
    unfold needText lacking at h
    split at h <;> cases h
  unmet {job names} hj _ hneeds h := by
    refine excuses_of_unmet_eq_nil hrole (fun kind' extra' hl => ?_) (hunmet hj hneeds).2 h
    cases hlookup.symm.trans hl
    exact (hunmet hj hneeds).1
  reached _ hr := List.forall_mem_singleton.mpr (by rwa [hreached] at hr)
  found hs _ _ h := by
    rw [hfound] at h
    obtain ⟨s, ht, rfl⟩ := Option.map_eq_some_iff.mp (Except.ok.inj h)
    exact hs.finds_put hperson (foundText_ne_empty ht)
  done hs htold h := by
    obtain ⟨s, hn, hne⟩ := exists_needText (htold product htells)
    rw [htask, hn] at h
    cases h
    exact hs.finds_put hperson hne

/-- A request that is made from what the work found out, and otherwise from the packet. -/
theorem unmet_textFields {job : Job} {table : FieldTable} {entries : List (String × Option String)}
    {known : List Finding} (hp : job.packet.Ready)
    (hknown : ∀ f ∈ known, HasText (job.progress.finding? f)) (hd : (entries.map (·.1)).Nodup)
    (given : List (String × Finding)) (carried : List String)
    (hgiven : ∀ e ∈ given, e.2 ∈ known ∧ (e.1, job.progress.finding? e.2) ∈ entries)
    (hcarried : ∀ name ∈ carried, job.packet.type.carries name = true ∧ name ∉ entries.map (·.1))
    (hrules : ∀ rule ∈ table.required, ∃ name ∈ rule.names,
      name ∈ given.map (·.1) ∨ name ∈ carried) :
    table.unmet (job.requestFields none (textFields entries)) = [] := by
  refine Job.unmet_eq_nil hp (given.map (·.1)) carried (fun name hname => ?_) (fun name hname => ?_)
    hrules
  · obtain ⟨e, he, rfl⟩ := List.mem_map.mp hname
    obtain ⟨hf, hm⟩ := hgiven e he
    obtain ⟨text, ht, hne⟩ := hknown e.2 hf
    exact hasValue_textFields hd (ht ▸ hm) hne
  · obtain ⟨hc, hno⟩ := hcarried name hname
    exact ⟨hc, getElem?_textFields_of_notMem hno⟩

theorem unmet_of_carried {job : Job} {table : FieldTable} (hp : job.packet.Ready)
    (h : ∀ rule ∈ table.required, ∃ name ∈ rule.names, job.packet.type.carries name = true) :
    table.unmet (job.requestFields none ∅) = [] := by
  refine FieldTable.unmet_eq_nil_iff.mpr fun rule hrule => ?_
  obtain ⟨name, hname, hc⟩ := h rule hrule
  refine FieldRule.isSatisfied_iff.mpr ⟨name, hname, ?_⟩
  exact FieldRule.hasValue_overlay_of_lower (by simp) (Job.hasValue_carried hp hc)

theorem supplied_localFos (hp : p.Ready) (ht : p.type = .requestProjectCreate) :
    localFos.Supplied p [] [.fos] := by
  refine supplied_of_text (by decide) (fun _ => rfl) rfl (fun _ _ => rfl) (fun _ _ => rfl)
    (by decide) (fun {job} hj _ => ?_) rfl
  subst hj
  exact ⟨unmet_of_carried hp (by rw [ht]; decide), unmet_of_carried hp (by rw [ht]; decide)⟩

theorem supplied_siteGrantKey (hp : p.Ready) (ht : p.type = .requestProjectCreate) :
    siteGrantKey.Supplied p [.person] [.grantKey] := by
  refine supplied_of_text (by decide) (fun _ => rfl) rfl (fun _ _ => rfl) (fun _ _ => rfl)
    (by decide) (fun {job} hj hneeds => ?_) rfl
  subst hj
  refine ⟨unmet_of_carried hp (by rw [ht]; decide), ?_⟩
  refine unmet_textFields hp hneeds (by simp) [("PiPersonID", .person)]
    ["GrantNumber", "PfosNumber", "PiFirstName", "PiLastName", "StartDate", "EndDate"]
    (by simp) ?_ (by decide)
  rw [ht]
  simp +decide

theorem supplied_projectNameBase (hp : p.Ready) (ht : p.type = .requestProjectCreate) :
    projectNameBase.Supplied p [.grantKey] [.nameBase] := by
  refine supplied_of_text (by decide) (fun _ => rfl) rfl (fun _ _ => rfl) (fun _ _ => rfl)
    (by decide) (fun {job} hj hneeds => ?_) rfl
  subst hj
  have hunmet : ∀ table : FieldTable, (∀ rule ∈ table.required, ∃ name ∈ rule.names,
      name ∈ ["site_grant_key"] ∨
        name ∈ ["GrantNumber", "PfosNumber", "PiOrganization", "PiOrgCode"]) →
      table.unmet (job.requestFields none (nameBaseFields job)) = [] := fun table hrules => by
    refine unmet_textFields hp hneeds (by simp) [("site_grant_key", .grantKey)] _ (by simp) ?_
      hrules
    rw [ht]
    simp +decide
  exact ⟨hunmet _ (by decide), hunmet _ (by decide)⟩

theorem supplied_project (hp : p.Ready) (ht : p.type = .requestProjectCreate) :
    project.Supplied p [.fos, .nameBase, .grantKey, .person] [.project] where
  ofFound job found v h := by cases h
  ofTask job u v h := by
    simp only [project, needText, lacking] at h
    split at h <;> cases h
  unmet {job names} hj hs hneeds h := by
    subst hj
    refine excuses_of_unmet_eq_nil rfl (by rintro _ _ ⟨⟩) ?_ h
    have hlogin : HasText (job.progress.finding? .login) := hs.hasText <| by
      obtain ⟨id, hid, -⟩ := hneeds .person (by decide)
      have hid : job.progress.personId = some id := hid
      exact hs.login ht (by rw [hid]; rfl)
    refine unmet_textFields hp (List.forall_mem_cons.mpr ⟨hlogin, hneeds⟩) (by simp)
      [("local_fos", .fos), ("project_name_base", .nameBase), ("site_grant_key", .grantKey),
        ("PiPersonID", .person), ("RemoteSiteLogin", .login)]
      ["EndDate", "GrantNumber", "PfosNumber", "Resource", "ServiceUnitsAllocated", "StartDate"]
      (by simp) ?_ (by decide)
    rw [ht]
    simp +decide
  reached _ hr := List.forall_mem_singleton.mpr hr
  found _ _ _ h := by cases h
  done {job u q} hs htold h := by
    obtain ⟨id, hid, hne⟩ := exists_needText (htold "ProjectID" (by decide))
    obtain ⟨login, hlogin, hlogin'⟩ := htold "PiRemoteSiteLogin" (by decide)
    simp only [project, hid, hlogin] at h
    cases h
    refine hs.finds (fun f => ?_) (fun _ _ => rfl) (fun _ => rfl)
      (List.forall_mem_singleton.mpr rfl)
    cases f with
    | project => exact .inr ⟨id, rfl, hne⟩
    | login => exact .inr ⟨login, rfl, hlogin'⟩
    | person | fos | grantKey | nameBase => exact .inl rfl

/-- An account is on the project that the packet names, or on that of a grant. -/
theorem excuses_account {job : Job} (hp : job.packet.Ready)
    (ht : job.packet.type = .requestAccountCreate) (hs : job.progress.Stocked job.packet.type)
    (hperson : ∀ f ∈ [Finding.person], HasText (job.progress.finding? f)) :
    job.packet.Excuses ((Operation.table .createAccount).unmet
      (job.requestFields none (account.extra job))) := by
  let fields := job.requestFields none (account.extra job)
  have hkeys : ([("PersonID", job.progress.personId),
      ("ProjectID", job.progress.projectId)].map (·.1)).Nodup := by simp
  have hid : FieldRule.hasValue fields "PersonID" = true := by
    obtain ⟨id, hid, hne⟩ := hperson .person (by decide)
    have hid : job.progress.personId = some id := hid
    exact FieldRule.hasValue_overlay_of_upper (hasValue_textFields hkeys (by simp [hid]) hne)
  have hresource : FieldRule.hasValue fields "Resource" = true :=
    FieldRule.hasValue_overlay_of_lower (getElem?_textFields_of_notMem (by simp))
      (Job.hasValue_carried hp (by rw [ht]; decide))
  have hkey : FieldRule.hasValue fields "site_grant_key" =
      FieldRule.hasValue job.packet.body "site_grant_key" := by
    refine (FieldRule.hasValue_congr ?_).trans (Job.hasValue_fields (by decide))
    have hnone : (account.extra job)["site_grant_key"]? = none :=
      getElem?_textFields_of_notMem (by simp)
    exact (Fields.getElem?_overlay _ _ _).trans (by rw [hnone, Option.none_or])
  have hproject : FieldRule.hasValue fields "ProjectID" = false →
      FieldRule.hasValue job.packet.body "ProjectID" = false := by
    intro hno
    -- What the progress says of the project overrides the packet, but is never an empty text.
    have hextra : (account.extra job)["ProjectID"]? = job.progress.projectId.map .str :=
      getElem?_textFields hkeys (by simp)
    cases hid : job.progress.projectId with
    | none =>
      refine (Job.hasValue_fields (by decide)).symm.trans (Eq.trans ?_ hno)
      refine (FieldRule.hasValue_congr ?_).symm
      exact (Fields.getElem?_overlay _ _ _).trans (by rw [hextra, hid]; rfl)
    | some id =>
      have hne : id ≠ "" := fun he => hs.filled .project (hid.trans (by rw [he]))
      refine absurd (FieldRule.hasValue_overlay_of_upper ?_) (Bool.eq_false_iff.mp hno)
      exact hasValue_textFields hkeys (by simp [hid]) hne
  have hunmet : (Operation.table .createAccount).unmet fields =
      if FieldRule.hasValue fields "ProjectID" || FieldRule.hasValue fields "site_grant_key" then []
      else ["ProjectID|site_grant_key"] := by
    have hall : (Operation.table .createAccount).required =
        [.anyOf ["ProjectID", "site_grant_key"], .one "PersonID", .one "Resource"] := rfl
    simp only [FieldTable.unmet, hall, List.filter, FieldRule.isSatisfied, List.any, hid, hresource,
      Bool.or_false]
    cases FieldRule.hasValue fields "ProjectID" || FieldRule.hasValue fields "site_grant_key" <;>
      rfl
  show job.packet.Excuses ((Operation.table .createAccount).unmet fields)
  rw [hunmet]
  split
  · exact .inl rfl
  · next hno =>
    obtain ⟨hnoProject, hnoKey⟩ := Bool.or_eq_false_iff.mp (Bool.eq_false_iff.mpr hno)
    exact .inr (.account ht (hproject hnoProject) (hkey ▸ hnoKey))

theorem supplied_account (hp : p.Ready) (ht : p.type = .requestAccountCreate) :
    account.Supplied p [.person] [.project] where
  ofFound job found v h := by cases h
  ofTask job u v h := by cases h
  unmet {job names} hj hs hneeds h := by
    subst hj
    rcases h with ⟨kind, extra, hl, rfl⟩ | rfl
    · cases hl
    · exact excuses_account hp ht hs hneeds
  reached hs hr := List.forall_mem_singleton.mpr (hs.account hr)
  found _ _ _ h := by cases h
  done {job u q} hs htold h := by
    obtain ⟨id, hid, hne⟩ := htold "ProjectID" (by decide)
    simp only [account, hid] at h
    cases h
    refine hs.finds (fun f => ?_) hs.login (fun _ => rfl) (List.forall_mem_singleton.mpr rfl)
    cases f with
    | project => exact .inr ⟨id, rfl, hne⟩
    | person | login | fos | grantKey | nameBase => exact .inl rfl

theorem supplied_allocation (hp : p.Ready) (ht : p.type = .requestProjectCreate) :
    allocation.Supplied p [.project] [] where
  ofFound job found v h := by cases h
  ofTask job u v h := by
    simp only [allocation, lacking] at h
    split at h <;> cases h
  unmet {job names} hj _ hneeds h := by
    subst hj
    refine excuses_of_unmet_eq_nil rfl (by rintro _ _ ⟨⟩) ?_ h
    refine unmet_textFields hp hneeds (by simp) [("ProjectID", .project)]
      ["AllocationType", "EndDate", "Resource", "ServiceUnitsAllocated", "StartDate"] (by simp) ?_
      (by decide)
    rw [ht]
    simp +decide
  reached _ _ := List.forall_mem_nil _
  found _ _ _ h := by cases h
  done hs _ h := by
    simp only [allocation] at h
    split at h <;> cases h
    exact hs.finds_of_same (fun f => by cases f <;> rfl) rfl

theorem supplied_flagged {operation : Operation} {flag : Progress → Option Bool}
    {raise : Progress → Progress} {extra : Job → Fields} {needs : List Finding}
    (hraise : ∀ q : Progress, (∀ f, (raise q).finding? f = q.finding? f) ∧
      (raise q).accountLogin = q.accountLogin)
    (hunmet : ∀ {job : Job}, job.packet = p → (∀ f ∈ needs, HasText (job.progress.finding? f)) →
      operation.table.unmet (job.requestFields none (extra job)) = []) :
    (flagged operation flag raise extra).Supplied p needs [] where
  ofFound job found v h := by cases h
  ofTask job u v h := by cases h
  unmet hj _ hneeds h := excuses_of_unmet_eq_nil rfl (by rintro _ _ ⟨⟩) (hunmet hj hneeds) h
  reached _ _ := List.forall_mem_nil _
  found _ _ _ h := by cases h
  done {job u q} hs _ h := by
    cases h
    obtain ⟨hf, ha⟩ := hraise job.progress
    exact hs.finds_of_same hf ha

theorem supplied_notice (hp : p.Ready) (hr : p.type.carries "Resource" = true) :
    notice.Supplied p [.person, .project] [] := by
  refine supplied_flagged (fun q => ⟨fun f => by cases f <;> rfl, rfl⟩) fun {job} hj hneeds => ?_
  subst hj
  exact unmet_textFields hp hneeds (by simp) [("project_id", .project), ("person_id", .person)]
    ["Resource"] (by simp) (by simpa using hr) (by decide)

/-- A task whose only result is that it was done, and that is asked for with the packet alone. -/
theorem supplied_of_carried {operation : Operation} {flag : Progress → Option Bool}
    {raise : Progress → Progress} (hp : p.Ready)
    (hraise : ∀ q : Progress, (∀ f, (raise q).finding? f = q.finding? f) ∧
      (raise q).accountLogin = q.accountLogin)
    (h : ∀ rule ∈ operation.table.required, ∃ name ∈ rule.names, p.type.carries name = true) :
    (flagged operation flag raise fun _ => ∅).Supplied p [] [] :=
  supplied_flagged hraise fun hj _ => by
    subst hj
    exact unmet_of_carried hp h

end Milestone

end SiteBroker
